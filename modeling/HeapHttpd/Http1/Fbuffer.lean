import HeapHttpd.Library.Allocation
import HeapHttpd.Library.Replay
import Mathlib.Algebra.Group.Nat.Defs

/-!
# The buffer for large posts

`fbuffer`, which keeps what it is given in memory up to a threshold, and in a file from there
on.  Its lengths are of type `unsigned int`.  Memory is there when it is asked for, the file
takes what is written, and it can be mapped.
-/

namespace HeapHttpd

namespace Http1

open Replay (Throughout)

/-- `MAX_MEMORY_THRESHOLD`. -/
def maxMemoryThreshold : Nat := 1024 * 1024 * 2

/-- `MEMORY_BLOCK_SIZE`. -/
def memoryBlockSize : Nat := 1024 * 64

/-- The value of an `unsigned int`. -/
def unsignedInt (number : Nat) : Nat :=
  number % 2 ^ 32

/-- What `m_buf` points to: memory of its own, or the file as it was when it was mapped. -/
inductive BufPointer
  | null
  | memory (block : Allocation UInt8)
  | mapping (octets : List UInt8)

/-- Octets behind the pointer. -/
def BufPointer.read (offset count : Nat) : BufPointer → Outcome (List UInt8)
  | .null => if count = 0 then .ok [] else .fault
  | .memory block => block.read offset count
  | .mapping octets =>
      if offset + count ≤ octets.length then .ok ((octets.drop offset).take count) else .fault

/-- `fbuffer`, with what has been written to its file once it has one. -/
structure Fbuffer where
  tmpfd : Option (List UInt8)
  buf : BufPointer
  bufLen : Nat
  bufRealLen : Nat

/-- What `bufcat` can be given: its length is an `int`. -/
abbrev BufBlock : Type :=
  { octets : List UInt8 // octets.length < 2 ^ 31 }

/-- The loop that writes the memory to the file, a block at a time. -/
def spill (buf : BufPointer) (bufLen wlen : Nat) (file : List UInt8) : Outcome (List UInt8) :=
  let piece := if memoryBlockSize < bufLen - wlen then memoryBlockSize else bufLen - wlen
  buf.read wlen piece >>= fun written =>
    if bufLen ≤ wlen + piece then .ok (file ++ written)
    else spill buf bufLen (wlen + piece) (file ++ written)
termination_by bufLen - wlen
decreasing_by
  have positive : 0 < memoryBlockSize := by decide
  split at * <;> omega

namespace Fbuffer

/-- The constructor. -/
def new : Fbuffer :=
  { tmpfd := none, buf := .null, bufLen := 0, bufRealLen := 0 }

/-- How much memory is asked for at once. -/
def elen (data : List UInt8) : Nat :=
  if memoryBlockSize < data.length then data.length else memoryBlockSize

/-- The branch of `bufcat` that stays in memory. -/
def store (data : List UInt8) (buffer : Fbuffer) : Outcome Fbuffer :=
  match buffer.buf with
  | .null =>
      (Allocation.fresh (elen data + 1)).write 0 data >>= fun block =>
        .ok { buffer with buf := .memory block, bufRealLen := elen data }
  | .memory block =>
      if unsignedInt (buffer.bufLen + data.length) ≤ buffer.bufRealLen then
        block.write buffer.bufLen data >>= fun block => .ok { buffer with buf := .memory block }
      else
        block.read 0 buffer.bufLen >>= fun before =>
          (Allocation.fresh (unsignedInt (buffer.bufRealLen + elen data + 1))).write 0 before
            >>= fun tbuf =>
              tbuf.write buffer.bufLen data >>= fun tbuf =>
                .ok
                  { buffer with
                    buf := .memory tbuf
                    bufRealLen := unsignedInt (buffer.bufRealLen + elen data) }
  | .mapping _ => .fault

/-- `bufcat`. -/
def bufcat (data : List UInt8) (buffer : Fbuffer) : Outcome Fbuffer :=
  let bufLen := unsignedInt (buffer.bufLen + data.length)
  match buffer.tmpfd with
  | some file => .ok { buffer with tmpfd := some (file ++ data), bufLen }
  | none =>
      if bufLen ≤ maxMemoryThreshold then
        buffer.store data >>= fun stored => .ok { stored with bufLen }
      else
        spill buffer.buf buffer.bufLen 0 [] >>= fun file =>
          .ok { tmpfd := some (file ++ data), buf := .null, bufLen, bufRealLen := 0 }

/-- `c_buffer`, which returns the pointer it leaves. -/
def cBuffer (buffer : Fbuffer) : Fbuffer :=
  match buffer.tmpfd with
  | some file =>
      let bufLen := unsignedInt file.length
      { buffer with buf := .mapping (file.take bufLen), bufLen }
  | none => buffer

/-- `length`. -/
def length (buffer : Fbuffer) : Nat :=
  buffer.bufLen

/-- In memory, there is room for what is counted. -/
def Allocated (buffer : Fbuffer) : Prop :=
  buffer.tmpfd = none → buffer.bufLen ≤ buffer.bufRealLen ∧
    ∀ block, buffer.buf = .memory block → buffer.bufRealLen ≤ block.size

/-- How the buffer has what it was given. -/
inductive Holds (given : List UInt8) : Fbuffer → Prop
  | nothing (empty : given = []) : Holds given new
  | inMemory (block : Allocation UInt8) (realLen : Nat) (stored : block.stored = given)
      (size : block.size = realLen + 1) (within : given.length ≤ realLen)
      (bound : realLen ≤ 2 * maxMemoryThreshold) (few : given.length ≤ maxMemoryThreshold) :
      Holds given
        { tmpfd := none, buf := .memory block, bufLen := given.length, bufRealLen := realLen }
  | inFile (buf : BufPointer) (realLen : Nat) (few : given.length < 2 ^ 32) :
      Holds given { tmpfd := some given, buf, bufLen := given.length, bufRealLen := realLen }

end Fbuffer

/-! ## Runs -/

/-- A call. -/
inductive BufferCall
  | bufcat (block : BufBlock)
  | cBuffer

/-- The octets that a call is given. -/
def BufferCall.octets : BufferCall → List UInt8
  | .bufcat block => block.val
  | .cBuffer => []

/-- A buffer, with all that it was given. -/
structure Buffered where
  buffer : Fbuffer
  given : List UInt8

namespace Buffered

/-- A new buffer. -/
def new : Buffered :=
  { buffer := .new, given := [] }

def call (state : Buffered) : BufferCall → Outcome Fbuffer
  | .bufcat block => state.buffer.bufcat block.val
  | .cBuffer => .ok state.buffer.cBuffer

/-- The state behind a call. -/
def apply (state : Buffered) (call : BufferCall) : Buffered :=
  { buffer :=
      match state.call call with
      | .ok next => next
      | _ => state.buffer
    given := state.given ++ call.octets }

/-- Behind a call the length is that of all blocks together, what `c_buffer` points to is these
blocks, and in memory there is room for them. -/
def Faithful (state : Buffered) (call : BufferCall) : Prop :=
  ∃ next, state.call call = .ok next ∧
    next.length = (state.apply call).given.length ∧
    (call = .cBuffer → next.buf.read 0 next.length = .ok (state.apply call).given) ∧
    next.Allocated

/-- All blocks together can be counted. -/
def Countable (state : Buffered) (call : BufferCall) : Prop :=
  state.given.length + call.octets.length < 2 ^ 32

end Buffered

/-! ## One call -/

theorem unsignedInt_of_lt {number : Nat} (small : number < 2 ^ 32) :
    unsignedInt number = number :=
  Nat.mod_eq_of_lt small

/-- The octets behind a pointer. -/
def BufPointer.Points (buf : BufPointer) (stored : List UInt8) : Prop :=
  ∀ offset count, offset + count ≤ stored.length →
    buf.read offset count = .ok ((stored.drop offset).take count)

theorem points_null : BufPointer.null.Points [] := by
  intro offset count within
  have none : count = 0 := by
    rw [List.length_nil] at within
    omega
  rw [BufPointer.read, if_pos none, none, List.take_zero]

theorem points_memory (block : Allocation UInt8) :
    (BufPointer.memory block).Points block.stored :=
  fun _ _ within => Allocation.read_eq_ok within

theorem points_mapping (octets : List UInt8) : (BufPointer.mapping octets).Points octets :=
  fun _ _ within => if_pos within

theorem BufPointer.Points.all {buf : BufPointer} {stored : List UInt8}
    (points : buf.Points stored) : buf.read 0 stored.length = .ok stored := by
  rw [points 0 stored.length (Nat.le_of_eq (Nat.zero_add _)), List.drop_zero, List.take_length]

/-- The loop writes all that is left. -/
theorem spill_eq_ok {buf : BufPointer} {stored : List UInt8} (points : buf.Points stored)
    {wlen : Nat} (within : wlen ≤ stored.length) (file : List UInt8) :
    spill buf stored.length wlen file = .ok (file ++ stored.drop wlen) := by
  have positive : 0 < memoryBlockSize := by decide
  induction left : stored.length - wlen using Nat.strongRecOn generalizing wlen file with
  | ind left ih =>
      rw [spill]
      by_cases long : memoryBlockSize < stored.length - wlen
      · have goesOn : ¬stored.length ≤ wlen + memoryBlockSize := by omega
        rw [if_pos long, points wlen memoryBlockSize (by omega), Outcome.ok_bind, if_neg goesOn,
          ih _ (by omega) (by omega) _ rfl, List.append_assoc, ← List.drop_drop,
          List.take_append_drop]
      · have last : (stored.drop wlen).take (stored.length - wlen) = stored.drop wlen := by
          rw [← List.length_drop, List.take_length]
        rw [if_neg long, points wlen _ (by omega), Outcome.ok_bind, if_pos (by omega), last]

namespace Fbuffer

variable {given data : List UInt8} {buffer : Fbuffer}

theorem length_le_elen (data : List UInt8) : data.length ≤ elen data := by
  unfold elen
  split <;> omega

theorem elen_le (few : data.length ≤ maxMemoryThreshold) : elen data ≤ maxMemoryThreshold := by
  have block : memoryBlockSize ≤ maxMemoryThreshold := by decide
  unfold elen
  split
  · exact few
  · exact block

/-- The first block. -/
theorem store_nothing (data : List UInt8) :
    ∃ block : Allocation UInt8, block.stored = data ∧ block.size = elen data + 1 ∧
      new.store data =
        .ok { tmpfd := none, buf := .memory block, bufLen := 0, bufRealLen := elen data } := by
  obtain ⟨block, written, size, stored⟩ :=
    Allocation.write_fresh (Nat.le_succ_of_le (length_le_elen data))
  refine ⟨block, stored, size, ?_⟩
  rw [store, new]
  change (Allocation.fresh (elen data + 1)).write 0 data >>= _ = _
  rw [written]
  rfl

/-- Another block, in the memory there is or in more. -/
theorem store_memory {block : Allocation UInt8} {realLen : Nat} (stored : block.stored = given)
    (size : block.size = realLen + 1) (within : given.length ≤ realLen)
    (bound : realLen ≤ 2 * maxMemoryThreshold)
    (few : given.length + data.length ≤ maxMemoryThreshold) :
    ∃ (block' : Allocation UInt8) (realLen' : Nat),
      block'.stored = given ++ data ∧ block'.size = realLen' + 1 ∧
        given.length + data.length ≤ realLen' ∧ realLen' ≤ 2 * maxMemoryThreshold ∧
        store data
            { tmpfd := none, buf := .memory block, bufLen := given.length, bufRealLen := realLen } =
          .ok
            { tmpfd := none, buf := .memory block', bufLen := given.length
              bufRealLen := realLen' } := by
  subst stored
  have threshold : maxMemoryThreshold = 2097152 := rfl
  have counted : unsignedInt (block.stored.length + data.length) =
      block.stored.length + data.length := unsignedInt_of_lt (by omega)
  by_cases room : block.stored.length + data.length ≤ realLen
  · obtain ⟨next, written, size', stored'⟩ := Allocation.write_end
      (show block.stored.length + data.length ≤ block.size by omega)
    refine ⟨next, realLen, stored', size'.trans size, room, bound, ?_⟩
    simp only [store, counted, if_pos room, written, Outcome.ok_bind]
  · have enough := length_le_elen data
    have atMost := elen_le (show data.length ≤ maxMemoryThreshold by omega)
    have more : unsignedInt (realLen + elen data + 1) = realLen + elen data + 1 :=
      unsignedInt_of_lt (by omega)
    have more' : unsignedInt (realLen + elen data) = realLen + elen data :=
      unsignedInt_of_lt (by omega)
    obtain ⟨tbuf, copied, size', stored'⟩ := Allocation.write_fresh
      (show block.stored.length ≤ realLen + elen data + 1 by omega)
    have room' : tbuf.stored.length + data.length ≤ tbuf.size := by
      rw [stored', size']
      omega
    obtain ⟨next, written, size'', stored''⟩ := Allocation.write_end room'
    rw [stored'] at written stored''
    refine ⟨next, realLen + elen data, stored'', size''.trans size', by omega, by omega, ?_⟩
    simp only [store, counted, if_neg room, Allocation.read_all, more, more', copied, written,
      Outcome.ok_bind]

/-- What the memory can take is counted. -/
theorem bufcat_stores {buf buf' : BufPointer} {realLen realLen' : Nat}
    (few : given.length + data.length ≤ maxMemoryThreshold)
    (result : store data { tmpfd := none, buf, bufLen := given.length, bufRealLen := realLen } =
      .ok { tmpfd := none, buf := buf', bufLen := given.length, bufRealLen := realLen' }) :
    bufcat data { tmpfd := none, buf, bufLen := given.length, bufRealLen := realLen } =
      .ok
        { tmpfd := none, buf := buf', bufLen := (given ++ data).length
          bufRealLen := realLen' } := by
  have threshold : maxMemoryThreshold = 2097152 := rfl
  have counted : unsignedInt (given.length + data.length) = given.length + data.length :=
    unsignedInt_of_lt (by omega)
  simp only [bufcat, counted, if_pos few, result, Outcome.ok_bind, List.length_append]

/-- What is too much for the memory goes to the file. -/
theorem bufcat_spills {buf : BufPointer} {realLen : Nat} (points : buf.Points given)
    (countable : given.length + data.length < 2 ^ 32)
    (many : ¬given.length + data.length ≤ maxMemoryThreshold) :
    bufcat data { tmpfd := none, buf, bufLen := given.length, bufRealLen := realLen } =
      .ok
        { tmpfd := some (given ++ data), buf := .null, bufLen := (given ++ data).length
          bufRealLen := 0 } := by
  have written : spill buf given.length 0 [] = .ok given :=
    spill_eq_ok points (Nat.zero_le _) []
  simp only [bufcat, unsignedInt_of_lt countable, if_neg many, written, Outcome.ok_bind,
    List.length_append]

/-- What `bufcat` does to what the buffer has. -/
theorem Holds.bufcat (holds : Holds given buffer)
    (countable : given.length + data.length < 2 ^ 32) :
    ∃ next, buffer.bufcat data = .ok next ∧ Holds (given ++ data) next := by
  have counted : unsignedInt (given.length + data.length) = (given ++ data).length := by
    rw [unsignedInt_of_lt countable, List.length_append]
  have small : (given ++ data).length < 2 ^ 32 := by rwa [List.length_append]
  cases holds with
  | nothing empty =>
      subst empty
      by_cases few : ([] : List UInt8).length + data.length ≤ maxMemoryThreshold
      · obtain ⟨block, stored, size, result⟩ := store_nothing data
        have short : data.length ≤ maxMemoryThreshold := by
          rwa [List.length_nil, Nat.zero_add] at few
        have atMost := elen_le short
        refine ⟨_, ?_, .inMemory block (elen data) stored size (length_le_elen data) (by omega)
          short⟩
        exact bufcat_stores few result
      · exact ⟨_, bufcat_spills points_null countable few, .inFile _ _ small⟩
  | inMemory block realLen stored size within bound few =>
      by_cases few : given.length + data.length ≤ maxMemoryThreshold
      · obtain ⟨block', realLen', stored', size', within', bound', result⟩ :=
          store_memory stored size within bound few
        refine ⟨_, bufcat_stores few result, ?_⟩
        rw [← List.length_append] at within' few
        exact .inMemory block' realLen' stored' size' within' bound' few
      · subst stored
        exact ⟨_, bufcat_spills (points_memory block) countable few, .inFile _ _ small⟩
  | inFile buf realLen few =>
      refine ⟨_, ?_, .inFile buf realLen small⟩
      simp only [Fbuffer.bufcat, counted]

theorem Holds.cBuffer (holds : Holds given buffer) :
    Holds given buffer.cBuffer ∧ buffer.cBuffer.buf.Points given := by
  cases holds with
  | nothing empty =>
      subst empty
      exact ⟨.nothing rfl, points_null⟩
  | inMemory block realLen stored size within bound few =>
      refine ⟨.inMemory block realLen stored size within bound few, ?_⟩
      subst stored
      exact points_memory block
  | inFile buf realLen few =>
      have counted : unsignedInt given.length = given.length := unsignedInt_of_lt few
      simp only [Fbuffer.cBuffer, counted, List.take_length]
      exact ⟨.inFile _ _ few, points_mapping given⟩

theorem Holds.length (holds : Holds given buffer) : buffer.length = given.length := by
  cases holds with
  | nothing empty =>
      rw [empty]
      rfl
  | inMemory block realLen stored size within bound few => rfl
  | inFile buf realLen few => rfl

theorem Holds.allocated (holds : Holds given buffer) : buffer.Allocated := by
  cases holds with
  | nothing empty => exact fun _ => ⟨Nat.le_refl 0, nofun⟩
  | inMemory block realLen stored size within bound few =>
      refine fun _ => ⟨within, fun block' same => ?_⟩
      cases same
      rw [size]
      exact Nat.le_succ realLen
  | inFile buf realLen few => exact nofun

/-- The count is of type `unsigned int`. -/
theorem bufcat_length_lt {next : Fbuffer} (result : buffer.bufcat data = .ok next) :
    next.length < 2 ^ 32 := by
  have wraps : unsignedInt (buffer.bufLen + data.length) < 2 ^ 32 :=
    Nat.mod_lt _ (Nat.two_pow_pos 32)
  unfold Fbuffer.bufcat at result
  dsimp only at result
  split at result
  · cases result
    exact wraps
  · split at result
    · obtain ⟨stored, -, same⟩ := Outcome.bind_eq_ok.mp result
      cases same
      exact wraps
    · obtain ⟨file, -, same⟩ := Outcome.bind_eq_ok.mp result
      cases same
      exact wraps

end Fbuffer

/-! ## Runs of calls -/

namespace Buffered

open Fbuffer (Holds)

variable {state : Buffered}

/-- The buffer has what it was given, and can count it. -/
def Sound (state : Buffered) : Prop :=
  Holds state.given state.buffer ∧ state.given.length < 2 ^ 32

theorem sound_new : new.Sound :=
  ⟨.nothing rfl, Nat.two_pow_pos 32⟩

/-- For one call. -/
theorem faithful_iff_countable (sound : state.Sound) (call : BufferCall) :
    (state.Faithful call ↔ state.Countable call) ∧
      (state.Faithful call → (state.apply call).Sound) := by
  obtain ⟨holds, counted⟩ := sound
  unfold Sound
  cases call with
  | bufcat block =>
      by_cases countable : state.given.length + block.val.length < 2 ^ 32
      · obtain ⟨next, result, holds'⟩ := holds.bufcat countable
        have reached : (state.apply (.bufcat block)).buffer = next := by
          simp only [apply, Buffered.call, result]
        rw [reached]
        refine ⟨iff_of_true ⟨next, result, holds'.length, nofun, holds'.allocated⟩ countable,
          fun _ => ⟨holds', ?_⟩⟩
        rwa [apply, List.length_append]
      · have unfaithful : ¬state.Faithful (.bufcat block) := by
          rintro ⟨next, result, length, -⟩
          have wraps := Fbuffer.bufcat_length_lt result
          rw [length, apply, List.length_append] at wraps
          exact countable wraps
        exact ⟨iff_of_false unfaithful countable, fun faithful => absurd faithful unfaithful⟩
  | cBuffer =>
      obtain ⟨holds', points⟩ := holds.cBuffer
      have same : (state.apply .cBuffer).given = state.given := List.append_nil _
      have pointed := points.all
      rw [← holds'.length] at pointed
      have faithful : state.Faithful .cBuffer := by
        refine ⟨_, rfl, ?_, ?_, holds'.allocated⟩
        · rw [same, holds'.length]
        · intro _
          rw [same, pointed]
      rw [same]
      exact ⟨iff_of_true faithful counted, fun _ => ⟨holds', counted⟩⟩

end Buffered

end Http1

end HeapHttpd
