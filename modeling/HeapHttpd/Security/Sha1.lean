import HeapHttpd.Library.Allocation
import HeapHttpd.Library.Blocks
import Mathlib.Data.BitVec

/-!
# The SHA-1 digest

The functions over `SHA1Context`.  A message may come in pieces; once it has 2^64 bits the context
is spoilt, and once there is a digest nothing can be added.
-/

namespace HeapHttpd

namespace Security

open Blocks

namespace Sha1

/-! ## The context -/

/-- `Intermediate_Hash`. -/
structure Hash where
  a : BitVec 32
  b : BitVec 32
  c : BitVec 32
  d : BitVec 32
  e : BitVec 32
  deriving DecidableEq

/-- `SHA1Context`. -/
structure Context where
  intermediateHash : Hash
  lengthLow : BitVec 32
  lengthHigh : BitVec 32
  messageBlockIndex : Nat
  messageBlock : Allocation UInt8
  computed : Bool
  corrupted : Nat

def shaSuccess : Nat := 0

def shaStateError : Nat := 3

/-- The hash that `SHA1Reset` begins with. -/
def initialHash : Hash where
  a := 0x67452301
  b := 0xEFCDAB89
  c := 0x98BADCFE
  d := 0x10325476
  e := 0xC3D2E1F0

/-- `SHA1Reset`. -/
def reset : Context where
  intermediateHash := initialHash
  lengthLow := 0
  lengthHigh := 0
  messageBlockIndex := 0
  messageBlock := Allocation.fresh 64
  computed := false
  corrupted := 0

/-! ## Blocks -/

/-- `SHA1CircularShift`. -/
def circularShift (bits : Nat) (word : BitVec 32) : BitVec 32 :=
  word <<< bits ||| word >>> (32 - bits)

/-- A word of the block, the most significant octet first. -/
def blockWord (block : List UInt8) (t : Nat) : BitVec 32 :=
  BitVec.ofNat 32 (block.getD (t * 4) 0).toNat <<< 24 |||
    BitVec.ofNat 32 (block.getD (t * 4 + 1) 0).toNat <<< 16 |||
    BitVec.ofNat 32 (block.getD (t * 4 + 2) 0).toNat <<< 8 |||
    BitVec.ofNat 32 (block.getD (t * 4 + 3) 0).toNat

/-- The word sequence `W`. -/
def schedule (block : List UInt8) : List (BitVec 32) :=
  (List.range' 16 64).foldl
    (fun w t => w ++
      [circularShift 1 (w.getD (t - 3) 0 ^^^ w.getD (t - 8) 0 ^^^ w.getD (t - 14) 0 ^^^
        w.getD (t - 16) 0)])
    ((List.range 16).map (blockWord block))

/-- The rounds with one function and one constant. -/
def rounds (start : Nat) (f : BitVec 32 → BitVec 32 → BitVec 32 → BitVec 32) (k : BitVec 32)
    (w : List (BitVec 32)) (hash : Hash) : Hash :=
  (List.range' start 20).foldl
    (fun hash t =>
      let temp := circularShift 5 hash.a + f hash.b hash.c hash.d + hash.e + w.getD t 0 + k
      { a := temp, b := hash.a, c := circularShift 30 hash.b, d := hash.c, e := hash.d })
    hash

/-- What `SHA1ProcessMessageBlock` does to the hash. -/
def processMessageBlock (hash : Hash) (block : List UInt8) : Hash :=
  let w := schedule block
  let words := rounds 0 (fun b c d => b &&& c ||| ~~~b &&& d) 0x5A827999 w hash
  let words := rounds 20 (fun b c d => b ^^^ c ^^^ d) 0x6ED9EBA1 w words
  let words := rounds 40 (fun b c d => b &&& c ||| b &&& d ||| c &&& d) 0x8F1BBCDC w words
  let words := rounds 60 (fun b c d => b ^^^ c ^^^ d) 0xCA62C1D6 w words
  { a := hash.a + words.a, b := hash.b + words.b, c := hash.c + words.c, d := hash.d + words.d
    e := hash.e + words.e }

/-- `SHA1ProcessMessageBlock`. -/
def process (context : Context) : Outcome Context :=
  context.messageBlock.read 0 64 >>= fun block =>
    .ok { context with
      intermediateHash := processMessageBlock context.intermediateHash block
      messageBlockIndex := 0 }

/-! ## The functions -/

/-- One pass of the loop of `SHA1Input`. -/
def inputOctet (context : Context) (octet : UInt8) : Outcome Context :=
  context.messageBlock.write context.messageBlockIndex [octet] >>= fun messageBlock =>
    let lengthLow := context.lengthLow + 8
    let lengthHigh := if lengthLow = 0 then context.lengthHigh + 1 else context.lengthHigh
    let corrupted := if lengthLow = 0 ∧ lengthHigh = 0 then 1 else context.corrupted
    let context := { context with
      messageBlock, lengthLow, lengthHigh, corrupted
      messageBlockIndex := context.messageBlockIndex + 1 }
    if context.messageBlockIndex = 64 then process context else .ok context

/-- The loop of `SHA1Input`. -/
def inputLoop (context : Context) : List UInt8 → Outcome Context
  | [] => .ok context
  | octet :: message =>
      if context.corrupted ≠ 0 then .ok context
      else inputOctet context octet >>= fun context => inputLoop context message

/-- `SHA1Input`, given the length as an `unsigned`. -/
def input (context : Context) (messageArray : List UInt8) : Outcome (Nat × Context) :=
  let message := messageArray.take (messageArray.length % 2 ^ 32)
  if message = [] then .ok (shaSuccess, context)
  else if context.computed then .ok (shaStateError, { context with corrupted := shaStateError })
  else if context.corrupted ≠ 0 then .ok (context.corrupted, context)
  else inputLoop context message >>= fun context => .ok (shaSuccess, context)

/-- The octets of a word, the most significant one first. -/
def wordOctets (word : BitVec 32) : List UInt8 :=
  [UInt8.ofNat (word >>> 24).toNat, UInt8.ofNat (word >>> 16).toNat, UInt8.ofNat (word >>> 8).toNat,
    UInt8.ofNat word.toNat]

/-- `SHA1PadMessage`. -/
def padMessage (context : Context) : Outcome Context :=
  let index := context.messageBlockIndex
  let lengths := wordOctets context.lengthHigh ++ wordOctets context.lengthLow
  (if 55 < index then
    context.messageBlock.write index (0x80 :: List.replicate (63 - index) 0) >>= fun messageBlock =>
      process { context with messageBlock } >>= fun context =>
        context.messageBlock.write 0 (List.replicate 56 0) >>= fun messageBlock =>
          .ok { context with messageBlock }
  else
    context.messageBlock.write index (0x80 :: List.replicate (55 - index) 0) >>= fun messageBlock =>
      .ok { context with messageBlock }) >>= fun context =>
    context.messageBlock.write 56 lengths >>= fun messageBlock =>
      process { context with messageBlock }

/-- `SHA1Result`, with the digest if there is one. -/
def result (context : Context) : Outcome (Nat × Option (List UInt8) × Context) :=
  if context.corrupted ≠ 0 then .ok (context.corrupted, none, context)
  else
    (if context.computed then .ok context
    else
      padMessage context >>= fun context =>
        context.messageBlock.write 0 (List.replicate 64 0) >>= fun messageBlock =>
          .ok { context with messageBlock, lengthLow := 0, lengthHigh := 0, computed := true }) >>=
      fun context =>
        let hash := context.intermediateHash
        .ok (shaSuccess, some ([hash.a, hash.b, hash.c, hash.d, hash.e].flatMap wordOctets),
          context)

/-- A message in pieces; what `SHA1Input` returns is not looked at. -/
def inputs (context : Context) : List (List UInt8) → Outcome Context
  | [] => .ok context
  | piece :: pieces => input context piece >>= fun returned => inputs returned.2 pieces

/-! ## What the context holds -/

/-- A message absorbed from the first hash. -/
def absorbed (message : List UInt8) : Hash × List UInt8 :=
  absorb 64 processMessageBlock (initialHash, []) message

theorem absorbed_append (message more : List UInt8) :
    absorbed (message ++ more) = absorb 64 processMessageBlock (absorbed message) more :=
  absorb_append _ message more

theorem length_absorbed (message : List UInt8) :
    (absorbed message).2.length = message.length % 64 :=
  length_absorb (by omega) initialHash message

/-- What a context that is not spoilt holds of a message. -/
structure Holds (context : Context) (message : List UInt8) : Prop where
  hash : context.intermediateHash = (absorbed message).1
  index : context.messageBlockIndex = (absorbed message).2.length
  buffered : ∃ stale, context.messageBlock.stored = (absorbed message).2 ++ stale
  size : context.messageBlock.size = 64
  count : context.lengthLow.toNat + 2 ^ 32 * context.lengthHigh.toNat = 8 * message.length
  computed : context.computed = false
  corrupted : context.corrupted = 0

/-- A context that a message of 2^64 bits has spoilt. -/
structure Spoilt (context : Context) : Prop where
  computed : context.computed = false
  corrupted : context.corrupted = 1

theorem holds_reset : Holds reset [] where
  hash := rfl
  index := rfl
  buffered := ⟨[], rfl⟩
  size := rfl
  count := rfl
  computed := rfl
  corrupted := rfl

section Input

variable {context : Context} {message data : List UInt8}

/-- The bits are counted in two words. -/
theorem count_inputOctet {low high : BitVec 32} {length : Nat}
    (count : low.toNat + 2 ^ 32 * high.toNat = 8 * length) :
    (¬(low + 8 = 0 ∧ (if low + 8 = 0 then high + 1 else high) = 0) →
      (low + 8).toNat + 2 ^ 32 * (if low + 8 = 0 then high + 1 else high).toNat =
        8 * (length + 1)) ∧
    (low + 8 = 0 ∧ (if low + 8 = 0 then high + 1 else high) = 0 ↔ 2 ^ 61 ≤ length + 1) := by
  have boundLow := low.isLt
  have boundHigh := high.isLt
  have eight : (8 : BitVec 32).toNat = 8 := rfl
  have one : (1 : BitVec 32).toNat = 1 := rfl
  have zero : (0 : BitVec 32).toNat = 0 := rfl
  have isLow : low + 8 = 0 ↔ (low.toNat + 8) % 2 ^ 32 = 0 := by
    rw [← BitVec.toNat_inj, BitVec.toNat_add, eight, zero]
  have isHigh : high + 1 = 0 ↔ (high.toNat + 1) % 2 ^ 32 = 0 := by
    rw [← BitVec.toNat_inj, BitVec.toNat_add, one, zero]
  by_cases wraps : low + 8 = 0
  · rw [if_pos wraps]
    rw [isHigh, BitVec.toNat_add, BitVec.toNat_add, eight, one]
    rw [isLow] at wraps ⊢
    omega
  · rw [if_neg wraps, BitVec.toNat_add, eight]
    rw [isLow] at wraps ⊢
    omega

/-- An octet more, unless it makes 2^64 bits. -/
theorem holds_inputOctet (holds : Holds context message) (octet : UInt8) :
    ∃ context', inputOctet context octet = .ok context' ∧
      if message.length + 1 < 2 ^ 61 then Holds context' (message ++ [octet])
      else Spoilt context' := by
  obtain ⟨stale, buffered⟩ := holds.buffered
  obtain ⟨counts, ends⟩ := count_inputOctet holds.count
  have hash := holds.hash
  have isIndex := holds.index
  have size := holds.size
  have later := absorbed_append message [octet]
  rw [absorb_singleton, absorbItem] at later
  have small : (absorbed message).2.length < 64 := by
    rw [length_absorbed]
    exact Nat.mod_lt _ (by omega)
  generalize absorbed message = before at *
  have room : before.2.length + [octet].length ≤ context.messageBlock.size := by
    rw [size]
    exact small
  obtain ⟨messageBlock, written, size', stored⟩ := Allocation.write_behind buffered room
  have length : (message ++ [octet]).length = message.length + 1 := by
    rw [List.length_append, List.length_singleton]
  rw [inputOctet, isIndex, written, Outcome.ok_bind]
  by_cases full : before.2.length + 1 = 64
  · have read := Allocation.read_front stored
    rw [List.length_append, List.length_singleton, full] at read
    rw [if_pos full] at later
    simp only [if_pos full, process, read, Outcome.ok_bind]
    refine ⟨_, rfl, ?_⟩
    split
    · have notEnds : ¬2 ^ 61 ≤ message.length + 1 := by omega
      refine ⟨?_, ?_, ⟨messageBlock.stored, ?_⟩, size'.trans size, ?_, holds.computed, ?_⟩
      · rw [later]
        exact congrArg (processMessageBlock · _) hash
      · rw [later]
        rfl
      · rw [later]
        rfl
      · rw [length]
        exact counts (mt ends.mp notEnds)
      · exact (if_neg (mt ends.mp notEnds)).trans holds.corrupted
    · exact ⟨holds.computed, if_pos (ends.mpr (by omega))⟩
  · rw [if_neg full] at later
    simp only [if_neg full]
    refine ⟨_, rfl, ?_⟩
    split
    · have notEnds : ¬2 ^ 61 ≤ message.length + 1 := by omega
      refine ⟨?_, ?_, ⟨stale.drop 1, ?_⟩, size'.trans size, ?_, holds.computed, ?_⟩
      · rw [later]
        exact hash
      · rw [later, List.length_append]
        rfl
      · rw [later]
        exact stored
      · rw [length]
        exact counts (mt ends.mp notEnds)
      · exact (if_neg (mt ends.mp notEnds)).trans holds.corrupted
    · exact ⟨holds.computed, if_pos (ends.mpr (by omega))⟩

/-- What the context holds, or that it is spoilt. -/
def Tracks (context : Context) (message : List UInt8) : Prop :=
  if message.length < 2 ^ 61 then Holds context message else Spoilt context

theorem tracks_inputLoop (tracks : Tracks context message) (data : List UInt8) :
    ∃ context', inputLoop context data = .ok context' ∧ Tracks context' (message ++ data) := by
  induction data generalizing context message with
  | nil => exact ⟨context, rfl, by rwa [List.append_nil]⟩
  | cons octet data ih =>
      have length : (message ++ [octet]).length = message.length + 1 := by
        rw [List.length_append, List.length_singleton]
      by_cases short : message.length < 2 ^ 61
      · rw [Tracks, if_pos short] at tracks
        have goesOn : ¬context.corrupted ≠ 0 := not_not.mpr tracks.corrupted
        obtain ⟨next, taken, tracks'⟩ := holds_inputOctet tracks octet
        rw [← length] at tracks'
        obtain ⟨last, looped, tracks''⟩ := ih tracks'
        refine ⟨last, ?_, by rwa [List.append_assoc] at tracks''⟩
        rw [inputLoop, if_neg goesOn, taken]
        exact looped
      · have long : ¬(message ++ octet :: data).length < 2 ^ 61 := by
          rw [List.length_append]
          omega
        rw [Tracks, if_neg short] at tracks
        have stops : context.corrupted ≠ 0 := by
          rw [tracks.corrupted]
          exact Nat.one_ne_zero
        refine ⟨context, ?_, by rwa [Tracks, if_neg long]⟩
        rw [inputLoop, if_pos stops]

theorem tracks_input (tracks : Tracks context message) (short : data.length < 2 ^ 32) :
    ∃ code context', input context data = .ok (code, context') ∧
      Tracks context' (message ++ data) := by
  have whole : data.take (data.length % 2 ^ 32) = data := by
    rw [Nat.mod_eq_of_lt short, List.take_length]
  have computed : context.computed = false := by
    rw [Tracks] at tracks
    split at tracks
    · exact tracks.computed
    · exact tracks.computed
  have notComputed : ¬context.computed = true := by rw [computed]; exact Bool.false_ne_true
  rw [input]
  simp only [whole, if_neg notComputed]
  by_cases none' : data = []
  · rw [if_pos none', none', List.append_nil]
    exact ⟨_, _, rfl, tracks⟩
  · rw [if_neg none']
    obtain ⟨last, looped, tracks'⟩ := tracks_inputLoop tracks data
    by_cases spoilt : context.corrupted ≠ 0
    · rw [if_pos spoilt]
      have stays : inputLoop context data = .ok context := by
        cases data with
        | nil => exact absurd rfl none'
        | cons octet data => rw [inputLoop, if_pos spoilt]
      rw [stays] at looped
      cases looped
      exact ⟨_, _, rfl, tracks'⟩
    · rw [if_neg spoilt, looped]
      exact ⟨_, _, rfl, tracks'⟩

theorem tracks_inputs (tracks : Tracks context message) {pieces : List (List UInt8)}
    (short : ∀ piece ∈ pieces, piece.length < 2 ^ 32) :
    ∃ context', inputs context pieces = .ok context' ∧
      Tracks context' (message ++ pieces.flatten) := by
  induction pieces generalizing context message with
  | nil => exact ⟨context, rfl, by rwa [List.flatten_nil, List.append_nil]⟩
  | cons piece pieces ih =>
      obtain ⟨code, next, taken, tracks'⟩ := tracks_input tracks (short piece List.mem_cons_self)
      obtain ⟨last, looped, tracks''⟩ := ih tracks' fun other member =>
        short other (List.mem_cons_of_mem _ member)
      refine ⟨last, ?_, by rwa [List.append_assoc] at tracks''⟩
      rw [inputs, taken]
      exact looped

end Input

/-! ## The digest -/

/-- How a message is filled up: a bit, zeros, and the number of bits. -/
def filling (length : Nat) : List UInt8 :=
  0x80 :: List.replicate ((if 55 < length % 64 then 119 else 55) - length % 64) 0 ++
    (wordOctets (BitVec.ofNat 32 (8 * length / 2 ^ 32)) ++
      wordOctets (BitVec.ofNat 32 (8 * length)))

/-- The digest of a message as a whole. -/
def digest (message : List UInt8) : List UInt8 :=
  let hash := compressAll 64 processMessageBlock ((message.length + 8) / 64 + 1) initialHash
    (message ++ filling message.length)
  [hash.a, hash.b, hash.c, hash.d, hash.e].flatMap wordOctets

theorem length_filling (length : Nat) :
    length + (filling length).length = 64 * ((length + 8) / 64 + 1) := by
  have words (word : BitVec 32) : (wordOctets word).length = 4 := rfl
  rw [filling, List.length_append, List.length_cons, List.length_replicate, List.length_append,
    words,
    words]
  split
  · omega
  · omega

section Result

variable {context : Context} {message block front stale lengths : List UInt8}

theorem process_eq_ok (stored : context.messageBlock.stored = block ++ stale)
    (full : block.length = 64) :
    process context =
      .ok { context with
        intermediateHash := processMessageBlock context.intermediateHash block
        messageBlockIndex := 0 } := by
  have read := Allocation.read_front stored
  rw [full] at read
  rw [process, read, Outcome.ok_bind]

/-- The last block, whose last 8 octets are the length. -/
theorem processLast_eq_ok (stored : context.messageBlock.stored = front ++ stale)
    (isFront : front.length = 56) (isLengths : lengths.length = 8)
    (size : context.messageBlock.size = 64) :
    ∃ context', (context.messageBlock.write 56 lengths >>= fun messageBlock =>
        process { context with messageBlock }) = .ok context' ∧
      context'.intermediateHash = processMessageBlock context.intermediateHash (front ++ lengths) ∧
      context'.messageBlock.size = 64 ∧ context'.corrupted = context.corrupted := by
  obtain ⟨messageBlock, written, size', stored'⟩ :=
    Allocation.write_behind stored (by omega : front.length + lengths.length ≤ _)
  rw [isFront] at written
  have full : (front ++ lengths).length = 64 := by
    rw [List.length_append]
    omega
  have processed := @process_eq_ok { context with messageBlock } _ _ stored' full
  rw [written, Outcome.ok_bind, processed]
  exact ⟨_, rfl, rfl, size'.trans size, rfl⟩

/-- `SHA1PadMessage` takes in what fills up the message. -/
theorem padMessage_eq_ok (holds : Holds context message) :
    ∃ context', padMessage context = .ok context' ∧
      context'.intermediateHash = (absorbed (message ++ filling message.length)).1 ∧
      context'.messageBlock.size = 64 ∧ context'.corrupted = 0 := by
  obtain ⟨stale, buffered⟩ := holds.buffered
  have count := holds.count
  have boundLow := context.lengthLow.isLt
  have boundHigh := context.lengthHigh.isLt
  have hash := holds.hash
  have index := length_absorbed message
  have later := absorbed_append message (filling message.length)
  have low : BitVec.ofNat 32 (8 * message.length) = context.lengthLow := by
    apply BitVec.eq_of_toNat_eq
    rw [BitVec.toNat_ofNat]
    omega
  have high : BitVec.ofNat 32 (8 * message.length / 2 ^ 32) = context.lengthHigh := by
    apply BitVec.eq_of_toNat_eq
    rw [BitVec.toNat_ofNat]
    omega
  have isFilling := filling.eq_1 message.length
  rw [low, high, ← index] at isFilling
  have isLengths : (wordOctets context.lengthHigh ++ wordOctets context.lengthLow).length = 8 := rfl
  have small : (absorbed message).2.length < 64 := by
    rw [index]
    exact Nat.mod_lt _ (by omega)
  have size := holds.size
  rw [padMessage, holds.index]
  generalize wordOctets context.lengthHigh ++ wordOctets context.lengthLow = lengths at *
  generalize absorbed message = before at *
  by_cases behind : 55 < before.2.length
  · rw [if_pos behind] at isFilling
    generalize isFirst : (0x80 :: List.replicate (63 - before.2.length) 0 : List UInt8) = first
    have length : before.2.length + first.length = 64 := by
      rw [← isFirst, List.length_cons, List.length_replicate]
      omega
    have some' : first ≠ [] := by
      rw [← isFirst]
      exact List.cons_ne_nil _ _
    have whole : (0x80 :: List.replicate (119 - before.2.length) 0 ++ lengths : List UInt8) =
        first ++ (List.replicate 56 0 ++ lengths) := by
      have zeros : 119 - before.2.length = 63 - before.2.length + 56 := by omega
      rw [← isFirst, zeros, List.replicate_add, List.cons_append, List.cons_append,
        List.append_assoc]
    obtain ⟨messageBlock, written, size', stored⟩ :=
      Allocation.write_behind buffered (by omega : before.2.length + first.length ≤ _)
    have full : (before.2 ++ first).length = 64 := by rw [List.length_append, length]
    have processed := @process_eq_ok
      { context with messageBlock, messageBlockIndex := before.2.length } _ _ stored full
    obtain ⟨messageBlock', written', size'', stored'⟩ :=
      Allocation.write_behind (List.nil_append messageBlock.stored).symm
        (by rw [List.length_nil, List.length_replicate]; omega :
          ([] : List UInt8).length + (List.replicate 56 (0 : UInt8)).length ≤ _)
    rw [List.nil_append] at stored'
    obtain ⟨last, finished, hash', size''', corrupted⟩ := @processLast_eq_ok
      { context with
        intermediateHash := processMessageBlock context.intermediateHash (before.2 ++ first)
        messageBlockIndex := 0, messageBlock := messageBlock' } _ _ _ stored'
      List.length_replicate isLengths (size''.trans (size'.trans size))
    refine ⟨last, ?_, ?_, size''', corrupted.trans holds.corrupted⟩
    · rw [if_pos behind, written, Outcome.ok_bind, processed, Outcome.ok_bind]
      refine (congrArg (· >>= _) (congrArg (· >>= _) written')).trans ?_
      exact finished
    · have filled : absorb 64 processMessageBlock (before.1, before.2) first = _ :=
        absorb_full length some'
      rw [hash', later, isFilling, whole, absorb_append, filled, absorb_full, hash]
      · rfl
      · rw [List.length_nil, List.length_append, List.length_replicate, isLengths]
      · exact List.append_ne_nil_of_left_ne_nil (List.cons_ne_nil _ _) _
  · rw [if_neg behind] at isFilling
    generalize isFirst : (0x80 :: List.replicate (55 - before.2.length) 0 : List UInt8) = first at *
    have length : before.2.length + first.length = 56 := by
      rw [← isFirst, List.length_cons, List.length_replicate]
      omega
    obtain ⟨messageBlock, written, size', stored⟩ :=
      Allocation.write_behind buffered (by omega : before.2.length + first.length ≤ _)
    obtain ⟨last, finished, hash', size'', corrupted⟩ := @processLast_eq_ok
      { context with messageBlock } _ _ _ stored (by rw [List.length_append, length]) isLengths
      (size'.trans size)
    refine ⟨last, ?_, ?_, size'', corrupted.trans holds.corrupted⟩
    · rw [if_neg behind, written]
      exact finished
    · have filled : absorb 64 processMessageBlock (before.1, before.2) (first ++ lengths) = _ :=
        absorb_full (by rw [List.length_append]; omega)
          (List.append_ne_nil_of_left_ne_nil (by rw [← isFirst]; exact List.cons_ne_nil _ _) _)
      rw [hash', later, isFilling, filled, hash, List.append_assoc]

/-- `SHA1Result` gives the digest, unless the message has spoilt the context. -/
theorem result_eq_ok (tracks : Tracks context message) :
    ∃ context', result context =
      .ok (if message.length < 2 ^ 61 then (shaSuccess, some (digest message), context')
        else (1, none, context')) := by
  rw [Tracks] at tracks
  by_cases short : message.length < 2 ^ 61
  · rw [if_pos short] at tracks
    obtain ⟨padded, made, hash, size, corrupted⟩ := padMessage_eq_ok tracks
    have notSpoilt : ¬context.corrupted ≠ 0 := not_not.mpr tracks.corrupted
    have notComputed : ¬context.computed = true := by
      rw [tracks.computed]
      exact Bool.false_ne_true
    obtain ⟨messageBlock, written, -, -⟩ := Allocation.write_behind
      (List.nil_append padded.messageBlock.stored).symm
      (by rw [List.length_nil, List.length_replicate]; omega :
        ([] : List UInt8).length + (List.replicate 64 (0 : UInt8)).length ≤ _)
    have blocks : absorb 64 processMessageBlock (initialHash, [])
        (message ++ filling message.length) = _ :=
      absorb_whole (by omega) ((List.length_append ..).trans (length_filling message.length))
    have isHash : padded.intermediateHash = compressAll 64 processMessageBlock
        ((message.length + 8) / 64 + 1) initialHash (message ++ filling message.length) := by
      rw [hash, absorbed, blocks]
    simp only [if_pos short]
    rw [result, if_neg notSpoilt, if_neg notComputed, made, Outcome.ok_bind]
    rw [List.length_nil] at written
    rw [written, Outcome.ok_bind, Outcome.ok_bind, digest, ← isHash]
    exact ⟨_, rfl⟩
  · rw [if_neg short] at tracks
    have spoilt : context.corrupted ≠ 0 := by
      rw [tracks.corrupted]
      exact Nat.one_ne_zero
    simp only [if_neg short]
    rw [result, if_pos spoilt, tracks.corrupted]
    exact ⟨_, rfl⟩

end Result

/-- The digest of a message is the same in however many pieces it comes; a message of 2^64 bits or
more has none. -/
theorem result_inputs (pieces : List (List UInt8))
    (short : ∀ piece ∈ pieces, piece.length < 2 ^ 32) :
    ∃ context', (inputs reset pieces >>= result) =
      .ok (if pieces.flatten.length < 2 ^ 61 then
          (shaSuccess, some (digest pieces.flatten), context')
        else (1, none, context')) := by
  have fresh : Tracks reset [] := holds_reset
  obtain ⟨context, taken, tracks⟩ := tracks_inputs fresh short
  rw [taken]
  exact result_eq_ok tracks

theorem result_inputs_abc :
    ∃ context', (inputs reset [[0x61], [0x62, 0x63]] >>= result) =
      .ok (if [[0x61], [0x62, 0x63]].flatten.length < 2 ^ 61 then
          (shaSuccess, some (digest [[0x61], [0x62, 0x63]].flatten), context')
        else (1, none, context')) :=
  result_inputs [[0x61], [0x62, 0x63]] (by decide)

example : digest [0x61, 0x62, 0x63] =
    [0xa9, 0x99, 0x3e, 0x36, 0x47, 0x06, 0x81, 0x6a, 0xba, 0x3e, 0x25, 0x71, 0x78, 0x50, 0xc2, 0x6c,
      0x9c, 0xd0, 0xd8, 0x9d] := by
  decide +kernel

end Sha1

end Security

end HeapHttpd
