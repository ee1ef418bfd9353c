import HeapHttpd.Library.Allocation
import HeapHttpd.Library.Blocks
import HeapHttpd.Security.Des

/-!
# The MD5 digest

The class `MD5_CTX_OBJ`, which takes a message in pieces, and what its digest is: that of the whole
message with its padding, in however many pieces it came.
-/

namespace HeapHttpd

namespace Security

open Blocks

namespace Md5

/-! ## The transformation -/

def f (x y z : BitVec 32) : BitVec 32 :=
  x &&& y ||| ~~~x &&& z

def g (x y z : BitVec 32) : BitVec 32 :=
  x &&& z ||| y &&& ~~~z

def h (x y z : BitVec 32) : BitVec 32 :=
  x ^^^ y ^^^ z

def i (x y z : BitVec 32) : BitVec 32 :=
  y ^^^ (x ||| ~~~z)

/-- `ROTATE_LEFT`. -/
def rotateLeft (x : BitVec 32) (n : Nat) : BitVec 32 :=
  x <<< n ||| x >>> (32 - n)

def ff (a b c d x : BitVec 32) (s : Nat) (ac : BitVec 32) : BitVec 32 :=
  rotateLeft (a + (f b c d + x + ac)) s + b

def gg (a b c d x : BitVec 32) (s : Nat) (ac : BitVec 32) : BitVec 32 :=
  rotateLeft (a + (g b c d + x + ac)) s + b

def hh (a b c d x : BitVec 32) (s : Nat) (ac : BitVec 32) : BitVec 32 :=
  rotateLeft (a + (h b c d + x + ac)) s + b

def ii (a b c d x : BitVec 32) (s : Nat) (ac : BitVec 32) : BitVec 32 :=
  rotateLeft (a + (i b c d + x + ac)) s + b

/-- The words `state`. -/
structure State where
  a : BitVec 32
  b : BitVec 32
  c : BitVec 32
  d : BitVec 32
  deriving DecidableEq

/-- `MD5Transform`. -/
def transform (state : State) (block : List UInt8) : State :=
  -- `Decode` reads words in the order of the octets of a little-endian machine
  let x (k : Nat) : BitVec 32 := wordOf (block.drop (4 * k))
  let a := state.a
  let b := state.b
  let c := state.c
  let d := state.d
  -- round 1
  let a := ff a b c d (x 0) 7 0xd76aa478
  let d := ff d a b c (x 1) 12 0xe8c7b756
  let c := ff c d a b (x 2) 17 0x242070db
  let b := ff b c d a (x 3) 22 0xc1bdceee
  let a := ff a b c d (x 4) 7 0xf57c0faf
  let d := ff d a b c (x 5) 12 0x4787c62a
  let c := ff c d a b (x 6) 17 0xa8304613
  let b := ff b c d a (x 7) 22 0xfd469501
  let a := ff a b c d (x 8) 7 0x698098d8
  let d := ff d a b c (x 9) 12 0x8b44f7af
  let c := ff c d a b (x 10) 17 0xffff5bb1
  let b := ff b c d a (x 11) 22 0x895cd7be
  let a := ff a b c d (x 12) 7 0x6b901122
  let d := ff d a b c (x 13) 12 0xfd987193
  let c := ff c d a b (x 14) 17 0xa679438e
  let b := ff b c d a (x 15) 22 0x49b40821
  -- round 2
  let a := gg a b c d (x 1) 5 0xf61e2562
  let d := gg d a b c (x 6) 9 0xc040b340
  let c := gg c d a b (x 11) 14 0x265e5a51
  let b := gg b c d a (x 0) 20 0xe9b6c7aa
  let a := gg a b c d (x 5) 5 0xd62f105d
  let d := gg d a b c (x 10) 9 0x2441453
  let c := gg c d a b (x 15) 14 0xd8a1e681
  let b := gg b c d a (x 4) 20 0xe7d3fbc8
  let a := gg a b c d (x 9) 5 0x21e1cde6
  let d := gg d a b c (x 14) 9 0xc33707d6
  let c := gg c d a b (x 3) 14 0xf4d50d87
  let b := gg b c d a (x 8) 20 0x455a14ed
  let a := gg a b c d (x 13) 5 0xa9e3e905
  let d := gg d a b c (x 2) 9 0xfcefa3f8
  let c := gg c d a b (x 7) 14 0x676f02d9
  let b := gg b c d a (x 12) 20 0x8d2a4c8a
  -- round 3
  let a := hh a b c d (x 5) 4 0xfffa3942
  let d := hh d a b c (x 8) 11 0x8771f681
  let c := hh c d a b (x 11) 16 0x6d9d6122
  let b := hh b c d a (x 14) 23 0xfde5380c
  let a := hh a b c d (x 1) 4 0xa4beea44
  let d := hh d a b c (x 4) 11 0x4bdecfa9
  let c := hh c d a b (x 7) 16 0xf6bb4b60
  let b := hh b c d a (x 10) 23 0xbebfbc70
  let a := hh a b c d (x 13) 4 0x289b7ec6
  let d := hh d a b c (x 0) 11 0xeaa127fa
  let c := hh c d a b (x 3) 16 0xd4ef3085
  let b := hh b c d a (x 6) 23 0x4881d05
  let a := hh a b c d (x 9) 4 0xd9d4d039
  let d := hh d a b c (x 12) 11 0xe6db99e5
  let c := hh c d a b (x 15) 16 0x1fa27cf8
  let b := hh b c d a (x 2) 23 0xc4ac5665
  -- round 4
  let a := ii a b c d (x 0) 6 0xf4292244
  let d := ii d a b c (x 7) 10 0x432aff97
  let c := ii c d a b (x 14) 15 0xab9423a7
  let b := ii b c d a (x 5) 21 0xfc93a039
  let a := ii a b c d (x 12) 6 0x655b59c3
  let d := ii d a b c (x 3) 10 0x8f0ccc92
  let c := ii c d a b (x 10) 15 0xffeff47d
  let b := ii b c d a (x 1) 21 0x85845dd1
  let a := ii a b c d (x 8) 6 0x6fa87e4f
  let d := ii d a b c (x 15) 10 0xfe2ce6e0
  let c := ii c d a b (x 6) 15 0xa3014314
  let b := ii b c d a (x 13) 21 0x4e0811a1
  let a := ii a b c d (x 4) 6 0xf7537e82
  let d := ii d a b c (x 11) 10 0xbd3af235
  let c := ii c d a b (x 2) 15 0x2ad7d2bb
  let b := ii b c d a (x 9) 21 0xeb86d391
  { a := state.a + a, b := state.b + b, c := state.c + c, d := state.d + d }

/-! ## The class -/

/-- The members of `MD5_CTX_OBJ`. -/
structure Ctx where
  state : State
  count0 : BitVec 32
  count1 : BitVec 32
  buffer : Allocation UInt8

/-- The magic words. -/
def initialState : State where
  a := 0x67452301
  b := 0xefcdab89
  c := 0x98badcfe
  d := 0x10325476

/-- `MD5Init`. -/
def init : Ctx where
  state := initialState
  count0 := 0
  count1 := 0
  buffer := Allocation.fresh 64

/-- The loop of `MD5Update`, with the place where the rest of the input begins.  The place is an
`unsigned int`, and past the end of the input there is nothing to read. -/
def transformLoop (input : List UInt8) (inputLen place : Nat) (state : State) :
    Outcome (Nat × State) :=
  if (place + 63) % 2 ^ 32 < inputLen then
    if place + 64 ≤ inputLen then
      transformLoop input inputLen (place + 64) (transform state ((input.drop place).take 64))
    else .fault
  else .ok (place, state)
termination_by inputLen - place

/-- `MD5Update`, given the length as an `unsigned int`. -/
def update (ctx : Ctx) (input : List UInt8) : Outcome Ctx :=
  let inputLen := input.length % 2 ^ 32
  let index := (ctx.count0 >>> 3).toNat &&& 0x3f
  let bits := BitVec.ofNat 32 inputLen <<< 3
  let count0 := ctx.count0 + bits
  let count1 := (if count0 < bits then ctx.count1 + 1 else ctx.count1) +
    BitVec.ofNat 32 inputLen >>> 29
  let partLen := 64 - index
  if partLen ≤ inputLen then
    ctx.buffer.write index (input.take partLen) >>= fun buffer =>
      buffer.read 0 64 >>= fun block =>
        transformLoop input inputLen partLen (transform ctx.state block) >>= fun behind =>
          buffer.write 0 ((input.drop behind.1).take (inputLen - behind.1)) >>= fun buffer =>
            .ok { state := behind.2, count0, count1, buffer }
  else
    ctx.buffer.write index (input.take inputLen) >>= fun buffer =>
      .ok { state := ctx.state, count0, count1, buffer }

/-- `PADDING`. -/
def padding : List UInt8 :=
  0x80 :: List.replicate 63 0

/-- `Encode`. -/
def encode (input : List (BitVec 32)) : List UInt8 :=
  input.flatMap octetsOf

/-- `MD5Final`, with the digest. -/
def final (ctx : Ctx) : Outcome (List UInt8) :=
  let bits := encode [ctx.count0, ctx.count1]
  let index := (ctx.count0 >>> 3).toNat &&& 0x3f
  let padLen := if index < 56 then 56 - index else 120 - index
  update ctx (padding.take padLen) >>= fun ctx =>
    update ctx bits >>= fun ctx =>
      .ok (encode [ctx.state.a, ctx.state.b, ctx.state.c, ctx.state.d])

/-- A message in pieces. -/
def updates (ctx : Ctx) : List (List UInt8) → Outcome Ctx
  | [] => .ok ctx
  | input :: inputs => update ctx input >>= fun ctx => updates ctx inputs

/-! ## What the class holds -/

/-- A message absorbed from the magic words. -/
def absorbed (message : List UInt8) : State × List UInt8 :=
  absorb 64 transform (initialState, []) message

theorem absorbed_append (message input : List UInt8) :
    absorbed (message ++ input) = absorb 64 transform (absorbed message) input :=
  absorb_append _ message input

theorem length_absorbed (message : List UInt8) :
    (absorbed message).2.length = message.length % 64 :=
  length_absorb (by omega) initialState message

/-- What the class holds of a message: the state behind its whole blocks, the octets that do not
fill a block, and the number of bits. -/
structure Holds (ctx : Ctx) (message : List UInt8) : Prop where
  state : ctx.state = (absorbed message).1
  buffered : ∃ stale, ctx.buffer.stored = (absorbed message).2 ++ stale
  size : ctx.buffer.size = 64
  count : ctx.count0.toNat + 2 ^ 32 * ctx.count1.toNat = 8 * message.length % 2 ^ 64

theorem holds_init : Holds init [] where
  state := rfl
  buffered := ⟨[], rfl⟩
  size := rfl
  count := rfl

section Update

variable {ctx : Ctx} {message input : List UInt8}

theorem Holds.index (holds : Holds ctx message) :
    (ctx.count0 >>> 3).toNat &&& 0x3f = message.length % 64 := by
  have mask : (0x3f : Nat) = 2 ^ 6 - 1 := rfl
  have count := holds.count
  have bound := ctx.count0.isLt
  rw [mask, Nat.and_two_pow_sub_one_eq_mod, BitVec.toNat_ushiftRight, Nat.shiftRight_eq_div_pow]
  omega

/-- The bits are counted in two words, with a carry. -/
theorem count_update (count0 count1 : BitVec 32) {inputLen : Nat} (small : inputLen < 2 ^ 32) :
    (count0 + BitVec.ofNat 32 inputLen <<< 3).toNat + 2 ^ 32 *
      ((if count0 + BitVec.ofNat 32 inputLen <<< 3 < BitVec.ofNat 32 inputLen <<< 3 then count1 + 1
        else count1) + BitVec.ofNat 32 inputLen >>> 29).toNat =
      (count0.toNat + 2 ^ 32 * count1.toNat + 8 * inputLen) % 2 ^ 64 := by
  have bits : (BitVec.ofNat 32 inputLen <<< 3).toNat = 8 * inputLen % 2 ^ 32 := by
    rw [BitVec.toNat_shiftLeft, BitVec.toNat_ofNat, Nat.mod_eq_of_lt small, Nat.shiftLeft_eq,
      Nat.mul_comm]
  have high : (BitVec.ofNat 32 inputLen >>> 29).toNat = inputLen / 2 ^ 29 := by
    rw [BitVec.toNat_ushiftRight, BitVec.toNat_ofNat, Nat.mod_eq_of_lt small,
      Nat.shiftRight_eq_div_pow]
  have bound0 := count0.isLt
  have bound1 := count1.isLt
  have one : (1 : BitVec 32).toNat = 1 := rfl
  rw [BitVec.toNat_add, BitVec.toNat_add, high]
  split
  · rename_i carry
    rw [BitVec.lt_def, BitVec.toNat_add, bits] at carry
    rw [BitVec.toNat_add, bits, one]
    omega
  · rename_i noCarry
    rw [BitVec.lt_def, BitVec.toNat_add, bits] at noCarry
    rw [bits]
    omega

/-- The loop takes the whole blocks of an input that is not as long as an `unsigned int` can be. -/
theorem transformLoop_eq_ok (short : input.length + 63 < 2 ^ 32) {place : Nat}
    (inside : place ≤ input.length) (state : State) :
    ∃ behind, transformLoop input input.length place state = .ok behind ∧
      absorb 64 transform (state, []) (input.drop place) = (behind.2, input.drop behind.1) ∧
      input.length < behind.1 + 64 := by
  induction left : input.length - place using Nat.strongRecOn generalizing place state with
  | ind count ih =>
      have noWrap : (place + 63) % 2 ^ 32 = place + 63 := Nat.mod_eq_of_lt (by omega)
      rw [transformLoop, noWrap]
      by_cases more : place + 63 < input.length
      · have block : ((input.drop place).take 64).length = 64 := by
          rw [List.length_take, List.length_drop]
          omega
        have some' : (input.drop place).take 64 ≠ [] := by
          intro none'
          rw [none'] at block
          cases block
        have full : absorb 64 transform (state, []) ((input.drop place).take 64) = _ :=
          absorb_full (by rw [block, List.length_nil]) some'
        obtain ⟨behind, result, taken, last⟩ := @ih (input.length - (place + 64)) (by omega)
          (place + 64) (by omega) (transform state ((input.drop place).take 64)) rfl
        refine ⟨behind, ?_, ?_, last⟩
        · rw [if_pos more, if_pos (by omega), result]
        · rw [← List.take_append_drop 64 (input.drop place), absorb_append, full, List.nil_append,
            List.drop_drop, taken]
      · rw [if_neg more]
        refine ⟨(place, state), rfl, ?_, by omega⟩
        rw [absorb_short (by rw [List.length_nil, List.length_drop]; omega), List.nil_append]

/-- `MD5Update` goes on with the message. -/
theorem holds_update (holds : Holds ctx message) (short : input.length + 63 < 2 ^ 32) :
    ∃ ctx', update ctx input = .ok ctx' ∧ Holds ctx' (message ++ input) := by
  obtain ⟨stale, buffered⟩ := holds.buffered
  have isState := holds.state
  have isIndex := holds.index
  have size := holds.size
  have whole : input.length % 2 ^ 32 = input.length := Nat.mod_eq_of_lt (by omega)
  have count := count_update ctx.count0 ctx.count1 (by omega : input.length < 2 ^ 32)
  have bits : (8 * message.length % 2 ^ 64 + 8 * input.length) % 2 ^ 64 =
      8 * (message ++ input).length % 2 ^ 64 := by
    rw [List.length_append]
    omega
  rw [holds.count, bits] at count
  have later := absorbed_append message input
  have index := length_absorbed message
  rw [← index] at isIndex
  have small : (absorbed message).2.length < 64 := by
    rw [index]
    exact Nat.mod_lt _ (by omega)
  generalize absorbed message = before at *
  unfold update
  simp only [whole, isIndex]
  by_cases enough : 64 - before.2.length ≤ input.length
  · generalize isFront : input.take (64 - before.2.length) = front
    have length : before.2.length + front.length = 64 := by
      rw [← isFront, List.length_take]
      omega
    have some' : front ≠ [] := by
      rintro rfl
      rw [List.length_nil] at length
      omega
    obtain ⟨buffer, written, size', stored⟩ :=
      Allocation.write_behind buffered (le_of_eq (length.trans size.symm))
    have read := Allocation.read_front stored
    rw [List.length_append, length] at read
    obtain ⟨behind, looped, taken, last⟩ :=
      transformLoop_eq_ok short enough (transform ctx.state (before.2 ++ front))
    have rest : (input.drop behind.1).take (input.length - behind.1) = input.drop behind.1 :=
      List.take_of_length_le (by rw [List.length_drop])
    have room : ([] : List UInt8).length + (input.drop behind.1).length ≤ buffer.size := by
      rw [List.length_nil, List.length_drop]
      omega
    obtain ⟨buffer', written', size'', stored'⟩ :=
      Allocation.write_behind (List.nil_append buffer.stored).symm room
    have after : absorbed (message ++ input) = (behind.2, input.drop behind.1) := by
      have full : absorb 64 transform (before.1, before.2) front = _ := absorb_full length some'
      have divided : absorb 64 transform before input = absorb 64 transform
          (absorb 64 transform before front) (input.drop (64 - before.2.length)) := by
        rw [← absorb_append, ← isFront, List.take_append_drop]
      rw [later, divided, full, ← isState, taken]
    rw [if_pos enough, written, Outcome.ok_bind, read, Outcome.ok_bind, looped, Outcome.ok_bind,
      rest]
    refine ⟨_, congrArg (· >>= _) written', ?_,
      ⟨buffer.stored.drop (input.drop behind.1).length, ?_⟩,
      ?_, count⟩
    · rw [after]
    · rw [after]
      exact stored'
    · exact size''.trans (size'.trans size)
  · have all : input.take input.length = input := List.take_length
    have room : before.2.length + input.length ≤ ctx.buffer.size := by omega
    obtain ⟨buffer, written, size', stored⟩ := Allocation.write_behind buffered room
    have after : absorbed (message ++ input) = (before.1, before.2 ++ input) := by
      rw [later]
      exact absorb_short (by omega)
    rw [if_neg enough, all, written]
    refine ⟨_, rfl, ?_, ⟨stale.drop input.length, ?_⟩, size'.trans size, count⟩
    · rw [after]
      exact isState
    · rw [after]
      exact stored

/-- The message in pieces, of which none is as long as an `unsigned int` can be. -/
theorem holds_updates (holds : Holds ctx message) {inputs : List (List UInt8)}
    (short : ∀ input ∈ inputs, input.length + 63 < 2 ^ 32) :
    ∃ ctx', updates ctx inputs = .ok ctx' ∧ Holds ctx' (message ++ inputs.flatten) := by
  induction inputs generalizing ctx message with
  | nil => exact ⟨ctx, rfl, by rwa [List.flatten_nil, List.append_nil]⟩
  | cons input inputs ih =>
      obtain ⟨next, updated, holds'⟩ := holds_update holds (short input List.mem_cons_self)
      obtain ⟨last, updated', holds''⟩ := ih holds' fun other member =>
        short other (List.mem_cons_of_mem _ member)
      refine ⟨last, ?_, ?_⟩
      · rw [updates, updated]
        exact updated'
      · rwa [List.flatten_cons, ← List.append_assoc]

end Update

/-! ## The digest -/

/-- How a message is filled up: a bit, zeros, and the number of bits modulo 2^64. -/
def filling (length : Nat) : List UInt8 :=
  padding.take ((if length % 64 < 56 then 56 else 120) - length % 64) ++
    encode [BitVec.ofNat 32 (8 * length), BitVec.ofNat 32 (8 * length / 2 ^ 32)]

/-- The digest of a message as a whole. -/
def digest (message : List UInt8) : List UInt8 :=
  let state := compressAll 64 transform ((message.length + 8) / 64 + 1) initialState
    (message ++ filling message.length)
  encode [state.a, state.b, state.c, state.d]

theorem length_filling (length : Nat) :
    length + (filling length).length = 64 * ((length + 8) / 64 + 1) := by
  have most : padding.length = 64 := rfl
  have bits (low high : BitVec 32) : (encode [low, high]).length = 8 := rfl
  rw [filling, List.length_append, List.length_take, bits, most]
  split
  · omega
  · omega

/-- `MD5Final` gives the digest. -/
theorem final_eq_ok {ctx : Ctx} {message : List UInt8} (holds : Holds ctx message) :
    final ctx = .ok (digest message) := by
  have count := holds.count
  have bound := ctx.count0.isLt
  have bound' := ctx.count1.isLt
  have low : ctx.count0 = BitVec.ofNat 32 (8 * message.length) := by
    apply BitVec.eq_of_toNat_eq
    rw [BitVec.toNat_ofNat]
    omega
  have high : ctx.count1 = BitVec.ofNat 32 (8 * message.length / 2 ^ 32) := by
    apply BitVec.eq_of_toNat_eq
    rw [BitVec.toNat_ofNat]
    omega
  have padLen : (if message.length % 64 < 56 then 56 - message.length % 64
      else 120 - message.length % 64) =
      (if message.length % 64 < 56 then 56 else 120) - message.length % 64 := by
    split <;> rfl
  rw [final, holds.index, padLen]
  generalize isPadding : padding.take
    ((if message.length % 64 < 56 then 56 else 120) - message.length % 64) = padded
  have most : padding.length = 64 := rfl
  have paddedShort : padded.length + 63 < 2 ^ 32 := by
    rw [← isPadding, List.length_take]
    omega
  have bitsShort : (encode [ctx.count0, ctx.count1]).length + 63 < 2 ^ 32 := by
    have eight : (encode [ctx.count0, ctx.count1]).length = 8 := rfl
    omega
  obtain ⟨middle, updated, holds'⟩ := holds_update holds paddedShort
  obtain ⟨last, updated', holds''⟩ := holds_update holds' bitsShort
  have isWhole : message ++ padded ++ encode [ctx.count0, ctx.count1] =
      message ++ filling message.length := by
    rw [filling, isPadding, ← low, ← high, List.append_assoc]
  have blocks : absorb 64 transform (initialState, []) (message ++ filling message.length) = _ :=
    absorb_whole (by omega) ((List.length_append ..).trans (length_filling message.length))
  have isState := holds''.state
  rw [isWhole, absorbed, blocks] at isState
  rw [updated, Outcome.ok_bind, updated', Outcome.ok_bind, digest, isState]

/-- The digest of a message is the same in however many pieces it comes. -/
theorem final_updates (inputs : List (List UInt8))
    (short : ∀ input ∈ inputs, input.length + 63 < 2 ^ 32) :
    (updates init inputs >>= final) = .ok (digest inputs.flatten) := by
  obtain ⟨ctx, updated, holds⟩ := holds_updates holds_init short
  rw [updated]
  exact final_eq_ok holds

theorem final_updates_abc :
    (updates init [[0x61], [0x62, 0x63]] >>= final) = .ok (digest [0x61, 0x62, 0x63]) :=
  final_updates [[0x61], [0x62, 0x63]] (by decide)

example : digest [0x61, 0x62, 0x63] =
    [0x90, 0x01, 0x50, 0x98, 0x3c, 0xd2, 0x4f, 0xb0, 0xd6, 0x96, 0x3f, 0x7d, 0x28, 0xe1, 0x7f,
      0x72] := by
  decide +kernel

end Md5

end Security

end HeapHttpd
