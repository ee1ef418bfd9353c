import HeapHttpd.Hpack.BuildCorrect

/-!
# Integers in header blocks

`encode_integer` and `decode_integer` against the integers of RFC 7541, section 5.1: what
was written is read back, and which buffers are read otherwise than they should be.
-/

namespace HeapHttpd

namespace Hpack

open PrefixInteger

/-! ## Written and read back -/

/-- What is written is read back, whatever follows it. -/
theorem decodeInteger_encodeInteger {n room : Nat} (narrow : n ≤ 8) (enough : 7 ≤ room)
    (value : UInt32) :
    ∃ bytes, encodeInteger room value.toNat n = some bytes ∧
      ∀ rest room', bytes.length ≤ room' →
        decodeInteger (bytes ++ rest) room' n = .ok (value.toNat, bytes.length) := by
  have small : value.toNat < 2 ^ 32 := value.toNat_lt
  have code : Code n (encode n 0 value.toNat) value.toNat :=
    code_encode narrow (Nat.two_pow_pos _)
  have few : (encode n 0 value.toNat).length ≤ 5 + 1 :=
    length_encode_le (by omega) (by omega)
  refine ⟨encode n 0 value.toNat, encodeInteger_eq enough small, fun rest room' room => ?_⟩
  have read := decodeInteger_code code few (by omega) rest room
  rwa [Nat.mod_eq_of_lt small] at read

theorem decodeInteger_encodeInteger_largest :
    ∃ bytes, encodeInteger 7 (UInt32.toNat 0xffffffff) 5 = some bytes ∧
      ∀ rest room', bytes.length ≤ room' →
        decodeInteger (bytes ++ rest) room' 5 = .ok (UInt32.toNat 0xffffffff, bytes.length) :=
  decodeInteger_encodeInteger (by decide) (by decide) 0xffffffff

/-! ## What is read -/

/-- Whether what `decode_integer` reads is what the buffer says.  A shift by 32 or more
has no defined result. -/
structure DecodesExactly (n : Nat) (buffer : List UInt8) : Prop where
  exact : ∀ dst count, decodeInteger buffer buffer.length n = .ok (dst, count) →
    0 < count ∧ count ≤ buffer.length ∧ Code n (buffer.take count) dst ∧ dst < 2 ^ 32
  noShift : decodeInteger buffer buffer.length n ≠ .fault
  large : ∀ bytes rest value, buffer = bytes ++ rest → Code n bytes value → 2 ^ 32 ≤ value →
    decodeInteger buffer buffer.length n = .err
  unfinished : (¬∃ bytes rest value, buffer = bytes ++ rest ∧ Code n bytes value) →
    decodeInteger buffer buffer.length n = .err

/-- The octets behind the prefix write less than 2^32, and with the prefix 2^32 or more. -/
def Wraps (n : Nat) (buffer : List UInt8) : Prop :=
  ∃ bytes rest value, buffer = bytes ++ rest ∧ Code n bytes value ∧ bytes.length ≤ 6 ∧
    2 ^ 32 ≤ value ∧ value < 2 ^ 32 + (2 ^ n - 1)

/-- Five octets behind the prefix are continued by a sixth, and the fifth writes no more
than four bits. -/
def Overlong (n : Nat) (buffer : List UInt8) : Prop :=
  ∃ first groups last more rest, buffer = first :: (groups ++ last :: more :: rest) ∧
    first.toNat % 2 ^ n = 2 ^ n - 1 ∧ groups.length = 4 ∧
    (∀ group ∈ groups, 0x80 ≤ group.toNat) ∧ 0x80 ≤ last.toNat ∧ last.toNat < 0x90

/-- The fifth octet behind the prefix: the loop goes on to one that it cannot shift. -/
theorem decodeIntegerLoop_fifth {group : UInt8} {dst length : Nat} {memory : List UInt8} :
    decodeIntegerLoop (memory.length + 1) (group :: memory) 28 dst length = .fault ↔
      memory ≠ [] ∧ 0x80 ≤ group.toNat ∧ group.toNat < 0x90 := by
  have octet := group.toNat_lt
  have quota : (2 ^ 32 - 1) >>> 28 = 15 := by decide
  rw [decodeIntegerLoop, if_neg (by decide), quota]
  dsimp only
  by_cases refused : 15 < group.toNat % 128
  · rw [if_pos refused]
    refine iff_of_false (by simp) ?_
    rintro ⟨-, continued, small⟩
    omega
  · rw [if_neg refused]
    by_cases continued : 0x80 ≤ group.toNat
    · rw [if_pos continued]
      cases memory with
      | nil => exact iff_of_false (by simp [decodeIntegerLoop]) fun more => more.1 rfl
      | cons more rest =>
          rw [List.length_cons, decodeIntegerLoop, if_pos (by decide)]
          exact iff_of_true rfl ⟨List.cons_ne_nil _ _, continued, by omega⟩
    · rw [if_neg continued]
      exact iff_of_false (by simp) fun ends => continued ends.2.1

/-- The octets before the fifth are added whatever they are. -/
theorem decodeIntegerLoop_earlier {group : UInt8} {count dst length : Nat} {memory : List UInt8}
    (few : count < 4) :
    ∃ dst', decodeIntegerLoop (memory.length + 1) (group :: memory) (7 * count) dst length =
      if 0x80 ≤ group.toNat then
        decodeIntegerLoop memory.length memory (7 * (count + 1)) dst' (length + 1)
      else .ok (dst', length + 1) := by
  have added : ¬ (2 ^ 32 - 1) >>> (7 * count) < group.toNat % 128 := by
    have place : 2 ^ (7 * count) * 127 ≤ 2 ^ 32 - 1 := by
      have : 2 ^ (7 * count) ≤ 2 ^ 21 := Nat.pow_le_pow_right (by omega) (by omega)
      omega
    rw [Nat.shiftRight_eq_div_pow, Nat.not_lt, Nat.le_div_iff_mul_le (Nat.two_pow_pos _),
      Nat.mul_comm]
    exact (Nat.mul_le_mul_left _ (by omega)).trans place
  rw [decodeIntegerLoop, if_neg (by omega)]
  exact ⟨_, if_neg added⟩

/-- A buffer is read to its end without a shift too far, unless it is overlong. -/
theorem decodeIntegerLoop_fault {count dst length : Nat} {memory : List UInt8} (few : count ≤ 4) :
    decodeIntegerLoop memory.length memory (7 * count) dst length = .fault ↔
      ∃ groups last more rest, memory = groups ++ last :: more :: rest ∧
        groups.length + count = 4 ∧ (∀ group ∈ groups, 0x80 ≤ group.toNat) ∧
        0x80 ≤ last.toNat ∧ last.toNat < 0x90 := by
  induction memory generalizing count dst length with
  | nil => simp [decodeIntegerLoop]
  | cons group memory ih =>
      by_cases last : count = 4
      · subst last
        rw [List.length_cons, decodeIntegerLoop_fifth]
        constructor
        · rintro ⟨nonempty, ends⟩
          obtain ⟨more, rest, rfl⟩ := List.exists_cons_of_ne_nil nonempty
          exact ⟨[], group, more, rest, rfl, rfl, by simp, ends⟩
        · rintro ⟨groups, last, more, rest, equal, none, -, ends⟩
          obtain rfl : groups = [] := List.length_eq_zero_iff.mp (by omega)
          obtain ⟨rfl, rfl⟩ := List.cons.inj equal
          exact ⟨List.cons_ne_nil _ _, ends⟩
      · obtain ⟨dst', step⟩ := @decodeIntegerLoop_earlier group count dst length memory (by omega)
        rw [List.length_cons, step]
        by_cases continued : 0x80 ≤ group.toNat
        · rw [if_pos continued, ih (by omega)]
          constructor
          · rintro ⟨groups, last, more, rest, rfl, length, all, ends⟩
            refine ⟨group :: groups, last, more, rest, rfl, by simp; omega, ?_, ends⟩
            simpa [continued] using all
          · rintro ⟨groups, last, more, rest, equal, length, all, ends⟩
            cases groups with
            | nil => simp at length; omega
            | cons other groups =>
                obtain ⟨rfl, rfl⟩ := List.cons.inj equal
                simp only [List.mem_cons, forall_eq_or_imp] at all
                exact ⟨groups, last, more, rest, rfl, by simp at length; omega, all.2, ends⟩
        · rw [if_neg continued]
          refine iff_of_false (by simp) ?_
          rintro ⟨groups, last, more, rest, equal, length, all, ends⟩
          cases groups with
          | nil => simp at length; omega
          | cons other groups =>
              obtain ⟨rfl, -⟩ := List.cons.inj equal
              exact continued (all _ List.mem_cons_self)

theorem decodeInteger_fault {n : Nat} {buffer : List UInt8} :
    decodeInteger buffer buffer.length n = .fault ↔ Overlong n buffer := by
  cases buffer with
  | nil => simp [decodeInteger, Overlong]
  | cons first memory =>
      rw [decodeInteger, if_neg (by simp), List.length_cons, Nat.add_sub_cancel]
      dsimp only
      by_cases full : first.toNat % 2 ^ n = 2 ^ n - 1
      · have run : decodeIntegerLoop memory.length memory (7 * 0) (first.toNat % 2 ^ n) 1 =
            .fault ↔ _ := decodeIntegerLoop_fault (Nat.zero_le 4)
        rw [if_pos full, ← Nat.mul_zero 7, run]
        constructor
        · rintro ⟨groups, last, more, rest, rfl, length, all, ends⟩
          exact ⟨first, groups, last, more, rest, rfl, full, length, all, ends⟩
        · rintro ⟨_, groups, last, more, rest, equal, -, length, all, ends⟩
          obtain ⟨rfl, rfl⟩ := List.cons.inj equal
          exact ⟨groups, last, more, rest, rfl, length, all, ends⟩
      · rw [if_neg full]
        refine iff_of_false (by simp) ?_
        rintro ⟨_, groups, last, more, rest, equal, full', -⟩
        obtain ⟨rfl, -⟩ := List.cons.inj equal
        exact full full'

/-- Which buffers are read exactly. -/
theorem decodesExactly_iff {n : Nat} {buffer : List UInt8} :
    DecodesExactly n buffer ↔ ¬Wraps n buffer ∧ ¬Overlong n buffer := by
  constructor
  · intro exactly
    refine ⟨?_, fun overlong => exactly.noShift (decodeInteger_fault.mpr overlong)⟩
    rintro ⟨bytes, rest, value, rfl, code, few, large, fits⟩
    have run := decodeInteger_code code few fits rest
      (show bytes.length ≤ (bytes ++ rest).length by simp)
    obtain ⟨-, -, code', small⟩ := exactly.exact _ _ run
    rw [List.take_left] at code'
    obtain ⟨-, same⟩ := code.append_inj code' (Eq.refl (bytes ++ rest))
    omega
  · rintro ⟨noWrap, notOverlong⟩
    have noShift : decodeInteger buffer buffer.length n ≠ .fault :=
      fun fault => notOverlong (decodeInteger_fault.mp fault)
    have refused (none : ∀ dst count, decodeInteger buffer buffer.length n ≠ .ok (dst, count)) :
        decodeInteger buffer buffer.length n = .err := by
      cases run : decodeInteger buffer buffer.length n with
      | ok result => exact (none result.1 result.2 run).elim
      | err => rfl
      | fault => exact (noShift run).elim
    have small {bytes rest : List UInt8} {value : Nat} (split : buffer = bytes ++ rest)
        (code : Code n bytes value) (few : bytes.length ≤ 6)
        (fits : value < 2 ^ 32 + (2 ^ n - 1)) : value < 2 ^ 32 := by
      by_contra large
      exact noWrap ⟨bytes, rest, value, split, code, few, Nat.not_lt.mp large, fits⟩
    refine ⟨fun dst count run => ?_, noShift, fun bytes rest value split code large => ?_,
      fun unfinished => ?_⟩
    · obtain ⟨bytes, rest, split, ⟨value, code, few, fits, rfl⟩, rfl⟩ := decodeInteger_ok run
      have small := small split code few fits
      rw [Nat.mod_eq_of_lt small, split, List.take_left]
      exact ⟨List.length_pos_iff.mpr code.ne_nil, by simp, code, small⟩
    · refine refused fun dst count run => ?_
      obtain ⟨bytes', rest', split', ⟨value', code', few, fits, -⟩, -⟩ := decodeInteger_ok run
      obtain ⟨-, rfl⟩ := code.append_inj code' (split.symm.trans split')
      have small := small split' code' few fits
      omega
    · refine refused fun dst count run => ?_
      obtain ⟨bytes, rest, split, ⟨value, code, -⟩, -⟩ := decodeInteger_ok run
      exact unfinished ⟨bytes, rest, value, split, code⟩

/-- An integer of 2^32 - 1 behind a full prefix of seven bits is read as 126. -/
theorem not_decodesExactly_wraps :
    ¬∀ n buffer, 1 ≤ n → n ≤ 8 → DecodesExactly n buffer := by
  intro exactly
  have run : decodeInteger [0x7f, 0xff, 0xff, 0xff, 0xff, 0x0f] 6 7 = .ok (126, 6) := by
    decide
  have code : Code 7 [0x7f, 0xff, 0xff, 0xff, 0xff, 0x0f] (2 ^ 7 - 1 + (2 ^ 32 - 1)) :=
    .long 0x7f [0xff, 0xff, 0xff, 0xff, 0x0f] (by decide) (by simp [Terminated])
  have refused := (exactly 7 _ (by decide) (by decide)).large _ [] _ rfl code (by decide)
  have same := run.symm.trans refused
  cases same

end Hpack

end HeapHttpd
