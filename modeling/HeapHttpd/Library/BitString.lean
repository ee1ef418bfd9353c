import Mathlib.Data.List.Basic
import Mathlib.Data.List.GetD
import Mathlib.Data.Nat.Bitwise
import Mathlib.Tactic.Common
import Mathlib.Tactic.Ring

/-!
# Bit strings

Finite bit strings, most significant bit first, and their correspondence with
fixed-width numbers and with byte strings.
-/

namespace HeapHttpd

namespace BitString

/-- The `width` low bits of a number, most significant bit first. -/
def bitsOf : Nat → Nat → List Bool
  | 0, _ => []
  | width + 1, number => number.testBit width :: bitsOf width number

/-- The number a bit string writes, most significant bit first. -/
def ofBits : List Bool → Nat
  | [] => 0
  | bit :: bits => bit.toNat * 2 ^ bits.length + ofBits bits

@[simp]
theorem bitsOf_zero (number : Nat) : bitsOf 0 number = [] :=
  rfl

@[simp]
theorem length_bitsOf (width number : Nat) :
    (bitsOf width number).length = width := by
  induction width with
  | zero => rfl
  | succ width ih => simp [bitsOf, ih]

/-- A bit string of `high + low` bits splits into its high and its low part. -/
theorem bitsOf_add (high low number : Nat) :
    bitsOf (high + low) number =
      bitsOf high (number / 2 ^ low) ++ bitsOf low number := by
  induction high with
  | zero => simp
  | succ high ih =>
      rw [Nat.add_right_comm, bitsOf, ih, bitsOf, List.cons_append,
        Nat.testBit_div_two_pow, Nat.add_comm high low]

theorem bitsOf_mod {width modulus : Nat} (fits : width ≤ modulus)
    (number : Nat) :
    bitsOf width (number % 2 ^ modulus) = bitsOf width number := by
  induction width with
  | zero => rfl
  | succ width ih =>
      rw [bitsOf, bitsOf, ih (by omega), Nat.testBit_mod_two_pow]
      simp [show width < modulus by omega]

theorem bitsOf_mul_two_pow (width shift number : Nat) :
    bitsOf (width + shift) (number * 2 ^ shift) =
      bitsOf width number ++ List.replicate shift false := by
  rw [bitsOf_add, Nat.mul_div_cancel _ (Nat.two_pow_pos shift)]
  congr 1
  have zeros (count : Nat) (le : count ≤ shift) :
      bitsOf count (number * 2 ^ shift) = List.replicate count false := by
    induction count with
    | zero => rfl
    | succ count ih =>
        rw [bitsOf, ih (by omega), List.replicate_succ, Nat.testBit_mul_two_pow]
        simp [show ¬ shift ≤ count by omega]
  exact zeros shift le_rfl

theorem ofBits_lt (bits : List Bool) : ofBits bits < 2 ^ bits.length := by
  induction bits with
  | nil => simp [ofBits]
  | cons bit bits ih =>
      rw [ofBits, List.length_cons, Nat.pow_succ]
      cases bit <;> simp <;> omega

/-- Reading back a number from its low bits keeps exactly those bits. -/
theorem ofBits_bitsOf (width number : Nat) :
    ofBits (bitsOf width number) = number % 2 ^ width := by
  induction width with
  | zero => simp [ofBits, Nat.mod_one]
  | succ width ih =>
      rw [bitsOf, ofBits, length_bitsOf, ih, Nat.mod_pow_succ,
        Nat.toNat_testBit, Nat.mul_comm, Nat.add_comm]

theorem bitsOf_ofBits (bits : List Bool) :
    bitsOf bits.length (ofBits bits) = bits := by
  induction bits with
  | nil => rfl
  | cons bit bits ih =>
      have bound := ofBits_lt bits
      have head : (ofBits (bit :: bits)).testBit bits.length = bit := by
        rw [ofBits, Nat.testBit_eq_decide_div_mod_eq,
          Nat.add_comm, Nat.add_mul_div_right _ _ (Nat.two_pow_pos _),
          Nat.div_eq_of_lt bound]
        cases bit <;> simp
      have tail : bitsOf bits.length (ofBits (bit :: bits)) = bits := by
        rw [← bitsOf_mod (Nat.le_refl bits.length), ofBits,
          Nat.add_comm, Nat.add_mul_mod_self_right, Nat.mod_eq_of_lt bound, ih]
      rw [List.length_cons, bitsOf, head, tail]

theorem bitsOf_injective {width first second : Nat}
    (firstFits : first < 2 ^ width) (secondFits : second < 2 ^ width)
    (equal : bitsOf width first = bitsOf width second) : first = second := by
  have values := congrArg ofBits equal
  rwa [ofBits_bitsOf, ofBits_bitsOf, Nat.mod_eq_of_lt firstFits,
    Nat.mod_eq_of_lt secondFits] at values

theorem bitsOf_all_ones (width : Nat) :
    bitsOf width (2 ^ width - 1) = List.replicate width true := by
  have ones (count : Nat) (le : count ≤ width) :
      bitsOf count (2 ^ width - 1) = List.replicate count true := by
    induction count with
    | zero => rfl
    | succ count ih =>
        rw [bitsOf, ih (by omega), List.replicate_succ,
          Nat.testBit_two_pow_sub_one]
        simp [show count < width by omega]
  exact ones width le_rfl

/-- The eight bits of a byte. -/
def byteBits (byte : UInt8) : List Bool :=
  bitsOf 8 byte.toNat

/-- The bits of a byte string, in transmission order. -/
def bytesBits (bytes : List UInt8) : List Bool :=
  bytes.flatMap byteBits

@[simp]
theorem length_byteBits (byte : UInt8) : (byteBits byte).length = 8 :=
  length_bitsOf 8 byte.toNat

@[simp]
theorem bytesBits_nil : bytesBits [] = [] :=
  rfl

@[simp]
theorem bytesBits_cons (byte : UInt8) (bytes : List UInt8) :
    bytesBits (byte :: bytes) = byteBits byte ++ bytesBits bytes :=
  rfl

@[simp]
theorem bytesBits_append (first second : List UInt8) :
    bytesBits (first ++ second) = bytesBits first ++ bytesBits second :=
  List.flatMap_append

@[simp]
theorem length_bytesBits (bytes : List UInt8) :
    (bytesBits bytes).length = 8 * bytes.length := by
  induction bytes with
  | nil => rfl
  | cons byte bytes ih => simp [ih]; omega

theorem byteBits_ofNat (number : Nat) :
    byteBits (UInt8.ofNat number) = bitsOf 8 number := by
  rw [byteBits, UInt8.toNat_ofNat', bitsOf_mod le_rfl]

/-- Group a bit string into bytes; a rest of fewer than eight bits is dropped. -/
def pack : List Bool → List UInt8
  | b₇ :: b₆ :: b₅ :: b₄ :: b₃ :: b₂ :: b₁ :: b₀ :: bits =>
      UInt8.ofNat (ofBits [b₇, b₆, b₅, b₄, b₃, b₂, b₁, b₀]) :: pack bits
  | _ => []

theorem pack_byteBits_append (byte : UInt8) (bits : List Bool) :
    pack (byteBits byte ++ bits) = byte :: pack bits := by
  have value : ofBits (bitsOf 8 byte.toNat) = byte.toNat := by
    rw [ofBits_bitsOf, Nat.mod_eq_of_lt byte.toNat_lt]
  simp only [byteBits, bitsOf, List.cons_append, List.nil_append, pack] at value ⊢
  rw [value, UInt8.ofNat_toNat]

@[simp]
theorem pack_bytesBits (bytes : List UInt8) : pack (bytesBits bytes) = bytes := by
  induction bytes with
  | nil => rfl
  | cons byte bytes ih => rw [bytesBits_cons, pack_byteBits_append, ih]

theorem bytesBits_pack {bits : List Bool} (whole : 8 ∣ bits.length) :
    bytesBits (pack bits) = bits := by
  induction bits using pack.induct with
  | case1 b₇ b₆ b₅ b₄ b₃ b₂ b₁ b₀ bits ih =>
      have rest : 8 ∣ bits.length := by
        simp only [List.length_cons] at whole
        omega
      rw [pack, bytesBits_cons, byteBits_ofNat, ih rest]
      exact congrArg (· ++ bits) (bitsOf_ofBits [b₇, b₆, b₅, b₄, b₃, b₂, b₁, b₀])
  | case2 bits short =>
      have : bits = [] := by
        match bits, short with
        | [], _ => rfl
        | b₇ :: b₆ :: b₅ :: b₄ :: b₃ :: b₂ :: b₁ :: b₀ :: bits, short =>
            exact (short _ _ _ _ _ _ _ _ _ rfl).elim
        | [_], _ | [_, _], _ | [_, _, _], _ | [_, _, _, _], _
        | [_, _, _, _, _], _ | [_, _, _, _, _, _], _
        | [_, _, _, _, _, _, _], _ =>
            simp at whole
      subst this
      rfl

theorem bytesBits_injective {first second : List UInt8}
    (equal : bytesBits first = bytesBits second) : first = second := by
  rw [← pack_bytesBits first, equal, pack_bytesBits]

theorem byteBits_injective {first second : UInt8}
    (equal : byteBits first = byteBits second) : first = second := by
  have strings : bytesBits [first] = bytesBits [second] := by simp [equal]
  simpa using bytesBits_injective strings

/-- A byte string whose bits begin another one's begins it. -/
theorem isPrefix_of_bytesBits {first second : List UInt8}
    (begins : bytesBits first <+: bytesBits second) : first <+: second := by
  induction first generalizing second with
  | nil => exact List.nil_prefix
  | cons byte first ih =>
      cases second with
      | nil => simpa using begins.length_le
      | cons other second =>
          obtain ⟨rest, equal⟩ := begins
          simp only [bytesBits_cons, List.append_assoc] at equal
          obtain ⟨heads, tails⟩ := List.append_inj equal (by simp)
          obtain rfl := byteBits_injective heads
          exact (List.prefix_cons_inj byte).mpr (ih ⟨rest, tails⟩)

theorem bitsOf_xor (width first second : Nat) :
    bitsOf width (first ^^^ second) =
      List.zipWith xor (bitsOf width first) (bitsOf width second) := by
  induction width with
  | zero => rfl
  | succ width ih => rw [bitsOf, bitsOf, bitsOf, ih, Nat.testBit_xor, List.zipWith_cons_cons]

/-- A bit of a number by its place. -/
theorem getD_bitsOf {width place : Nat} (inside : place < width) (number : Nat) :
    (bitsOf width number).getD place false = number.testBit (width - 1 - place) := by
  induction width generalizing place with
  | zero => omega
  | succ width ih =>
      cases place with
      | zero => rfl
      | succ place =>
          rw [bitsOf, List.getD_cons_succ, ih (by omega)]
          congr 1
          omega

/-- A bit of a byte string by its place. -/
theorem getD_bytesBits (bytes : List UInt8) (place : Nat) :
    (bytesBits bytes).getD place false =
      (bytes.getD (place / 8) 0).toNat.testBit (7 - place % 8) := by
  induction bytes generalizing place with
  | nil => simp
  | cons byte bytes ih =>
      rw [bytesBits_cons]
      by_cases first : place < 8
      · have index : place / 8 = 0 := by omega
        have bit : 7 - place % 8 = 8 - 1 - place := by omega
        rw [List.getD_append _ _ _ _ (by rwa [length_byteBits]), byteBits, getD_bitsOf first, index,
          bit]
        rfl
      · have index : place / 8 = (place - 8) / 8 + 1 := by omega
        have bit : place % 8 = (place - 8) % 8 := by omega
        rw [List.getD_append_right _ _ _ _ (by rw [length_byteBits]; omega), length_byteBits, ih,
          index, bit, List.getD_cons_succ]

end BitString

end HeapHttpd
