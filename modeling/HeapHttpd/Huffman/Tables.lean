import HeapHttpd.Library.BitString
import Mathlib.Data.List.Pairwise
import Mathlib.Data.List.Sort

/-!
# The Huffman code tables

The two arrays of `util/tables.h`, indexed by octet, and the finite facts about
them on which the decoding tree rests: every code fits its length, no code
extends another one, and every bit string that is long enough begins with a
code or with thirty ones.
-/

namespace HeapHttpd

namespace Huffman

open BitString

/-- `huffman_codes`: the codes, aligned to the least significant bit. -/
def huffmanCodes : List Nat := [
  0x1ff8, 0x7fffd8, 0xfffffe2, 0xfffffe3, 0xfffffe4, 0xfffffe5, 0xfffffe6, 0xfffffe7,
  0xfffffe8, 0xffffea, 0x3ffffffc, 0xfffffe9, 0xfffffea, 0x3ffffffd, 0xfffffeb, 0xfffffec,
  0xfffffed, 0xfffffee, 0xfffffef, 0xffffff0, 0xffffff1, 0xffffff2, 0x3ffffffe, 0xffffff3,
  0xffffff4, 0xffffff5, 0xffffff6, 0xffffff7, 0xffffff8, 0xffffff9, 0xffffffa, 0xffffffb,
  0x14, 0x3f8, 0x3f9, 0xffa, 0x1ff9, 0x15, 0xf8, 0x7fa,
  0x3fa, 0x3fb, 0xf9, 0x7fb, 0xfa, 0x16, 0x17, 0x18,
  0x0, 0x1, 0x2, 0x19, 0x1a, 0x1b, 0x1c, 0x1d,
  0x1e, 0x1f, 0x5c, 0xfb, 0x7ffc, 0x20, 0xffb, 0x3fc,
  0x1ffa, 0x21, 0x5d, 0x5e, 0x5f, 0x60, 0x61, 0x62,
  0x63, 0x64, 0x65, 0x66, 0x67, 0x68, 0x69, 0x6a,
  0x6b, 0x6c, 0x6d, 0x6e, 0x6f, 0x70, 0x71, 0x72,
  0xfc, 0x73, 0xfd, 0x1ffb, 0x7fff0, 0x1ffc, 0x3ffc, 0x22,
  0x7ffd, 0x3, 0x23, 0x4, 0x24, 0x5, 0x25, 0x26,
  0x27, 0x6, 0x74, 0x75, 0x28, 0x29, 0x2a, 0x7,
  0x2b, 0x76, 0x2c, 0x8, 0x9, 0x2d, 0x77, 0x78,
  0x79, 0x7a, 0x7b, 0x7ffe, 0x7fc, 0x3ffd, 0x1ffd, 0xffffffc,
  0xfffe6, 0x3fffd2, 0xfffe7, 0xfffe8, 0x3fffd3, 0x3fffd4, 0x3fffd5, 0x7fffd9,
  0x3fffd6, 0x7fffda, 0x7fffdb, 0x7fffdc, 0x7fffdd, 0x7fffde, 0xffffeb, 0x7fffdf,
  0xffffec, 0xffffed, 0x3fffd7, 0x7fffe0, 0xffffee, 0x7fffe1, 0x7fffe2, 0x7fffe3,
  0x7fffe4, 0x1fffdc, 0x3fffd8, 0x7fffe5, 0x3fffd9, 0x7fffe6, 0x7fffe7, 0xffffef,
  0x3fffda, 0x1fffdd, 0xfffe9, 0x3fffdb, 0x3fffdc, 0x7fffe8, 0x7fffe9, 0x1fffde,
  0x7fffea, 0x3fffdd, 0x3fffde, 0xfffff0, 0x1fffdf, 0x3fffdf, 0x7fffeb, 0x7fffec,
  0x1fffe0, 0x1fffe1, 0x3fffe0, 0x1fffe2, 0x7fffed, 0x3fffe1, 0x7fffee, 0x7fffef,
  0xfffea, 0x3fffe2, 0x3fffe3, 0x3fffe4, 0x7ffff0, 0x3fffe5, 0x3fffe6, 0x7ffff1,
  0x3ffffe0, 0x3ffffe1, 0xfffeb, 0x7fff1, 0x3fffe7, 0x7ffff2, 0x3fffe8, 0x1ffffec,
  0x3ffffe2, 0x3ffffe3, 0x3ffffe4, 0x7ffffde, 0x7ffffdf, 0x3ffffe5, 0xfffff1, 0x1ffffed,
  0x7fff2, 0x1fffe3, 0x3ffffe6, 0x7ffffe0, 0x7ffffe1, 0x3ffffe7, 0x7ffffe2, 0xfffff2,
  0x1fffe4, 0x1fffe5, 0x3ffffe8, 0x3ffffe9, 0xffffffd, 0x7ffffe3, 0x7ffffe4, 0x7ffffe5,
  0xfffec, 0xfffff3, 0xfffed, 0x1fffe6, 0x3fffe9, 0x1fffe7, 0x1fffe8, 0x7ffff3,
  0x3fffea, 0x3fffeb, 0x1ffffee, 0x1ffffef, 0xfffff4, 0xfffff5, 0x3ffffea, 0x7ffff4,
  0x3ffffeb, 0x7ffffe6, 0x3ffffec, 0x3ffffed, 0x7ffffe7, 0x7ffffe8, 0x7ffffe9, 0x7ffffea,
  0x7ffffeb, 0xffffffe, 0x7ffffec, 0x7ffffed, 0x7ffffee, 0x7ffffef, 0x7fffff0, 0x3ffffee]

/-- `huffman_code_len`: the number of bits of each code. -/
def huffmanCodeLen : List Nat := [
  13, 23, 28, 28, 28, 28, 28, 28, 28, 24, 30, 28, 28, 30, 28, 28,
  28, 28, 28, 28, 28, 28, 30, 28, 28, 28, 28, 28, 28, 28, 28, 28,
  6, 10, 10, 12, 13, 6, 8, 11, 10, 10, 8, 11, 8, 6, 6, 6,
  5, 5, 5, 6, 6, 6, 6, 6, 6, 6, 7, 8, 15, 6, 12, 10,
  13, 6, 7, 7, 7, 7, 7, 7, 7, 7, 7, 7, 7, 7, 7, 7,
  7, 7, 7, 7, 7, 7, 7, 7, 8, 7, 8, 13, 19, 13, 14, 6,
  15, 5, 6, 5, 6, 5, 6, 6, 6, 5, 7, 7, 6, 6, 6, 5,
  6, 7, 6, 5, 5, 6, 7, 7, 7, 7, 7, 15, 11, 14, 13, 28,
  20, 22, 20, 20, 22, 22, 22, 23, 22, 23, 23, 23, 23, 23, 24, 23,
  24, 24, 22, 23, 24, 23, 23, 23, 23, 21, 22, 23, 22, 23, 23, 24,
  22, 21, 20, 22, 22, 23, 23, 21, 23, 22, 22, 24, 21, 22, 23, 23,
  21, 21, 22, 21, 23, 22, 23, 23, 20, 22, 22, 22, 23, 22, 22, 23,
  26, 26, 20, 19, 22, 23, 22, 25, 26, 26, 26, 27, 27, 26, 24, 25,
  19, 21, 26, 27, 27, 26, 27, 24, 21, 21, 26, 26, 28, 27, 27, 27,
  20, 24, 20, 21, 22, 21, 21, 23, 22, 22, 25, 25, 24, 24, 26, 23,
  26, 27, 26, 26, 27, 27, 27, 27, 27, 28, 27, 27, 27, 27, 27, 26]

/-- `HEX_TO_HF_CODE`. -/
def hexToHfCode (symbol : UInt8) : Nat :=
  huffmanCodes.getD symbol.toNat 0

/-- `HEX_TO_HF_CODE_LEN`. -/
def hexToHfCodeLen (symbol : UInt8) : Nat :=
  huffmanCodeLen.getD symbol.toNat 0

/-- The bits of one symbol's code, in transmission order. -/
def codeBits (symbol : UInt8) : List Bool :=
  bitsOf (hexToHfCodeLen symbol) (hexToHfCode symbol)

@[simp]
theorem length_codeBits (symbol : UInt8) :
    (codeBits symbol).length = hexToHfCodeLen symbol :=
  length_bitsOf _ _

/-- The rows of the table: a code and its length. -/
def rows : List (Nat × Nat) :=
  huffmanCodes.zip huffmanCodeLen

theorem length_huffmanCodes : huffmanCodes.length = 256 := by decide +kernel

theorem length_huffmanCodeLen : huffmanCodeLen.length = 256 := by decide +kernel

theorem length_rows : rows.length = 256 := by
  rw [rows, List.length_zip, length_huffmanCodes, length_huffmanCodeLen, Nat.min_self]

theorem row_eq (symbol : UInt8) :
    rows[symbol.toNat]? = some (hexToHfCode symbol, hexToHfCodeLen symbol) := by
  have codeBound : symbol.toNat < huffmanCodes.length := by
    rw [length_huffmanCodes]; exact symbol.toNat_lt
  have lenBound : symbol.toNat < huffmanCodeLen.length := by
    rw [length_huffmanCodeLen]; exact symbol.toNat_lt
  rw [rows, List.getElem?_zip_eq_some, hexToHfCode, hexToHfCodeLen,
    List.getD_eq_getElem _ _ codeBound, List.getD_eq_getElem _ _ lenBound]
  exact ⟨List.getElem?_eq_getElem codeBound, List.getElem?_eq_getElem lenBound⟩

theorem row_mem (symbol : UInt8) :
    (hexToHfCode symbol, hexToHfCodeLen symbol) ∈ rows :=
  List.mem_of_getElem? (row_eq symbol)

private theorem rows_fit :
    ∀ row ∈ rows, 5 ≤ row.2 ∧ row.2 ≤ 30 ∧ row.1 < 2 ^ row.2 := by
  decide +kernel

theorem five_le_hexToHfCodeLen (symbol : UInt8) : 5 ≤ hexToHfCodeLen symbol :=
  (rows_fit _ (row_mem symbol)).1

theorem hexToHfCodeLen_le (symbol : UInt8) : hexToHfCodeLen symbol ≤ 30 :=
  (rows_fit _ (row_mem symbol)).2.1

theorem hexToHfCode_lt (symbol : UInt8) :
    hexToHfCode symbol < 2 ^ hexToHfCodeLen symbol :=
  (rows_fit _ (row_mem symbol)).2.2

/-- The shorter of two codes is not the beginning of the longer one. -/
def rowsApart (first second : Nat × Nat) : Bool :=
  bif Nat.ble first.2 second.2 then
    !Nat.beq (second.1 >>> (second.2 - first.2)) first.1
  else !Nat.beq (first.1 >>> (first.2 - second.2)) second.1

/-- Every row is apart from all rows after it. -/
def allApart : List (Nat × Nat) → Bool
  | [] => true
  | row :: rest => rest.all (rowsApart row) && allApart rest

theorem pairwise_of_allApart {table : List (Nat × Nat)}
    (apart : allApart table = true) :
    table.Pairwise fun first second => rowsApart first second = true := by
  induction table with
  | nil => exact List.Pairwise.nil
  | cons row rest ih =>
      simp only [allApart, Bool.and_eq_true, List.all_eq_true] at apart
      exact List.Pairwise.cons apart.1 (ih apart.2)

private theorem allApart_rows : allApart rows = true := by
  decide +kernel

theorem rowsApart_iff {first second : Nat × Nat} :
    rowsApart first second = true ↔
      if first.2 ≤ second.2 then second.1 >>> (second.2 - first.2) ≠ first.1
      else first.1 >>> (first.2 - second.2) ≠ second.1 := by
  unfold rowsApart
  cases compared : Nat.ble first.2 second.2 with
  | false =>
      have : ¬ first.2 ≤ second.2 := by rw [← Nat.ble_eq, compared]; simp
      rw [cond_false, if_neg this, Bool.not_eq_true', ← Bool.not_eq_true, Nat.beq_eq]
  | true =>
      rw [cond_true, if_pos (Nat.ble_eq ▸ compared), Bool.not_eq_true',
        ← Bool.not_eq_true, Nat.beq_eq]

theorem shiftRight_ne_of_rowsApart {first second : Nat × Nat}
    (apart : rowsApart first second = true ∨ rowsApart second first = true)
    (shorter : first.2 ≤ second.2) :
    second.1 >>> (second.2 - first.2) ≠ first.1 := by
  rw [rowsApart_iff, rowsApart_iff, if_pos shorter] at apart
  rcases apart with apart | apart
  · exact apart
  · by_cases equal : second.2 ≤ first.2
    · rw [if_pos equal] at apart
      have sameLength : first.2 = second.2 := by omega
      rw [sameLength, Nat.sub_self, Nat.shiftRight_zero] at apart ⊢
      exact apart.symm
    · rwa [if_neg equal] at apart

theorem apart_of_ne {first second : UInt8} (different : first ≠ second) :
    rowsApart (hexToHfCode first, hexToHfCodeLen first)
        (hexToHfCode second, hexToHfCodeLen second) = true ∨
      rowsApart (hexToHfCode second, hexToHfCodeLen second)
        (hexToHfCode first, hexToHfCodeLen first) = true := by
  have apart := List.pairwise_iff_getElem.mp (pairwise_of_allApart allApart_rows)
  obtain ⟨firstBound, firstRow⟩ := List.getElem?_eq_some_iff.mp (row_eq first)
  obtain ⟨secondBound, secondRow⟩ := List.getElem?_eq_some_iff.mp (row_eq second)
  rw [← firstRow, ← secondRow]
  rcases Nat.lt_trichotomy first.toNat second.toNat with less | equal | greater
  · exact Or.inl (apart _ _ firstBound secondBound less)
  · exact absurd (UInt8.toNat_inj.mp equal) different
  · exact Or.inr (apart _ _ secondBound firstBound greater)

/-- No code is the beginning of another one. -/
theorem codeBits_prefixFree {first second : UInt8}
    (isBeginning : codeBits first <+: codeBits second) : first = second := by
  by_contra different
  have shorter : hexToHfCodeLen first ≤ hexToHfCodeLen second := by
    simpa using isBeginning.length_le
  apply shiftRight_ne_of_rowsApart (apart_of_ne different) shorter
  dsimp only
  obtain ⟨rest, equal⟩ := isBeginning
  have split := bitsOf_add (hexToHfCodeLen first)
    (hexToHfCodeLen second - hexToHfCodeLen first) (hexToHfCode second)
  rw [Nat.add_sub_cancel' shorter] at split
  rw [codeBits, codeBits, split] at equal
  have heads := (List.append_inj equal (by simp)).1
  rw [Nat.shiftRight_eq_div_pow]
  refine (bitsOf_injective (hexToHfCode_lt first) ?_ heads).symm
  rw [Nat.div_lt_iff_lt_mul (Nat.two_pow_pos _), ← Nat.pow_add,
    Nat.add_sub_cancel' shorter]
  exact hexToHfCode_lt second

/-- Two codes that both begin one bit string are the same code. -/
theorem codeBits_unique {first second : UInt8} {bits : List Bool}
    (firstBegins : codeBits first <+: bits)
    (secondBegins : codeBits second <+: bits) : first = second := by
  rcases List.prefix_or_prefix_of_prefix firstBegins secondBegins with less | less
  · exact codeBits_prefixFree less
  · exact (codeBits_prefixFree less).symm

theorem row_mem_iff {row : Nat × Nat} :
    row ∈ rows ↔ ∃ symbol, row = (hexToHfCode symbol, hexToHfCodeLen symbol) := by
  constructor
  · intro member
    obtain ⟨index, bound, rfl⟩ := List.getElem_of_mem member
    have small : index < 256 := by rwa [length_rows] at bound
    refine ⟨UInt8.ofNat index, ?_⟩
    have found := row_eq (UInt8.ofNat index)
    rw [UInt8.toNat_ofNat', Nat.mod_eq_of_lt small, List.getElem?_eq_getElem bound] at found
    exact Option.some.inj found
  · rintro ⟨symbol, rfl⟩
    exact row_mem symbol

/-- The rows are intervals of 30-bit numbers that follow each other from
`start` to `stop`. -/
def tilesFrom (stop : Nat) : Nat → List (Nat × Nat) → Bool
  | start, [] => Nat.beq start stop
  | start, row :: rest =>
      Nat.beq (row.1 * 2 ^ (30 - row.2)) start &&
        tilesFrom stop (start + 2 ^ (30 - row.2)) rest

theorem exists_row_of_tilesFrom {stop start : Nat} {table : List (Nat × Nat)}
    (tiles : tilesFrom stop start table = true) {number : Nat}
    (above : start ≤ number) (below : number < stop) :
    ∃ row ∈ table, number / 2 ^ (30 - row.2) = row.1 := by
  induction table generalizing start with
  | nil =>
      have : start = stop := Nat.eq_of_beq_eq_true tiles
      omega
  | cons row rest ih =>
      simp only [tilesFrom, Bool.and_eq_true] at tiles
      have first : row.1 * 2 ^ (30 - row.2) = start := Nat.eq_of_beq_eq_true tiles.1
      by_cases inFirst : number < start + 2 ^ (30 - row.2)
      · refine ⟨row, by simp, ?_⟩
        rw [Nat.div_eq_iff (Nat.two_pow_pos _), Nat.mul_comm]
        rw [Nat.mul_comm] at first
        omega
      · obtain ⟨found, member, equal⟩ := ih tiles.2 (by omega)
        exact ⟨found, by simp [member], equal⟩

/-- The rows in the order of their codes, read as binary fractions. -/
def sortedRows : List (Nat × Nat) :=
  rows.insertionSort fun first second =>
    first.1 * 2 ^ (30 - first.2) ≤ second.1 * 2 ^ (30 - second.2)

private theorem tilesFrom_sortedRows :
    tilesFrom (2 ^ 30 - 1) 0 sortedRows = true := by
  decide +kernel

/-- Thirty bits begin with a code, unless all of them are ones. -/
theorem codeBits_complete {bits : List Bool} (length : bits.length = 30) :
    (∃ symbol, codeBits symbol <+: bits) ∨ bits = List.replicate 30 true := by
  have bound := ofBits_lt bits
  have written := bitsOf_ofBits bits
  rw [length] at bound written
  by_cases last : ofBits bits = 2 ^ 30 - 1
  · right
    rw [← written, last, bitsOf_all_ones]
  · left
    obtain ⟨row, member, quotient⟩ := exists_row_of_tilesFrom tilesFrom_sortedRows
      (Nat.zero_le (ofBits bits)) (by omega)
    rw [sortedRows, List.mem_insertionSort, row_mem_iff] at member
    obtain ⟨symbol, rfl⟩ := member
    refine ⟨symbol, ?_⟩
    have split := bitsOf_add (hexToHfCodeLen symbol) (30 - hexToHfCodeLen symbol)
      (ofBits bits)
    rw [Nat.add_sub_cancel' (hexToHfCodeLen_le symbol), written, quotient] at split
    exact ⟨_, split.symm⟩

end Huffman

end HeapHttpd
