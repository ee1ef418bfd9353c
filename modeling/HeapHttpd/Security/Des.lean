import HeapHttpd.Library.BitString
import HeapHttpd.Library.Feistel
import HeapHttpd.Library.Outcome
import HeapHttpd.Library.Selection
import Mathlib.Data.BitVec

/-!
# The Data Encryption Standard

The class `DES`, with the tables it computes at the start: nibble by nibble for the permutations,
and for the S-boxes together with the permutation behind them.
-/

namespace HeapHttpd

namespace Security

open BitString Selection

/-! ## The tables -/

/-- The initial permutation. -/
def ip : List Nat :=
  [58, 50, 42, 34, 26, 18, 10, 2, 60, 52, 44, 36, 28, 20, 12, 4,
    62, 54, 46, 38, 30, 22, 14, 6, 64, 56, 48, 40, 32, 24, 16, 8,
    57, 49, 41, 33, 25, 17, 9, 1, 59, 51, 43, 35, 27, 19, 11, 3,
    61, 53, 45, 37, 29, 21, 13, 5, 63, 55, 47, 39, 31, 23, 15, 7]

/-- The final permutation. -/
def fp : List Nat :=
  [40, 8, 48, 16, 56, 24, 64, 32, 39, 7, 47, 15, 55, 23, 63, 31,
    38, 6, 46, 14, 54, 22, 62, 30, 37, 5, 45, 13, 53, 21, 61, 29,
    36, 4, 44, 12, 52, 20, 60, 28, 35, 3, 43, 11, 51, 19, 59, 27,
    34, 2, 42, 10, 50, 18, 58, 26, 33, 1, 41, 9, 49, 17, 57, 25]

/-- The permuted choice of bits of a key. -/
def pc1 : List Nat :=
  [57, 49, 41, 33, 25, 17, 9, 1, 58, 50, 42, 34, 26, 18,
    10, 2, 59, 51, 43, 35, 27, 19, 11, 3, 60, 52, 44, 36,
    63, 55, 47, 39, 31, 23, 15, 7, 62, 54, 46, 38, 30, 22,
    14, 6, 61, 53, 45, 37, 29, 21, 13, 5, 28, 20, 12, 4]

/-- How far the halves of a key are rotated, all in all, before each round. -/
def totrot : List Nat :=
  [1, 2, 4, 6, 8, 10, 12, 14, 15, 17, 19, 21, 23, 25, 27, 28]

/-- The permuted choice of bits for a round. -/
def pc2 : List Nat :=
  [14, 17, 11, 24, 1, 5, 3, 28, 15, 6, 21, 10, 23, 19, 12, 4, 26, 8, 16, 7, 27, 20, 13, 2,
    41, 52, 31, 37, 47, 55, 30, 40, 51, 45, 33, 48, 44, 49, 39, 56, 34, 53, 46, 42, 50, 36, 29, 32]

/-- The S-boxes. -/
def si : List (List Nat) :=
  [[14, 4, 13, 1, 2, 15, 11, 8, 3, 10, 6, 12, 5, 9, 0, 7,
    0, 15, 7, 4, 14, 2, 13, 1, 10, 6, 12, 11, 9, 5, 3, 8,
    4, 1, 14, 8, 13, 6, 2, 11, 15, 12, 9, 7, 3, 10, 5, 0,
    15, 12, 8, 2, 4, 9, 1, 7, 5, 11, 3, 14, 10, 0, 6, 13],
   [15, 1, 8, 14, 6, 11, 3, 4, 9, 7, 2, 13, 12, 0, 5, 10,
    3, 13, 4, 7, 15, 2, 8, 14, 12, 0, 1, 10, 6, 9, 11, 5,
    0, 14, 7, 11, 10, 4, 13, 1, 5, 8, 12, 6, 9, 3, 2, 15,
    13, 8, 10, 1, 3, 15, 4, 2, 11, 6, 7, 12, 0, 5, 14, 9],
   [10, 0, 9, 14, 6, 3, 15, 5, 1, 13, 12, 7, 11, 4, 2, 8,
    13, 7, 0, 9, 3, 4, 6, 10, 2, 8, 5, 14, 12, 11, 15, 1,
    13, 6, 4, 9, 8, 15, 3, 0, 11, 1, 2, 12, 5, 10, 14, 7,
    1, 10, 13, 0, 6, 9, 8, 7, 4, 15, 14, 3, 11, 5, 2, 12],
   [7, 13, 14, 3, 0, 6, 9, 10, 1, 2, 8, 5, 11, 12, 4, 15,
    13, 8, 11, 5, 6, 15, 0, 3, 4, 7, 2, 12, 1, 10, 14, 9,
    10, 6, 9, 0, 12, 11, 7, 13, 15, 1, 3, 14, 5, 2, 8, 4,
    3, 15, 0, 6, 10, 1, 13, 8, 9, 4, 5, 11, 12, 7, 2, 14],
   [2, 12, 4, 1, 7, 10, 11, 6, 8, 5, 3, 15, 13, 0, 14, 9,
    14, 11, 2, 12, 4, 7, 13, 1, 5, 0, 15, 10, 3, 9, 8, 6,
    4, 2, 1, 11, 10, 13, 7, 8, 15, 9, 12, 5, 6, 3, 0, 14,
    11, 8, 12, 7, 1, 14, 2, 13, 6, 15, 0, 9, 10, 4, 5, 3],
   [12, 1, 10, 15, 9, 2, 6, 8, 0, 13, 3, 4, 14, 7, 5, 11,
    10, 15, 4, 2, 7, 12, 9, 5, 6, 1, 13, 14, 0, 11, 3, 8,
    9, 14, 15, 5, 2, 8, 12, 3, 7, 0, 4, 10, 1, 13, 11, 6,
    4, 3, 2, 12, 9, 5, 15, 10, 11, 14, 1, 7, 6, 0, 8, 13],
   [4, 11, 2, 14, 15, 0, 8, 13, 3, 12, 9, 7, 5, 10, 6, 1,
    13, 0, 11, 7, 4, 9, 1, 10, 14, 3, 5, 12, 2, 15, 8, 6,
    1, 4, 11, 13, 12, 3, 7, 14, 10, 15, 6, 8, 0, 5, 9, 2,
    6, 11, 13, 8, 1, 4, 10, 7, 9, 5, 0, 15, 14, 2, 3, 12],
   [13, 2, 8, 4, 6, 15, 11, 1, 10, 9, 3, 14, 5, 0, 12, 7,
    1, 15, 13, 8, 10, 3, 7, 4, 12, 5, 6, 11, 0, 14, 9, 2,
    7, 11, 4, 1, 9, 12, 14, 2, 0, 6, 10, 13, 15, 3, 5, 8,
    2, 1, 14, 7, 4, 10, 8, 13, 15, 12, 9, 0, 3, 5, 6, 11]]

/-- The permutation behind the S-boxes. -/
def p32i : List Nat :=
  [16, 7, 20, 21, 29, 12, 28, 17, 1, 15, 23, 26, 5, 18, 31, 10,
    2, 8, 24, 14, 32, 27, 3, 9, 19, 13, 30, 6, 22, 11, 4, 25]

/-- Bit 0 is the left-most one of an octet. -/
def bytebit : List UInt8 :=
  [0o200, 0o100, 0o40, 0o20, 0o10, 0o4, 0o2, 0o1]

def nibblebit : List Nat :=
  [0o10, 0o4, 0o2, 0o1]

/-! ## The class -/

/-- A word in memory on a little-endian machine. -/
def wordOf (octets : List UInt8) : BitVec 32 :=
  BitVec.ofNat 32 ((octets.getD 0 0).toNat + 2 ^ 8 * (octets.getD 1 0).toNat +
    2 ^ 16 * (octets.getD 2 0).toNat + 2 ^ 24 * (octets.getD 3 0).toNat)

def octetsOf (word : BitVec 32) : List UInt8 :=
  [UInt8.ofNat word.toNat, UInt8.ofNat (word.toNat / 2 ^ 8), UInt8.ofNat (word.toNat / 2 ^ 16),
    UInt8.ofNat (word.toNat / 2 ^ 24)]

def byteswap (word : BitVec 32) : BitVec 32 :=
  wordOf (octetsOf word).reverse

/-- What `perminit` makes of a table: for a nibble of the input and its value, the octets of the
output that come of it. -/
def perminit (p : List Nat) : List (List (List UInt8)) :=
  (List.range 16).map fun i => (List.range 16).map fun j =>
    (List.range 64).foldl
      (fun entry k =>
        let l := p.getD k 0 - 1
        if l >>> 2 ≠ i then entry
        else if j &&& nibblebit.getD (l &&& 3) 0 = 0 then entry
        else entry.modify (k >>> 3) (· ||| bytebit.getD (k &&& 7) 0))
      (List.replicate 8 0)

/-- `permute`; without a table the block is copied. -/
def permute (inblock : List UInt8) : Option (List (List (List UInt8))) → List UInt8
  | none => inblock.take 8
  | some perm =>
      (List.range 8).foldl
        (fun outblock ib =>
          let octet := (inblock.getD ib 0).toNat
          let p := (perm.getD (2 * ib) []).getD (octet >>> 4 &&& 0o17) []
          let q := (perm.getD (2 * ib + 1) []).getD (octet &&& 0o17) []
          List.zipWith (· ||| ·) outblock (List.zipWith (· ||| ·) p q))
        (List.replicate 8 0)

/-- The inverse of `p32i`. -/
def pbox : List Nat :=
  (List.range 32).map fun p => p32i.findIdx (· - 1 = p)

/-- The row comes from the first and last bits, the column from the middle ones. -/
def rowcol (i : Nat) : Nat :=
  i &&& 32 ||| (if i &&& 1 ≠ 0 then 16 else 0) ||| (i >>> 1 &&& 0xf)

/-- An S-box and the permutation behind it. -/
def spinit : List (List (BitVec 32)) :=
  (List.range 8).map fun s => (List.range 64).map fun i =>
    (List.range 4).foldl
      (fun val j =>
        if (si.getD s []).getD (rowcol i) 0 &&& 8 >>> j ≠ 0 then
          val ||| 1#32 <<< (31 - pbox.getD (4 * s + j) 0)
        else val)
      0

/-- The members of `DES`. -/
structure Des where
  desmode : Nat
  sp : List (List (BitVec 32))
  kn : List (List UInt8)
  iperm : Option (List (List (List UInt8)))
  fperm : Option (List (List (List UInt8)))

/-- `Init` of a new object. -/
def Des.init (mode : Nat) : Des :=
  if mode = 1 ∨ mode = 2 then
    { desmode := mode, sp := spinit, kn := [], iperm := none, fperm := none }
  else
    { desmode := mode, sp := spinit, kn := []
      iperm := some (perminit ip), fperm := some (perminit fp) }

/-- The bits that `pc1` takes from a key. -/
def pc1m (key : List UInt8) : List Bool :=
  pc1.map fun place =>
    let l := place - 1
    key.getD (l >>> 3) 0 &&& bytebit.getD (l &&& 0o7) 0 ≠ 0

/-- The halves rotated for a round. -/
def pcr (key : List UInt8) (i : Nat) : List Bool :=
  (List.range 56).map fun j =>
    let l := j + totrot.getD i 0
    (pc1m key).getD (if l < (if j < 28 then 28 else 56) then l else l - 28) false

/-- The eight groups of six bits for a round. -/
def subkey (key : List UInt8) (i : Nat) : List UInt8 :=
  (List.range 48).foldl
    (fun groups j =>
      if (pcr key i).getD (pc2.getD j 0 - 1) false then
        groups.modify (j / 6) (· ||| bytebit.getD (j % 6) 0 >>> 2)
      else groups)
    (List.replicate 8 0)

/-- `SetKey`, which reads 8 octets, or 128 if they are the groups. -/
def Des.setKey (des : Des) (key : List UInt8) : Outcome Des :=
  if des.desmode = 2 then
    if key.length < 128 then .fault
    else .ok { des with kn := (List.range 16).map fun i => (key.drop (8 * i)).take 8 }
  else if key.length < 8 then .fault
  else .ok { des with kn := (List.range 16).map (subkey key) }

/-- The nonlinear function. -/
def Des.f (des : Des) (r : BitVec 32) (subkey : List UInt8) : BitVec 32 :=
  let box (s : Nat) (group : Nat) : BitVec 32 :=
    (des.sp.getD s []).getD ((group ^^^ (subkey.getD s 0).toNat) &&& 0x3f) 0
  let rt := r >>> 1 ||| (if r &&& 1 ≠ 0 then 0x80000000 else 0)
  let rval := (List.range 7).foldl (fun rval s => rval ||| box s (rt >>> (26 - 4 * s)).toNat) 0
  let rt := r <<< 1 ||| (if r &&& 0x80000000 ≠ 0 then 1 else 0)
  rval ||| box 7 rt.toNat

/-- `round`. -/
def Des.round (des : Des) (num : Nat) (block : BitVec 32 × BitVec 32) : BitVec 32 × BitVec 32 :=
  if num &&& 1 ≠ 0 then (block.1, block.2 ^^^ des.f block.1 (des.kn.getD num []))
  else (block.1 ^^^ des.f block.2 (des.kn.getD num []), block.2)

/-- The two words of a block. -/
def loadWork (block : List UInt8) : BitVec 32 × BitVec 32 :=
  (byteswap (wordOf block), byteswap (wordOf (block.drop 4)))

def storeWork (work : BitVec 32 × BitVec 32) : List UInt8 :=
  octetsOf (byteswap work.1) ++ octetsOf (byteswap work.2)

/-- `Encode`. -/
def Des.encode (des : Des) (block : List UInt8) : List UInt8 :=
  let work := loadWork (permute block des.iperm)
  let work := (List.range 16).foldl (fun work i => des.round i work) work
  permute (storeWork work.swap) des.fperm

/-- `Decode`. -/
def Des.decode (des : Des) (block : List UInt8) : List UInt8 :=
  let work := (loadWork (permute block des.iperm)).swap
  let work := (List.range 16).reverse.foldl (fun work i => des.round i work) work
  permute (storeWork work) des.fperm

/-! ## Words in memory -/

theorem toNat_wordOf (octets : List UInt8) :
    (wordOf octets).toNat = (octets.getD 0 0).toNat + 2 ^ 8 * (octets.getD 1 0).toNat +
      2 ^ 16 * (octets.getD 2 0).toNat + 2 ^ 24 * (octets.getD 3 0).toNat := by
  have first := (octets.getD 0 0).toNat_lt
  have second := (octets.getD 1 0).toNat_lt
  have third := (octets.getD 2 0).toNat_lt
  have fourth := (octets.getD 3 0).toNat_lt
  rw [wordOf, BitVec.toNat_ofNat, Nat.mod_eq_of_lt]
  omega

theorem octetsOf_wordOf (a b c d : UInt8) (rest : List UInt8) :
    octetsOf (wordOf (a :: b :: c :: d :: rest)) = [a, b, c, d] := by
  have boundA := a.toNat_lt
  have boundB := b.toNat_lt
  have boundC := c.toNat_lt
  have boundD := d.toNat_lt
  have value := toNat_wordOf (a :: b :: c :: d :: rest)
  simp only [List.getD_cons_zero, List.getD_cons_succ] at value
  have octet (number : Nat) (octet : UInt8) (same : number % 2 ^ 8 = octet.toNat) :
      UInt8.ofNat number = octet := by
    rw [← UInt8.toNat_inj, UInt8.toNat_ofNat', same]
  rw [octetsOf, value]
  rw [octet _ a (by omega), octet _ b (by omega), octet _ c (by omega), octet _ d (by omega)]

theorem wordOf_octetsOf (word : BitVec 32) : wordOf (octetsOf word) = word := by
  apply BitVec.eq_of_toNat_eq
  have bound := word.isLt
  rw [toNat_wordOf]
  simp only [octetsOf, List.getD_cons_zero, List.getD_cons_succ, UInt8.toNat_ofNat']
  omega

theorem byteswap_byteswap (word : BitVec 32) : byteswap (byteswap word) = word := by
  have swapped : octetsOf (wordOf (octetsOf word).reverse) = (octetsOf word).reverse :=
    octetsOf_wordOf _ _ _ _ []
  rw [byteswap, byteswap, swapped, List.reverse_reverse, wordOf_octetsOf]

theorem length_storeWork (work : BitVec 32 × BitVec 32) : (storeWork work).length = 8 :=
  rfl

theorem loadWork_storeWork (work : BitVec 32 × BitVec 32) : loadWork (storeWork work) = work := by
  have first : wordOf (storeWork work) = wordOf (octetsOf (byteswap work.1)) := rfl
  have second : (storeWork work).drop 4 = octetsOf (byteswap work.2) := rfl
  rw [loadWork, first, second, wordOf_octetsOf, wordOf_octetsOf, byteswap_byteswap,
    byteswap_byteswap]

theorem storeWork_loadWork {block : List UInt8} (whole : block.length = 8) :
    storeWork (loadWork block) = block := by
  match block, whole with
  | [a, b, c, d, e, f, g, h], _ =>
      rw [storeWork, loadWork, byteswap_byteswap, byteswap_byteswap, octetsOf_wordOf]
      exact congrArg ([a, b, c, d] ++ ·) (octetsOf_wordOf e f g h [])

/-! ## Permutations -/

theorem testBit_bytebit : ∀ place < 8, ∀ other < 8,
    (bytebit.getD place 0).toNat.testBit (7 - other) = decide (place = other) := by
  decide

theorem and_nibblebit : ∀ nibble < 16, ∀ place < 4,
    (nibble &&& nibblebit.getD place 0 ≠ 0) ↔ nibble.testBit (3 - place) = true := by
  decide

/-- The bit of the input that comes to a place is one of a nibble, and is set in it. -/
def comesOf (l i j : Nat) : Bool :=
  l >>> 2 = i ∧ j &&& nibblebit.getD (l &&& 3) 0 ≠ 0

/-- The loop of `perminit` for one entry. -/
def entryLoop (p : List Nat) (i j count : Nat) : List UInt8 :=
  (List.range count).foldl
    (fun entry k =>
      let l := p.getD k 0 - 1
      if l >>> 2 ≠ i then entry
      else if j &&& nibblebit.getD (l &&& 3) 0 = 0 then entry
      else entry.modify (k >>> 3) (· ||| bytebit.getD (k &&& 7) 0))
    (List.replicate 8 0)

theorem entryLoop_succ (p : List Nat) (i j count : Nat) :
    entryLoop p i j (count + 1) =
      if comesOf (p.getD count 0 - 1) i j then
        (entryLoop p i j count).modify (count / 8) (· ||| bytebit.getD (count % 8) 0)
      else entryLoop p i j count := by
  have low : count &&& 7 = count % 8 := Nat.and_two_pow_sub_one_eq_mod count 3
  have high : count >>> 3 = count / 8 := Nat.shiftRight_eq_div_pow count 3
  rw [entryLoop, List.range_succ, List.foldl_append]
  simp only [List.foldl_cons, List.foldl_nil, comesOf, low, high]
  rw [← entryLoop]
  generalize p.getD count 0 - 1 = l
  by_cases here : l >>> 2 = i
  · by_cases none' : j &&& nibblebit.getD (l &&& 3) 0 = 0
    · simp only [here, none', ne_eq, not_true_eq_false, if_false, if_true, and_false, decide_false,
        Bool.false_eq_true]
    · simp only [here, none', ne_eq, not_true_eq_false, not_false_eq_true, if_false, and_true,
        decide_true, if_true]
  · simp only [here, ne_eq, not_false_eq_true, if_true, false_and, decide_false,
      Bool.false_eq_true, if_false]

theorem length_entryLoop (p : List Nat) (i j count : Nat) :
    (entryLoop p i j count).length = 8 := by
  induction count with
  | zero => rfl
  | succ count ih =>
      rw [entryLoop_succ]
      split
      · rw [List.length_modify, ih]
      · exact ih

theorem testBit_entryLoop (p : List Nat) (i j : Nat) {count m t : Nat} (few : count ≤ 64)
    (octet : m < 8) (bit : t < 8) :
    ((entryLoop p i j count).getD m 0).toNat.testBit (7 - t) =
      (decide (8 * m + t < count) && comesOf (p.getD (8 * m + t) 0 - 1) i j) := by
  induction count with
  | zero =>
      have zeros : (entryLoop p i j 0).getD m 0 = 0 := by
        rw [entryLoop, List.range_zero, List.foldl_nil, List.getD_replicate _ octet]
      rw [zeros]
      simp
  | succ count ih =>
      have before := ih (by omega)
      have length := length_entryLoop p i j count
      rw [entryLoop_succ]
      by_cases comes : comesOf (p.getD count 0 - 1) i j
      · rw [if_pos comes]
        by_cases here : count / 8 = m
        · subst here
          rw [List.getD_eq_getElem _ _ (by rw [List.length_modify]; omega), List.getElem_modify_eq,
            UInt8.toNat_or, Nat.testBit_or, ← List.getD_eq_getElem _ 0 (by omega), before,
            testBit_bytebit _ (by omega) _ bit]
          by_cases last : count % 8 = t
          · have whole : 8 * (count / 8) + t = count := by omega
            rw [whole, comes]
            simp [last]
          · have other : 8 * (count / 8) + t < count + 1 ↔ 8 * (count / 8) + t < count := by omega
            simp [last, other]
        · have other : 8 * m + t < count + 1 ↔ 8 * m + t < count := by omega
          rw [List.getD_eq_getElem _ _ (by rw [List.length_modify]; omega),
            List.getElem_modify_ne _ _ here, ← List.getD_eq_getElem _ 0 (by omega), before]
          simp [other]
      · rw [if_neg comes, before]
        by_cases last : 8 * m + t = count
        · rw [Bool.not_eq_true] at comes
          rw [last, comes, Bool.and_false, Bool.and_false]
        · have other : 8 * m + t < count + 1 ↔ 8 * m + t < count := by omega
          simp [other]

theorem getD_perminit (p : List Nat) {i j : Nat} (position : i < 16) (value : j < 16) :
    ((perminit p).getD i []).getD j [] = entryLoop p i j 64 := by
  have inside : i < ((List.range 16).map fun i => (List.range 16).map fun j =>
      entryLoop p i j 64).length := by
    rw [List.length_map, List.length_range]
    exact position
  have inside' : j < ((List.range 16).map fun j => entryLoop p i j 64).length := by
    rw [List.length_map, List.length_range]
    exact value
  have tables : perminit p = (List.range 16).map fun i => (List.range 16).map fun j =>
      entryLoop p i j 64 := rfl
  rw [tables, List.getD_eq_getElem _ _ inside, List.getElem_map, List.getElem_range,
    List.getD_eq_getElem _ _ inside', List.getElem_map, List.getElem_range]

theorem comesOf_eq {l i j : Nat} (value : j < 16) :
    comesOf l i j = (decide (l / 4 = i) && j.testBit (3 - l % 4)) := by
  have low : l &&& 3 = l % 4 := Nat.and_two_pow_sub_one_eq_mod l 2
  have high : l >>> 2 = l / 4 := Nat.shiftRight_eq_div_pow l 2
  rw [comesOf, Bool.decide_and, low, high, Bool.decide_congr (and_nibblebit j value _ (by omega)),
    Bool.decide_eq_true]

/-- The loop of `permute` with the table for a permutation. -/
def permuteLoop (p : List Nat) (inblock : List UInt8) (count : Nat) : List UInt8 :=
  (List.range count).foldl
    (fun outblock ib =>
      let octet := (inblock.getD ib 0).toNat
      let p' := ((perminit p).getD (2 * ib) []).getD (octet >>> 4 &&& 0o17) []
      let q := ((perminit p).getD (2 * ib + 1) []).getD (octet &&& 0o17) []
      List.zipWith (· ||| ·) outblock (List.zipWith (· ||| ·) p' q))
    (List.replicate 8 0)

theorem permuteLoop_succ (p : List Nat) (inblock : List UInt8) {count : Nat} (few : count < 8) :
    permuteLoop p inblock (count + 1) =
      List.zipWith (· ||| ·) (permuteLoop p inblock count)
        (List.zipWith (· ||| ·)
          (entryLoop p (2 * count) ((inblock.getD count 0).toNat / 16 % 16) 64)
          (entryLoop p (2 * count + 1) ((inblock.getD count 0).toNat % 16) 64)) := by
  have low (number : Nat) : number &&& 15 = number % 16 := Nat.and_two_pow_sub_one_eq_mod number 4
  rw [permuteLoop, List.range_succ, List.foldl_append]
  simp only [List.foldl_cons, List.foldl_nil]
  rw [← permuteLoop, low, low, Nat.shiftRight_eq_div_pow,
    getD_perminit p (by omega) (Nat.mod_lt _ (by omega)),
    getD_perminit p (by omega) (Nat.mod_lt _ (by omega))]

theorem length_permuteLoop (p : List Nat) (inblock : List UInt8) {count : Nat} (few : count ≤ 8) :
    (permuteLoop p inblock count).length = 8 := by
  induction count with
  | zero => rfl
  | succ count ih =>
      rw [permuteLoop_succ p inblock few, List.length_zipWith, List.length_zipWith,
        length_entryLoop, length_entryLoop, ih (by omega)]
      rfl

theorem getD_zipWith_or {first second : List UInt8} {place : Nat} (inside : place < first.length)
    (inside' : place < second.length) :
    (List.zipWith (· ||| ·) first second).getD place 0 =
      first.getD place 0 ||| second.getD place 0 := by
  rw [List.getD_eq_getElem _ _ (by rw [List.length_zipWith]; omega), List.getElem_zipWith,
    List.getD_eq_getElem _ _ inside, List.getD_eq_getElem _ _ inside']

/-- After some octets, the bits that come of them are in their places. -/
theorem testBit_permuteLoop (p : List Nat) (inblock : List UInt8) {count m t : Nat}
    (few : count ≤ 8) (octet : m < 8) (bit : t < 8) :
    ((permuteLoop p inblock count).getD m 0).toNat.testBit (7 - t) =
      (decide ((p.getD (8 * m + t) 0 - 1) / 8 < count) &&
        (inblock.getD ((p.getD (8 * m + t) 0 - 1) / 8) 0).toNat.testBit
          (7 - (p.getD (8 * m + t) 0 - 1) % 8)) := by
  induction count with
  | zero =>
      have zeros : (permuteLoop p inblock 0).getD m 0 = 0 := by
        rw [permuteLoop, List.range_zero, List.foldl_nil, List.getD_replicate _ octet]
      rw [zeros]
      simp
  | succ count ih =>
      have before := ih (by omega)
      have place : 8 * m + t < 64 := by omega
      have value := (inblock.getD count 0).toNat_lt
      rw [permuteLoop_succ p inblock (by omega),
        getD_zipWith_or (by rw [length_permuteLoop p inblock (by omega)]; omega)
          (by rw [List.length_zipWith, length_entryLoop, length_entryLoop]; omega),
        getD_zipWith_or (by rw [length_entryLoop]; omega) (by rw [length_entryLoop]; omega),
        UInt8.toNat_or, UInt8.toNat_or, Nat.testBit_or, Nat.testBit_or, before,
        testBit_entryLoop p _ _ le_rfl octet bit, testBit_entryLoop p _ _ le_rfl octet bit,
        comesOf_eq (Nat.mod_lt _ (by omega)), comesOf_eq (Nat.mod_lt _ (by omega)),
        decide_eq_true place, Bool.true_and, Bool.true_and]
      generalize p.getD (8 * m + t) 0 - 1 = l
      have high : ((inblock.getD count 0).toNat / 16 % 16).testBit (3 - l % 4) =
          (inblock.getD count 0).toNat.testBit (7 - l % 4) := by
        have sum : 3 - l % 4 + 4 = 7 - l % 4 := by omega
        rw [Nat.testBit_mod_two_pow _ 4, Nat.testBit_div_two_pow (n := 4), sum]
        simp
        omega
      have low : ((inblock.getD count 0).toNat % 16).testBit (3 - l % 4) =
          (inblock.getD count 0).toNat.testBit (3 - l % 4) := by
        rw [Nat.testBit_mod_two_pow _ 4]
        simp
        omega
      rw [high, low]
      by_cases here : l / 8 = count
      · by_cases first : l / 4 = 2 * count
        · have second : ¬l / 4 = 2 * count + 1 := by omega
          have same : l % 8 = l % 4 := by omega
          simp [here, first, same]
        · have second : l / 4 = 2 * count + 1 := by omega
          have same : 7 - l % 8 = 3 - l % 4 := by omega
          simp [here, second, same]
      · have first : ¬l / 4 = 2 * count := by omega
        have second : ¬l / 4 = 2 * count + 1 := by omega
        have other : l / 8 < count + 1 ↔ l / 8 < count := by omega
        simp [first, second, other]

/-- With the tables of `perminit`, `permute` selects the bits that a permutation names. -/
theorem bytesBits_permute {p : List Nat} (whole : p.length = 64)
    (places : ∀ place ∈ p, 0 < place ∧ place ≤ 64) (inblock : List UInt8) :
    bytesBits (permute inblock (some (perminit p))) = select p (bytesBits inblock) := by
  have length : (permuteLoop p inblock 8).length = 8 := length_permuteLoop p inblock le_rfl
  have isLoop : permute inblock (some (perminit p)) = permuteLoop p inblock 8 := rfl
  rw [isLoop]
  refine List.ext_getElem (by rw [length_bytesBits, length_select, length, whole]) ?_
  intro place inside inside'
  rw [length_bytesBits, length] at inside
  have inTable : place < p.length := by omega
  have chosen : (select p (bytesBits inblock)).getD place default = _ := getD_select inTable
  rw [← List.getD_eq_getElem _ false, ← List.getD_eq_getElem _ (default : Bool), chosen,
    getD_bytesBits, testBit_permuteLoop p inblock le_rfl (by omega) (by omega)]
  have index : 8 * (place / 8) + place % 8 = place := by omega
  obtain ⟨positive, bound⟩ : 0 < p.getD place 0 ∧ p.getD place 0 ≤ 64 := by
    rw [List.getD_eq_getElem _ _ inTable]
    exact places _ (List.getElem_mem inTable)
  rw [index, decide_eq_true (by omega), Bool.true_and]
  exact (getD_bytesBits inblock _).symm

theorem permute_none {block : List UInt8} (eight : block.length = 8) : permute block none = block :=
  List.take_of_length_le (by omega)

theorem length_permute_perminit (p : List Nat) (inblock : List UInt8) :
    (permute inblock (some (perminit p))).length = 8 :=
  length_permuteLoop p inblock le_rfl

/-- Permutations that undo each other undo each other on blocks. -/
theorem permute_permute {p q : List Nat} (whole : p.length = 64) (whole' : q.length = 64)
    (places : ∀ place ∈ p, 0 < place ∧ place ≤ 64) (places' : ∀ place ∈ q, 0 < place ∧ place ≤ 64)
    (undone : select q p = List.range' 1 64) {block : List UInt8} (eight : block.length = 8) :
    permute (permute block (some (perminit p))) (some (perminit q)) = block := by
  apply bytesBits_injective
  rw [bytesBits_permute whole' places', bytesBits_permute whole places]
  refine select_select_cancel (by rwa [whole]) ?_
  rwa [length_bytesBits, eight]

/-! ## Rounds -/

/-- The tables of a new object undo each other. -/
def Des.Permuting (des : Des) : Prop :=
  des.iperm = none ∧ des.fperm = none ∨
    des.iperm = some (perminit ip) ∧ des.fperm = some (perminit fp)

theorem Des.permuting_init (mode : Nat) : (Des.init mode).Permuting := by
  unfold Des.init
  split
  · exact Or.inl ⟨rfl, rfl⟩
  · exact Or.inr ⟨rfl, rfl⟩

theorem Des.permuting_of_setKey {des keyed : Des} {key : List UInt8}
    (set : des.setKey key = .ok keyed) (permuting : des.Permuting) : keyed.Permuting := by
  unfold Des.setKey at set
  split at set
  all_goals
    split at set
    · exact absurd set (by simp)
    · cases set
      exact permuting

theorem Des.permute_fperm_iperm {des : Des} (permuting : des.Permuting) {block : List UInt8}
    (eight : block.length = 8) : permute (permute block des.iperm) des.fperm = block := by
  obtain ⟨first, second⟩ | ⟨first, second⟩ := permuting
  · rw [first, second, permute_none eight, permute_none eight]
  · rw [first, second]
    exact permute_permute rfl rfl (by decide) (by decide) (by decide) eight

theorem Des.permute_iperm_fperm {des : Des} (permuting : des.Permuting) {block : List UInt8}
    (eight : block.length = 8) : permute (permute block des.fperm) des.iperm = block := by
  obtain ⟨first, second⟩ | ⟨first, second⟩ := permuting
  · rw [first, second, permute_none eight, permute_none eight]
  · rw [first, second]
    exact permute_permute rfl rfl (by decide) (by decide) (by decide) eight

theorem Des.length_permute {des : Des} (permuting : des.Permuting) {block : List UInt8}
    (eight : block.length = 8) : (permute block des.iperm).length = 8 := by
  obtain ⟨first, second⟩ | ⟨first, second⟩ := permuting
  · rw [first, permute_none eight, eight]
  · rw [first]
    exact length_permute_perminit ip block

/-- `round` is a round of a Feistel network in place. -/
theorem Des.round_eq (des : Des) (num : Nat) (block : BitVec 32 × BitVec 32) :
    des.round num block =
      Feistel.roundInPlace (· ^^^ ·) (fun num r => des.f r (des.kn.getD num [])) num block := by
  have low : num &&& 1 = num % 2 := Nat.and_two_pow_sub_one_eq_mod num 1
  have odd : num &&& 1 ≠ 0 ↔ num % 2 = 1 := by omega
  rw [Des.round, Feistel.roundInPlace, if_congr odd rfl rfl]

theorem Des.round_round (des : Des) (num : Nat) (block : BitVec 32 × BitVec 32) :
    des.round num (des.round num block) = block := by
  rw [Des.round_eq, Des.round_eq]
  refine Feistel.roundInPlace_roundInPlace _ (fun first second => ?_) num block
  rw [BitVec.xor_assoc, BitVec.xor_self, BitVec.xor_zero]

/-! ## Blocks -/

theorem Des.length_permute_fperm {des : Des} (permuting : des.Permuting) {block : List UInt8}
    (eight : block.length = 8) : (permute block des.fperm).length = 8 := by
  obtain ⟨first, second⟩ | ⟨first, second⟩ := permuting
  · rw [second, permute_none eight, eight]
  · rw [second]
    exact length_permute_perminit fp block

theorem Des.length_encode {des : Des} (permuting : des.Permuting) (block : List UInt8) :
    (des.encode block).length = 8 :=
  Des.length_permute_fperm permuting (length_storeWork _)

theorem Des.decode_encode {des : Des} (permuting : des.Permuting) {block : List UInt8}
    (eight : block.length = 8) : des.decode (des.encode block) = block := by
  have inner := Des.length_permute permuting eight
  rw [Des.decode, Des.encode, Des.permute_iperm_fperm permuting (length_storeWork _),
    loadWork_storeWork, Prod.swap_swap,
    Feistel.foldl_reverse_foldl des.round_round, storeWork_loadWork inner,
    Des.permute_fperm_iperm permuting eight]

theorem Des.encode_decode {des : Des} (permuting : des.Permuting) {block : List UInt8}
    (eight : block.length = 8) : des.encode (des.decode block) = block := by
  have inner := Des.length_permute permuting eight
  rw [Des.decode, Des.encode, Des.permute_iperm_fperm permuting (length_storeWork _),
    loadWork_storeWork,
    Feistel.foldl_foldl_reverse des.round_round, Prod.swap_swap, storeWork_loadWork inner,
    Des.permute_fperm_iperm permuting eight]

/-- Whatever the mode and the key, `Encode` and `Decode` undo each other. -/
theorem Des.inverses_of_setKey {mode : Nat} {key : List UInt8} {des : Des}
    (set : (Des.init mode).setKey key = .ok des) {block : List UInt8} (eight : block.length = 8) :
    des.decode (des.encode block) = block ∧ des.encode (des.decode block) = block := by
  have permuting := Des.permuting_of_setKey set (Des.permuting_init mode)
  exact ⟨Des.decode_encode permuting eight, Des.encode_decode permuting eight⟩

theorem Des.inverses_of_setKey_standard :
    ∃ des, (Des.init 0).setKey [0x13, 0x34, 0x57, 0x79, 0x9B, 0xBC, 0xDF, 0xF1] = .ok des ∧
      des.decode (des.encode [1, 2, 3, 4, 5, 6, 7, 8]) = [1, 2, 3, 4, 5, 6, 7, 8] ∧
      des.encode (des.decode [1, 2, 3, 4, 5, 6, 7, 8]) = [1, 2, 3, 4, 5, 6, 7, 8] :=
  ⟨_, rfl, @Des.inverses_of_setKey 0 [0x13, 0x34, 0x57, 0x79, 0x9B, 0xBC, 0xDF, 0xF1] _ rfl _ rfl⟩

end Security

end HeapHttpd
