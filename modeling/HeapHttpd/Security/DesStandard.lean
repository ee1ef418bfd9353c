import HeapHttpd.Security.Des
import Mathlib.Data.List.Rotate
import Mathlib.Data.Nat.Bitwise

/-!
# What the cipher computes

The standard describes the cipher on bits.  In every round a half is expanded to 48 bits, mixed with
as many bits of the key, replaced through eight S-boxes and permuted.  The class with its tables
computes just that.
-/

namespace HeapHttpd

namespace Security

open BitString Selection

/-! ## The standard -/

namespace Standard

/-- The expansion of a half. -/
def ei : List Nat :=
  [32, 1, 2, 3, 4, 5, 4, 5, 6, 7, 8, 9, 8, 9, 10, 11, 12, 13, 12, 13, 14, 15, 16, 17,
    16, 17, 18, 19, 20, 21, 20, 21, 22, 23, 24, 25, 24, 25, 26, 27, 28, 29, 28, 29, 30, 31, 32, 1]

/-- How far the halves of a key are rotated before each round. -/
def rots : List Nat :=
  [1, 1, 2, 2, 2, 2, 2, 2, 1, 2, 2, 2, 2, 2, 2, 1]

/-- Six bits become four: the outer ones choose a row, the inner ones a column. -/
def sbox (box : List Nat) : List Bool → List Bool
  | [b₁, b₂, b₃, b₄, b₅, b₆] =>
      bitsOf 4 (box.getD (16 * ofBits [b₁, b₆] + ofBits [b₂, b₃, b₄, b₅]) 0)
  | _ => []

/-- The function of a half and of the bits that the key gives for the round. -/
def f (half chosen : List Bool) : List Bool :=
  let mixed := List.zipWith xor (select ei half) chosen
  select p32i ((List.range 8).flatMap fun s => sbox (si.getD s []) ((mixed.drop (6 * s)).take 6))

/-- The halves of a key after some rotations. -/
def halves (key : List Bool) : Nat → List Bool × List Bool
  | 0 => ((select pc1 key).take 28, (select pc1 key).drop 28)
  | num + 1 =>
      ((halves key num).1.rotate (rots.getD num 0), (halves key num).2.rotate (rots.getD num 0))

/-- The bits that the key gives for a round. -/
def chosen (key : List Bool) (num : Nat) : List Bool :=
  select pc2 ((halves key (num + 1)).1 ++ (halves key (num + 1)).2)

/-- Sixteen rounds; the halves are put together in the opposite order. -/
def rounds (key block : List Bool) : List Bool :=
  let described := (List.range 16).foldl
    (fun halves num =>
      Feistel.round (List.zipWith xor) (fun num half => f half (chosen key num)) num halves)
    (block.take 32, block.drop 32)
  described.2 ++ described.1

/-- The standard cipher. -/
def cipher (key block : List Bool) : List Bool :=
  select fp (rounds key (select ip block))

end Standard

/-! ## Words as bits -/

/-- The bits of a word, the most significant one first. -/
def wordBits (word : BitVec 32) : List Bool :=
  bitsOf 32 word.toNat

theorem length_wordBits (word : BitVec 32) : (wordBits word).length = 32 :=
  length_bitsOf 32 _

theorem getD_wordBits (word : BitVec 32) {place : Nat} (inside : place < 32) :
    (wordBits word).getD place false = word.getLsbD (31 - place) :=
  getD_bitsOf inside _

theorem wordBits_xor (first second : BitVec 32) :
    wordBits (first ^^^ second) = List.zipWith xor (wordBits first) (wordBits second) := by
  rw [wordBits, BitVec.toNat_xor, bitsOf_xor]
  rfl

theorem bytesBits_octetsOf_byteswap (word : BitVec 32) :
    bytesBits (octetsOf (byteswap word)) = wordBits word := by
  have swapped : octetsOf (byteswap word) = (octetsOf word).reverse := octetsOf_wordOf _ _ _ _ []
  have quarters (number : Nat) : bitsOf 32 number =
      bitsOf 8 (number / 2 ^ 24) ++ (bitsOf 8 (number / 2 ^ 16) ++
        (bitsOf 8 (number / 2 ^ 8) ++ bitsOf 8 number)) := by
    rw [bitsOf_add 8 24, bitsOf_add 8 16 number, bitsOf_add 8 8 number]
  rw [swapped, wordBits, quarters]
  simp only [octetsOf, List.reverse_cons, List.reverse_nil, List.nil_append, List.cons_append,
    bytesBits_cons, bytesBits_nil, byteBits_ofNat, List.append_nil]

theorem bytesBits_storeWork (work : BitVec 32 × BitVec 32) :
    bytesBits (storeWork work) = wordBits work.1 ++ wordBits work.2 := by
  rw [storeWork, bytesBits_append, bytesBits_octetsOf_byteswap, bytesBits_octetsOf_byteswap]

theorem bytesBits_eq_loadWork {block : List UInt8} (eight : block.length = 8) :
    bytesBits block = wordBits (loadWork block).1 ++ wordBits (loadWork block).2 := by
  rw [← bytesBits_storeWork, storeWork_loadWork eight]

/-! ## The function of a round -/

/-- A bit of words that are put together, where only one of them has it. -/
theorem getLsbD_foldl_or {pieces : Nat → BitVec 32} {place owner : Nat}
    (others : ∀ s, s ≠ owner → (pieces s).getLsbD place = false) (count : Nat) :
    ((List.range count).foldl (fun rval s => rval ||| pieces s) 0).getLsbD place =
      (decide (owner < count) && (pieces owner).getLsbD place) := by
  induction count with
  | zero => simp
  | succ count ih =>
      rw [List.range_succ, List.foldl_append, List.foldl_cons, List.foldl_nil, BitVec.getLsbD_or,
        ih]
      by_cases here : owner = count
      · simp [here]
      · have other : owner < count + 1 ↔ owner < count := by omega
        rw [others count (fun same => here same.symm), Bool.or_false, decide_eq_decide.mpr other]

/-- Which entry of an S-box a round reads. -/
def boxIndex (r : BitVec 32) (subkey : List UInt8) (s : Nat) : Nat :=
  let rt :=
    if s < 7 then (r >>> 1 ||| (if r &&& 1 ≠ 0 then 0x80000000 else 0)) >>> (26 - 4 * s)
    else r <<< 1 ||| (if r &&& 0x80000000 ≠ 0 then 1 else 0)
  (rt.toNat ^^^ (subkey.getD s 0).toNat) &&& 0x3f

theorem Des.f_eq (des : Des) (r : BitVec 32) (subkey : List UInt8) :
    des.f r subkey =
      (List.range 8).foldl
        (fun rval s => rval ||| (des.sp.getD s []).getD (boxIndex r subkey s) 0) 0 := by
  rw [List.range_succ, List.foldl_append, Des.f]
  dsimp only [List.foldl_cons, List.foldl_nil]
  congr 1

/-- A bit of a word that comes to another place. -/
theorem getLsbD_moved (r : BitVec 32) {origin target : Nat} (inside : origin < 32)
    (inside' : target < 32) (place : Nat) :
    (if r &&& BitVec.twoPow 32 origin ≠ 0 then BitVec.twoPow 32 target else 0).getLsbD place =
      (r.getLsbD origin && decide (target = place)) := by
  have nonzero : BitVec.twoPow 32 origin ≠ 0 := by
    intro zero
    have bit := congrArg (fun word => word.getLsbD origin) zero
    simp [inside] at bit
  rw [BitVec.and_twoPow]
  cases r.getLsbD origin with
  | true => rw [if_pos rfl, if_pos nonzero, BitVec.getLsbD_twoPow, decide_eq_true inside']
  | false => simp

theorem getLsbD_rotateRight_one (r : BitVec 32) {place : Nat} (inside : place < 32) :
    (r >>> 1 ||| (if r &&& 1 ≠ 0 then 0x80000000 else 0)).getLsbD place =
      r.getLsbD ((place + 1) % 32) := by
  have moved := getLsbD_moved r (by omega : 0 < 32) (by omega : 31 < 32) place
  have rest : (r >>> 1).getLsbD place = r.getLsbD (1 + place) :=
    BitVec.getLsbD_ushiftRight r 1 place
  refine (BitVec.getLsbD_or).trans ?_
  refine (congrArg₂ or rest moved).trans ?_
  by_cases top : place = 31
  · have past : r.getLsbD 32 = false := BitVec.getLsbD_of_ge r 32 le_rfl
    rw [top, past, decide_eq_true rfl, Bool.and_true, Bool.false_or]
  · have index : (place + 1) % 32 = 1 + place := by omega
    rw [index, decide_eq_false (fun same => top same.symm), Bool.and_false, Bool.or_false]

theorem getLsbD_rotateLeft_one (r : BitVec 32) {place : Nat} (inside : place < 32) :
    (r <<< 1 ||| (if r &&& 0x80000000 ≠ 0 then 1 else 0)).getLsbD place =
      r.getLsbD ((place + 31) % 32) := by
  have moved := getLsbD_moved r (by omega : 31 < 32) (by omega : 0 < 32) place
  have rest : (r <<< 1).getLsbD place =
      (decide (place < 32) && !decide (place < 1) && r.getLsbD (place - 1)) :=
    BitVec.getLsbD_shiftLeft ..
  refine (BitVec.getLsbD_or).trans ?_
  refine (congrArg₂ or rest moved).trans ?_
  by_cases bottom : place = 0
  · rw [bottom, decide_eq_true rfl, Bool.and_true, decide_eq_true (by omega : 0 < 1), Bool.not_true,
      Bool.and_false, Bool.false_and, Bool.false_or]
  · have index : (place + 31) % 32 = place - 1 := by omega
    have away : ¬0 = place := fun same => bottom same.symm
    rw [index, decide_eq_true inside, decide_eq_false (by omega : ¬place < 1), decide_eq_false away,
      Bool.not_false, Bool.and_false, Bool.or_false, Bool.true_and, Bool.true_and]

theorem ei_getD : ∀ s < 8, ∀ t < 6, Standard.ei.getD (6 * s + t) 0 - 1 = (4 * s + t + 31) % 32 := by
  decide

theorem testBit_boxIndex (r : BitVec 32) (subkey : List UInt8) {s t : Nat} (box : s < 8)
    (bit : t < 6) :
    (boxIndex r subkey s).testBit (5 - t) =
      xor ((wordBits r).getD (Standard.ei.getD (6 * s + t) 0 - 1) false)
        ((subkey.getD s 0).toNat.testBit (5 - t)) := by
  have place : (4 * s + t + 31) % 32 < 32 := Nat.mod_lt _ (by omega)
  have mask : (0x3f : Nat) = 2 ^ 6 - 1 := rfl
  have few : 5 - t < 6 := by omega
  rw [boxIndex, mask, Nat.and_two_pow_sub_one_eq_mod, Nat.testBit_mod_two_pow, decide_eq_true few,
    Bool.true_and, Nat.testBit_xor, ei_getD s box t bit, getD_wordBits r place]
  congr 1
  split
  · have index : 31 - (4 * s + t + 31) % 32 = (26 - 4 * s + (5 - t) + 1) % 32 := by omega
    rw [index, ← getLsbD_rotateRight_one r (by omega)]
    exact BitVec.getLsbD_ushiftRight _ _ _
  · have index : 31 - (4 * s + t + 31) % 32 = (5 - t + 31) % 32 := by omega
    rw [index, ← getLsbD_rotateLeft_one r (by omega)]
    rfl

/-! ## The S-boxes -/

/-- The loop of `spinit` for one entry. -/
def spLoop (s i count : Nat) : BitVec 32 :=
  (List.range count).foldl
    (fun val j =>
      if (si.getD s []).getD (rowcol i) 0 &&& 8 >>> j ≠ 0 then
        val ||| 1#32 <<< (31 - pbox.getD (4 * s + j) 0)
      else val)
    0

theorem getD_spinit {s i : Nat} (box : s < 8) (index : i < 64) :
    (spinit.getD s []).getD i 0 = spLoop s i 4 := by
  have inside : s < ((List.range 8).map fun s => (List.range 64).map fun i =>
      spLoop s i 4).length := by
    rw [List.length_map, List.length_range]
    exact box
  have inside' : i < ((List.range 64).map fun i => spLoop s i 4).length := by
    rw [List.length_map, List.length_range]
    exact index
  have tables : spinit =
      (List.range 8).map fun s => (List.range 64).map fun i => spLoop s i 4 := rfl
  rw [tables, List.getD_eq_getElem _ _ inside, List.getElem_map, List.getElem_range,
    List.getD_eq_getElem _ _ inside', List.getElem_map, List.getElem_range]

theorem pbox_getD : ∀ place < 32, ∀ q < 32,
    (31 - pbox.getD place 0 = 31 - q ↔ p32i.getD q 0 - 1 = place) ∧
      31 - pbox.getD place 0 < 32 := by
  decide

theorem and_eight_shiftRight (number : Nat) {j : Nat} (few : j < 4) :
    number &&& 8 >>> j ≠ 0 ↔ number.testBit (3 - j) = true := by
  have powers : ∀ j < 4, 8 >>> j = 2 ^ (3 - j) := by decide
  rw [powers j few, Nat.and_two_pow]
  cases number.testBit (3 - j) with
  | true => simp
  | false => simp

theorem getLsbD_spLoop {s i count q : Nat} (box : s < 8) (few : count ≤ 4) (place : q < 32) :
    (spLoop s i count).getLsbD (31 - q) =
      (decide ((p32i.getD q 0 - 1) / 4 = s ∧ (p32i.getD q 0 - 1) % 4 < count) &&
        ((si.getD s []).getD (rowcol i) 0).testBit (3 - (p32i.getD q 0 - 1) % 4)) := by
  induction count with
  | zero => simp [spLoop]
  | succ count ih =>
      have before := ih (by omega)
      obtain ⟨comes, bound⟩ := pbox_getD (4 * s + count) (by omega) q place
      have step : spLoop s i (count + 1) =
          if ((si.getD s []).getD (rowcol i) 0).testBit (3 - count) = true then
            spLoop s i count ||| BitVec.twoPow 32 (31 - pbox.getD (4 * s + count) 0)
          else spLoop s i count := by
        rw [spLoop, List.range_succ, List.foldl_append, List.foldl_cons, List.foldl_nil,
          if_congr (and_eight_shiftRight _ (by omega)) rfl rfl]
        rfl
      rw [step]
      generalize (si.getD s []).getD (rowcol i) 0 = entry at *
      generalize p32i.getD q 0 - 1 = l at *
      by_cases here : l = 4 * s + count
      · have own : l / 4 = s ∧ l % 4 = count := by omega
        rw [own.1, own.2] at before ⊢
        have fresh : (spLoop s i count).getLsbD (31 - q) = false := by
          rw [before, decide_eq_false (by omega), Bool.false_and]
        cases set : entry.testBit (3 - count) with
        | true =>
            rw [if_pos rfl, BitVec.getLsbD_or, BitVec.getLsbD_twoPow, fresh,
              decide_eq_true bound, decide_eq_true (comes.mpr here)]
            simp
        | false => simp [fresh]
      · have other : (l / 4 = s ∧ l % 4 < count + 1) ↔ (l / 4 = s ∧ l % 4 < count) := by omega
        rw [decide_eq_decide.mpr other, ← before]
        split
        · rw [BitVec.getLsbD_or, BitVec.getLsbD_twoPow, decide_eq_false (mt comes.mp here),
            Bool.and_false, Bool.or_false]
        · rfl

/-- The bits of the groups for a round. -/
def groupBits (subkey : List UInt8) : List Bool :=
  (List.range 8).flatMap fun s => bitsOf 6 (subkey.getD s 0).toNat

theorem length_groupBits (subkey : List UInt8) : (groupBits subkey).length = 48 :=
  length_flatMap_range (fun _ => length_bitsOf 6 _) 8

theorem getD_groupBits (subkey : List UInt8) {place : Nat} (inside : place < 48) :
    (groupBits subkey).getD place false =
      (subkey.getD (place / 6) 0).toNat.testBit (5 - place % 6) := by
  rw [groupBits, getD_flatMap_range (fun _ => length_bitsOf 6 _) inside,
    getD_bitsOf (Nat.mod_lt _ (by omega))]

theorem sbox_bitsOf (box : List Nat) {index : Nat} (inside : index < 64) :
    Standard.sbox box (bitsOf 6 index) = bitsOf 4 (box.getD (rowcol index) 0) := by
  have choice : ∀ index < 64,
      16 * ofBits [index.testBit 5, index.testBit 0] +
        ofBits [index.testBit 4, index.testBit 3, index.testBit 2, index.testBit 1] =
      rowcol index := by decide
  rw [← choice index inside]
  rfl

theorem length_sbox_bitsOf (box : List Nat) (index : Nat) :
    (Standard.sbox box (bitsOf 6 index)).length = 4 :=
  length_bitsOf 4 _

theorem boxIndex_lt (r : BitVec 32) (subkey : List UInt8) (s : Nat) :
    boxIndex r subkey s < 64 := by
  have mask : (0x3f : Nat) = 2 ^ 6 - 1 := rfl
  rw [boxIndex, mask, Nat.and_two_pow_sub_one_eq_mod]
  exact Nat.mod_lt _ (by omega)

theorem mixed_group (r : BitVec 32) (subkey : List UInt8) {s : Nat} (box : s < 8) :
    ((List.zipWith xor (select Standard.ei (wordBits r)) (groupBits subkey)).drop (6 * s)).take 6 =
      bitsOf 6 (boxIndex r subkey s) := by
  have length : (List.zipWith xor (select Standard.ei (wordBits r)) (groupBits subkey)).length =
      48 := by
    rw [List.length_zipWith, length_select, length_groupBits]
    rfl
  refine List.ext_getElem ?_ ?_
  · rw [List.length_take, List.length_drop, length, length_bitsOf]
    omega
  · intro t inside inside'
    rw [length_bitsOf] at inside'
    have bit : 6 * s + t < Standard.ei.length := by
      have whole : Standard.ei.length = 48 := rfl
      omega
    have expanded : (select Standard.ei (wordBits r)).getD (6 * s + t) false = _ := getD_select bit
    rw [List.getElem_take, List.getElem_drop, List.getElem_zipWith,
      ← List.getD_eq_getElem _ false, ← List.getD_eq_getElem _ false, expanded,
      getD_groupBits subkey (by omega), ← List.getD_eq_getElem _ false, getD_bitsOf inside']
    have octet : (6 * s + t) / 6 = s := by omega
    have place : (6 * s + t) % 6 = t := by omega
    have last : 6 - 1 - t = 5 - t := by omega
    rw [octet, place, last, testBit_boxIndex r subkey box inside']
    rfl

theorem p32i_getD : ∀ q < 32, p32i.getD q 0 - 1 < 4 * 8 := by
  decide

/-- The tables compute the function of the standard. -/
theorem wordBits_f {des : Des} (tables : des.sp = spinit) (r : BitVec 32) (subkey : List UInt8) :
    wordBits (des.f r subkey) = Standard.f (wordBits r) (groupBits subkey) := by
  have replaced : (List.range 8).flatMap (fun s => Standard.sbox (si.getD s [])
      (((List.zipWith xor (select Standard.ei (wordBits r)) (groupBits subkey)).drop (6 * s)).take 6)) =
      (List.range 8).flatMap (fun s => Standard.sbox (si.getD s [])
        (bitsOf 6 (boxIndex r subkey s))) :=
    List.flatMap_congr fun s member => by rw [mixed_group r subkey (List.mem_range.mp member)]
  refine List.ext_getElem (by rw [length_wordBits, Standard.f, length_select]; rfl) ?_
  intro q inside inside'
  rw [length_wordBits] at inside
  have inTable : q < p32i.length := inside
  rw [← List.getD_eq_getElem _ false, ← List.getD_eq_getElem _ false, getD_wordBits _ inside]
  have chosen : (Standard.f (wordBits r) (groupBits subkey)).getD q false = _ := getD_select inTable
  rw [chosen, replaced]
  have bound := p32i_getD q inside
  have selected : ((List.range 8).flatMap fun s => Standard.sbox (si.getD s [])
      (bitsOf 6 (boxIndex r subkey s))).getD _ false = _ :=
    getD_flatMap_range (fun s => length_sbox_bitsOf (si.getD s []) (boxIndex r subkey s)) bound
      false
  refine Eq.trans ?_ selected.symm
  generalize owns : p32i.getD q 0 - 1 = l at *
  have box : l / 4 < 8 := by omega
  have entry {s : Nat} (eight : s < 8) :=
    getLsbD_spLoop (i := boxIndex r subkey s) eight le_rfl inside
  have others : ∀ s, s ≠ l / 4 →
      ((spinit.getD s []).getD (boxIndex r subkey s) 0).getLsbD (31 - q) = false := by
    intro s other
    by_cases eight : s < 8
    · rw [getD_spinit eight (boxIndex_lt r subkey _), entry eight, owns,
        decide_eq_false (by omega), Bool.false_and]
    · have past : spinit.length ≤ s := by
        have whole : spinit.length = 8 := rfl
        omega
      rw [List.getD_eq_default _ _ past, List.getD_nil]
      exact BitVec.getLsbD_zero
  rw [Des.f_eq, tables, getLsbD_foldl_or others, decide_eq_true box, Bool.true_and,
    getD_spinit box (boxIndex_lt r subkey _), entry box, owns,
    sbox_bitsOf _ (boxIndex_lt r subkey _),
    getD_bitsOf (Nat.mod_lt _ (by omega)), decide_eq_true (by omega), Bool.true_and]

/-! ## The key -/

theorem and_bytebit (octet : UInt8) {place : Nat} (few : place < 8) :
    octet &&& bytebit.getD place 0 ≠ 0 ↔ octet.toNat.testBit (7 - place) = true := by
  have powers : ∀ place < 8, (bytebit.getD place 0).toNat = 2 ^ (7 - place) := by decide
  have zero : octet &&& bytebit.getD place 0 ≠ 0 ↔
      octet.toNat &&& (bytebit.getD place 0).toNat ≠ 0 := by
    rw [← UInt8.toNat_and, Ne, Ne, ← UInt8.toNat_inj]
    rfl
  rw [zero, powers place few, Nat.and_two_pow]
  cases octet.toNat.testBit (7 - place) with
  | true => simp
  | false => simp

theorem pc1m_eq (key : List UInt8) : pc1m key = select pc1 (bytesBits key) := by
  refine List.map_congr_left fun place _ => ?_
  have low : (place - 1) &&& 0o7 = (place - 1) % 8 := Nat.and_two_pow_sub_one_eq_mod _ 3
  have high : (place - 1) >>> 3 = (place - 1) / 8 := Nat.shiftRight_eq_div_pow _ 3
  dsimp only
  rw [low, high]
  rw [Bool.decide_congr (and_bytebit _ (Nat.mod_lt _ (by omega))), Bool.decide_eq_true]
  exact (getD_bytesBits key _).symm

theorem totrot_getD : ∀ i < 16, totrot.getD i 0 = (Standard.rots.take (i + 1)).sum := by
  decide

theorem halves_eq (key : List Bool) (num : Nat) :
    Standard.halves key num =
      (((select pc1 key).take 28).rotate (Standard.rots.take num).sum,
        ((select pc1 key).drop 28).rotate (Standard.rots.take num).sum) := by
  induction num with
  | zero => simp [Standard.halves]
  | succ num ih =>
      have sum : (Standard.rots.take (num + 1)).sum =
          (Standard.rots.take num).sum + Standard.rots.getD num 0 := by
        rw [List.take_add_one, List.sum_append, List.getD_eq_getElem?_getD]
        cases Standard.rots[num]? <;> simp
      rw [Standard.halves, ih, sum, List.rotate_rotate, List.rotate_rotate]

theorem getD_rotate (bits : List Bool) {turn place : Nat} (inside : place < bits.length)
    (small : turn ≤ bits.length) :
    (bits.rotate turn).getD place false =
      bits.getD (if place + turn < bits.length then place + turn else place + turn - bits.length)
        false := by
  have index : (place + turn) % bits.length =
      if place + turn < bits.length then place + turn else place + turn - bits.length := by
    split
    · exact Nat.mod_eq_of_lt ‹_›
    · rw [Nat.mod_eq_sub_mod (by omega), Nat.mod_eq_of_lt (by omega)]
  rw [List.getD_eq_getElem _ _ (by rwa [List.length_rotate]), List.getElem_rotate, ← index,
    List.getD_eq_getElem _ _ (Nat.mod_lt _ (by omega))]

theorem getD_take_rotate (bits : List Bool) {whole half turn place : Nat}
    (length : bits.length = whole) (part : half ≤ whole) (inside : place < half)
    (small : turn ≤ half) :
    ((bits.take half).rotate turn).getD place false =
      bits.getD (if place + turn < half then place + turn else place + turn - half) false := by
  have taken : (bits.take half).length = half := by
    rw [List.length_take]
    omega
  rw [getD_rotate _ (by omega) (by omega), taken]
  split
  · rw [List.getD_eq_getElem _ _ (by omega), List.getD_eq_getElem _ _ (by omega), List.getElem_take]
  · rw [List.getD_eq_getElem _ _ (by omega), List.getD_eq_getElem _ _ (by omega), List.getElem_take]

theorem getD_drop_rotate (bits : List Bool) {half turn place : Nat}
    (length : bits.length = half + half) (inside : place < half) (small : turn ≤ half) :
    ((bits.drop half).rotate turn).getD place false =
      bits.getD (if half + place + turn < half + half then half + place + turn
        else half + place + turn - half) false := by
  have dropped : (bits.drop half).length = half := by
    rw [List.length_drop]
    omega
  rw [getD_rotate _ (by omega) (by omega), dropped]
  split
  · rw [List.getD_eq_getElem _ _ (by omega), List.getElem_drop, if_pos (by omega),
      List.getD_eq_getElem _ _ (by omega)]
    congr 1
    omega
  · rw [List.getD_eq_getElem _ _ (by omega), List.getElem_drop, if_neg (by omega),
      List.getD_eq_getElem _ _ (by omega)]
    congr 1
    omega

/-- The halves that have been rotated all in all as far are those rotated step by step. -/
theorem pcr_eq (key : List UInt8) {i : Nat} (num : i < 16) :
    pcr key i =
      (Standard.halves (bytesBits key) (i + 1)).1 ++
        (Standard.halves (bytesBits key) (i + 1)).2 := by
  have few : ∀ i < 16, totrot.getD i 0 ≤ 28 := by decide
  have bound := few i num
  have length : (pc1m key).length = 28 + 28 := List.length_map _
  rw [halves_eq, ← totrot_getD i num, ← pc1m_eq, pcr]
  dsimp only
  generalize totrot.getD i 0 = turn at *
  generalize pc1m key = moved at *
  have first : ((moved.take 28).rotate turn).length = 28 := by
    rw [List.length_rotate, List.length_take, length]
    rfl
  have second : ((moved.drop 28).rotate turn).length = 28 := by
    rw [List.length_rotate, List.length_drop, length]
  refine List.ext_getElem ?_ ?_
  · rw [List.length_map, List.length_range, List.length_append, first, second]
  · intro j inside inside'
    rw [List.length_map, List.length_range] at inside
    rw [List.getElem_map, List.getElem_range, ← List.getD_eq_getElem _ false]
    by_cases early : j < 28
    · rw [List.getD_append _ _ _ _ (by omega), if_pos early,
        getD_take_rotate _ length (by omega) early bound]
    · have place : 28 + (j - 28) = j := by omega
      rw [List.getD_append_right _ _ _ _ (by omega), first, if_neg early,
        getD_drop_rotate _ length (by omega) bound, place]

/-- The loop that collects the groups for a round. -/
def subkeyLoop (key : List UInt8) (i count : Nat) : List UInt8 :=
  (List.range count).foldl
    (fun groups j =>
      if (pcr key i).getD (pc2.getD j 0 - 1) false then
        groups.modify (j / 6) (· ||| bytebit.getD (j % 6) 0 >>> 2)
      else groups)
    (List.replicate 8 0)

theorem subkeyLoop_succ (key : List UInt8) (i count : Nat) :
    subkeyLoop key i (count + 1) =
      if (pcr key i).getD (pc2.getD count 0 - 1) false then
        (subkeyLoop key i count).modify (count / 6) (· ||| bytebit.getD (count % 6) 0 >>> 2)
      else subkeyLoop key i count := by
  rw [subkeyLoop, List.range_succ, List.foldl_append]
  rfl

theorem length_subkeyLoop (key : List UInt8) (i count : Nat) :
    (subkeyLoop key i count).length = 8 := by
  induction count with
  | zero => rfl
  | succ count ih =>
      rw [subkeyLoop_succ]
      split
      · rw [List.length_modify, ih]
      · exact ih

theorem testBit_bytebit_shiftRight : ∀ place < 6, ∀ other < 6,
    (bytebit.getD place 0 >>> 2).toNat.testBit (5 - other) = decide (place = other) := by
  decide

theorem testBit_subkeyLoop (key : List UInt8) (i : Nat) {count m t : Nat} (few : count ≤ 48)
    (octet : m < 8) (bit : t < 6) :
    ((subkeyLoop key i count).getD m 0).toNat.testBit (5 - t) =
      (decide (6 * m + t < count) && (pcr key i).getD (pc2.getD (6 * m + t) 0 - 1) false) := by
  induction count with
  | zero =>
      have zeros : (subkeyLoop key i 0).getD m 0 = 0 := by
        rw [subkeyLoop, List.range_zero, List.foldl_nil, List.getD_replicate _ octet]
      rw [zeros]
      simp
  | succ count ih =>
      have before := ih (by omega)
      have length := length_subkeyLoop key i count
      rw [subkeyLoop_succ]
      by_cases comes : (pcr key i).getD (pc2.getD count 0 - 1) false = true
      · rw [if_pos comes]
        by_cases here : count / 6 = m
        · subst here
          rw [List.getD_eq_getElem _ _ (by rw [List.length_modify]; omega), List.getElem_modify_eq,
            UInt8.toNat_or, Nat.testBit_or, ← List.getD_eq_getElem _ 0 (by omega), before,
            testBit_bytebit_shiftRight _ (by omega) _ bit]
          by_cases last : count % 6 = t
          · have whole : 6 * (count / 6) + t = count := by omega
            rw [whole, comes]
            simp [last]
          · have other : 6 * (count / 6) + t < count + 1 ↔ 6 * (count / 6) + t < count := by omega
            rw [decide_eq_decide.mpr other, decide_eq_false last, Bool.or_false]
        · have other : 6 * m + t < count + 1 ↔ 6 * m + t < count := by omega
          rw [List.getD_eq_getElem _ _ (by rw [List.length_modify]; omega),
            List.getElem_modify_ne _ _ here, ← List.getD_eq_getElem _ 0 (by omega), before,
            decide_eq_decide.mpr other]
      · rw [if_neg comes, before]
        by_cases last : 6 * m + t = count
        · rw [Bool.not_eq_true] at comes
          rw [last, comes, Bool.and_false, Bool.and_false]
        · have other : 6 * m + t < count + 1 ↔ 6 * m + t < count := by omega
          rw [decide_eq_decide.mpr other]

/-- The groups for a round are the bits that the standard chooses. -/
theorem groupBits_subkey (key : List UInt8) {i : Nat} (num : i < 16) :
    groupBits (subkey key i) = Standard.chosen (bytesBits key) i := by
  refine List.ext_getElem (by rw [length_groupBits, Standard.chosen, length_select]; rfl) ?_
  intro place inside inside'
  rw [length_groupBits] at inside
  have inTable : place < pc2.length := inside
  have selected : (Standard.chosen (bytesBits key) i).getD place false = _ := getD_select inTable
  have isLoop : subkey key i = subkeyLoop key i 48 := rfl
  have index : 6 * (place / 6) + place % 6 = place := by omega
  rw [← List.getD_eq_getElem _ false, ← List.getD_eq_getElem _ false, selected,
    getD_groupBits _ inside, isLoop,
    testBit_subkeyLoop key i le_rfl (by omega) (Nat.mod_lt _ (by omega)), index,
    decide_eq_true inside, Bool.true_and, pcr_eq key num]
  rfl

/-! ## The cipher -/

theorem Des.desmode_init (mode : Nat) : (Des.init mode).desmode = mode := by
  unfold Des.init
  split
  · rfl
  · rfl

theorem Des.sp_init (mode : Nat) : (Des.init mode).sp = spinit := by
  unfold Des.init
  split
  · rfl
  · rfl

/-- `SetKey` leaves the tables alone. -/
theorem Des.tables_of_setKey {des keyed : Des} {key : List UInt8}
    (set : des.setKey key = .ok keyed) :
    keyed.sp = des.sp ∧ keyed.iperm = des.iperm ∧ keyed.fperm = des.fperm := by
  unfold Des.setKey at set
  split at set
  all_goals
    split at set
    · exact absurd set (by simp)
    · cases set
      exact ⟨rfl, rfl, rfl⟩

theorem Des.kn_of_setKey {des keyed : Des} {key : List UInt8} (derived : des.desmode ≠ 2)
    (set : des.setKey key = .ok keyed) {num : Nat} (few : num < 16) :
    keyed.kn.getD num [] = subkey key num := by
  unfold Des.setKey at set
  rw [if_neg derived] at set
  split at set
  · exact absurd set (by simp)
  · cases set
    rw [List.getD_eq_getElem _ _ (by rw [List.length_map, List.length_range]; exact few),
      List.getElem_map, List.getElem_range]

/-- The rounds on words are the rounds on their bits. -/
theorem wordBits_foldl_round {des : Des} {key : List UInt8} (tables : des.sp = spinit)
    (schedule : ∀ num < 16, des.kn.getD num [] = subkey key num) (work : BitVec 32 × BitVec 32)
    {count : Nat} (few : count ≤ 16) :
    Prod.map wordBits wordBits ((List.range count).foldl
      (fun work num => Feistel.round (· ^^^ ·) (fun num r => des.f r (des.kn.getD num [])) num work)
      work) =
    (List.range count).foldl
      (fun halves num => Feistel.round (List.zipWith xor)
        (fun num half => Standard.f half (Standard.chosen (bytesBits key) num)) num halves)
      (wordBits work.1, wordBits work.2) := by
  induction count with
  | zero => rfl
  | succ count ih =>
      rw [List.range_succ, List.foldl_append, List.foldl_append, ← ih (by omega), List.foldl_cons,
        List.foldl_nil, List.foldl_cons, List.foldl_nil, Feistel.round, Feistel.round, Prod.map,
        Prod.map, wordBits_xor, wordBits_f tables, schedule count (by omega),
        groupBits_subkey key (by omega)]

/-- What `Encode` does between the permutations. -/
theorem bytesBits_rounds {des : Des} {key block : List UInt8} (tables : des.sp = spinit)
    (schedule : ∀ num < 16, des.kn.getD num [] = subkey key num) (eight : block.length = 8) :
    bytesBits (storeWork
      ((List.range 16).foldl (fun work i => des.round i work) (loadWork block)).swap) =
    Standard.rounds (bytesBits key) (bytesBits block) := by
  have inPlace : (fun work i => des.round i work) = fun work num =>
      Feistel.roundInPlace (· ^^^ ·) (fun num r => des.f r (des.kn.getD num [])) num work :=
    funext₂ fun work num => des.round_eq num work
  have onBits := wordBits_foldl_round tables schedule (loadWork block) le_rfl
  rw [inPlace, Feistel.foldl_roundInPlace, bytesBits_storeWork, Standard.rounds,
    bytesBits_eq_loadWork eight, List.take_left' (length_wordBits _),
    List.drop_left' (length_wordBits _)]
  dsimp only
  rw [← onBits, if_neg (by decide), Prod.fst_swap, Prod.snd_swap, Prod.map_fst, Prod.map_snd]

/-- Unless the key is given as the groups for the rounds, the class enciphers as the standard says,
in mode 1 without the outer permutations. -/
theorem Des.bytesBits_encode {mode : Nat} {key : List UInt8} {des : Des} (derived : mode ≠ 2)
    (set : (Des.init mode).setKey key = .ok des) {block : List UInt8} (eight : block.length = 8) :
    bytesBits (des.encode block) =
      if mode = 1 then Standard.rounds (bytesBits key) (bytesBits block)
      else Standard.cipher (bytesBits key) (bytesBits block) := by
  obtain ⟨tables, first, last⟩ := Des.tables_of_setKey set
  rw [Des.sp_init] at tables
  have schedule : ∀ num < 16, des.kn.getD num [] = subkey key num := fun num few =>
    Des.kn_of_setKey (by rwa [Des.desmode_init]) set few
  rw [Des.encode]
  by_cases plain : mode = 1
  · have none' : (Des.init mode).iperm = none ∧ (Des.init mode).fperm = none := by
      rw [Des.init, if_pos (Or.inl plain)]
      exact ⟨rfl, rfl⟩
    rw [if_pos plain, first, last, none'.1, none'.2, permute_none (length_storeWork _),
      permute_none eight, bytesBits_rounds tables schedule eight]
  · have some' : (Des.init mode).iperm = some (perminit ip) ∧
        (Des.init mode).fperm = some (perminit fp) := by
      rw [Des.init, if_neg (by omega)]
      exact ⟨rfl, rfl⟩
    have outer := bytesBits_permute (p := fp) rfl (by decide)
    have inner := bytesBits_permute (p := ip) rfl (by decide)
    rw [if_neg plain, first, last, some'.1, some'.2, outer,
      bytesBits_rounds tables schedule (length_permute_perminit ip block), inner]
    rfl

theorem Des.bytesBits_encode_standard :
    bytesBits (Des.encode
      { Des.init 0 with kn := (List.range 16).map (subkey [1, 2, 3, 4, 5, 6, 7, 8]) }
      [8, 7, 6, 5, 4, 3, 2, 1]) =
      if (0 : Nat) = 1 then
        Standard.rounds (bytesBits [1, 2, 3, 4, 5, 6, 7, 8]) (bytesBits [8, 7, 6, 5, 4, 3, 2, 1])
      else Standard.cipher (bytesBits [1, 2, 3, 4, 5, 6, 7, 8])
        (bytesBits [8, 7, 6, 5, 4, 3, 2, 1]) :=
  @Des.bytesBits_encode 0 [1, 2, 3, 4, 5, 6, 7, 8] _ (by decide) rfl _ rfl

example : pack (Standard.cipher (bytesBits [0x13, 0x34, 0x57, 0x79, 0x9B, 0xBC, 0xDF, 0xF1])
    (bytesBits [0x01, 0x23, 0x45, 0x67, 0x89, 0xAB, 0xCD, 0xEF])) =
    [0x85, 0xE8, 0x13, 0x54, 0x0F, 0x0A, 0xB4, 0x05] := by
  decide +kernel

end Security

end HeapHttpd
