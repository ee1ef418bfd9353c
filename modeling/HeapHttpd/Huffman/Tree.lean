import HeapHttpd.Huffman.Coder
import Mathlib.Data.List.Nodup

/-!
# The decoding tree

What every path of child indices leads to in the tree of `hf_init`.  A path
whose bits stop inside a code leads to a node with labelled children; a path
whose last byte completes a code leads to the leaf of its symbol, labelled with
the number of bits the code takes of that byte.
-/

namespace HeapHttpd

namespace Huffman

open BitString

/-- The path of the node under which a code ends: its bytes but the last. -/
def codeParent (code : Nat) : Nat → List UInt8
  | codeLen + 9 => UInt8.ofNat (code >>> (codeLen + 1)) :: codeParent code (codeLen + 1)
  | _ => []

/-- The number of bits of a code's last, possibly partial, byte. -/
def lastLen (codeLen : Nat) : Nat :=
  codeLen - 8 * ((codeLen - 1) / 8)

theorem lastLen_add_eight {codeLen : Nat} (positive : 0 < codeLen) :
    lastLen (codeLen + 8) = lastLen codeLen := by
  unfold lastLen
  omega

theorem lastLen_le (codeLen : Nat) : lastLen codeLen ≤ 8 := by
  unfold lastLen
  omega

theorem lastLen_of_le {codeLen : Nat} (short : codeLen ≤ 8) :
    lastLen codeLen = codeLen := by
  unfold lastLen
  omega

@[simp]
theorem length_codeParent (code codeLen : Nat) :
    (codeParent code codeLen).length = (codeLen - 1) / 8 := by
  induction codeLen using Nat.strong_induction_on with
  | _ codeLen ih =>
      by_cases long : 9 ≤ codeLen
      · obtain ⟨rest, rfl⟩ : ∃ rest, codeLen = rest + 9 := ⟨codeLen - 9, by omega⟩
        rw [codeParent, List.length_cons, ih (rest + 1) (by omega)]
        omega
      · have short : codeParent code codeLen = [] := by
          unfold codeParent
          split
          · omega
          · rfl
        rw [short, List.length_nil]
        omega

theorem codeParent_of_le {codeLen : Nat} (short : codeLen ≤ 8) (code : Nat) :
    codeParent code codeLen = [] :=
  List.length_eq_zero_iff.mp (by rw [length_codeParent]; omega)

/-- A code is the bytes of its parent path and the bits of its last byte. -/
theorem bytesBits_codeParent_append (code : Nat) {codeLen : Nat}
    (positive : 0 < codeLen) :
    bytesBits (codeParent code codeLen) ++ bitsOf (lastLen codeLen) code =
      bitsOf codeLen code := by
  induction codeLen using Nat.strong_induction_on with
  | _ codeLen ih =>
      by_cases long : 9 ≤ codeLen
      · obtain ⟨rest, rfl⟩ : ∃ rest, codeLen = rest + 9 := ⟨codeLen - 9, by omega⟩
        have shorter := ih (rest + 1) (by omega) (by omega)
        rw [codeParent, bytesBits_cons, byteBits_ofNat, Nat.shiftRight_eq_div_pow,
          List.append_assoc, show rest + 9 = 8 + (rest + 1) by omega,
          bitsOf_add 8 (rest + 1), ← shorter, Nat.add_comm 8,
          lastLen_add_eight (by omega)]
      · rw [codeParent_of_le (by omega), lastLen_of_le (by omega)]
        rfl

/-- The children labelled with a code are those whose bytes it begins. -/
theorem mem_slots {code codeLen : Nat} (short : codeLen ≤ 8) (slot : UInt8) :
    slot ∈ slots code codeLen ↔ bitsOf codeLen code <+: byteBits slot := by
  have split := bitsOf_add codeLen (8 - codeLen) slot.toNat
  have slotBound := slot.toNat_lt
  have power : 2 ^ codeLen * 2 ^ (8 - codeLen) = 256 := by
    rw [← Nat.pow_add, Nat.add_sub_cancel' short]
  have start : (code <<< (8 - codeLen)) % 256 =
      code % 2 ^ codeLen * 2 ^ (8 - codeLen) := by
    rw [Nat.shiftLeft_eq, ← power, Nat.mul_mod_mul_right]
  have startBound : code % 2 ^ codeLen * 2 ^ (8 - codeLen) + 2 ^ (8 - codeLen) ≤ 256 := by
    rw [← power, ← Nat.succ_mul]
    exact Nat.mul_le_mul_right _ (Nat.mod_lt _ (Nat.two_pow_pos _))
  have quotient : bitsOf codeLen code <+: byteBits slot ↔
      code % 2 ^ codeLen = slot.toNat / 2 ^ (8 - codeLen) := by
    have quotientBound : slot.toNat / 2 ^ (8 - codeLen) < 2 ^ codeLen := by
      rw [Nat.div_lt_iff_lt_mul (Nat.two_pow_pos _), power]
      exact slotBound
    rw [Nat.add_sub_cancel' short] at split
    rw [byteBits, split]
    constructor
    · rintro ⟨rest, equal⟩
      have heads := (List.append_inj equal (by simp)).1
      rw [← bitsOf_mod le_rfl code] at heads
      exact bitsOf_injective (Nat.mod_lt _ (Nat.two_pow_pos _)) quotientBound heads
    · intro equal
      rw [← bitsOf_mod le_rfl code, equal]
      exact List.prefix_append _ _
  rw [quotient, slots, start]
  simp only [List.mem_map, List.mem_range, Nat.one_shiftLeft]
  constructor
  · rintro ⟨offset, offsetBound, rfl⟩
    have fits : code % 2 ^ codeLen * 2 ^ (8 - codeLen) + offset < 2 ^ 8 := by omega
    rw [UInt8.toNat_ofNat', Nat.mod_eq_of_lt fits, Nat.add_comm,
      Nat.add_mul_div_right _ _ (Nat.two_pow_pos _), Nat.div_eq_of_lt offsetBound,
      Nat.zero_add]
  · intro equal
    refine ⟨slot.toNat % 2 ^ (8 - codeLen), Nat.mod_lt _ (Nat.two_pow_pos _), ?_⟩
    rw [equal, Nat.mul_comm, Nat.div_add_mod, UInt8.ofNat_toNat]

theorem getElem?_hfFillSlot (sym : UInt8) (codeLen : Nat) (cur : List UInt8)
    (tree : Tree) (slot : UInt8) (path : List UInt8) :
    (hfFillSlot sym codeLen cur tree slot)[path]? =
      if path = cur ++ [slot] then
        some { tree[path]?.getD nodeCreate with sym := sym, codeLen := codeLen }
      else if path = cur then
        tree[path]?.map fun node => { node with size := node.size + 1 }
      else tree[path]? := by
  unfold hfFillSlot
  simp only [Std.TreeMap.getElem?_modify, Std.TreeMap.getElem?_insert,
    Std.LawfulEqCmp.compare_eq_iff_eq]
  by_cases isLeaf : path = cur ++ [slot]
  · subst isLeaf
    simp
  · by_cases isParent : path = cur
    · subst isParent
      simp
    · simp [isLeaf, isParent, Ne.symm isLeaf, Ne.symm isParent]

/-- Filling a list of slots labels exactly those children of the current node
and adds their number to its size. -/
theorem getElem?_foldl_hfFillSlot (sym : UInt8) (codeLen : Nat) (cur : List UInt8)
    (tree : Tree) (filled : List UInt8) (path : List UInt8) :
    (filled.foldl (hfFillSlot sym codeLen cur) tree)[path]? =
      if ∃ slot ∈ filled, path = cur ++ [slot] then
        some { tree[path]?.getD nodeCreate with sym := sym, codeLen := codeLen }
      else if path = cur then
        tree[path]?.map fun node => { node with size := node.size + filled.length }
      else tree[path]? := by
  induction filled generalizing tree with
  | nil => simp
  | cons slot filled ih =>
      rw [List.foldl_cons, ih, getElem?_hfFillSlot]
      by_cases isLeaf : path = cur ++ [slot]
      · subst isLeaf
        simp
      · by_cases later : ∃ slot ∈ filled, path = cur ++ [slot]
        · have notParent : path ≠ cur := by
            obtain ⟨other, _, rfl⟩ := later
            simp
          simp [isLeaf, later, notParent]
        · have notAny : ¬ ∃ other ∈ slot :: filled, path = cur ++ [other] := by
            simpa [isLeaf] using later
          rw [if_neg later, if_neg isLeaf, if_neg notAny]
          by_cases isParent : path = cur
          · rw [if_pos isParent, if_pos isParent, if_pos isParent, Option.map_map]
            simp [Function.comp_def, Nat.add_assoc, Nat.add_comm 1]
          · rw [if_neg isParent, if_neg isParent, if_neg isParent]

theorem getElem?_hfEnterChild (cur : List UInt8) (tree : Tree) (index : UInt8)
    (path : List UInt8) :
    (hfEnterChild cur tree index)[path]? =
      if path = cur ++ [index] then some (tree[path]?.getD nodeCreate)
      else tree[path]? := by
  unfold hfEnterChild
  by_cases entered : path = cur ++ [index]
  · subst entered
    cases present : tree[cur ++ [index]]? with
    | none => simp
    | some node => simp [present]
  · split
    · rw [Std.TreeMap.getElem?_insert]
      simp [Ne.symm entered]
    · rfl

/-- What adding one code does to every path: its slots are labelled, their
parent grows, and the nodes on the way to it exist. -/
theorem getElem?_hfAddNode (sym : UInt8) (code codeLen : Nat) (tree : Tree)
    (cur : List UInt8) (present : tree[cur]? ≠ none) (path : List UInt8)
    (positive : 0 < codeLen) :
    (hfAddNode sym code codeLen tree cur)[path]? =
      if ∃ slot ∈ slots code (lastLen codeLen),
          path = cur ++ codeParent code codeLen ++ [slot] then
        some { tree[path]?.getD nodeCreate with
          sym := sym, codeLen := lastLen codeLen }
      else if path = cur ++ codeParent code codeLen then
        some { tree[path]?.getD nodeCreate with
          size := (tree[path]?.getD nodeCreate).size +
            (slots code (lastLen codeLen)).length }
      else if cur <+: path ∧ path <+: cur ++ codeParent code codeLen then
        some (tree[path]?.getD nodeCreate)
      else tree[path]? := by
  fun_induction hfAddNode sym code codeLen tree cur with
  | case1 codeLen tree cur index ih =>
      have entered := getElem?_hfEnterChild cur tree index
      have same (other : List UInt8) :
          (hfEnterChild cur tree index)[other]?.getD nodeCreate =
            tree[other]?.getD nodeCreate := by
        rw [entered]
        split <;> rfl
      have parent : cur ++ codeParent code (codeLen + 9) =
          cur ++ [index] ++ codeParent code (codeLen + 1) := by
        rw [codeParent, List.append_assoc, List.singleton_append]
      have shorter : lastLen (codeLen + 9) = lastLen (codeLen + 1) :=
        lastLen_add_eight (by omega)
      simp only [Nat.succ_eq_add_one, Nat.add_assoc, Nat.reduceAdd]
      rw [ih (by rw [entered]; simp) (by omega), same, parent, shorter]
      congr 2
      rw [entered]
      by_cases isCur : path = cur
      · subst isCur
        obtain ⟨node, found⟩ := Option.ne_none_iff_exists'.mp present
        simp [found]
      · by_cases isChild : path = cur ++ [index]
        · subst isChild
          simp
        · rw [if_neg isChild]
          refine if_congr (and_congr_left fun below => ⟨fun child => ?_, fun atCur => ?_⟩) rfl rfl
          · exact (List.prefix_append cur [index]).trans child
          · obtain ⟨_ | ⟨next, rest⟩, rfl⟩ := atCur
            · simp at isCur
            · rw [List.append_assoc, List.prefix_append_right_inj, List.singleton_append,
                List.cons_prefix_cons] at below
              rw [below.1]
              exact ⟨rest, by simp⟩
  | case2 codeLen tree cur notLong =>
      have short : codeLen ≤ 8 := by
        by_contra long
        exact notLong (codeLen - 9) (by omega)
      rw [codeParent_of_le short, lastLen_of_le short, List.append_nil,
        getElem?_foldl_hfFillSlot]
      congr 1
      by_cases isCur : path = cur
      · subst isCur
        obtain ⟨node, found⟩ := Option.ne_none_iff_exists'.mp present
        simp [found]
      · have notBetween : ¬ (cur <+: path ∧ path <+: cur) := by
          rintro ⟨before, after⟩
          exact isCur (after.eq_of_length_le before.length_le)
        simp [isCur, notBetween]

/-- A path whose bits stop inside a symbol's code. -/
def Inside (symbol : UInt8) (path : List UInt8) : Prop :=
  8 * path.length < hexToHfCodeLen symbol ∧ bytesBits path <+: codeBits symbol

/-- A path whose last byte completes a symbol's code. -/
def Slot (symbol : UInt8) (path : List UInt8) : Prop :=
  8 * path.length < hexToHfCodeLen symbol + 8 ∧ codeBits symbol <+: bytesBits path

/-- The parent path of a symbol. -/
def parentOf (symbol : UInt8) : List UInt8 :=
  codeParent (hexToHfCode symbol) (hexToHfCodeLen symbol)

theorem bytesBits_parentOf_append (symbol : UInt8) :
    bytesBits (parentOf symbol) ++
        bitsOf (lastLen (hexToHfCodeLen symbol)) (hexToHfCode symbol) =
      codeBits symbol :=
  bytesBits_codeParent_append _ (by have := five_le_hexToHfCodeLen symbol; omega)

theorem inside_iff {symbol : UInt8} {path : List UInt8} :
    Inside symbol path ↔ path <+: parentOf symbol := by
  have split := bytesBits_parentOf_append symbol
  have positive := five_le_hexToHfCodeLen symbol
  have parentLength : (parentOf symbol).length = (hexToHfCodeLen symbol - 1) / 8 :=
    length_codeParent _ _
  constructor
  · rintro ⟨short, begins⟩
    apply isPrefix_of_bytesBits
    refine List.prefix_of_prefix_length_le begins ⟨_, split⟩ ?_
    rw [length_bytesBits, length_bytesBits, parentLength]
    omega
  · rintro ⟨rest, split'⟩
    constructor
    · have := congrArg List.length split'
      rw [List.length_append, parentLength] at this
      omega
    · rw [← split, ← split', bytesBits_append, List.append_assoc]
      exact List.prefix_append _ _

theorem slot_iff {symbol : UInt8} {path : List UInt8} :
    Slot symbol path ↔
      ∃ slot ∈ slots (hexToHfCode symbol) (lastLen (hexToHfCodeLen symbol)),
        path = parentOf symbol ++ [slot] := by
  have split := bytesBits_parentOf_append symbol
  have positive := five_le_hexToHfCodeLen symbol
  have parentLength : (parentOf symbol).length = (hexToHfCodeLen symbol - 1) / 8 :=
    length_codeParent _ _
  have lastLength : lastLen (hexToHfCodeLen symbol) =
      hexToHfCodeLen symbol - 8 * ((hexToHfCodeLen symbol - 1) / 8) := rfl
  simp only [mem_slots (lastLen_le _)]
  constructor
  · rintro ⟨short, begins⟩
    have long := begins.length_le
    rw [length_codeBits, length_bytesBits] at long
    obtain ⟨parent, slot, rfl⟩ : ∃ parent slot, path = parent ++ [slot] := by
      refine ⟨path.dropLast, path.getLast ?_, (List.dropLast_append_getLast _).symm⟩
      rintro rfl
      simp at long
      omega
    rw [List.length_append, List.length_singleton] at short long
    rw [bytesBits_append, ← split] at begins
    have parents : bytesBits (parentOf symbol) = bytesBits parent := by
      obtain ⟨rest, equal⟩ := begins
      rw [List.append_assoc] at equal
      refine (List.append_inj equal ?_).1
      rw [length_bytesBits, length_bytesBits, parentLength]
      omega
    rw [parents, List.prefix_append_right_inj] at begins
    exact ⟨slot, by simpa using begins, by rw [bytesBits_injective parents]⟩
  · rintro ⟨slot, begins, rfl⟩
    constructor
    · rw [List.length_append, List.length_singleton, parentLength]
      omega
    · rw [← split, bytesBits_append, List.prefix_append_right_inj]
      simpa using begins

theorem slot_unique {first second : UInt8} {path : List UInt8}
    (firstSlot : Slot first path) (secondSlot : Slot second path) : first = second :=
  codeBits_unique firstSlot.2 secondSlot.2

theorem not_inside_of_slot {first second : UInt8} {path : List UInt8}
    (slot : Slot first path) : ¬ Inside second path := by
  rintro ⟨short, begins⟩
  obtain rfl := codeBits_prefixFree (slot.2.trans begins)
  have long := slot.2.length_le
  rw [length_codeBits, length_bytesBits] at long
  omega

theorem inside_nil (symbol : UInt8) : Inside symbol [] :=
  ⟨by have := five_le_hexToHfCodeLen symbol; simp; omega, List.nil_prefix⟩

/-- The effect on the tree of adding one symbol at the root. -/
theorem getElem?_addSymbol {tree : Tree} (root : tree[([] : List UInt8)]? ≠ none)
    (symbol : UInt8) (path : List UInt8) [Decidable (Slot symbol path)]
    [Decidable (Inside symbol path)] :
    (hfAddNode symbol (hexToHfCode symbol) (hexToHfCodeLen symbol) tree [])[path]? =
      if Slot symbol path then
        some { tree[path]?.getD nodeCreate with
          sym := symbol, codeLen := lastLen (hexToHfCodeLen symbol) }
      else if path = parentOf symbol then
        some { tree[path]?.getD nodeCreate with
          size := (tree[path]?.getD nodeCreate).size +
            (slots (hexToHfCode symbol) (lastLen (hexToHfCodeLen symbol))).length }
      else if Inside symbol path then some (tree[path]?.getD nodeCreate)
      else tree[path]? := by
  rw [getElem?_hfAddNode _ _ _ _ _ root _
    (by have := five_le_hexToHfCodeLen symbol; omega)]
  simp only [List.nil_append, List.nil_prefix, true_and]
  exact if_congr slot_iff.symm rfl (if_congr Iff.rfl rfl (if_congr inside_iff.symm rfl rfl))

theorem slots_length_pos (code codeLen : Nat) : 0 < (slots code codeLen).length := by
  simp [slots, Nat.one_shiftLeft]

/-- The tree after some symbols have been added to a lone root. -/
structure Labelled (symbols : List UInt8) (tree : Tree) : Prop where
  root : tree[([] : List UInt8)]? ≠ none
  leaf : ∀ symbol ∈ symbols, ∀ path, Slot symbol path →
    tree[path]? = some
      { sym := symbol, codeLen := lastLen (hexToHfCodeLen symbol), size := 0 }
  parent : ∀ symbol ∈ symbols, ∃ node, tree[parentOf symbol]? = some node ∧ 0 < node.size
  known : ∀ path, tree[path]? ≠ none →
    path = [] ∨ ∃ symbol ∈ symbols, Inside symbol path ∨ Slot symbol path

theorem labelled_rootOnly : Labelled [] rootOnly where
  root := by simp [rootOnly]
  leaf := by simp
  parent := by simp
  known path present := by
    rw [rootOnly, Std.TreeMap.getElem?_insert] at present
    by_contra other
    exact present (by simp [show path ≠ [] from fun empty => other (Or.inl empty)])

theorem Labelled.insert {symbols : List UInt8} {tree : Tree}
    (labelled : Labelled symbols tree) {symbol : UInt8} (fresh : symbol ∉ symbols) :
    Labelled (symbols ++ [symbol])
      (hfAddNode symbol (hexToHfCode symbol) (hexToHfCodeLen symbol) tree []) := by
  classical
  have lookup := getElem?_addSymbol labelled.root symbol
  have parentInside (other : UInt8) : Inside other (parentOf other) :=
    inside_iff.mpr (List.prefix_refl _)
  constructor
  · have atRoot : ¬ Slot symbol [] := fun slot => not_inside_of_slot slot (inside_nil symbol)
    rw [lookup, if_neg atRoot]
    split
    · simp
    · simp [inside_nil]
  · intro other member path slot
    rcases List.mem_append.mp member with old | new
    · have different : ¬ Slot symbol path := fun slot' =>
        fresh (slot_unique slot' slot ▸ old)
      have outside : ¬ Inside symbol path := not_inside_of_slot slot
      have notParent : path ≠ parentOf symbol := fun equal =>
        outside (equal ▸ parentInside symbol)
      rw [lookup, if_neg different, if_neg notParent, if_neg outside,
        labelled.leaf other old path slot]
    · obtain rfl : other = symbol := by simpa using new
      have absent : tree[path]? = none := by
        by_contra present
        rcases labelled.known path present with rfl | ⟨third, member, inside | slot'⟩
        · exact not_inside_of_slot slot (inside_nil other)
        · exact not_inside_of_slot slot inside
        · exact fresh (slot_unique slot slot' ▸ member)
      rw [lookup, if_pos slot, absent]
      rfl
  · intro other member
    have notSlot : ¬ Slot symbol (parentOf other) := fun slot =>
      not_inside_of_slot slot (parentInside other)
    rw [lookup, if_neg notSlot]
    by_cases same : parentOf other = parentOf symbol
    · have grows := slots_length_pos (hexToHfCode symbol) (lastLen (hexToHfCodeLen symbol))
      rw [if_pos same]
      exact ⟨_, rfl, Nat.lt_of_lt_of_le grows (Nat.le_add_left _ _)⟩
    · have old : other ∈ symbols := by
        rcases List.mem_append.mp member with old | new
        · exact old
        · exact absurd (congrArg parentOf (by simpa using new : other = symbol)) same
      obtain ⟨node, found, size⟩ := labelled.parent other old
      rw [if_neg same, found]
      exact ⟨node, by split <;> rfl, size⟩
  · intro path present
    rw [lookup] at present
    by_cases slot : Slot symbol path
    · exact Or.inr ⟨symbol, by simp, Or.inr slot⟩
    by_cases inside : Inside symbol path
    · exact Or.inr ⟨symbol, by simp, Or.inl inside⟩
    have notParent : path ≠ parentOf symbol := fun equal =>
      inside (equal ▸ parentInside symbol)
    rw [if_neg slot, if_neg notParent, if_neg inside] at present
    rcases labelled.known path present with empty | ⟨other, member, reaches⟩
    · exact Or.inl empty
    · exact Or.inr ⟨other, List.mem_append_left _ member, reaches⟩

/-- The symbols in the order in which they are added. -/
def symbols : List UInt8 :=
  (List.range 256).map UInt8.ofNat

theorem mem_symbols (symbol : UInt8) : symbol ∈ symbols :=
  List.mem_map.mpr ⟨symbol.toNat, List.mem_range.mpr symbol.toNat_lt, UInt8.ofNat_toNat⟩

theorem symbols_nodup : symbols.Nodup := by
  refine List.Nodup.map_on ?_ List.nodup_range
  intro first firstMember second secondMember equal
  have values := congrArg UInt8.toNat equal
  rwa [UInt8.toNat_ofNat', UInt8.toNat_ofNat',
    Nat.mod_eq_of_lt (List.mem_range.mp firstMember),
    Nat.mod_eq_of_lt (List.mem_range.mp secondMember)] at values

theorem labelled_foldl (added : List UInt8) :
    ∀ {earlier : List UInt8} {tree : Tree}, (earlier ++ added).Nodup →
      Labelled earlier tree →
      Labelled (earlier ++ added)
        (added.foldl (fun tree symbol =>
          hfAddNode symbol (hexToHfCode symbol) (hexToHfCodeLen symbol) tree []) tree) := by
  induction added with
  | nil =>
      intro earlier tree _ labelled
      simpa using labelled
  | cons symbol added ih =>
      intro earlier tree distinct labelled
      have fresh : symbol ∉ earlier := fun member =>
        (List.nodup_append.mp distinct).2.2 symbol member symbol (by simp) rfl
      have regroup : earlier ++ symbol :: added = earlier ++ [symbol] ++ added := by simp
      rw [regroup] at distinct ⊢
      exact ih distinct (labelled.insert fresh)

theorem labelled_hfInit : Labelled symbols hfInit := by
  have distinct : ([] ++ symbols).Nodup := symbols_nodup
  have built := labelled_foldl symbols distinct labelled_rootOnly
  rwa [symbols, List.foldl_map] at built

/-- The first bytes of a code are also the parent path of some symbol. -/
private theorem parents_shared :
    ∀ row ∈ rows, ∀ count < (row.2 - 1) / 8,
      ∃ shared ∈ ([48, 33, 63, 128, 129] : List UInt8),
        parentOf shared = (codeParent row.1 row.2).take count := by
  decide +kernel

/-- A path whose bits stop inside a code leads to a node with children. -/
theorem hfInit_inside {symbol : UInt8} {path : List UInt8} (inside : Inside symbol path) :
    ∃ node, hfInit[path]? = some node ∧ 0 < node.size := by
  have begins := inside_iff.mp inside
  rw [List.prefix_iff_eq_take] at begins
  have reached : ∃ shared, parentOf shared = path := by
    by_cases whole : (parentOf symbol).length ≤ path.length
    · exact ⟨symbol, by rw [begins, List.take_of_length_le whole]⟩
    · obtain ⟨shared, -, equal⟩ := parents_shared _ (row_mem symbol) path.length
        (by simpa [parentOf] using whole)
      exact ⟨shared, equal.trans begins.symm⟩
  obtain ⟨shared, rfl⟩ := reached
  exact labelled_hfInit.parent shared (mem_symbols shared)

theorem hfInit_known {path : List UInt8} (present : hfInit[path]? ≠ none) :
    path = [] ∨ ∃ symbol, Inside symbol path ∨ Slot symbol path := by
  rcases labelled_hfInit.known path present with empty | ⟨symbol, -, reaches⟩
  · exact Or.inl empty
  · exact Or.inr ⟨symbol, reaches⟩

/-- A path whose last byte completes a code leads to the leaf of its symbol. -/
theorem hfInit_slot {symbol : UInt8} {path : List UInt8} (slot : Slot symbol path) :
    hfInit[path]? = some
      { sym := symbol, codeLen := lastLen (hexToHfCodeLen symbol), size := 0 } :=
  labelled_hfInit.leaf symbol (mem_symbols symbol) path slot

end Huffman

end HeapHttpd
