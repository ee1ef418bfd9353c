import Mathlib.Data.List.Nodup

/-!
# Maps as lists of entries

A map that keeps its entries in the order of its keys, as a list.  Reading and writing
need no order: only that no key stands twice, which writing keeps.
-/

namespace HeapHttpd

namespace OrderedMap

variable {Key Value : Type*} [DecidableEq Key]

/-- The value of a key. -/
def find (key : Key) : List (Key × Value) → Option Value
  | [] => none
  | entry :: entries => if entry.1 = key then some entry.2 else find key entries

/-- A new entry in front of the first one that its key comes before. -/
def place (before : Key → Key → Bool) (key : Key) (value : Value) :
    List (Key × Value) → List (Key × Value)
  | [] => [(key, value)]
  | entry :: entries =>
      if before key entry.1 then (key, value) :: entry :: entries
      else entry :: place before key value entries

/-- The entry of a key is overwritten or made. -/
def set (before : Key → Key → Bool) (key : Key) (value : Value)
    (entries : List (Key × Value)) : List (Key × Value) :=
  if key ∈ entries.map Prod.fst then
    entries.map fun entry => if entry.1 = key then (key, value) else entry
  else place before key value entries

/-- The entry of a key is removed. -/
def erase (key : Key) (entries : List (Key × Value)) : List (Key × Value) :=
  entries.filter fun entry => entry.1 ≠ key

theorem find_eq_none {key : Key} {entries : List (Key × Value)} :
    find key entries = none ↔ key ∉ entries.map Prod.fst := by
  induction entries with
  | nil => simp [find]
  | cons entry entries ih =>
      rw [find, List.map_cons, List.mem_cons, not_or]
      by_cases same : entry.1 = key
      · simp [same]
      · rw [if_neg same, ih]
        exact ⟨fun absent => ⟨Ne.symm same, absent⟩, fun both => both.2⟩

theorem mem_of_find {key : Key} {value : Value} {entries : List (Key × Value)}
    (found : find key entries = some value) : (key, value) ∈ entries := by
  induction entries with
  | nil => cases found
  | cons entry entries ih =>
      rw [find] at found
      split at found
      · rename_i same
        cases found
        rw [← same]
        exact List.mem_cons_self
      · exact List.mem_cons_of_mem _ (ih found)

theorem mem_place {before : Key → Key → Bool} {key : Key} {value : Value}
    {entries : List (Key × Value)} {entry : Key × Value} :
    entry ∈ place before key value entries ↔ entry = (key, value) ∨ entry ∈ entries := by
  induction entries with
  | nil => simp [place]
  | cons first entries ih =>
      rw [place]
      split
      · simp
      · simp only [List.mem_cons, ih]
        tauto

/-- What is in a map that was written. -/
theorem mem_set {before : Key → Key → Bool} {key : Key} {value : Value}
    {entries : List (Key × Value)} {entry : Key × Value}
    (member : entry ∈ set before key value entries) :
    entry = (key, value) ∨ entry ∈ entries := by
  rw [set] at member
  split at member
  · obtain ⟨old, isOld, rfl⟩ := List.mem_map.mp member
    split
    · exact .inl rfl
    · exact .inr isOld
  · exact mem_place.mp member

theorem find_place {before : Key → Key → Bool} {key : Key} {value : Value}
    {entries : List (Key × Value)} (absent : key ∉ entries.map Prod.fst) (other : Key) :
    find other (place before key value entries) =
      if key = other then some value else find other entries := by
  induction entries with
  | nil => rfl
  | cons entry entries ih =>
      rw [List.map_cons, List.mem_cons, not_or] at absent
      rw [place]
      split
      · rfl
      · rw [find, find, ih absent.2]
        by_cases same : entry.1 = other
        · rw [if_pos same, if_pos same, if_neg (same ▸ absent.1)]
        · rw [if_neg same, if_neg same]

/-- A key that is not there is not overwritten. -/
theorem overwrite_of_notMem {key : Key} {entries : List (Key × Value)}
    (absent : key ∉ entries.map Prod.fst) (value : Value) :
    entries.map (fun entry => if entry.1 = key then (key, value) else entry) = entries := by
  refine (List.map_congr_left fun entry member => if_neg ?_).trans (List.map_id entries)
  rintro rfl
  exact absent (List.mem_map_of_mem member)

/-- Writing changes what is read under one key. -/
theorem find_set (before : Key → Key → Bool) (key : Key) (value : Value)
    (entries : List (Key × Value)) (other : Key) :
    find other (set before key value entries) =
      if key = other then some value else find other entries := by
  rw [set]
  split
  · rename_i present
    induction entries with
    | nil => simp at present
    | cons entry entries ih =>
        rw [List.map_cons, find, find]
        by_cases own : entry.1 = key
        · rw [if_pos own]
          by_cases same : key = other
          · rw [if_pos same, if_pos same]
          · have notOwn : entry.1 ≠ other := own ▸ same
            rw [if_neg same, if_neg same, if_neg notOwn]
            by_cases later : key ∈ entries.map Prod.fst
            · rw [ih later, if_neg same]
            · rw [overwrite_of_notMem later]
        · have later : key ∈ entries.map Prod.fst := by
            rcases List.mem_cons.mp present with same | later
            · exact absurd same.symm own
            · exact later
          rw [if_neg own, ih later]
          by_cases same : key = other
          · subst same
            simp [own]
          · simp only [if_neg same]
  · rename_i absent
    exact find_place absent other

omit [DecidableEq Key] in
theorem map_fst_place (before : Key → Key → Bool) (key : Key) (value : Value)
    (entries : List (Key × Value)) :
    ((place before key value entries).map Prod.fst).Perm (key :: entries.map Prod.fst) := by
  induction entries with
  | nil => exact List.Perm.refl _
  | cons entry entries ih =>
      rw [place]
      split
      · exact List.Perm.refl _
      · exact (ih.cons entry.1).trans (List.Perm.swap key entry.1 _)

/-- Writing keeps every key from standing twice. -/
theorem nodup_set {entries : List (Key × Value)} (distinct : (entries.map Prod.fst).Nodup)
    (before : Key → Key → Bool) (key : Key) (value : Value) :
    ((set before key value entries).map Prod.fst).Nodup := by
  rw [set]
  split
  · have same : (entries.map fun entry => if entry.1 = key then (key, value) else entry).map
        Prod.fst = entries.map Prod.fst := by
      rw [List.map_map]
      refine List.map_congr_left fun entry _ => ?_
      simp only [Function.comp_apply]
      split
      · rename_i own
        exact own.symm
      · rfl
    rwa [same]
  · rename_i absent
    rw [(map_fst_place before key value entries).nodup_iff, List.nodup_cons]
    exact ⟨absent, distinct⟩

omit [DecidableEq Key] in
/-- Where a new entry comes to stand does not depend on its value. -/
theorem place_split (before : Key → Key → Bool) (key : Key) (entries : List (Key × Value)) :
    ∃ front back, entries = front ++ back ∧
      ∀ value, place before key value entries = front ++ (key, value) :: back := by
  induction entries with
  | nil => exact ⟨[], [], rfl, fun _ => rfl⟩
  | cons entry entries ih =>
      by_cases first : before key entry.1 = true
      · refine ⟨[], entry :: entries, rfl, fun value => ?_⟩
        rw [place, if_pos first]
        rfl
      · obtain ⟨front, back, whole, placed⟩ := ih
        refine ⟨entry :: front, back, by rw [whole]; rfl, fun value => ?_⟩
        rw [place, if_neg first, placed]
        rfl

theorem find_append_of_notMem {key : Key} {front : List (Key × Value)}
    (absent : key ∉ front.map Prod.fst) (back : List (Key × Value)) :
    find key (front ++ back) = find key back := by
  induction front with
  | nil => rfl
  | cons entry front ih =>
      rw [List.map_cons, List.mem_cons, not_or] at absent
      rw [List.cons_append, find, if_neg (Ne.symm absent.1), ih absent.2]

/-- The entry that writing makes or overwrites. -/
theorem set_split {entries : List (Key × Value)} (distinct : (entries.map Prod.fst).Nodup)
    (before : Key → Key → Bool) (key : Key) :
    ∃ front back, (∀ value, set before key value entries = front ++ (key, value) :: back) ∧
      (find key entries = none ∧ entries = front ++ back ∨
        ∃ value, find key entries = some value ∧ entries = front ++ (key, value) :: back) := by
  by_cases present : key ∈ entries.map Prod.fst
  · obtain ⟨entry, member, rfl⟩ := List.mem_map.mp present
    obtain ⟨front, back, rfl⟩ := List.append_of_mem member
    simp only [List.map_append, List.map_cons, List.nodup_append, List.nodup_cons] at distinct
    obtain ⟨-, ⟨notBack, -⟩, apart⟩ := distinct
    have notFront : entry.1 ∉ front.map Prod.fst := fun inFront =>
      apart _ inFront _ List.mem_cons_self rfl
    refine ⟨front, back, fun value => ?_, .inr ⟨entry.2, ?_, rfl⟩⟩
    · rw [set, if_pos present, List.map_append, List.map_cons, overwrite_of_notMem notFront,
        overwrite_of_notMem notBack, if_pos rfl]
    · rw [find_append_of_notMem notFront, find, if_pos rfl]
  · obtain ⟨front, back, whole, placed⟩ := place_split before key entries
    refine ⟨front, back, fun value => ?_, .inl ⟨find_eq_none.mpr present, whole⟩⟩
    rw [set, if_neg present, placed]

/-- The later of two values stays. -/
theorem set_set (before : Key → Key → Bool) (key : Key) (first second : Value)
    (entries : List (Key × Value)) :
    set before key second (set before key first entries) = set before key second entries := by
  by_cases present : key ∈ entries.map Prod.fst
  · have present' : key ∈ (entries.map fun entry =>
        if entry.1 = key then (key, first) else entry).map Prod.fst := by
      obtain ⟨entry, member, isKey⟩ := List.mem_map.mp present
      rw [List.map_map]
      refine List.mem_map.mpr ⟨entry, member, ?_⟩
      rw [Function.comp_apply, if_pos isKey]
    rw [set, set, if_pos present, if_pos present', set, if_pos present, List.map_map]
    refine List.map_congr_left fun entry _ => ?_
    rw [Function.comp_apply]
    by_cases own : entry.1 = key
    · rw [if_pos own, if_pos own, if_pos rfl]
    · rw [if_neg own, if_neg own]
  · obtain ⟨front, back, whole, placed⟩ := place_split before key entries
    have notFront : key ∉ front.map Prod.fst := fun member => by
      rw [whole, List.map_append] at present
      exact present (List.mem_append_left _ member)
    have notBack : key ∉ back.map Prod.fst := fun member => by
      rw [whole, List.map_append] at present
      exact present (List.mem_append_right _ member)
    have there : key ∈ (front ++ (key, first) :: back).map Prod.fst := by
      rw [List.map_append, List.map_cons]
      exact List.mem_append_right _ List.mem_cons_self
    have made (value : Value) : set before key value entries = front ++ (key, value) :: back := by
      rw [set, if_neg present, placed]
    rw [made first, made second, set, if_pos there, List.map_append, List.map_cons,
      overwrite_of_notMem notFront, overwrite_of_notMem notBack, if_pos rfl]

theorem erase_of_notMem {key : Key} {entries : List (Key × Value)}
    (absent : key ∉ entries.map Prod.fst) : erase key entries = entries := by
  rw [erase, List.filter_eq_self]
  intro entry member
  rw [decide_eq_true_eq]
  rintro rfl
  exact absent (List.mem_map_of_mem member)

/-- What is placed can be removed. -/
theorem erase_place {key : Key} {entries : List (Key × Value)}
    (absent : key ∉ entries.map Prod.fst) (before : Key → Key → Bool) (value : Value) :
    erase key (place before key value entries) = entries := by
  obtain ⟨front, back, whole, placed⟩ := place_split before key entries
  have kept := erase_of_notMem absent
  rw [whole, erase, List.filter_append] at kept
  rw [placed, whole, erase, List.filter_append, List.filter_cons_of_neg (by simp), kept]

/-- A key that is placed and removed makes no difference to where another one is placed that
comes before it. -/
theorem erase_place_place {before : Key → Key → Bool} {key other : Key} {value otherValue : Value}
    (differ : key ≠ other) (order : ∀ third, before other third = true → before key third = true)
    {entries : List (Key × Value)} (absent : other ∉ entries.map Prod.fst) :
    erase other (place before key value (place before other otherValue entries)) =
      place before key value entries := by
  have keeps (rest : List (Key × Value)) :
      erase other ((key, value) :: rest) = (key, value) :: erase other rest :=
    List.filter_cons_of_pos (decide_eq_true differ)
  have drops (rest : List (Key × Value)) :
      erase other ((other, otherValue) :: rest) = erase other rest :=
    List.filter_cons_of_neg (by simp)
  induction entries with
  | nil =>
      rw [place, place, place]
      split
      · rw [keeps, drops]
        rfl
      · rw [drops, place, keeps]
        rfl
  | cons entry entries ih =>
      have same := erase_of_notMem absent
      rw [List.map_cons, List.mem_cons, not_or] at absent
      have passes (rest : List (Key × Value)) :
          erase other (entry :: rest) = entry :: erase other rest :=
        List.filter_cons_of_pos (decide_eq_true (Ne.symm absent.1))
      by_cases first : before other entry.1 = true
      · rw [place, if_pos first, place]
        split
        · rw [keeps, drops, same, place, if_pos (order _ first)]
        · rw [drops, place, if_pos (order _ first), keeps, same]
      · rw [place, if_neg first, place, place]
        split
        · rw [keeps, passes, erase_place absent.2]
        · rw [passes, ih absent.2]

/-- The same for writing. -/
theorem erase_set_set {before : Key → Key → Bool} {key other : Key} {value otherValue : Value}
    (differ : key ≠ other) (order : ∀ third, before other third = true → before key third = true)
    {entries : List (Key × Value)} (absent : other ∉ entries.map Prod.fst) :
    erase other (set before key value (set before other otherValue entries)) =
      set before key value entries := by
  have made : set before other otherValue entries = place before other otherValue entries := by
    rw [set, if_neg absent]
  have keys := map_fst_place before other otherValue entries
  rw [made]
  by_cases present : key ∈ entries.map Prod.fst
  · have there : key ∈ (place before other otherValue entries).map Prod.fst :=
      keys.mem_iff.mpr (List.mem_cons_of_mem _ present)
    rw [set, if_pos there, set, if_pos present, erase, List.filter_map]
    have same : ((fun entry : Key × Value => decide (entry.1 ≠ other)) ∘ fun entry =>
        if entry.1 = key then (key, value) else entry) = fun entry => decide (entry.1 ≠ other) := by
      funext entry
      rw [Function.comp_apply]
      split
      · rename_i own
        rw [own]
      · rfl
    have removed : (place before other otherValue entries).filter
        (fun entry => decide (entry.1 ≠ other)) = entries :=
      erase_place absent before otherValue
    rw [same, removed]
  · have notThere : key ∉ (place before other otherValue entries).map Prod.fst := by
      intro member
      rcases List.mem_cons.mp (keys.mem_iff.mp member) with same | old
      · exact differ same
      · exact present old
    rw [set, if_neg notThere, set, if_neg present, erase_place_place differ order absent]

section Items

variable {Item : Type*} {keyOf : Item → Key} {valueOf : Item → Value} {items : List Item}
  {before : Key → Key → Bool}

/-- What is read under a key that is always written with one value. -/
theorem find_foldl_set {entries : List (Key × Value)} {key : Key} {value : Value}
    (same : ∀ item ∈ items, keyOf item = key → valueOf item = value)
    (present : find key entries = some value ∨ ∃ item ∈ items, keyOf item = key) :
    find key (items.foldl
      (fun entries item => set before (keyOf item) (valueOf item) entries) entries) =
      some value := by
  induction items generalizing entries with
  | nil => simpa using present
  | cons item items ih =>
      rw [List.foldl_cons]
      refine ih (fun other member => same other (List.mem_cons_of_mem _ member)) ?_
      rw [find_set]
      by_cases own : keyOf item = key
      · rw [if_pos own, same item List.mem_cons_self own]
        exact .inl rfl
      · rw [if_neg own]
        refine present.imp_right ?_
        rintro ⟨other, member, isKey⟩
        rcases List.mem_cons.mp member with rfl | later
        · exact absurd isKey own
        · exact ⟨other, later, isKey⟩

/-- What is in a map behind some writes. -/
theorem mem_foldl_set {entries : List (Key × Value)} {entry : Key × Value}
    (member : entry ∈ items.foldl
      (fun entries item => set before (keyOf item) (valueOf item) entries) entries) :
    entry ∈ entries ∨ ∃ item ∈ items, entry = (keyOf item, valueOf item) := by
  induction items generalizing entries with
  | nil => exact .inl member
  | cons item items ih =>
      rcases ih member with inEntries | ⟨other, later, isEntry⟩
      · rcases mem_set inEntries with isItem | old
        · exact .inr ⟨item, List.mem_cons_self, isItem⟩
        · exact .inl old
      · exact .inr ⟨other, List.mem_cons_of_mem _ later, isEntry⟩

/-- Items of different keys that are written one behind the other. -/
theorem find_foldl_set_nil (distinct : (items.map keyOf).Nodup) (key : Key) :
    find key (items.foldl
      (fun entries item => set before (keyOf item) (valueOf item) entries) []) =
      find key (items.map fun item => (keyOf item, valueOf item)) := by
  cases found : find key (items.map fun item => (keyOf item, valueOf item)) with
  | some value =>
      obtain ⟨item, member, isEntry⟩ := List.mem_map.mp (mem_of_find found)
      rw [Prod.mk.injEq] at isEntry
      refine find_foldl_set (fun other otherMember isKey => ?_) (.inr ⟨item, member, isEntry.1⟩)
      rw [List.inj_on_of_nodup_map distinct otherMember member (isKey.trans isEntry.1.symm),
        isEntry.2]
  | none =>
      rw [find_eq_none]
      intro present
      obtain ⟨entry, member, isKey⟩ := List.mem_map.mp present
      rcases mem_foldl_set member with inNil | ⟨item, isItem, isEntry⟩
      · cases inNil
      · refine find_eq_none.mp found (List.mem_map.mpr ⟨_, List.mem_map_of_mem isItem, ?_⟩)
        rw [← isKey, isEntry]

/-- What a key has in common in two maps that were made from the same items. -/
theorem map_find_congr {Other : Type*} {aspect : Value → Other} {first second : Item → Key × Value}
    (same : ∀ item ∈ items, (first item).1 = (second item).1 ∧
      aspect (first item).2 = aspect (second item).2) (key : Key) :
    (find key (items.map first)).map aspect = (find key (items.map second)).map aspect := by
  induction items with
  | nil => rfl
  | cons item items ih =>
      obtain ⟨sameKey, sameAspect⟩ := same item List.mem_cons_self
      rw [List.map_cons, List.map_cons, find, find, sameKey]
      split
      · rw [Option.map_some, Option.map_some, sameAspect]
      · exact ih fun other member => same other (List.mem_cons_of_mem _ member)

end Items

/-- All entries of a key are the one that is read. -/
theorem filter_eq_find {entries : List (Key × Value)}
    (distinct : (entries.map Prod.fst).Nodup) (key : Key) :
    (entries.filter fun entry => entry.1 = key) =
      (find key entries).toList.map fun value => (key, value) := by
  induction entries with
  | nil => rfl
  | cons entry entries ih =>
      rw [List.map_cons, List.nodup_cons] at distinct
      rw [find, List.filter_cons]
      by_cases same : entry.1 = key
      · have none : find key entries = none := find_eq_none.mpr (same ▸ distinct.1)
        rw [if_pos (by simpa using same), if_pos same, ih distinct.2, none]
        simp [← same]
      · rw [if_neg (by simpa using same), if_neg same, ih distinct.2]

section Weight

/-- What the values of a map add up to. -/
def weight (measure : Value → Nat) : List (Key × Value) → Nat
  | [] => 0
  | entry :: entries => measure entry.2 + weight measure entries

variable {measure : Value → Nat}

omit [DecidableEq Key] in
theorem weight_place (before : Key → Key → Bool) (key : Key) (value : Value)
    (entries : List (Key × Value)) :
    weight measure (place before key value entries) = measure value + weight measure entries := by
  induction entries with
  | nil => rfl
  | cons entry entries ih =>
      rw [place]
      split
      · rfl
      · rw [weight, ih, weight]
        omega

/-- Writing over a value changes the sum by what the two values differ. -/
theorem weight_set {entries : List (Key × Value)} (distinct : (entries.map Prod.fst).Nodup)
    {key : Key} {old : Value} (found : find key entries = some old)
    (before : Key → Key → Bool) (value : Value) :
    weight measure (set before key value entries) + measure old =
      weight measure entries + measure value := by
  have present : key ∈ entries.map Prod.fst := List.mem_map_of_mem (mem_of_find found)
  rw [set, if_pos present]
  clear present
  induction entries with
  | nil => cases found
  | cons entry entries ih =>
      rw [List.map_cons, List.nodup_cons] at distinct
      rw [find] at found
      rw [List.map_cons, weight, weight]
      by_cases own : entry.1 = key
      · rw [if_pos own] at found
        cases found
        have kept : (entries.map fun entry => if entry.1 = key then (key, value) else entry) =
            entries := by
          refine (List.map_congr_left fun other member => ?_).trans (List.map_id entries)
          have : other.1 ≠ key := fun same =>
            distinct.1 (own ▸ same ▸ List.mem_map_of_mem member)
          rw [if_neg this, id]
        rw [kept, if_pos own]
        change measure value + _ + _ = _
        omega
      · rw [if_neg own] at found
        rw [if_neg own]
        have := ih distinct.2 found
        omega

/-- Removing a value takes it out of the sum. -/
theorem weight_erase {entries : List (Key × Value)} (distinct : (entries.map Prod.fst).Nodup)
    {key : Key} {old : Value} (found : find key entries = some old) :
    weight measure (erase key entries) + measure old = weight measure entries := by
  induction entries with
  | nil => cases found
  | cons entry entries ih =>
      rw [List.map_cons, List.nodup_cons] at distinct
      rw [find] at found
      rw [erase, List.filter_cons, weight, ← erase]
      by_cases own : entry.1 = key
      · rw [if_pos own] at found
        cases found
        have kept : erase key entries = entries := by
          refine List.filter_eq_self.mpr fun other member => decide_eq_true ?_
          exact fun same => distinct.1 (own ▸ same ▸ List.mem_map_of_mem member)
        rw [if_neg (by simpa using own), kept, Nat.add_comm]
      · rw [if_neg own] at found
        rw [if_pos (decide_eq_true own), weight]
        have := ih distinct.2 found
        omega

end Weight

/-- Removing an entry changes what is read under its key. -/
theorem find_erase (key other : Key) (entries : List (Key × Value)) :
    find other (erase key entries) = if key = other then none else find other entries := by
  rw [erase]
  induction entries with
  | nil => exact (ite_self none).symm
  | cons entry entries ih =>
      rw [List.filter_cons]
      by_cases own : entry.1 = key
      · rw [if_neg (by simpa using own), ih, find, own]
        split <;> rfl
      · rw [if_pos (by simpa using own), find, ih, find]
        by_cases same : entry.1 = other
        · rw [if_pos same, if_pos same, if_neg fun isOther => own (same.trans isOther.symm)]
        · rw [if_neg same, if_neg same]

theorem nodup_erase {entries : List (Key × Value)} (distinct : (entries.map Prod.fst).Nodup)
    (key : Key) : ((erase key entries).map Prod.fst).Nodup :=
  (List.filter_sublist.map Prod.fst).nodup distinct

end OrderedMap

end HeapHttpd
