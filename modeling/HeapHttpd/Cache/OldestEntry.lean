import HeapHttpd.Cache.Accounts

/-!
# The oldest entry

What `_find_oldest_file_` and `_find_oldest_tunneling_` leave of a map and of the locks of
its entries: they find the oldest entry of a map with a single entry only.
-/

namespace HeapHttpd

namespace Cache

open OrderedMap

variable {Data : Type}

/-- A search with the holders of the locks. -/
structure LockedSearch (Data : Type) where
  search : Search Data
  holders : List UInt8 → Int

/-- The holders of a lock become more or fewer. -/
def adjust (holders : List UInt8 → Int) (name : List UInt8) (change : Int) : List UInt8 → Int :=
  fun other => if other = name then holders other + change else holders other

/-- The turn of the loop with its locks: what is unlocked second is what is the oldest entry
by then. -/
def LockedSearch.turn (clock : Nat → Int) (locked : LockedSearch Data) (name : List UInt8) :
    LockedSearch Data :=
  let after := locked.search.turn clock name
  match locked.search.oldest, after.oldest with
  | some oldest, some unlocked =>
      { search := after
        holders := adjust (adjust (adjust (adjust locked.holders name 1) oldest 1) name (-1))
          unlocked (-1) }
  | _, _ => { locked with search := after }

/-- `_find_oldest_file_` and `_find_oldest_tunneling_`, with the locks. -/
def lockedOldest (clock : Nat → Int) (entries : List (List UInt8 × Entry Data))
    (holders : List UInt8 → Int) : LockedSearch Data :=
  (entries.map Prod.fst).foldl (LockedSearch.turn clock)
    { search := { entries, oldest := none, readings := 0 }, holders }

/-- Without the locks the search is the same. -/
theorem search_lockedOldest (clock : Nat → Int) (entries : List (List UInt8 × Entry Data))
    (holders : List UInt8 → Int) :
    (lockedOldest clock entries holders).search = findOldest clock entries := by
  have turn (locked : LockedSearch Data) (name : List UInt8) :
      (locked.turn clock name).search = locked.search.turn clock name := by
    rw [LockedSearch.turn]
    split <;> rfl
  have loop (names : List (List UInt8)) (locked : LockedSearch Data) :
      (names.foldl (LockedSearch.turn clock) locked).search =
        names.foldl (Search.turn clock) locked.search := by
    induction names generalizing locked with
    | nil => rfl
    | cons name names ih => rw [List.foldl_cons, List.foldl_cons, ih, turn]
  exact loop _ _

/-- An entry that was accessed no later than any other, and of these one that is no longer. -/
structure Oldest (entries : List (List UInt8 × Entry Data)) (name : List UInt8) : Prop where
  found : ∃ entry, find name entries = some entry ∧ ∀ other ∈ entries,
    entry.tAccess < other.2.tAccess ∨
      entry.tAccess = other.2.tAccess ∧ entry.len ≤ other.2.len

/-- The oldest entry is found, and access times and locks are what they were. -/
structure FindsOldest (clock : Nat → Int) (entries : List (List UInt8 × Entry Data))
    (holders : List UInt8 → Int) : Prop where
  oldest : ∃ name, (lockedOldest clock entries holders).search.oldest = some name ∧
    Oldest entries name
  unchanged : (lockedOldest clock entries holders).search.entries = entries
  released : (lockedOldest clock entries holders).holders = holders

/-! ## One turn -/

section Turn

variable {clock : Nat → Int} {search : Search Data} {name oldest : List UInt8}

theorem find_setAccess (name other : List UInt8) (time : Int)
    (entries : List (List UInt8 × Entry Data)) :
    find other (setAccess name time entries) =
      if other = name then (find other entries).map fun entry => { entry with tAccess := time }
      else find other entries := by
  rw [setAccess]
  induction entries with
  | nil => split <;> rfl
  | cons entry entries ih =>
      rw [List.map_cons, find, find, ih]
      by_cases isEntry : entry.1 = name
      · rw [if_pos isEntry]
        by_cases isOther : entry.1 = other
        · rw [if_pos isOther, if_pos isOther, if_pos (isOther ▸ isEntry), Option.map_some]
        · rw [if_neg isOther, if_neg isOther]
      · rw [if_neg isEntry]
        by_cases isOther : entry.1 = other
        · rw [if_pos isOther, if_pos isOther, if_neg (isOther ▸ isEntry)]
        · rw [if_neg isOther, if_neg isOther]

/-- The oldest entry is what it was, or the entry of the turn. -/
theorem oldest_turn (isOldest : search.oldest = some oldest) :
    (search.turn clock name).oldest = some name ∨
      (search.turn clock name).oldest = some oldest := by
  rw [Search.turn, isOldest]
  simp only
  split
  · split
    · exact .inl rfl
    · split
      · exact .inl rfl
      · exact .inr rfl
  · exact .inr rfl

/-- What a turn with an oldest entry leaves: either the oldest entry changes, or it is accessed
and every other entry but this one is what it was. -/
theorem turn_of_oldest (isOldest : search.oldest = some oldest) (isOther : name ≠ oldest) :
    (search.turn clock name).oldest = some name ∨
      (search.turn clock name).oldest = some oldest ∧
        find oldest (search.turn clock name).entries =
          ((find oldest search.entries).map fun entry =>
            { entry with tAccess := clock (search.readings + 1) }) ∧
        (∀ other, other ≠ name → other ≠ oldest →
          find other (search.turn clock name).entries = find other search.entries) ∧
        ∀ entry, find name search.entries = some entry →
          (find oldest search.entries).isSome →
          find name (search.turn clock name).entries = some { entry with tAccess := 0 } := by
  have notSame : oldest ≠ name := Ne.symm isOther
  rw [Search.turn, isOldest]
  simp only
  split
  case h_1 current former isCurrent isFormer =>
    split
    case isTrue => exact .inl rfl
    case isFalse =>
      split
      case isTrue => exact .inl rfl
      case isFalse =>
        refine .inr ⟨rfl, ?_, fun other notName notOldest => ?_, fun entry isEntry _ => ?_⟩
        · rw [find_setAccess, if_neg notSame, find_setAccess, if_pos rfl, find_setAccess,
            if_neg notSame]
        · rw [find_setAccess, if_neg notName, find_setAccess, if_neg notOldest, find_setAccess,
            if_neg notName]
        · rw [find_setAccess, if_pos rfl, find_setAccess, if_neg isOther, find_setAccess,
            if_pos rfl, isEntry]
          rfl
  case h_2 missing =>
    refine .inr ⟨rfl, ?_, fun other notName notOldest => ?_, fun entry isEntry isSome => ?_⟩
    · rw [find_setAccess, if_pos rfl, find_setAccess, if_neg notSame]
    · rw [find_setAccess, if_neg notOldest, find_setAccess, if_neg notName]
    · obtain ⟨former, isFormer⟩ := Option.isSome_iff_exists.mp isSome
      refine (missing { entry with tAccess := clock search.readings }
        { former with tAccess := clock (search.readings + 1) } ?_ ?_).elim
      · rw [find_setAccess, if_neg isOther, find_setAccess, if_pos rfl, isEntry]
        rfl
      · rw [find_setAccess, if_pos rfl, find_setAccess, if_neg notSame, isFormer]
        rfl

/-- The locks after a turn with an oldest entry: of the entry that was the oldest one, the lock
is kept if it is not that any more. -/
theorem holders_turn {locked : LockedSearch Data} {unlocked : List UInt8}
    (isOldest : locked.search.oldest = some oldest)
    (after : (locked.search.turn clock name).oldest = some unlocked) :
    (locked.turn clock name).holders =
      adjust (adjust (adjust (adjust locked.holders name 1) oldest 1) name (-1)) unlocked (-1) := by
  rw [LockedSearch.turn]
  simp only [isOldest, after]

theorem search_turn (locked : LockedSearch Data) :
    (locked.turn clock name).search = locked.search.turn clock name := by
  rw [LockedSearch.turn]
  split <;> rfl

theorem adjust_self (holders : List UInt8 → Int) (name : List UInt8) (change : Int) :
    adjust holders name change name = holders name + change :=
  if_pos rfl

theorem adjust_other (holders : List UInt8 → Int) {name other : List UInt8} (change : Int)
    (isOther : other ≠ name) : adjust holders name change other = holders other :=
  if_neg isOther

end Turn

/-! ## The search -/

/-- A search that went wrong at its second entry: the lock of the first one is held, or the
first one is still the oldest one although the time of the second one is zero. -/
structure Spoiled (first second : List UInt8) (holders : List UInt8 → Int)
    (locked : LockedSearch Data) : Prop where
  spoiled : (∃ oldest, locked.search.oldest = some oldest ∧ oldest ≠ first ∧
      locked.holders first = holders first + 1) ∨
    locked.search.oldest = some first ∧ locked.holders first = holders first ∧
      (∃ entry, find first locked.search.entries = some entry ∧ 0 < entry.tAccess) ∧
      ∃ entry, find second locked.search.entries = some entry ∧ entry.tAccess = 0

section Search

variable {clock : Nat → Int} {first second name : List UInt8} {holders : List UInt8 → Int}
  {locked : LockedSearch Data}

/-- Once the first entry is not the oldest one any more, its lock is not touched. -/
theorem holders_of_moved {oldest : List UInt8} (isOldest : locked.search.oldest = some oldest)
    (notFirst : oldest ≠ first) (isOther : name ≠ first) :
    ∃ after, (locked.turn clock name).search.oldest = some after ∧ after ≠ first ∧
      (locked.turn clock name).holders first = locked.holders first := by
  have untouched {unlocked : List UInt8} (notUnlocked : unlocked ≠ first)
      (after : (locked.search.turn clock name).oldest = some unlocked) :
      (locked.turn clock name).holders first = locked.holders first := by
    rw [holders_turn isOldest after, adjust_other _ _ (Ne.symm notUnlocked),
      adjust_other _ _ (Ne.symm isOther), adjust_other _ _ (Ne.symm notFirst),
      adjust_other _ _ (Ne.symm isOther)]
  rw [search_turn]
  rcases @oldest_turn _ clock _ name _ isOldest with moved | stays
  · exact ⟨name, moved, isOther, untouched isOther moved⟩
  · exact ⟨oldest, stays, notFirst, untouched notFirst stays⟩

/-- The first entry stays the oldest one, and its lock is released, or it does not, and its lock
is held. -/
theorem holders_of_first (isOldest : locked.search.oldest = some first) (isOther : name ≠ first) :
    ((locked.turn clock name).search.oldest = some name ∧
        (locked.turn clock name).holders first = locked.holders first + 1) ∨
      (locked.turn clock name).search.oldest = some first ∧
        (locked.turn clock name).holders first = locked.holders first := by
  rw [search_turn]
  rcases @oldest_turn _ clock _ name _ isOldest with moved | stays
  · refine .inl ⟨moved, ?_⟩
    rw [holders_turn isOldest moved, adjust_other _ _ (Ne.symm isOther),
      adjust_other _ _ (Ne.symm isOther), adjust_self, adjust_other _ _ (Ne.symm isOther)]
  · refine .inr ⟨stays, ?_⟩
    rw [holders_turn isOldest stays, adjust_self, adjust_other _ _ (Ne.symm isOther),
      adjust_self, adjust_other _ _ (Ne.symm isOther)]
    omega

/-- A search that went wrong is not mended by a later entry. -/
theorem turn_spoiled (positive : ∀ reading, 0 < clock reading)
    (isSpoiled : Spoiled first second holders locked) (notFirst : name ≠ first)
    (notSecond : name ≠ second) (distinct : second ≠ first) :
    Spoiled first second holders (locked.turn clock name) := by
  rcases isSpoiled.spoiled with ⟨oldest, isOldest, moved, held⟩ |
    ⟨isFirst, released, ⟨entry, isEntry, -⟩, ⟨other, isOther, isZero⟩⟩
  · obtain ⟨after, isAfter, stillMoved, same⟩ :=
      @holders_of_moved _ clock _ _ _ _ isOldest moved notFirst
    exact ⟨.inl ⟨after, isAfter, stillMoved, by rw [same, held]⟩⟩
  · rcases @holders_of_first _ clock _ _ _ isFirst notFirst with ⟨moved, held⟩ | ⟨stays, same⟩
    · exact ⟨.inl ⟨name, moved, notFirst, by rw [held, released]⟩⟩
    · refine ⟨.inr ⟨stays, by rw [same, released], ?_⟩⟩
      rw [search_turn] at stays ⊢
      rcases @turn_of_oldest _ clock _ _ _ isFirst notFirst with moved | ⟨-, accessed, kept, -⟩
      · rw [stays] at moved
        exact absurd (Option.some.inj moved).symm notFirst
      · refine ⟨⟨_, accessed.trans (by rw [isEntry, Option.map_some]), positive _⟩, other, ?_,
          isZero⟩
        rw [kept second (Ne.symm notSecond) distinct, isOther]

theorem foldl_spoiled (positive : ∀ reading, 0 < clock reading) (distinct : second ≠ first)
    {names : List (List UInt8)} (notFirst : first ∉ names) (notSecond : second ∉ names)
    (isSpoiled : Spoiled first second holders locked) :
    Spoiled first second holders (names.foldl (LockedSearch.turn clock) locked) := by
  induction names generalizing locked with
  | nil => exact isSpoiled
  | cons name names ih =>
      rw [List.mem_cons, not_or] at notFirst notSecond
      exact ih notFirst.2 notSecond.2
        (turn_spoiled positive isSpoiled (Ne.symm notFirst.1) (Ne.symm notSecond.1) distinct)

end Search

/-- At its second entry a search goes wrong. -/
theorem lockedOldest_spoiled {clock : Nat → Int} (positive : ∀ reading, 0 < clock reading)
    {first second : List UInt8 × Entry Data} {rest : List (List UInt8 × Entry Data)}
    (distinct : ((first :: second :: rest).map Prod.fst).Nodup) (holders : List UInt8 → Int) :
    Spoiled first.1 second.1 holders (lockedOldest clock (first :: second :: rest) holders) := by
  simp only [List.map_cons, List.nodup_cons, List.mem_cons, not_or] at distinct
  obtain ⟨⟨notSecond, firstNot⟩, secondNot, -⟩ := distinct
  rw [lockedOldest, List.map_cons, List.map_cons, List.foldl_cons, List.foldl_cons]
  refine foldl_spoiled positive (Ne.symm notSecond) firstNot secondNot ?_
  have start : (LockedSearch.turn clock
      { search := { entries := first :: second :: rest, oldest := none, readings := 0 },
        holders := holders } first.1) =
      { search := { entries := first :: second :: rest, oldest := some first.1, readings := 0 },
        holders := holders } := rfl
  rw [start]
  have isFirst : find first.1 (first :: second :: rest) = some first.2 := if_pos rfl
  have isSecond : find second.1 (first :: second :: rest) = some second.2 := by
    rw [find, if_neg notSecond, find, if_pos rfl]
  rcases @holders_of_first _ clock _ second.1
      { search := { entries := first :: second :: rest, oldest := some first.1, readings := 0 },
        holders := holders } rfl (Ne.symm notSecond) with ⟨moved, held⟩ | ⟨stays, same⟩
  · exact ⟨.inl ⟨second.1, moved, Ne.symm notSecond, held⟩⟩
  · refine ⟨.inr ⟨stays, same, ?_⟩⟩
    rw [search_turn] at stays ⊢
    rcases @turn_of_oldest _ clock
        { entries := first :: second :: rest, oldest := some first.1, readings := 0 } second.1
        first.1 rfl (Ne.symm notSecond) with moved | ⟨-, accessed, -, zeroed⟩
    · rw [stays] at moved
      exact absurd (Option.some.inj moved) notSecond
    · exact ⟨⟨_, accessed.trans (by rw [isFirst, Option.map_some]), positive _⟩,
        _, zeroed second.2 isSecond (by rw [isFirst]; rfl), rfl⟩

/-- The oldest entry is found, with every access time and every lock left as it was, exactly in a
map with a single entry. -/
theorem findsOldest_iff (clock : Nat → Int) (entries : List (List UInt8 × Entry Data))
    (holders : List UInt8 → Int) (positive : ∀ reading, 0 < clock reading)
    (distinct : (entries.map Prod.fst).Nodup) (nonempty : entries ≠ []) :
    FindsOldest clock entries holders ↔ entries.length = 1 := by
  obtain ⟨first, others, rfl⟩ := List.exists_cons_of_ne_nil nonempty
  cases others with
  | nil =>
      refine ⟨fun _ => rfl, fun _ => ⟨⟨first.1, rfl, ⟨first.2, if_pos rfl, ?_⟩⟩, rfl, rfl⟩⟩
      intro other member
      rw [List.mem_singleton.mp member]
      exact .inr ⟨rfl, Nat.le_refl _⟩
  | cons second rest =>
      constructor
      case mp =>
        rintro ⟨⟨name, isOldest, ⟨entry, isEntry, least⟩⟩, unchanged, released⟩
        rcases (lockedOldest_spoiled positive distinct holders).spoiled with
          ⟨oldest, -, -, held⟩ | ⟨isFirst, -, ⟨_, accessed, late⟩, ⟨_, zeroed, isZero⟩⟩
        · rw [released] at held
          omega
        · rw [isFirst] at isOldest
          cases isOldest
          rw [unchanged] at accessed zeroed
          rw [accessed] at isEntry
          cases isEntry
          have atSecond := least _ (mem_of_find zeroed)
          simp only at atSecond
          omega
      case mpr =>
        intro single
        cases single

/-! ## Trials -/

def trialEntry (len : Nat) (tAccess : Int) : Entry Unit where
  len := len
  tAccess := tAccess
  data := ()

theorem findsOldest_trial : (∀ reading : Nat, 0 < (reading : Int) + 1000) ∧
    ([(General.octets "a", trialEntry 5 10)].map Prod.fst).Nodup ∧
    [(General.octets "a", trialEntry 5 10)] ≠ [] ∧
    FindsOldest (fun reading => (reading : Int) + 1000)
      [(General.octets "a", trialEntry 5 10)] (fun _ => 0) :=
  have positive : ∀ reading : Nat, 0 < (reading : Int) + 1000 := by omega
  have distinct : ([(General.octets "a", trialEntry 5 10)].map Prod.fst).Nodup :=
    List.nodup_singleton _
  ⟨positive, distinct, List.cons_ne_nil _ _, (findsOldest_iff _ _ _ positive distinct
    (List.cons_ne_nil _ _)).mpr rfl⟩

/-- Of two entries the newer one is taken, and both access times are overwritten. -/
theorem not_findsOldest : ¬FindsOldest (fun _ => 1000)
    [(General.octets "a", trialEntry 5 20), (General.octets "b", trialEntry 5 10)]
    (fun _ => 0) := by
  rintro ⟨⟨name, isOldest, ⟨entry, isEntry, least⟩⟩, -, -⟩
  cases isOldest
  cases isEntry
  have atSecond := least _ (List.mem_cons_of_mem _ List.mem_cons_self)
  exact absurd atSecond (by decide)

end Cache

end HeapHttpd
