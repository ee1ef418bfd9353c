import HeapHttpd.Cache.MemoryCache
import HeapHttpd.Library.Replay

/-!
# The running totals of the memory cache

When the running totals are what the entries add up to, and when what is held stays
within the configured totals.
-/

namespace HeapHttpd

namespace Cache

open OrderedMap
open Replay (Throughout)
open Tunneling (stringBefore)

section Oldest

variable {Data : Type}

/-- The names and lengths of a map, which access times leave as they are. -/
def sizes (entries : List (List UInt8 × Entry Data)) : List (List UInt8 × Nat) :=
  entries.map fun entry => (entry.1, entry.2.len)

theorem map_fst_sizes (entries : List (List UInt8 × Entry Data)) :
    (sizes entries).map Prod.fst = entries.map Prod.fst := by
  rw [sizes, List.map_map]
  rfl

theorem weight_sizes (entries : List (List UInt8 × Entry Data)) :
    weight id (sizes entries) = weight Entry.len entries := by
  induction entries with
  | nil => rfl
  | cons entry entries ih => rw [sizes, List.map_cons, weight, weight, ← sizes, ih, id]

@[simp]
theorem sizes_setAccess (name : List UInt8) (time : Int)
    (entries : List (List UInt8 × Entry Data)) :
    sizes (setAccess name time entries) = sizes entries := by
  rw [sizes, setAccess, List.map_map]
  refine List.map_congr_left fun entry _ => ?_
  simp only [Function.comp_apply]
  split <;> rfl

/-- A search through a map: names and lengths stay, and the oldest entry is one of them. -/
structure Searches (entries : List (List UInt8 × Entry Data)) (search : Search Data) : Prop where
  sizes : sizes search.entries = sizes entries
  found : ∀ oldest ∈ search.oldest, oldest ∈ entries.map Prod.fst

theorem turn_searches (clock : Nat → Int) {entries : List (List UInt8 × Entry Data)}
    {search : Search Data} (searches : Searches entries search) {name : List UInt8}
    (isName : name ∈ entries.map Prod.fst) :
    Searches entries (search.turn clock name) ∧ (search.turn clock name).oldest.isSome := by
  obtain ⟨same, found⟩ := searches
  rw [Search.turn]
  cases former : search.oldest with
  | none =>
      refine ⟨⟨same, ?_⟩, rfl⟩
      intro oldest isOldest
      cases isOldest
      exact isName
  | some oldest =>
      have isFormer := found oldest former
      simp only
      split
      · split
        · refine ⟨⟨by simpa using same, ?_⟩, rfl⟩
          intro other isOther
          cases isOther
          exact isName
        · split
          · refine ⟨⟨by simpa using same, ?_⟩, rfl⟩
            intro other isOther
            cases isOther
            exact isName
          · refine ⟨⟨by simpa using same, ?_⟩, rfl⟩
            intro other isOther
            cases isOther
            exact isFormer
      · refine ⟨⟨by simpa using same, ?_⟩, rfl⟩
        intro other isOther
        cases isOther
        exact isFormer

theorem searches_foldl (clock : Nat → Int) {entries : List (List UInt8 × Entry Data)}
    {names : List (List UInt8)} {search : Search Data} (searches : Searches entries search)
    (areNames : ∀ name ∈ names, name ∈ entries.map Prod.fst) :
    Searches entries (names.foldl (Search.turn clock) search) ∧
      (names ≠ [] ∨ search.oldest.isSome →
        (names.foldl (Search.turn clock) search).oldest.isSome) := by
  induction names generalizing search with
  | nil => exact ⟨searches, fun some => some.resolve_left fun none => none rfl⟩
  | cons name names ih =>
      obtain ⟨later, isSome⟩ := turn_searches clock searches (areNames name List.mem_cons_self)
      have behind := ih later fun other member => areNames other (List.mem_cons_of_mem _ member)
      exact ⟨behind.1, fun _ => behind.2 (.inr isSome)⟩

/-- The search leaves names and lengths, and finds an entry if there is one. -/
theorem findOldest_searches (clock : Nat → Int) (entries : List (List UInt8 × Entry Data)) :
    Searches entries (findOldest clock entries) ∧
      ((findOldest clock entries).oldest.isSome ↔ entries ≠ []) := by
  have start : Searches entries { entries, oldest := none, readings := 0 } :=
    ⟨rfl, fun _ isOldest => by cases isOldest⟩
  obtain ⟨searches, found⟩ := searches_foldl clock start (fun _ member => member : ∀ name ∈ entries.map Prod.fst, name ∈ entries.map Prod.fst)
  refine ⟨searches, ?_, fun given => found (.inl (by simpa using given))⟩
  rintro isSome rfl
  cases isSome

theorem find_isSome_of_mem {name : List UInt8} {entries : List (List UInt8 × Entry Data)}
    (member : name ∈ entries.map Prod.fst) : ∃ entry, find name entries = some entry :=
  Option.ne_none_iff_exists'.mp fun none => find_eq_none.mp none member

end Oldest

namespace Store

variable {Data : Type} {total : Nat} {clock : Nat → Int} {name : List UInt8} {entry : Entry Data}
  {store : Store Data}

/-- The entry that a call which makes room takes out: the one with the name, or the one
that is found to be the oldest. -/
def removed (clock : Nat → Int) (name : List UInt8) (store : Store Data) : Option (Entry Data) :=
  match find name store.entries with
  | some old => some old
  | none =>
      let search := findOldest clock store.entries
      search.oldest.bind fun oldest => find oldest search.entries

/-- Names stand once. -/
def Distinct (store : Store Data) : Prop :=
  (store.entries.map Prod.fst).Nodup

/-- The running total is what the entries add up to, and `end()` has not been looked
into. -/
structure Accounts (store : Store Data) : Prop where
  size : store.size = store.held
  inside : store.strayed = false

instance (store : Store Data) : Decidable store.Accounts :=
  decidable_of_iff (store.size = store.held ∧ store.strayed = false)
    ⟨fun both => ⟨both.1, both.2⟩, fun both => ⟨both.1, both.2⟩⟩

/-- What a call does to the entries and the total: a name that is there is overwritten; a
new one is added if there is room; if not, some entry goes first. -/
theorem push_cases (total : Nat) (clock : Nat → Int) (name : List UInt8) (entry : Entry Data)
    (store : Store Data) :
    (∃ old, find name store.entries = some old ∧ store.removed clock name = some old ∧
      store.push total clock name entry =
        { store with
          entries := set stringBefore name entry store.entries
          size := store.size - old.len + entry.len }) ∨
    (find name store.entries = none ∧ store.size < total ∧
      store.push total clock name entry =
        { store with
          entries := set stringBefore name entry store.entries
          size := store.size + entry.len }) ∨
    (find name store.entries = none ∧ total ≤ store.size ∧ store.entries = [] ∧
      store.removed clock name = none ∧
      store.push total clock name entry = { store with strayed := true }) ∨
    (∃ entries oldest evicted, find name store.entries = none ∧ total ≤ store.size ∧
      sizes entries = sizes store.entries ∧ find oldest entries = some evicted ∧
      store.removed clock name = some evicted ∧
      store.push total clock name entry =
        { store with
          entries := set stringBefore name entry (erase oldest entries)
          size := store.size - evicted.len + entry.len }) := by
  cases found : find name store.entries with
  | some old =>
      exact .inl ⟨old, rfl, by rw [removed, found], by rw [push, found]⟩
  | none =>
      right
      have isRemoved : store.removed clock name =
          (findOldest clock store.entries).oldest.bind fun oldest =>
            find oldest (findOldest clock store.entries).entries := by
        rw [removed, found]
      by_cases room : store.size < total
      · exact .inl ⟨rfl, room, by rw [push, found]; exact if_pos room⟩
      · right
        have pushed : store.push total clock name entry = store.replaceOldest clock name entry := by
          rw [push, found]
          exact if_neg room
        obtain ⟨searches, isSome⟩ := findOldest_searches clock store.entries
        cases isOldest : (findOldest clock store.entries).oldest with
        | none =>
            simp only [replaceOldest, isOldest, Option.bind_none] at isRemoved pushed
            refine .inl ⟨rfl, Nat.le_of_not_lt room, ?_, isRemoved, pushed⟩
            by_contra given
            rw [isOldest] at isSome
            cases isSome.mpr given
        | some oldest =>
            have isName := searches.found oldest isOldest
            rw [← map_fst_sizes, ← searches.sizes, map_fst_sizes] at isName
            obtain ⟨evicted, isEvicted⟩ := find_isSome_of_mem isName
            simp only [replaceOldest, isOldest, Option.bind_some, isEvicted, Option.map_some]
              at isRemoved pushed
            exact .inr ⟨_, oldest, evicted, rfl, Nat.le_of_not_lt room, searches.sizes, isEvicted,
              isRemoved, pushed⟩

theorem distinct_sizes {entries others : List (List UInt8 × Entry Data)}
    (same : sizes entries = sizes others) (distinct : (others.map Prod.fst).Nodup) :
    (entries.map Prod.fst).Nodup := by
  rwa [← map_fst_sizes, same, map_fst_sizes]

/-- A call keeps names from standing twice. -/
theorem push_distinct (distinct : store.Distinct) :
    (store.push total clock name entry).Distinct := by
  rcases push_cases total clock name entry store with ⟨old, -, -, pushed⟩ | ⟨-, -, pushed⟩ |
    ⟨-, -, -, -, pushed⟩ | ⟨entries, oldest, evicted, -, -, same, -, -, pushed⟩
  · rw [pushed]
    exact nodup_set distinct _ _ _
  · rw [pushed]
    exact nodup_set distinct _ _ _
  · rw [pushed]
    exact distinct
  · rw [pushed]
    exact nodup_set (nodup_erase (distinct_sizes same distinct) oldest) _ _ _

theorem not_mem_erase {entries others : List (List UInt8 × Entry Data)} {oldest : List UInt8}
    (same : sizes entries = sizes others) (absent : find name others = none) :
    name ∉ (erase oldest entries).map Prod.fst := by
  intro member
  rw [find_eq_none, ← map_fst_sizes, ← same, map_fst_sizes] at absent
  exact absent ((List.filter_sublist.map Prod.fst).subset member)

theorem held_set_new {entries : List (List UInt8 × Entry Data)}
    (absent : name ∉ entries.map Prod.fst) :
    weight Entry.len (set stringBefore name entry entries) =
      entry.len + weight Entry.len entries := by
  rw [OrderedMap.set, if_neg absent, weight_place]

/-- What is held after a call: all but the entry that was taken out, and the new one. -/
theorem held_push (distinct : store.Distinct) (accounts : store.Accounts) :
    (store.push total clock name entry).strayed = false ∧
        (store.push total clock name entry).size = (store.push total clock name entry).held ∧
        (find name store.entries = none ∧ store.size < total ∧
            (store.push total clock name entry).held = store.held + entry.len ∨
          ∃ old, store.removed clock name = some old ∧
            (store.push total clock name entry).held + old.len = store.held + entry.len) ∨
      (store.push total clock name entry).strayed = true ∧ store.removed clock name = none ∧
        total ≤ store.size ∧ store.entries = [] := by
  obtain ⟨size, inside⟩ := accounts
  rcases push_cases total clock name entry store with ⟨old, found, isRemoved, pushed⟩ |
    ⟨absent, room, pushed⟩ | ⟨-, full, empty, isRemoved, pushed⟩ |
    ⟨entries, oldest, evicted, absent, full, same, found, isRemoved, pushed⟩
  · left
    have sum := @weight_set _ _ _ Entry.len _ distinct _ _ found stringBefore entry
    rw [pushed]
    rw [held] at size ⊢
    refine ⟨inside, ?_, .inr ⟨old, isRemoved, sum⟩⟩
    simp only
    have part := @weight_erase _ _ _ Entry.len _ distinct _ _ found
    omega
  · left
    have sum := @held_set_new _ name entry _ (find_eq_none.mp absent)
    rw [pushed]
    rw [held] at size ⊢
    refine ⟨inside, ?_, .inl ⟨absent, room, ?_⟩⟩
    · simp only
      omega
    · rw [sum, held, Nat.add_comm]
  · right
    rw [pushed]
    exact ⟨rfl, isRemoved, full, empty⟩
  · left
    have others : weight Entry.len entries = weight Entry.len store.entries := by
      rw [← weight_sizes, same, weight_sizes]
    have part := @weight_erase _ _ _ Entry.len _ (distinct_sizes same distinct) _ _ found
    have sum := @held_set_new _ name entry _ (@not_mem_erase _ name _ _ oldest same absent)
    rw [pushed]
    rw [held] at size ⊢
    refine ⟨inside, ?_, .inr ⟨evicted, isRemoved, ?_⟩⟩
    · simp only
      omega
    · rw [held]
      simp only
      omega

/-- Totals stay right in a call unless it makes room in a map without entries. -/
theorem push_accounts_iff (distinct : store.Distinct) (accounts : store.Accounts) :
    (store.push total clock name entry).Accounts ↔ store.entries ≠ [] ∨ 0 < total := by
  have bothSizes := accounts.size
  rcases @held_push _ total clock name entry _ distinct
      accounts with ⟨inside, size, how⟩ | ⟨strays, -, full, empty⟩
  · refine iff_of_true ⟨size, inside⟩ ?_
    rcases how with ⟨-, room, -⟩ | ⟨old, isRemoved, -⟩
    · exact .inr (Nat.zero_lt_of_lt room)
    · left
      intro empty
      rw [removed, empty] at isRemoved
      cases isRemoved
  · refine iff_of_false (fun after => ?_) ?_
    · rw [after.inside] at strays
      cases strays
    · rw [held, empty, weight] at bothSizes
      rintro (given | positive)
      · exact given empty
      · omega

/-- Totals stay right when a map is cleared only if it holds nothing. -/
theorem clear_accounts_iff (accounts : store.Accounts) : store.clear.Accounts ↔ store.held = 0 := by
  have cleared : store.clear.held = 0 := rfl
  constructor
  · intro after
    rw [← accounts.size, ← cleared, ← after.size]
    rfl
  · intro nothing
    exact ⟨(accounts.size.trans nothing).trans cleared.symm, accounts.inside⟩

/-- What is held stays within the total and the new entry. -/
def Bounded (total len : Nat) (store : Store Data) : Prop :=
  store.strayed = false ∧ store.held ≤ total + len

/-- There is room, or the entry that is taken out is as long as what is held in excess of
the total. -/
def Yields (total : Nat) (clock : Nat → Int) (name : List UInt8) (store : Store Data) : Prop :=
  store.size < total ∨ ∃ entry ∈ store.removed clock name, store.size ≤ total + entry.len

theorem push_bounded_iff (distinct : store.Distinct) (accounts : store.Accounts) :
    (store.push total clock name entry).Bounded total entry.len ↔
      store.Yields total clock name := by
  have bothSizes := accounts.size
  rcases @held_push _ total clock name entry _ distinct
      accounts with ⟨inside, -, how⟩ | ⟨strays, none, full, -⟩
  · rcases how with ⟨-, room, sum⟩ | ⟨old, isRemoved, sum⟩
    · refine iff_of_true ⟨inside, ?_⟩ (.inl room)
      omega
    · rw [Bounded, Yields, isRemoved]
      simp only [inside, true_and, Option.mem_def, Option.some.injEq, exists_eq_left']
      omega
  · refine iff_of_false (fun after => ?_) ?_
    · rw [after.1] at strays
      cases strays
    · rw [Yields, none]
      rintro (room | ⟨entry, isEntry, -⟩)
      · omega
      · cases isEntry

theorem accounts_of_bounded {len : Nat} (distinct : store.Distinct) (accounts : store.Accounts)
    (bounded : (store.push total clock name entry).Bounded total len) :
    (store.push total clock name entry).Accounts := by
  rcases @held_push _ total clock name entry _ distinct
      accounts with ⟨inside, size, -⟩ | ⟨strays, -⟩
  · exact ⟨size, inside⟩
  · rw [bounded.1] at strays
    cases strays

end Store

namespace MemoryCache

variable {FileData TunnelingData : Type}

/-- Both running totals are right. -/
def Accounts (cache : MemoryCache FileData TunnelingData) : Prop :=
  cache.fileCache.Accounts ∧ cache.tunnelingCache.Accounts

instance (cache : MemoryCache FileData TunnelingData) : Decidable cache.Accounts :=
  inferInstanceAs (Decidable (_ ∧ _))

/-- Names stand once, and both running totals are right. -/
def Sound (cache : MemoryCache FileData TunnelingData) : Prop :=
  (cache.fileCache.Distinct ∧ cache.tunnelingCache.Distinct) ∧ cache.Accounts

theorem sound_new : (new : MemoryCache FileData TunnelingData).Sound :=
  ⟨⟨List.nodup_nil, List.nodup_nil⟩, ⟨rfl, rfl⟩, rfl, rfl⟩

/-- A call that adds an entry finds one in the map or a total above 0; a map is cleared
only if what it holds has no length. -/
def Spares (totals : Totals) (cache : MemoryCache FileData TunnelingData) :
    Operation FileData TunnelingData → Prop
  | .pushFile _ _ _ => cache.fileCache.entries ≠ [] ∨ 0 < totals.localfile
  | .pushTunneling _ _ _ => cache.tunnelingCache.entries ≠ [] ∨ 0 < totals.tunneling
  | .clearFiles => cache.fileCache.held = 0
  | .clearTunnelings => cache.tunnelingCache.held = 0
  | .unload | .load => cache.fileCache.held = 0 ∧ cache.tunnelingCache.held = 0

theorem step_accounts_iff (totals : Totals) {cache : MemoryCache FileData TunnelingData}
    (sound : cache.Sound) (operation : Operation FileData TunnelingData) :
    (cache.step totals operation).Accounts ↔ cache.Spares totals operation := by
  obtain ⟨⟨files, tunnelings⟩, fileAccounts, tunnelingAccounts⟩ := sound
  have cleared : cache.unload.Accounts ↔
      cache.fileCache.held = 0 ∧ cache.tunnelingCache.held = 0 :=
    and_congr (Store.clear_accounts_iff fileAccounts) (Store.clear_accounts_iff tunnelingAccounts)
  cases operation with
  | pushFile clock name entry =>
      exact (and_iff_left tunnelingAccounts).trans (Store.push_accounts_iff files fileAccounts)
  | pushTunneling clock name entry =>
      exact (and_iff_right fileAccounts).trans
        (Store.push_accounts_iff tunnelings tunnelingAccounts)
  | clearFiles =>
      exact (and_iff_left tunnelingAccounts).trans (Store.clear_accounts_iff fileAccounts)
  | clearTunnelings =>
      exact (and_iff_right fileAccounts).trans (Store.clear_accounts_iff tunnelingAccounts)
  | unload => exact cleared
  | load => exact cleared

theorem step_distinct (totals : Totals) {cache : MemoryCache FileData TunnelingData}
    (distinct : cache.fileCache.Distinct ∧ cache.tunnelingCache.Distinct)
    (operation : Operation FileData TunnelingData) :
    (cache.step totals operation).fileCache.Distinct ∧
      (cache.step totals operation).tunnelingCache.Distinct := by
  cases operation with
  | pushFile clock name entry => exact ⟨Store.push_distinct distinct.1, distinct.2⟩
  | pushTunneling clock name entry => exact ⟨distinct.1, Store.push_distinct distinct.2⟩
  | clearFiles => exact ⟨List.nodup_nil, distinct.2⟩
  | clearTunnelings => exact ⟨distinct.1, List.nodup_nil⟩
  | unload => exact ⟨List.nodup_nil, List.nodup_nil⟩
  | load => exact ⟨List.nodup_nil, List.nodup_nil⟩

/-- A call for one of the two maps. -/
inductive Push (FileData TunnelingData : Type)
  | file (clock : Nat → Int) (name : List UInt8) (entry : Entry FileData)
  | tunneling (clock : Nat → Int) (name : List UInt8) (entry : Entry TunnelingData)

namespace Push

/-- The operation that a call is. -/
def operation : Push FileData TunnelingData → Operation FileData TunnelingData
  | .file clock name entry => .pushFile clock name entry
  | .tunneling clock name entry => .pushTunneling clock name entry

/-- The map of a call stays within its total and the new entry. -/
def Bounded (totals : Totals) (cache : MemoryCache FileData TunnelingData) :
    Push FileData TunnelingData → Prop
  | .file clock name entry =>
      (cache.pushFile totals clock name entry).fileCache.Bounded totals.localfile entry.len
  | .tunneling clock name entry =>
      (cache.pushTunneling totals clock name entry).tunnelingCache.Bounded totals.tunneling
        entry.len

/-- The map of a call has room for its entry or gives it up. -/
def Yields (totals : Totals) (cache : MemoryCache FileData TunnelingData) :
    Push FileData TunnelingData → Prop
  | .file clock name _ => cache.fileCache.Yields totals.localfile clock name
  | .tunneling clock name _ => cache.tunnelingCache.Yields totals.tunneling clock name

end Push

theorem push_bounded_iff (totals : Totals) {cache : MemoryCache FileData TunnelingData}
    (sound : cache.Sound) (push : Push FileData TunnelingData) :
    (push.Bounded totals cache ↔ push.Yields totals cache) ∧
      (push.Bounded totals cache → (cache.step totals push.operation).Sound) := by
  obtain ⟨distinct, fileAccounts, tunnelingAccounts⟩ := sound
  cases push with
  | file clock name entry =>
      refine ⟨Store.push_bounded_iff distinct.1 fileAccounts, fun bounded => ?_⟩
      exact ⟨step_distinct totals distinct (.pushFile clock name entry),
        Store.accounts_of_bounded distinct.1 fileAccounts bounded, tunnelingAccounts⟩
  | tunneling clock name entry =>
      refine ⟨Store.push_bounded_iff distinct.2 tunnelingAccounts, fun bounded => ?_⟩
      exact ⟨step_distinct totals distinct (.pushTunneling clock name entry), fileAccounts,
        Store.accounts_of_bounded distinct.2 tunnelingAccounts bounded⟩

/-- Both running totals are right in every state of a run, and `end()` is never looked
into, exactly if no call makes room in a map without entries, and no map with contents is
cleared. -/
theorem accounts_iff (totals : Totals) (operations : List (Operation FileData TunnelingData)) :
    Throughout (step totals) (fun cache operation => (cache.step totals operation).Accounts) new
        operations ↔
      Throughout (step totals) (Spares totals) new operations := by
  refine Replay.throughout_iff sound_new fun cache sound operation => ?_
  exact ⟨step_accounts_iff totals sound operation,
    fun accounts => ⟨step_distinct totals sound.1 operation, accounts⟩⟩

/-- A cleared map keeps its running total, and with a total of 0 the first call looks into
`end()`. -/
theorem not_accounts_cleared :
    ¬ (run ⟨64, 64⟩ [.pushFile (fun _ => 1) [0x61] ⟨5, 1, ()⟩, .clearFiles] :
        MemoryCache Unit Unit).Accounts ∧
      ¬ (run ⟨0, 64⟩ [.pushFile (fun _ => 1) [0x61] ⟨5, 1, ()⟩] :
        MemoryCache Unit Unit).Accounts := by
  decide

/-- What is held stays within the configured total and the new entry after every call
exactly if each call finds room, or takes out an entry as long as the excess. -/
theorem bounded_iff (totals : Totals) (pushes : List (Push FileData TunnelingData)) :
    Throughout (fun cache push => cache.step totals push.operation)
        (fun cache push => push.Bounded totals cache) new pushes ↔
      Throughout (fun cache push => cache.step totals push.operation)
        (fun cache push => push.Yields totals cache) new pushes :=
  Replay.throughout_iff sound_new fun _ sound push => push_bounded_iff totals sound push

/-- A short entry goes for a long one, which stays when a short one comes. -/
theorem not_bounded_long :
    ¬ Throughout (fun cache (push : Push Unit Unit) => cache.step ⟨10, 10⟩ push.operation)
      (fun cache push => push.Bounded ⟨10, 10⟩ cache) new
      [.file (fun _ => 1) [0x61] ⟨9, 1, ()⟩, .file (fun _ => 1) [0x62] ⟨100, 1, ()⟩,
        .file (fun _ => 1) [0x63] ⟨1, 1, ()⟩] := by
  simp only [Replay.throughout_cons, Replay.throughout_nil, and_true, not_and]
  intro _ _ bounded
  exact absurd bounded.2 (by decide)

end MemoryCache

end Cache

end HeapHttpd
