import HeapHttpd.Cache.Accounts

/-!
# Handles to entries of the memory cache

Sessions that share a cache hold pointers to its entries.  Every region under one of the
locks of the cache is one step; an entry has a lock of its own, which its destructor waits
for.
-/

namespace HeapHttpd

namespace Cache

open OrderedMap
open Replay (Throughout)
open Tunneling (stringBefore)

/-- A pointer that a session has: none, one to an object that it has not locked, or one
to an object that it has locked for reading. -/
inductive Handle
  | none
  | unlocked (object : Nat)
  | locked (object : Nat)
  deriving DecidableEq

namespace Handle

/-- The object that a handle leads to. -/
def object : Handle → Option Nat
  | none => Option.none
  | unlocked object => some object
  | locked object => some object

def isLocked : Handle → Bool
  | locked _ => true
  | _ => false

/-- `tunneling_unlock`: the pointer is kept. -/
def unlock : Handle → Handle
  | locked object => unlocked object
  | handle => handle

end Handle

/-- The objects of a map, by number. -/
def objects (store : Store Nat) : List Nat :=
  store.entries.map fun entry => entry.2.data

/-- The access time of an object is written. -/
def accessObject (object : Nat) (now : Int) (store : Store Nat) : Store Nat :=
  { store with
    entries := store.entries.map fun entry =>
      if entry.2.data = object then (entry.1, { entry.2 with tAccess := now }) else entry }

/-- The handles of sessions; a session without an entry has none. -/
abbrev Handles := List (Nat × Handle)

namespace Handles

/-- The handle of a session. -/
def of (session : Nat) (handles : Handles) : Handle :=
  (find session handles).getD .none

/-- A session gets a handle. -/
def give (session : Nat) (handle : Handle) (handles : Handles) : Handles :=
  OrderedMap.set (fun first second => decide (first < second)) session handle handles

end Handles

/-- A cache with the handles of its sessions: those of `web_doc::Response` to files, and
those of `http_tunneling` to relayed responses. -/
structure Shared where
  cache : MemoryCache Nat Nat
  fresh : Nat
  fileHandles : Handles
  tunnelingHandles : Handles

/-- A region under a lock, and who runs it. -/
inductive Region
  | findFile (session : Nat) (name : List UInt8) (fresh : Bool) (now : Int)
  | pushFile (session : Nat) (clock : Nat → Int) (name : List UInt8) (len : Nat) (now : Int)
  | lockFile (session : Nat) (now : Int)
  | unlockFile (session : Nat)
  | findTunneling (session : Nat) (name : List UInt8) (fresh : Bool)
  | lockTunneling (session : Nat) (now : Int)
  | unlockTunneling (session : Nat)
  | leaveTunneling (session : Nat)
  | pushTunneling (clock : Nat → Int) (name : List UInt8) (len : Nat) (now : Int)
  | clearFiles
  | clearTunnelings
  | unload
  | load

/-- What `_find_file_` and `_find_tunneling_` hand out. -/
def findObject (name : List UInt8) (fresh : Bool) (store : Store Nat) : Option Nat :=
  if fresh then (find name store.entries).map Entry.data else none

namespace Shared

def new : Shared :=
  { cache := .new
    fresh := 0
    fileHandles := []
    tunnelingHandles := [] }

/-- What a region does.  A file that is found is locked in the same region, one that is
pushed is not. -/
def apply (totals : Totals) (shared : Shared) : Region → Shared
  | .findFile session name fresh now =>
      match findObject name fresh shared.cache.fileCache with
      | none => shared
      | some object =>
          { shared with
            cache.fileCache := accessObject object now shared.cache.fileCache
            fileHandles := shared.fileHandles.give session (.locked object) }
  | .pushFile session clock name len now =>
      let cache := shared.cache.pushFile totals clock name ⟨len, now, shared.fresh⟩
      { shared with
        cache
        fresh := shared.fresh + 1
        fileHandles :=
          if cache.fileCache.strayed then shared.fileHandles
          else shared.fileHandles.give session (.unlocked shared.fresh) }
  | .lockFile session now =>
      match shared.fileHandles.of session with
      | .unlocked object =>
          { shared with
            cache.fileCache := accessObject object now shared.cache.fileCache
            fileHandles := shared.fileHandles.give session (.locked object) }
      | _ => shared
  | .unlockFile session =>
      { shared with fileHandles := shared.fileHandles.give session .none }
  | .findTunneling session name fresh =>
      { shared with
        tunnelingHandles := shared.tunnelingHandles.give session
          (match findObject name fresh shared.cache.tunnelingCache with
            | none => .none
            | some object => .unlocked object) }
  | .lockTunneling session now =>
      match shared.tunnelingHandles.of session with
      | .unlocked object =>
          { shared with
            cache.tunnelingCache := accessObject object now shared.cache.tunnelingCache
            tunnelingHandles := shared.tunnelingHandles.give session (.locked object) }
      | _ => shared
  | .unlockTunneling session =>
      { shared with
        tunnelingHandles := shared.tunnelingHandles.give session
          (shared.tunnelingHandles.of session).unlock }
  | .leaveTunneling session =>
      { shared with tunnelingHandles := shared.tunnelingHandles.give session .none }
  | .pushTunneling clock name len now =>
      { shared with
        cache := shared.cache.pushTunneling totals clock name ⟨len, now, shared.fresh⟩
        fresh := shared.fresh + 1 }
  | .clearFiles => { shared with cache := shared.cache.clearFiles }
  | .clearTunnelings => { shared with cache := shared.cache.clearTunnelings }
  | .unload | .load => { shared with cache := shared.cache.unload }

end Shared

/-- An object that a region takes out of a map, and deletes. -/
def deleted (before after : Store Nat) : List Nat :=
  (objects before).filter fun object => object ∉ objects after

namespace Handles

/-- The destructor of a deleted object waits until no session has locked it. -/
def Waits (before after : Store Nat) (handles : Handles) : Prop :=
  ∀ object ∈ deleted before after, ∀ entry ∈ handles, entry.2 ≠ .locked object

/-- No session has a pointer to a deleted object that it has not locked. -/
def Cautious (before after : Store Nat) (handles : Handles) : Prop :=
  ∀ object ∈ deleted before after, ∀ entry ∈ handles, entry.2 ≠ .unlocked object

/-- No session has a pointer to a deleted object. -/
def Spared (before after : Store Nat) (handles : Handles) : Prop :=
  ∀ object ∈ deleted before after, ∀ entry ∈ handles, entry.2.object ≠ some object

/-- Every pointer leads to an object of the map. -/
def Live (store : Store Nat) (handles : Handles) : Prop :=
  ∀ entry ∈ handles, ∀ object ∈ entry.2.object, object ∈ objects store

instance (before after : Store Nat) (handles : Handles) :
    Decidable (handles.Waits before after) :=
  List.decidableBAll (fun object => ∀ entry ∈ handles, entry.2 ≠ .locked object)
    (deleted before after)

theorem spared_iff {before after : Store Nat} {handles : Handles}
    (waits : handles.Waits before after) :
    handles.Spared before after ↔ handles.Cautious before after := by
  constructor
  · intro spared object isDeleted entry member same
    exact spared object isDeleted entry member (by rw [same]; rfl)
  · intro cautious object isDeleted entry member leads
    cases held : entry.2 with
    | none =>
        rw [held] at leads
        cases leads
    | unlocked other =>
        rw [held] at leads
        rw [Option.some.inj leads] at held
        exact cautious object isDeleted entry member held
    | locked other =>
        rw [held] at leads
        rw [Option.some.inj leads] at held
        exact waits object isDeleted entry member held

/-- Pointers stay live in a region that spares them. -/
theorem live_of_spared {before after : Store Nat} {handles : Handles}
    (live : handles.Live before) (spared : handles.Spared before after) : handles.Live after := by
  intro entry member object leads
  by_contra gone
  have isDeleted : object ∈ deleted before after :=
    List.mem_filter.mpr ⟨live entry member object leads, decide_eq_true gone⟩
  exact spared object isDeleted entry member leads

theorem live_give {store : Store Nat} {handles : Handles} (live : handles.Live store)
    {session : Nat} {handle : Handle} (leads : ∀ object ∈ handle.object, object ∈ objects store) :
    (handles.give session handle).Live store := by
  intro entry member object isObject
  rcases mem_set member with rfl | old
  · exact leads object isObject
  · exact live entry old object isObject

theorem leads_of {store : Store Nat} {handles : Handles} (live : handles.Live store)
    (session : Nat) : ∀ object ∈ (handles.of session).object, object ∈ objects store := by
  rw [of]
  cases held : find session handles with
  | none =>
      intro object isObject
      cases isObject
  | some handle => exact live _ (mem_of_find held)

end Handles

theorem objects_accessObject (object : Nat) (now : Int) (store : Store Nat) :
    objects (accessObject object now store) = objects store := by
  rw [objects, accessObject, List.map_map, objects]
  refine List.map_congr_left fun entry _ => ?_
  simp only [Function.comp_apply]
  split <;> rfl

theorem mem_objects_of_findObject {name : List UInt8} {fresh : Bool} {store : Store Nat}
    {object : Nat} (found : findObject name fresh store = some object) :
    object ∈ objects store := by
  rw [findObject] at found
  split at found
  · obtain ⟨entry, isEntry, rfl⟩ := Option.map_eq_some_iff.mp found
    exact List.mem_map_of_mem (mem_of_find isEntry)
  · cases found

/-- What is pushed is in the map, unless `end()` was looked into. -/
theorem mem_objects_push {total : Nat} {clock : Nat → Int} {name : List UInt8}
    {entry : Entry Nat} {store : Store Nat}
    (inside : (store.push total clock name entry).strayed = false) :
    entry.data ∈ objects (store.push total clock name entry) := by
  have written (entries : List (List UInt8 × Entry Nat)) :
      (name, entry) ∈ OrderedMap.set stringBefore name entry entries :=
    mem_of_find (by rw [find_set, if_pos rfl])
  rcases Store.push_cases total clock name entry store with ⟨old, -, -, pushed⟩ |
    ⟨-, -, pushed⟩ | ⟨-, -, -, -, pushed⟩ | ⟨entries, oldest, evicted, -, -, -, -, -, pushed⟩
  · rw [pushed]
    exact List.mem_map_of_mem (written _)
  · rw [pushed]
    exact List.mem_map_of_mem (written _)
  · rw [pushed] at inside
    cases inside
  · rw [pushed]
    exact List.mem_map_of_mem (written _)

namespace Shared

variable {totals : Totals} {shared : Shared}

/-- Whether a session is at the place in the code where it runs a region: it looks for a
file or pushes one when it has none, and looks for a relayed response or is done with one
when it has none locked. -/
def placed (shared : Shared) : Region → Bool
  | .findFile session _ _ _ => decide (shared.fileHandles.of session = .none)
  | .pushFile session _ _ _ _ => decide (shared.fileHandles.of session = .none)
  | .findTunneling session _ _ => !(shared.tunnelingHandles.of session).isLocked
  | .leaveTunneling session => !(shared.tunnelingHandles.of session).isLocked
  | _ => true

/-- A region that a session can run, and whose destructors have waited. -/
def Enabled (totals : Totals) (shared : Shared) (region : Region) : Prop :=
  shared.placed region = true ∧
  shared.fileHandles.Waits shared.cache.fileCache (shared.apply totals region).cache.fileCache ∧
    shared.tunnelingHandles.Waits shared.cache.tunnelingCache
      (shared.apply totals region).cache.tunnelingCache

instance (totals : Totals) (shared : Shared) (region : Region) :
    Decidable (shared.Enabled totals region) :=
  inferInstanceAs (Decidable (_ ∧ _ ∧ _))

/-- No session has a pointer to what a region deletes, without having locked it. -/
def Cautious (totals : Totals) (shared : Shared) (region : Region) : Prop :=
  shared.fileHandles.Cautious shared.cache.fileCache
      (shared.apply totals region).cache.fileCache ∧
    shared.tunnelingHandles.Cautious shared.cache.tunnelingCache
      (shared.apply totals region).cache.tunnelingCache

/-- Every pointer leads to an object that is there. -/
def Live (shared : Shared) : Prop :=
  shared.fileHandles.Live shared.cache.fileCache ∧
    shared.tunnelingHandles.Live shared.cache.tunnelingCache

/-- A region deletes nothing that a session has a pointer to, and afterwards every pointer
leads to an object that is there. -/
structure Safe (totals : Totals) (shared : Shared) (region : Region) : Prop where
  files : shared.fileHandles.Spared shared.cache.fileCache
    (shared.apply totals region).cache.fileCache
  tunnelings : shared.tunnelingHandles.Spared shared.cache.tunnelingCache
    (shared.apply totals region).cache.tunnelingCache
  live : (shared.apply totals region).Live

/-- Pointers that are handed out lead to objects that are there. -/
theorem live_apply (live : shared.Live) {region : Region}
    (files : shared.fileHandles.Spared shared.cache.fileCache
      (shared.apply totals region).cache.fileCache)
    (tunnelings : shared.tunnelingHandles.Spared shared.cache.tunnelingCache
      (shared.apply totals region).cache.tunnelingCache) :
    (shared.apply totals region).Live := by
  have fileLive := Handles.live_of_spared live.1 files
  have tunnelingLive := Handles.live_of_spared live.2 tunnelings
  have blank (store : Store Nat) : ∀ object ∈ Handle.none.object, object ∈ objects store :=
    fun _ isObject => by cases isObject
  cases region with
  | findFile session name fresh now =>
      rw [apply] at fileLive tunnelingLive ⊢
      cases found : findObject name fresh shared.cache.fileCache with
      | none => exact live
      | some object =>
          simp only [found] at fileLive tunnelingLive
          refine ⟨Handles.live_give fileLive fun other isOther => ?_, tunnelingLive⟩
          cases isOther
          rw [objects_accessObject]
          exact mem_objects_of_findObject found
  | pushFile session clock name len now =>
      refine ⟨?_, tunnelingLive⟩
      simp only [apply]
      split
      · exact fileLive
      · rename_i inside
        refine Handles.live_give fileLive fun other isOther => ?_
        cases isOther
        exact mem_objects_push (Bool.not_eq_true _ ▸ inside)
  | lockFile session now =>
      have leads := Handles.leads_of live.1 session
      rw [apply] at fileLive tunnelingLive ⊢
      cases held : shared.fileHandles.of session with
      | unlocked object =>
          simp only [held] at fileLive tunnelingLive leads
          refine ⟨Handles.live_give fileLive fun other isOther => ?_, tunnelingLive⟩
          rw [objects_accessObject]
          exact leads other isOther
      | none => exact live
      | locked object => exact live
  | unlockFile session => exact ⟨Handles.live_give fileLive (blank _), tunnelingLive⟩
  | findTunneling session name fresh =>
      refine ⟨fileLive, Handles.live_give tunnelingLive fun other isOther => ?_⟩
      cases found : findObject name fresh shared.cache.tunnelingCache with
      | none =>
          rw [found] at isOther
          cases isOther
      | some object =>
          rw [found] at isOther
          cases isOther
          exact mem_objects_of_findObject found
  | lockTunneling session now =>
      have leads := Handles.leads_of live.2 session
      rw [apply] at fileLive tunnelingLive ⊢
      cases held : shared.tunnelingHandles.of session with
      | unlocked object =>
          simp only [held] at fileLive tunnelingLive leads
          refine ⟨fileLive, Handles.live_give tunnelingLive fun other isOther => ?_⟩
          rw [objects_accessObject]
          exact leads other isOther
      | none => exact live
      | locked object => exact live
  | unlockTunneling session =>
      refine ⟨fileLive, Handles.live_give tunnelingLive fun other isOther => ?_⟩
      have leads := Handles.leads_of live.2 session
      cases held : shared.tunnelingHandles.of session with
      | none =>
          rw [held] at isOther
          cases isOther
      | unlocked object =>
          rw [held] at isOther leads
          exact leads other isOther
      | locked object =>
          rw [held] at isOther leads
          exact leads other isOther
  | leaveTunneling session => exact ⟨fileLive, Handles.live_give tunnelingLive (blank _)⟩
  | pushTunneling clock name len now => exact ⟨fileLive, tunnelingLive⟩
  | clearFiles => exact ⟨fileLive, tunnelingLive⟩
  | clearTunnelings => exact ⟨fileLive, tunnelingLive⟩
  | unload => exact ⟨fileLive, tunnelingLive⟩
  | load => exact ⟨fileLive, tunnelingLive⟩

/-- A session that has found a relayed response, and another one that stores a response
under the same name. -/
def replacing : List Region :=
  [.pushTunneling (fun _ => 1) [0x61] 5 1, .findTunneling 0 [0x61] true,
    .pushTunneling (fun _ => 1) [0x61] 5 1]

end Shared

end Cache

end HeapHttpd
