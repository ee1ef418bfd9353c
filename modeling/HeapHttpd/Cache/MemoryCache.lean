import HeapHttpd.Tunneling.TunnelingCache

/-!
# The memory cache

`memory_cache` as far as it is about files and relayed responses: two maps with a
running total each.  Its functions for files and for relayed responses are the same but
for their names, and are stated once for what the two kinds of entries have in common.
-/

namespace HeapHttpd

namespace Cache

open OrderedMap
open Tunneling (stringBefore)

/-- `file_cache` or `tunneling_cache`: the length of its content, the time of the last
access, and what only one of them has. -/
structure Entry (Data : Type) where
  len : Nat
  tAccess : Int
  data : Data
  deriving DecidableEq

/-- One of the maps, with its running total.  The entries are in memory, so that their
lengths do not add up to 2^64; `strayed` is set once `end()` has been looked into. -/
structure Store (Data : Type) where
  entries : List (List UInt8 × Entry Data)
  size : Nat
  strayed : Bool
  deriving DecidableEq

namespace Store

variable {Data : Type}

def new : Store Data :=
  { entries := [], size := 0, strayed := false }

/-- What the lengths of the entries add up to. -/
def held (store : Store Data) : Nat :=
  weight Entry.len store.entries

end Store

section Oldest

variable {Data : Type}

/-- The access time of an entry is written. -/
def setAccess (name : List UInt8) (time : Int) (entries : List (List UInt8 × Entry Data)) :
    List (List UInt8 × Entry Data) :=
  entries.map fun entry =>
    if entry.1 = name then (entry.1, { entry.2 with tAccess := time }) else entry

/-- What `_find_oldest_file_` and `_find_oldest_tunneling_` have while they go through a
map: its entries, the oldest one so far, and how often they have read the time. -/
structure Search (Data : Type) where
  entries : List (List UInt8 × Entry Data)
  oldest : Option (List UInt8)
  readings : Nat

/-- The turn of the loop for an entry.  Locking an entry writes its access time, and what
is meant to compare two access times writes the first one again. -/
def Search.turn (clock : Nat → Int) (search : Search Data) (name : List UInt8) : Search Data :=
  match search.oldest with
  | none => { search with oldest := some name }
  | some oldest =>
      let entries := setAccess name (clock search.readings) search.entries
      let entries := setAccess oldest (clock (search.readings + 1)) entries
      let readings := search.readings + 2
      match find name entries, find oldest entries with
      | some current, some former =>
          if current.tAccess < former.tAccess then { entries, oldest := some name, readings }
          else if former.tAccess ≠ 0 ∧ current.len < former.len then
            { entries := setAccess name 1 entries, oldest := some name, readings }
          else { entries := setAccess name 0 entries, oldest := some oldest, readings }
      | _, _ => { entries, oldest := some oldest, readings }

/-- `_find_oldest_file_` and `_find_oldest_tunneling_`, with the readings of the clock on
the way. -/
def findOldest (clock : Nat → Int) (entries : List (List UInt8 × Entry Data)) : Search Data :=
  (entries.map Prod.fst).foldl (Search.turn clock) { entries, oldest := none, readings := 0 }

end Oldest

namespace Store

variable {Data : Type}

/-- The branch of `_push_file_` and `_push_tunneling_` for a new name and a map that is
full. -/
def replaceOldest (clock : Nat → Int) (name : List UInt8) (entry : Entry Data)
    (store : Store Data) : Store Data :=
  let search := findOldest clock store.entries
  match search.oldest.bind fun oldest => (find oldest search.entries).map (oldest, ·) with
  | none => { store with strayed := true }
  | some (oldest, evicted) =>
      { store with
        entries := set stringBefore name entry (erase oldest search.entries)
        size := store.size - evicted.len + entry.len }

/-- `_push_file_` and `_push_tunneling_`. -/
def push (total : Nat) (clock : Nat → Int) (name : List UInt8) (entry : Entry Data)
    (store : Store Data) : Store Data :=
  match find name store.entries with
  | some old =>
      { store with
        entries := set stringBefore name entry store.entries
        size := store.size - old.len + entry.len }
  | none =>
      if store.size < total then
        { store with
          entries := set stringBefore name entry store.entries
          size := store.size + entry.len }
      else store.replaceOldest clock name entry

/-- `clear_files` and `clear_tunnelings`. -/
def clear (store : Store Data) : Store Data :=
  { store with entries := [] }

end Store

/-- The configured totals. -/
structure Totals where
  localfile : Nat
  tunneling : Nat

/-- `memory_cache`. -/
structure MemoryCache (FileData TunnelingData : Type) where
  fileCache : Store FileData
  tunnelingCache : Store TunnelingData

/-- What is done to a cache.  `unload` and `load` clear both maps. -/
inductive Operation (FileData TunnelingData : Type)
  | pushFile (clock : Nat → Int) (name : List UInt8) (entry : Entry FileData)
  | pushTunneling (clock : Nat → Int) (name : List UInt8) (entry : Entry TunnelingData)
  | clearFiles
  | clearTunnelings
  | unload
  | load

namespace MemoryCache

variable {FileData TunnelingData : Type}

def new : MemoryCache FileData TunnelingData :=
  { fileCache := .new, tunnelingCache := .new }

/-- `_push_file_`. -/
def pushFile (totals : Totals) (clock : Nat → Int) (name : List UInt8) (entry : Entry FileData)
    (cache : MemoryCache FileData TunnelingData) : MemoryCache FileData TunnelingData :=
  { cache with fileCache := cache.fileCache.push totals.localfile clock name entry }

/-- `_push_tunneling_`. -/
def pushTunneling (totals : Totals) (clock : Nat → Int) (name : List UInt8)
    (entry : Entry TunnelingData) (cache : MemoryCache FileData TunnelingData) :
    MemoryCache FileData TunnelingData :=
  { cache with tunnelingCache := cache.tunnelingCache.push totals.tunneling clock name entry }

def clearFiles (cache : MemoryCache FileData TunnelingData) : MemoryCache FileData TunnelingData :=
  { cache with fileCache := cache.fileCache.clear }

def clearTunnelings (cache : MemoryCache FileData TunnelingData) :
    MemoryCache FileData TunnelingData :=
  { cache with tunnelingCache := cache.tunnelingCache.clear }

/-- `unload`. -/
def unload (cache : MemoryCache FileData TunnelingData) : MemoryCache FileData TunnelingData :=
  cache.clearFiles.clearTunnelings

/-- One operation. -/
def step (totals : Totals) (cache : MemoryCache FileData TunnelingData) :
    Operation FileData TunnelingData → MemoryCache FileData TunnelingData
  | .pushFile clock name entry => cache.pushFile totals clock name entry
  | .pushTunneling clock name entry => cache.pushTunneling totals clock name entry
  | .clearFiles => cache.clearFiles
  | .clearTunnelings => cache.clearTunnelings
  | .unload => cache.unload
  | .load => cache.unload

/-- A run of operations. -/
def run (totals : Totals) (operations : List (Operation FileData TunnelingData)) :
    MemoryCache FileData TunnelingData :=
  operations.foldl (step totals) new

end MemoryCache

end Cache

end HeapHttpd
