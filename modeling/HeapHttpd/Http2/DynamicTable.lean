import HeapHttpd.Http2.Histories
import HeapHttpd.Library.EvictingTable

/-!
# The dynamic header table

The table of a connection is renumbered at every insertion and bounded by the
number of its entries, the table of a client by the octets in it.  Both have the
fields that were inserted last, so that what a client may refer to the connection
has under the same index.
-/

namespace HeapHttpd

namespace Http2

open General Hpack EvictingTable

variable {X : Type}

/-- A name with a value. -/
abbrev Entry := List UInt8 × List UInt8

/-- Whether a field is to be inserted. -/
def isWithIndexing (header : Header) : Bool :=
  header.indexType = .withIndexingIndexedName || header.indexType = .withIndexingNewName

/-- What an event adds to the fields that are to be inserted. -/
def indexedField : Event → Option Entry
  | .field header => if isWithIndexing header then some (header.name, header.value) else none
  | _ => none

/-- The fields that were to be inserted, the latest first. -/
def indexedFields (trace : List Event) : List Entry :=
  (trace.filterMap indexedField).reverse

/-- The names of some fields are not empty and are free of NUL. -/
def Named (fields : List Entry) : Prop :=
  ∀ entry ∈ fields, entry.1 ≠ [] ∧ 0 ∉ entry.1

/-- A table has the latest fields under the keys behind the static table, and
nothing else. -/
structure Mirrors (table : Std.TreeMap Nat Entry) (fields : List Entry) : Prop where
  entry : ∀ key, table[key]? =
    if headerStaticTable.length < key ∧ key ≤ headerStaticTable.length + 4096 then
      fields[key - headerStaticTable.length - 1]?
    else none
  size : table.size = min 4096 fields.length

theorem length_headerStaticTable : headerStaticTable.length = 61 :=
  rfl

theorem getElem?_insert (table : Std.TreeMap Nat Entry) (place key : Nat) (entry : Entry) :
    (table.insert place entry)[key]? = if place = key then some entry else table[key]? := by
  rw [Std.TreeMap.getElem?_insert]
  simp

/-- The shifting loop moves every entry by one place. -/
theorem getElem?_shiftTable (table : Std.TreeMap Nat Entry) (count : Nat)
    (present : ∀ place, 1 ≤ place → place ≤ count →
      (table[headerStaticTable.length + place]?).isSome) (key : Nat) :
    (shiftTable table count)[key]? =
      if headerStaticTable.length + 1 < key ∧ key ≤ headerStaticTable.length + count + 1 then
        table[key - 1]?
      else table[key]? := by
  induction count generalizing table with
  | zero =>
      rw [if_neg (by omega)]
      rfl
  | succ count ih =>
      rcases Option.isSome_iff_exists.mp (present (count + 1) (by omega) le_rfl) with ⟨moved, found⟩
      have lower : ∀ place, 1 ≤ place → place ≤ count →
          ((table.insert (headerStaticTable.length + (count + 1) + 1)
            moved)[headerStaticTable.length + place]?).isSome := by
        intro place positive below
        rw [getElem?_insert, if_neg (by omega)]
        exact present place positive (by omega)
      unfold shiftTable
      rw [found]
      dsimp only
      rw [ih _ lower, getElem?_insert, getElem?_insert]
      by_cases last : key = headerStaticTable.length + (count + 1) + 1
      · subst last
        rw [if_neg (by omega), if_pos rfl, if_pos (by omega), ← found]
        rfl
      · rw [if_neg (by omega : ¬_ = key)]
        split
        · rw [if_neg (by omega), if_pos (by omega)]
        · rw [if_neg (by omega)]

theorem size_shiftTable (table : Std.TreeMap Nat Entry) (count : Nat)
    (present : ∀ place, 1 ≤ place → place ≤ count →
      (table[headerStaticTable.length + place]?).isSome) :
    (shiftTable table count).size = table.size +
      if 0 < count ∧ table[headerStaticTable.length + count + 1]? = none then 1 else 0 := by
  induction count generalizing table with
  | zero => simp [shiftTable]
  | succ count ih =>
      rcases Option.isSome_iff_exists.mp (present (count + 1) (by omega) le_rfl) with ⟨moved, found⟩
      have lower : ∀ place, 1 ≤ place → place ≤ count →
          ((table.insert (headerStaticTable.length + (count + 1) + 1)
            moved)[headerStaticTable.length + place]?).isSome := by
        intro place positive below
        rw [getElem?_insert, if_neg (by omega)]
        exact present place positive (by omega)
      unfold shiftTable
      rw [found]
      dsimp only
      have kept : (table.insert (headerStaticTable.length + (count + 1) + 1)
          moved)[headerStaticTable.length + count + 1]? = some moved := by
        rw [getElem?_insert, if_neg (by omega)]
        exact found
      rw [ih _ lower, kept, Std.TreeMap.size_insert]
      cases free : table[headerStaticTable.length + (count + 1) + 1]? with
      | none => simp [Std.TreeMap.mem_iff_isSome_getElem?, free]
      | some other => simp [Std.TreeMap.mem_iff_isSome_getElem?, free]

namespace Mirrors

variable {table : Std.TreeMap Nat Entry} {fields : List Entry}

theorem empty : Mirrors ∅ [] :=
  ⟨by simp, by simp⟩

theorem isSome (mirrors : Mirrors table fields) (place : Nat) (positive : 1 ≤ place)
    (below : place ≤ min table.size 4095) :
    (table[headerStaticTable.length + place]?).isSome := by
  have size := mirrors.size
  rw [mirrors.entry, if_pos (by omega), List.getElem?_eq_getElem (by omega)]
  rfl

/-- The insertion of a field keeps the latest fields under their keys. -/
theorem insertField (mirrors : Mirrors table fields) {header : Header}
    (indexed : isWithIndexing header) (named : header.name ≠ [] ∧ 0 ∉ header.name) :
    Mirrors (Http2.insertField table header) ((header.name, header.value) :: fields) := by
  have kind : header.indexType = .withIndexingIndexedName ∨
      header.indexType = .withIndexingNewName := by simpa [isWithIndexing] using indexed
  have text : cString header.name ≠ [] := by
    rw [cString_of_nulFree named.2]
    exact named.1
  have present := mirrors.isSome
  have size := mirrors.size
  unfold Http2.insertField
  rw [if_pos kind, if_pos text]
  constructor
  · intro key
    rw [getElem?_insert, getElem?_shiftTable table _ present]
    by_cases first : headerStaticTable.length + 1 = key
    · rw [if_pos first, if_pos (by omega), ← first]
      simp
    · rw [if_neg first, mirrors.entry, mirrors.entry]
      by_cases shifted : headerStaticTable.length + 1 < key ∧
          key ≤ headerStaticTable.length + min table.size 4095 + 1
      · have place : key - headerStaticTable.length - 1 =
            (key - 1 - headerStaticTable.length - 1) + 1 := by omega
        rw [if_pos shifted, if_pos (by omega), if_pos (by omega), place, List.getElem?_cons_succ]
      · rw [if_neg shifted]
        by_cases within : headerStaticTable.length < key ∧ key ≤ headerStaticTable.length + 4096
        · rw [if_pos within, if_pos within, List.getElem?_eq_none (by omega),
            List.getElem?_eq_none (by simp only [List.length_cons]; omega)]
        · rw [if_neg within, if_neg within]
  · have first : (shiftTable table (min table.size 4095)).contains
        (headerStaticTable.length + 1) = true ↔ 0 < fields.length := by
      rw [Std.TreeMap.contains_eq_isSome_getElem?, getElem?_shiftTable table _ present,
        if_neg (by omega), mirrors.entry, if_pos (by omega)]
      cases fields <;> simp
    have free : table[headerStaticTable.length + min table.size 4095 + 1]? = none ↔
        fields.length < 4096 := by
      rw [mirrors.entry, if_pos (by omega), List.getElem?_eq_none_iff]
      omega
    rw [Std.TreeMap.size_insert, size_shiftTable table _ present, List.length_cons]
    simp only [free]
    split
    · have some_ := first.mp ‹_›
      split <;> omega
    · have none_ := mt first.mpr ‹_›
      rw [if_neg (by omega)]
      omega

end Mirrors

theorem headerDynamicTable_apply (ledger : Ledger) (event : Event) :
    (ledger.apply event).headerDynamicTable =
      match event with
      | .field header => insertField ledger.headerDynamicTable header
      | _ => ledger.headerDynamicTable := by
  cases event with
  | sent frame sender =>
      cases sender with
      | none => rfl
      | some sender =>
          simp only [Ledger.apply, Ledger.charge]
          split <;> rfl
  | unsent frame sender => cases sender <;> rfl
  | settings identifier value payload =>
      simp only [Ledger.apply]
      split_ifs <;> rfl
  | windowUpdate streamInd winSize payload =>
      simp only [Ledger.apply]
      split_ifs <;> rfl
  | credited stream increment => cases stream <;> rfl
  | _ => rfl

theorem indexedFields_append (first second : List Event) :
    indexedFields (first ++ second) = indexedFields second ++ indexedFields first := by
  simp [indexedFields]

/-- An event keeps the latest fields under their keys. -/
theorem mirrors_apply {ledger : Ledger} {fields : List Entry} (event : Event)
    (mirrors : Mirrors ledger.headerDynamicTable fields) (named : Named (indexedFields [event])) :
    Mirrors (ledger.apply event).headerDynamicTable (indexedFields [event] ++ fields) := by
  rw [headerDynamicTable_apply]
  cases event with
  | field header =>
      by_cases indexed : isWithIndexing header = true
      · have only : indexedFields [.field header] = [(header.name, header.value)] := by
          simp [indexedFields, indexedField, indexed]
        rw [only] at named ⊢
        exact mirrors.insertField indexed (named (header.name, header.value) (by simp))
      · have nothing : indexedFields [.field header] = [] := by
          simp [indexedFields, indexedField, indexed]
        have kind : ¬(header.indexType = .withIndexingIndexedName ∨
            header.indexType = .withIndexingNewName) := by simpa [isWithIndexing] using indexed
        rw [nothing]
        simpa [insertField, kind] using mirrors
  | _ => exact mirrors

/-- The table has the latest fields of the trace. -/
theorem mirrors_replay (ledger : Ledger) (fields : List Entry) (events : List Event)
    (mirrors : Mirrors ledger.headerDynamicTable fields) (named : Named (indexedFields events)) :
    Mirrors (ledger.replay events).headerDynamicTable (indexedFields events ++ fields) := by
  induction events generalizing ledger fields with
  | nil => exact mirrors
  | cons event events ih =>
      have split : indexedFields (event :: events) =
          indexedFields events ++ indexedFields [event] := indexedFields_append [event] events
      rw [split] at named ⊢
      rw [List.append_assoc]
      refine ih _ _ (mirrors_apply event mirrors fun entry member => ?_) fun entry member => ?_
      · exact named entry (List.mem_append_right _ member)
      · exact named entry (List.mem_append_left _ member)

/-- The size of an entry, as a client counts it. -/
def octetSize (entry : Entry) : Nat :=
  entry.1.length + entry.2.length + 32

/-- What a client with some dynamic table means by an index. -/
def clientEntry (table : List Entry) (index : Nat) : Option Entry :=
  if index ≤ headerStaticTable.length then headerStaticTable.lookup index
  else table[index - headerStaticTable.length - 1]?

/-- What a client may refer to is what the connection has. -/
theorem lookup_of_clientEntry {conn : Conn X} {fields table : List Entry}
    (mirrors : Mirrors conn.headerDynamicTable fields) (holds : Holds octetSize 4096 fields table)
    {index : Nat} {entry : Entry} (found : clientEntry table index = some entry) :
    conn.lookup index = some entry := by
  unfold clientEntry at found
  split at found
  · rename_i isStatic
    have positive : index ≠ 0 := by
      rintro rfl
      have missing : headerStaticTable.lookup 0 = none := by decide
      rw [missing] at found
      cases found
    rw [Conn.lookup, if_neg positive, if_neg (by omega)]
    exact found
  · rename_i isDynamic
    have short : table.length * 32 ≤ 4096 := holds.length_mul_le fun entry => by
      simp [octetSize]
    have within := (List.getElem?_eq_some_iff.mp found).1
    rw [Conn.lookup, if_neg (by omega), if_pos (by omega), mirrors.entry, if_pos (by omega)]
    rcases holds.isPrefix with ⟨older, rfl⟩
    rw [List.getElem?_append_left within]
    exact found

/-- The frame of a request `GET /` with a field that is to be inserted. -/
def insertingFrame : HTTP2Frame × List UInt8 :=
  ⟨⟨7, FrameType.headers, Flag.endHeaders ||| Flag.endStream, 1⟩,
    [0x82, 0x84, 0x40, 0x01, 0x61, 0x01, 0x62, 0x00]⟩

end Http2

end HeapHttpd
