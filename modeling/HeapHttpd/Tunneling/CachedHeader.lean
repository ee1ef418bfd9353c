import HeapHttpd.Tunneling.StoredContent
import HeapHttpd.Tunneling.TunnelingCache

/-!
# The header that a cached response is sent with

Which values the fields of an entry come from, and which fields the header has that is
made of an entry.
-/

namespace HeapHttpd

namespace Tunneling

open General
open Http1 (strcutFrom)

variable {setting : Setting}

theorem nodup_insertNames (names : List (List UInt8 × List UInt8)) :
    ((insertNames names).map Prod.fst).Nodup := by
  induction names with
  | nil => exact List.nodup_nil
  | cons first names ih => exact OrderedMap.nodup_set ih stringBefore first.1 first.2

/-- The value that a list of names gives to a name. -/
theorem find_insertNames (names : List (List UInt8 × List UInt8)) (key : List UInt8) :
    OrderedMap.find key (insertNames names) = OrderedMap.find key names := by
  induction names with
  | nil => rfl
  | cons first names ih =>
      rw [insertNames, List.foldr_cons, OrderedMap.find_set, OrderedMap.find, ← ih, insertNames]

namespace CHttpResponseHdr

/-- The fields that the text of a header shows. -/
def shown (hdr : CHttpResponseHdr) : List (List UInt8 × List UInt8) :=
  hdr.mapHeader.filter fun entry => entry.2 ≠ []

/-- A field as it stands in a text. -/
def fieldText (entry : List UInt8 × List UInt8) : List UInt8 :=
  entry.1 ++ octets ": " ++ entry.2 ++ crlf

theorem text_eq (hdr : CHttpResponseHdr) :
    hdr.text = octets "HTTP/1.1 " ++ (hdr.statusText.getD ([], [])).1 ++ octets " " ++
      (hdr.statusText.getD ([], [])).2 ++ crlf ++ hdr.shown.flatMap fieldText := by
  have fields (entries : List (List UInt8 × List UInt8)) :
      (entries.flatMap fun entry =>
        if entry.2 ≠ [] then entry.1 ++ octets ": " ++ entry.2 ++ crlf else []) =
      (entries.filter fun entry => entry.2 ≠ []).flatMap fieldText := by
    induction entries with
    | nil => rfl
    | cons entry entries ih =>
        rw [List.flatMap_cons, List.filter_cons, ih]
        by_cases given : entry.2 ≠ []
        · rw [if_pos given, if_pos (decide_eq_true given), List.flatMap_cons, fieldText]
        · rw [if_neg given, if_neg (by simpa using given), List.nil_append]
  simp only [text, shown, fields]

/-- A header whose names differ. -/
def Distinct (hdr : CHttpResponseHdr) : Prop :=
  (hdr.mapHeader.map Prod.fst).Nodup

/-- The value of a name. -/
def value (name : String) (hdr : CHttpResponseHdr) : Option (List UInt8) :=
  OrderedMap.find (octets name) hdr.mapHeader

theorem value_setField (name other : String) (value : List UInt8) (hdr : CHttpResponseHdr) :
    (hdr.setField name value).value other =
      if octets name = octets other then some value else hdr.value other :=
  OrderedMap.find_set stringBefore (octets name) value hdr.mapHeader (octets other)

theorem value_setGiven_other {name other : String} (differs : octets name ≠ octets other)
    (value : List UInt8) (hdr : CHttpResponseHdr) :
    (hdr.setGiven name value).value other = hdr.value other := by
  rw [setGiven]
  split
  · rw [value_setField, if_neg differs]
  · rfl

theorem value_setGiven {name : String} {hdr : CHttpResponseHdr} (blank : hdr.value name = some [])
    (value : List UInt8) : (hdr.setGiven name value).value name = some value := by
  rw [setGiven]
  split
  · rw [value_setField, if_pos rfl]
  · rename_i empty
    rw [blank, not_not.mp empty]

theorem Distinct.setField {hdr : CHttpResponseHdr} (distinct : hdr.Distinct) (name : String)
    (value : List UInt8) : (hdr.setField name value).Distinct :=
  OrderedMap.nodup_set distinct stringBefore (octets name) value

theorem Distinct.setGiven {hdr : CHttpResponseHdr} (distinct : hdr.Distinct) (name : String)
    (value : List UInt8) : (hdr.setGiven name value).Distinct := by
  rw [CHttpResponseHdr.setGiven]
  split
  · exact distinct.setField name value
  · exact distinct

theorem Distinct.setStatusCode200 {hdr : CHttpResponseHdr} (distinct : hdr.Distinct) :
    hdr.setStatusCode200.Distinct :=
  distinct.setField "Accept-Ranges" (octets "bytes")

theorem value_setStatusCode200 (other : String) (hdr : CHttpResponseHdr) :
    hdr.setStatusCode200.value other =
      if octets "Accept-Ranges" = octets other then some (octets "bytes") else hdr.value other :=
  value_setField "Accept-Ranges" other (octets "bytes") hdr

theorem mapHeader_new (date : List UInt8) :
    (new date).mapHeader = insertNames (initialNames date) := by
  rw [new]

theorem distinct_new (date : List UInt8) : (new date).Distinct := by
  rw [Distinct, mapHeader_new]
  exact nodup_insertNames (initialNames date)

theorem value_new (name : String) (date : List UInt8) :
    (new date).value name = OrderedMap.find (octets name) (initialNames date) := by
  rw [value, mapHeader_new, find_insertNames]

end CHttpResponseHdr

/-- A name that stands in a list of blank ones. -/
theorem find_blank {key : List UInt8} {names : List (List UInt8 × List UInt8)}
    (blank : ∀ entry ∈ names, entry.2 = []) (present : key ∈ names.map Prod.fst) :
    OrderedMap.find key names = some [] := by
  cases found : OrderedMap.find key names with
  | none => exact absurd present (OrderedMap.find_eq_none.mp found)
  | some value => exact congrArg some (blank _ (OrderedMap.mem_of_find found))

/-- The values that a new header has. -/
theorem value_blank (date : List UInt8) :
    ∀ name ∈ blankNames, (CHttpResponseHdr.new date).value name = some [] := by
  have apart : ∀ name ∈ blankNames,
      octets name ≠ octets "Server" ∧ octets name ≠ octets "Date" := by
    decide +kernel
  intro name member
  rw [CHttpResponseHdr.value_new, initialNames, OrderedMap.find,
    if_neg (apart name member).2.symm, OrderedMap.find, if_neg (apart name member).1.symm]
  apply find_blank
  · intro entry isEntry
    obtain ⟨_, -, rfl⟩ := List.mem_map.mp isEntry
    rfl
  · rw [List.map_map]
    exact List.mem_map.mpr ⟨name, member, rfl⟩

theorem value_server (date : List UInt8) :
    (CHttpResponseHdr.new date).value "Server" = some versionString := by
  have apart : octets "Date" ≠ octets "Server" := by decide
  rw [CHttpResponseHdr.value_new, initialNames, OrderedMap.find, if_neg apart, OrderedMap.find,
    if_pos rfl]

/-- A call of `SetField`, which may stand behind the test for an empty value. -/
structure FieldStep where
  tested : Bool
  name : String
  value : List UInt8

/-- What a call does. -/
def CHttpResponseHdr.take (hdr : CHttpResponseHdr) (step : FieldStep) : CHttpResponseHdr :=
  if step.tested then hdr.setGiven step.name step.value else hdr.setField step.name step.value

/-- The calls that make a header of an entry. -/
def TunnelingCacheData.steps (setting : Setting) (cacheData : TunnelingCacheData) :
    List FieldStep :=
  [⟨true, "Content-Type", cacheData.type⟩, ⟨true, "Cache-Control", cacheData.cache⟩,
    ⟨true, "Allow", cacheData.allow⟩, ⟨true, "Content-Encoding", cacheData.encoding⟩,
    ⟨true, "Content-Language", cacheData.language⟩, ⟨true, "ETag", cacheData.etag⟩,
    ⟨false, "Content-Length", octets (toString cacheData.buf.length)⟩,
    ⟨true, "Expires", cacheData.expires⟩, ⟨true, "Last-Modified", cacheData.lastModified⟩,
    ⟨false, "Connection", octets "Keep-Alive"⟩,
    ⟨false, "Via", if cacheData.via = [] then viaEntry setting
      else cacheData.via ++ octets ", " ++ viaEntry setting⟩]

namespace CHttpResponseHdr

theorem value_take_other {step : FieldStep} {other : String}
    (differs : octets step.name ≠ octets other) (hdr : CHttpResponseHdr) :
    (hdr.take step).value other = hdr.value other := by
  rw [take]
  split
  · exact value_setGiven_other differs step.value hdr
  · rw [value_setField, if_neg differs]

theorem value_take {step : FieldStep} {hdr : CHttpResponseHdr}
    (blank : hdr.value step.name = some []) :
    (hdr.take step).value step.name = some step.value := by
  rw [take]
  split
  · exact value_setGiven blank step.value
  · rw [value_setField, if_pos rfl]

/-- Calls for names that differ leave each name its value. -/
theorem value_foldl_take {steps : List FieldStep}
    (differ : steps.Pairwise fun first second => octets first.name ≠ octets second.name)
    {hdr : CHttpResponseHdr} (blank : ∀ step ∈ steps, hdr.value step.name = some []) :
    (∀ step ∈ steps, (steps.foldl take hdr).value step.name = some step.value) ∧
      ∀ other, (∀ step ∈ steps, octets step.name ≠ octets other) →
        (steps.foldl take hdr).value other = hdr.value other := by
  induction steps generalizing hdr with
  | nil => exact ⟨nofun, fun _ _ => rfl⟩
  | cons first steps ih =>
      rw [List.pairwise_cons] at differ
      have later := @ih differ.2 (hdr.take first) (by
        intro step member
        rw [value_take_other (differ.1 step member)]
        exact blank step (List.mem_cons_of_mem _ member))
      constructor
      · intro step member
        rcases List.mem_cons.mp member with rfl | inSteps
        · rw [List.foldl_cons, later.2 step.name fun other isOther =>
            (differ.1 other isOther).symm]
          exact value_take (blank step List.mem_cons_self)
        · exact later.1 step inSteps
      · intro other differs
        rw [List.foldl_cons, later.2 other fun step member =>
          differs step (List.mem_cons_of_mem _ member)]
        exact value_take_other (differs first List.mem_cons_self) hdr

end CHttpResponseHdr

theorem cacheHeader_eq (date : List UInt8) (cacheData : TunnelingCacheData) :
    cacheHeader setting date cacheData =
      (cacheData.steps setting).foldl CHttpResponseHdr.take
        (CHttpResponseHdr.new date).setStatusCode200 := by
  simp only [TunnelingCacheData.steps, List.foldl_cons, List.foldl_nil, CHttpResponseHdr.take,
    if_true, Bool.false_eq_true, if_false, cacheHeader]

/-- The values of the header that is made of an entry. -/
theorem value_cacheHeader (date : List UInt8) (cacheData : TunnelingCacheData) :
    (∀ step ∈ cacheData.steps setting,
      (cacheHeader setting date cacheData).value step.name = some step.value) ∧
      (cacheHeader setting date cacheData).value "Server" = some versionString := by
  have names : (cacheData.steps setting).map FieldStep.name =
      ["Content-Type", "Cache-Control", "Allow", "Content-Encoding", "Content-Language", "ETag",
        "Content-Length", "Expires", "Last-Modified", "Connection", "Via"] := rfl
  have differ : (cacheData.steps setting).Pairwise fun first second =>
      octets first.name ≠ octets second.name := by
    rw [← List.pairwise_map (f := FieldStep.name)
      (R := fun first second => octets first ≠ octets second), names]
    decide +kernel
  have inBlank : ∀ step ∈ cacheData.steps setting, step.name ∈ blankNames ∧
      octets "Accept-Ranges" ≠ octets step.name ∧ octets step.name ≠ octets "Server" := by
    have all : ∀ name ∈ (cacheData.steps setting).map FieldStep.name, name ∈ blankNames ∧
        octets "Accept-Ranges" ≠ octets name ∧ octets name ≠ octets "Server" := by
      rw [names]
      decide
    exact fun step member => all _ (List.mem_map_of_mem member)
  have blank : ∀ step ∈ cacheData.steps setting,
      (CHttpResponseHdr.new date).setStatusCode200.value step.name = some [] := by
    intro step member
    rw [CHttpResponseHdr.value_setStatusCode200, if_neg (inBlank step member).2.1]
    exact value_blank date step.name (inBlank step member).1
  have folded := CHttpResponseHdr.value_foldl_take differ blank
  rw [cacheHeader_eq]
  refine ⟨folded.1, ?_⟩
  rw [folded.2 "Server" fun step member => (inBlank step member).2.2,
    CHttpResponseHdr.value_setStatusCode200, if_neg (by decide), value_server]

theorem distinct_cacheHeader (date : List UInt8) (cacheData : TunnelingCacheData) :
    (cacheHeader setting date cacheData).Distinct := by
  have ok := (CHttpResponseHdr.distinct_new date).setStatusCode200
  exact (((((((((((ok.setGiven _ _).setGiven _ _).setGiven _ _).setGiven _ _).setGiven _ _).setGiven
    _ _).setField _ _).setGiven _ _).setGiven _ _).setField _ _).setField _ _)

end Tunneling

end HeapHttpd
