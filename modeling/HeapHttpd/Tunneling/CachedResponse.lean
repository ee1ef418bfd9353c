import HeapHttpd.Tunneling.CachedValues

/-!
# Responses out of the cache

When the response that is made of a cache entry has the content and the header values
of the response that was stored.
-/

namespace HeapHttpd

namespace Tunneling

open General
open Http1 (strcutFrom)

variable {setting : Setting}

/-- The values of a name in the text of a header. -/
def valuesOf (name : String) (fields : List (List UInt8 × List UInt8)) : List (List UInt8) :=
  (fields.filter fun entry => entry.1 = octets name).map Prod.snd

theorem valuesOf_shown {hdr : CHttpResponseHdr} (distinct : hdr.Distinct) (name : String) :
    valuesOf name hdr.shown = (hdr.value name).toList.filter fun value => value ≠ [] := by
  have found := OrderedMap.filter_eq_find distinct (octets name)
  rw [valuesOf, CHttpResponseHdr.shown, List.filter_comm, found, CHttpResponseHdr.value]
  cases OrderedMap.find (octets name) hdr.mapHeader with
  | none => rfl
  | some value =>
      by_cases blank : value = []
      · simp [blank]
      · simp [blank]

namespace HeaderField

/-- The value stands behind its name as the source spells it. -/
def Spells (name : String) (field : HeaderField) : Prop :=
  field.content ≠ [] ∧ field.seenName = octets name

/-- The value of `ETag` without quotes and spaces around it. -/
def unquoted (field : HeaderField) : List UInt8 :=
  strtrimSet (octets "\" ") (field.value.rdropWhile isBlank)

/-- An `ETag` that taking quotes away leaves as it is. -/
def KeepsTag (field : HeaderField) : Prop :=
  field.seenName = octets "ETag" ∧ field.unquoted ≠ [] ∧ trimmed field.unquoted = field.content

theorem not_trimmed_of_fewer {field : HeaderField} {kept found : List UInt8}
    (fewer : found.count 0x3a < field.content.count 0x3a) (part : kept.Sublist found) :
    trimmed kept ≠ field.content := by
  intro same
  have count := congrArg (List.count 0x3a) same
  rw [count_trimmed (by decide)] at count
  have := part.count_le 0x3a
  omega

theorem strtrimSet_sublist (aim text : List UInt8) : (strtrimSet aim text).Sublist text :=
  ((List.rdropWhile_prefix _ _).sublist).trans (List.dropWhile_sublist _)

/-- A value that is kept and shown, for the names that hold the value behind them. -/
theorem spells_iff {field : HeaderField} {name : String} (isFull : octets (name ++ ":") =
    octets name ++ [0x3a]) (named : field.IsNamed name) :
    field.Spells name ↔ fieldValue (name ++ ":") (seen field.text) ≠ [] ∧
      trimmed (fieldValue (name ++ ":") (seen field.text)) = field.content := by
  by_cases spelled : field.seenName = octets name
  · rw [fieldValue_of_spelled isFull spelled, Spells, content, trimmed_trimmed]
    simp [spelled]
  · rw [Spells, fieldValue, isFull]
    refine iff_of_false (fun both => spelled both.2) ?_
    rintro ⟨given, same⟩
    rcases strcutFrom_other (not_suffix_of_named named spelled) with nothing | fewer
    · rw [nothing] at given
      exact given rfl
    · exact not_trimmed_of_fewer fewer (strtrim_inside _).sublist same

theorem keepsTag_iff {field : HeaderField} (named : field.IsNamed "ETag") :
    field.KeepsTag ↔ etagValue (seen field.text) ≠ [] ∧
      trimmed (etagValue (seen field.text)) = field.content := by
  have isFull : octets "ETag:" = octets "ETag" ++ [0x3a] := by decide
  by_cases spelled : field.seenName = octets "ETag"
  · have line : seen field.text =
        (octets "ETag" ++ [0x3a]) ++ field.value.rdropWhile isBlank := by
      rw [seen_text, spelled]
      simp
    rw [KeepsTag, etagValue, isFull, line, strcutFrom_prefix _ _ (by simp), unquoted]
    simp [spelled]
  · rw [KeepsTag, etagValue, isFull]
    refine iff_of_false (fun both => spelled both.1) ?_
    rintro ⟨given, same⟩
    rcases strcutFrom_other (not_suffix_of_named named spelled) with nothing | fewer
    · rw [nothing] at given
      exact given rfl
    · exact not_trimmed_of_fewer fewer (strtrimSet_sublist _ _) same

end HeaderField

/-- The data of the entry that is made of fields. -/
def TunnelingCacheData.of (buf : List UInt8) (fields : CachedFields) : TunnelingCacheData :=
  { buf
    type := fields.contentType
    allow := fields.allow
    encoding := fields.encoding
    language := fields.language
    cache := fields.cacheControl
    etag := fields.etag
    expires := fields.expires
    lastModified := fields.lastModified
    server := fields.server
    via := fields.via }

namespace ResponseHeader

/-- The value of `Via` with this proxy behind the ones that there are. -/
def viaBehind (setting : Setting) (header : ResponseHeader) : List UInt8 :=
  if header.contents "Via" = [] then viaEntry setting
  else (octets ", ").intercalate (header.contents "Via") ++ octets ", " ++ viaEntry setting

/-- The names whose values are to be the same. -/
def comparedNames : List String :=
  plainMembers.map Prod.fst ++ ["ETag", "Server"]

/-- The fields of a text have the values of a response, with this proxy in `Via`. -/
structure SameValues (setting : Setting) (header : ResponseHeader)
    (fields : List (List UInt8 × List UInt8)) : Prop where
  values : ∀ name ∈ comparedNames, (valuesOf name fields).map trimmed = header.contents name
  via : valuesOf "Via" fields = [header.viaBehind setting]

/-- The values of a response that are the same out of the cache: each name stands at most
once, under the spelling of the source and with a value, `ETag` has no quotes around it,
`Server` is the server's own and there is no `Via`. -/
structure KeepsValues (header : ResponseHeader) : Prop where
  plain : ∀ entry ∈ plainMembers, header.Once entry.1 (HeaderField.Spells entry.1)
  etag : header.Once "ETag" HeaderField.KeepsTag
  server : header.contents "Server" = [versionString]
  via : header.named "Via" = []

theorem sublist_intercalate {values : List (List UInt8)} {value : List UInt8}
    (member : value ∈ values) (separator : List UInt8) :
    value.Sublist (separator.intercalate values) := by
  induction values with
  | nil => cases member
  | cons first values ih =>
      by_cases last : values = []
      · rw [last, List.mem_singleton] at member
        rw [last, member, List.intercalate_singleton]
      · rw [List.intercalate_cons_of_ne_nil last]
        rcases List.mem_cons.mp member with rfl | later
        · rw [List.append_assoc]
          exact List.sublist_append_left _ _
        · exact (ih later).trans (List.sublist_append_right _ _)

/-- The value of `Via` that is kept is never the one that a response has. -/
theorem via_iff (header : ResponseHeader) :
    (if (readHeader setting header.lines).fields.via = [] then viaEntry setting
      else (readHeader setting header.lines).fields.via ++ octets ", " ++ viaEntry setting) =
        header.viaBehind setting ↔ header.named "Via" = [] := by
  have iff (field : HeaderField) : field.nameKind = .via ↔ field.IsNamed "Via" :=
    @HeaderField.nameKind_iff ("Via", .via) (by decide) field
  have kept := @get_eq setting _ _ _ sets_via (by decide) _ iff header
  rw [viaBehind, contents]
  rcases List.eq_nil_or_concat (header.named "Via") with none | ⟨others, last, split⟩
  · rw [none] at kept ⊢
    rw [kept]
    simp
  · rw [List.concat_eq_append] at split
    have given : header.named "Via" ≠ [] := by
      rw [split]
      simp
    have member : last ∈ header.named "Via" := by
      rw [split]
      simp
    refine iff_of_false ?_ given
    rw [split, List.getLast?_concat, Option.map_some, Option.getD_some] at kept
    rw [if_neg (show ¬ (header.named "Via").map HeaderField.content = [] by simpa using given)]
    have own : last.content.count 0x3a ≤
        ((octets ", ").intercalate ((header.named "Via").map HeaderField.content)).count 0x3a :=
      (sublist_intercalate (List.mem_map_of_mem member) _).count_le 0x3a
    intro same
    by_cases blank : (readHeader setting header.lines).fields.via = []
    · rw [if_pos blank] at same
      have length := congrArg List.length same
      simp only [List.length_append] at length
      have := congrArg List.length (show octets ", " = [0x2c, 0x20] by decide)
      simp only [List.length_cons, List.length_nil] at this
      omega
    · rw [if_neg blank, List.append_assoc, List.append_assoc, List.append_cancel_right_eq] at same
      have notEnd : ¬ octets "Server" <:+ last.seenName := by
        intro atEnd
        have length := congrArg List.length last.map_loch_seenName
        rw [isNamed_of_mem member, List.length_map, List.length_map] at length
        have := atEnd.length_le
        rw [length] at this
        exact absurd this (by decide)
      have isFull : octets "Server:" = octets "Server" ++ [0x3a] := by decide
      rw [kept, fieldValue, isFull] at blank
      rw [kept, fieldValue, isFull] at same
      rcases HeaderField.strcutFrom_other notEnd with nothing | fewer
      · rw [nothing] at blank
        exact blank rfl
      · have count := congrArg (List.count 0x3a) same
        have part := (strtrim_inside (strcutFrom (octets "Server" ++ [0x3a])
          (seen last.text))).sublist.count_le 0x3a
        omega

/-- The values of a name in the header that is made of an entry. -/
theorem valuesOf_cacheHeader {date : List UInt8} {cacheData : TunnelingCacheData}
    {name : String} {value : List UInt8}
    (found : (cacheHeader setting date cacheData).value name = some value) :
    valuesOf name (cacheHeader setting date cacheData).shown =
      [value].filter fun value => value ≠ [] := by
  rw [valuesOf_shown (distinct_cacheHeader date cacheData), found]
  rfl

section Made

variable (header : ResponseHeader) (date buf : List UInt8)

/-- The data of the entry that is made of a header. -/
def made (setting : Setting) (buf : List UInt8) (header : ResponseHeader) :
    TunnelingCacheData :=
  .of buf (readHeader setting header.lines).fields

theorem values_plain {entry : String × LineKind × (CachedFields → List UInt8)}
    (member : entry ∈ plainMembers) :
    (valuesOf entry.1 (cacheHeader setting date (header.made setting buf)).shown).map trimmed =
        header.contents entry.1 ↔
      header.Once entry.1 (HeaderField.Spells entry.1) := by
  have isFull : ∀ entry ∈ plainMembers.map Prod.fst,
      octets (entry ++ ":") = octets entry ++ [0x3a] := by decide +kernel
  have kinds : ∀ entry ∈ plainMembers.map fun entry => (entry.1, entry.2.1),
      entry ∈ HeaderField.namedKinds ∧ entry.2 ≠ .status := by decide
  have own := kinds _ (List.mem_map_of_mem member)
  have step : (⟨true, entry.1, entry.2.2 (readHeader setting header.lines).fields⟩ : FieldStep) ∈
      (header.made setting buf).steps setting := by
    simp only [plainMembers, List.mem_cons, List.not_mem_nil, or_false] at member
    rcases member with rfl | rfl | rfl | rfl | rfl | rfl | rfl <;>
      simp [TunnelingCacheData.steps, made, TunnelingCacheData.of]
  have found := (value_cacheHeader date (header.made setting buf)).1 _ step
  rw [valuesOf_cacheHeader found, get_eq (sets_plain entry member) own.2
    (fun field => HeaderField.nameKind_iff own.1 field)]
  exact shown_iff fun field named =>
    HeaderField.spells_iff (isFull _ (List.mem_map_of_mem member)) named

theorem values_etag :
    (valuesOf "ETag" (cacheHeader setting date (header.made setting buf)).shown).map trimmed =
        header.contents "ETag" ↔
      header.Once "ETag" HeaderField.KeepsTag := by
  have step : (⟨true, "ETag", (readHeader setting header.lines).fields.etag⟩ : FieldStep) ∈
      (header.made setting buf).steps setting := by
    simp [TunnelingCacheData.steps, made, TunnelingCacheData.of]
  have found := (value_cacheHeader date (header.made setting buf)).1 _ step
  rw [valuesOf_cacheHeader found, get_eq sets_etag (by decide)
    (fun field => @HeaderField.nameKind_iff ("ETag", .etag) (by decide) field)]
  exact shown_iff fun field named => HeaderField.keepsTag_iff named

theorem values_server :
    (valuesOf "Server" (cacheHeader setting date (header.made setting buf)).shown).map trimmed =
        header.contents "Server" ↔
      header.contents "Server" = [versionString] := by
  have found := (@value_cacheHeader setting date (header.made setting buf)).2
  have kept : ([versionString].filter fun value => value ≠ []).map trimmed = [versionString] := by
    decide
  rw [valuesOf_cacheHeader found, kept, eq_comm]

theorem values_via :
    valuesOf "Via" (cacheHeader setting date (header.made setting buf)).shown =
        [header.viaBehind setting] ↔
      header.named "Via" = [] := by
  have step : (⟨false, "Via", if (header.made setting buf).via = [] then viaEntry setting
      else (header.made setting buf).via ++ octets ", " ++ viaEntry setting⟩ : FieldStep) ∈
      (header.made setting buf).steps setting := by
    simp [TunnelingCacheData.steps]
  have found := (value_cacheHeader date (header.made setting buf)).1 _ step
  have entryGiven : viaEntry setting ≠ [] := by
    have : octets "HTTP/1.1 " ≠ [] := by decide
    simp [viaEntry, this]
  have given : ¬ (if (header.made setting buf).via = [] then viaEntry setting
      else (header.made setting buf).via ++ octets ", " ++ viaEntry setting) = [] := by
    split
    · exact entryGiven
    · simp [entryGiven]
  rw [valuesOf_cacheHeader found, List.filter_cons, if_pos (decide_eq_true given),
    List.filter_nil, List.cons.injEq, and_iff_left rfl]
  exact header.via_iff

/-- The header that is made of a response has its values exactly if it keeps them. -/
theorem sameValues_iff :
    header.SameValues setting (cacheHeader setting date (header.made setting buf)).shown ↔
      header.KeepsValues := by
  constructor
  · rintro ⟨values, via⟩
    refine ⟨fun entry member => ?_, ?_, ?_, (header.values_via date buf).mp via⟩
    · exact (header.values_plain date buf member).mp
        (values _ (List.mem_append_left _ (List.mem_map_of_mem member)))
    · exact (header.values_etag date buf).mp (values _ (by simp [comparedNames]))
    · exact (header.values_server date buf).mp (values _ (by simp [comparedNames]))
  · rintro ⟨plain, etag, server, via⟩
    refine ⟨fun name member => ?_, (header.values_via date buf).mpr via⟩
    rcases List.mem_append.mp member with isPlain | other
    · obtain ⟨entry, isEntry, rfl⟩ := List.mem_map.mp isPlain
      exact (header.values_plain date buf isEntry).mpr (plain entry isEntry)
    · simp only [List.mem_cons, List.not_mem_nil, or_false] at other
      rcases other with rfl | rfl
      · exact (header.values_etag date buf).mpr etag
      · exact (header.values_server date buf).mpr server

end Made

end ResponseHeader

@[simp] theorem CHttpResponseHdr.statusText_setGiven (name : String) (value : List UInt8)
    (hdr : CHttpResponseHdr) : (hdr.setGiven name value).statusText = hdr.statusText := by
  rw [setGiven]
  split <;> rfl

@[simp] theorem CHttpResponseHdr.statusText_setField (name : String) (value : List UInt8)
    (hdr : CHttpResponseHdr) : (hdr.setField name value).statusText = hdr.statusText :=
  rfl

/-- What is sent of an entry if nothing fails: a status line, the fields, and the
content. -/
theorem sendCache_flatten (sends : ∀ count, setting.sendFails count = false)
    (date : List UInt8) (cacheData : TunnelingCacheData) :
    (sendCache setting date cacheData []).1.flatten =
      octets "HTTP/1.1 200 OK" ++ crlf ++
        (cacheHeader setting date cacheData).shown.flatMap CHttpResponseHdr.fieldText ++ crlf ++
          cacheData.buf := by
  have status : (cacheHeader setting date cacheData).statusText =
      some (octets "200", octets "OK") := by
    simp only [cacheHeader, CHttpResponseHdr.statusText_setField,
      CHttpResponseHdr.statusText_setGiven, CHttpResponseHdr.setStatusCode200]
  have line : octets "HTTP/1.1 " ++ octets "200" ++ octets " " ++ octets "OK" =
      octets "HTTP/1.1 200 OK" := by
    decide
  simp only [sendCache, sends, Bool.false_eq_true, if_false, CHttpResponseHdr.text_eq, status,
    Option.getD_some, line]
  split
  · rename_i empty
    simp [empty]
  · simp

namespace ResponseHeader

/-- What is asked of the response that is made of an entry, for a response with octets
behind its header. -/
structure Replayed (setting : Setting) (header : ResponseHeader) (body date : List UInt8)
    (cacheData : TunnelingCacheData) : Prop where
  content : cacheData.buf <+: body ∧ ∀ number, header.Declares number →
    number ≤ body.length ∧ cacheData.buf = body.take number
  values : header.SameValues setting (cacheHeader setting date cacheData).shown

/-- Whatever is sent, in whatever segments and whatever comes behind it: if the response
is stored, its URL has an entry from which it is sent again. -/
def Replays (setting : Setting) (header : ResponseHeader) : Prop :=
  ∀ sendFails httpUrl segments body, segments.flatten = header.text ++ body →
    (HttpClient.processSegments { setting with sendFails } segments (.new httpUrl)).1.stores
      { setting with sendFails } = true →
    ∀ total now memory date, ∃ entry,
      OrderedMap.find (strtrim (cString httpUrl))
        ((HttpClient.processSegments { setting with sendFails } segments (.new httpUrl)).1.destroy
          { setting with sendFails } total now memory).tunnelingCache = some entry ∧
      header.Replayed setting body date entry.cacheData

/-- A content length that fits into the cache is the number that is declared. -/
theorem contentLength_of_admits {header : ResponseHeader} {number : Nat}
    (small : setting.singleTunnelingCacheSize < 2 ^ 32) (declares : header.Declares number)
    (admits : (readHeader setting header.lines).admits setting = true) :
    (readHeader setting header.lines).contentLength = number := by
  obtain ⟨-, -, -, positive, fits⟩ := header.admits_iff.mp admits
  rw [contentLength_eq declares] at positive fits ⊢
  split at positive
  · rename_i plain
    rw [if_pos plain] at fits ⊢
    omega
  · omega

/-- The entry of a response that is stored. -/
theorem entry_of_stores {header : ResponseHeader} {sendFails : Nat → Bool} {httpUrl : List UInt8}
    {segments : List (List UInt8)} {body : List UInt8}
    (received : segments.flatten = header.text ++ body)
    (stores : (HttpClient.processSegments { setting with sendFails } segments
      (.new httpUrl)).1.stores { setting with sendFails } = true) (now : Int) :
    ∃ buf, ((HttpClient.processSegments { setting with sendFails } segments
        (.new httpUrl)).1.entry now).cacheData = header.made setting buf ∧
      buf <+: body ∧ (buf.length : Int) = (readHeader setting header.lines).contentLength := by
  have nonempty : header.lines ≠ [] := by simp [lines]
  obtain ⟨info, begins, length⟩ :=
    HttpClient.processSegments_stored header.isLines nonempty received stores
  refine ⟨_, ?_, begins, length⟩
  have fields : (readHeader setting header.lines).settled.fields =
      (readHeader setting header.lines).fields := by
    rw [HeaderInfo.settled]
    split <;> rfl
  simp only [HttpClient.entry, info, readHeader_sendFails, fields, made, TunnelingCacheData.of,
    TunnelingCache.new]

end ResponseHeader

namespace ResponseHeader

/-- A response that is admitted and comes out of the cache with its values keeps them. -/
theorem keepsValues_of_replays {header : ResponseHeader}
    (admitted : header.admitted setting = true) (replays : header.Replays setting) :
    header.KeepsValues := by
  simp only [ResponseHeader.admitted, Bool.and_eq_true, decide_eq_true_iff] at admitted
  obtain ⟨short, admits⟩ := admitted
  obtain ⟨sendFails, httpUrl, segments, body, received, stores⟩ :=
    exists_stores (candidate_of_admits admits) short admits
  obtain ⟨entry, found, replayed⟩ :=
    replays sendFails httpUrl segments body received stores 0 0 ⟨[], 0⟩ []
  have stored := HttpClient.find_destroy stores 0 0 ⟨[], 0⟩
  rw [HttpClient.processSegments_httpTunnelingUrl] at stored
  obtain rfl := Option.some.inj (found.symm.trans stored)
  obtain ⟨buf, made, -, -⟩ := entry_of_stores received stores 0
  have values := replayed.values
  rw [made] at values
  exact (header.sameValues_iff [] buf).mp values

/-- A response that is admitted and keeps its values comes out of the cache with them and
with its content. -/
theorem replays_of_keepsValues {header : ResponseHeader}
    (small : setting.singleTunnelingCacheSize < 2 ^ 32)
    (admitted : header.admitted setting = true) (keeps : header.KeepsValues) :
    header.Replays setting := by
  simp only [ResponseHeader.admitted, Bool.and_eq_true, decide_eq_true_iff] at admitted
  obtain ⟨-, admits⟩ := admitted
  intro sendFails httpUrl segments body received stores total now memory date
  have stored := HttpClient.find_destroy stores total now memory
  rw [HttpClient.processSegments_httpTunnelingUrl] at stored
  obtain ⟨buf, made, begins, length⟩ := entry_of_stores received stores now
  refine ⟨_, stored, ⟨?_, fun number declares => ?_⟩, ?_⟩
  · rw [made]
    exact begins
  · rw [contentLength_of_admits small declares admits, Nat.cast_inj] at length
    rw [made, ← length]
    exact ⟨begins.length_le, List.prefix_iff_eq_take.mp begins⟩
  · rw [made]
    exact (header.sameValues_iff date buf).mpr keeps

end ResponseHeader

/-- `Server: Heaphttpd/1.1`. -/
def ownServer : HeaderField :=
  { name := octets "Server"
    value := octets " Heaphttpd/1.1"
    nameNonempty := by decide
    nameToken := by decide +kernel
    valuePlain := by decide }

/-- The `Via` of another proxy. -/
def otherProxy : HeaderField :=
  { name := octets "Via"
    value := octets " 1.0 fred"
    nameNonempty := by decide
    nameToken := by decide +kernel
    valuePlain := by decide +kernel }

/-- The header of a page that keeps its values. -/
def ownHeader : ResponseHeader :=
  { briefHeader with fields := [twoOctets, datedPage, ownServer] }

theorem ownHeader_keepsValues : ownHeader.KeepsValues where
  plain := by
    simp only [plainMembers, List.forall_mem_cons]
    refine ⟨.inl rfl, .inl rfl, .inl rfl, .inl rfl, .inl rfl, .inr ⟨datedPage, rfl, ?_⟩, .inl rfl,
      fun _ member => absurd member List.not_mem_nil⟩
    exact ⟨by decide, by decide⟩
  etag := .inl rfl
  server := by decide +kernel
  via := rfl

/-- The header of a page that came through another proxy. -/
def proxiedHeader : ResponseHeader :=
  { briefHeader with fields := [twoOctets, datedPage, ownServer, otherProxy] }

end Tunneling

end HeapHttpd
