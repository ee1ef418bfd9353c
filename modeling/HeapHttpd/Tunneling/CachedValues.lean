import HeapHttpd.Tunneling.CachedHeader

/-!
# The values that are kept of a response

Which field of a response each value of a cache entry comes from, and when it is the
value that the field has.
-/

namespace HeapHttpd

namespace Tunneling

open General
open Http1 (strcutFrom)

variable {setting : Setting}

/-- What a branch of `parseField` does to the fields that go into the cache. -/
def CachedFields.readLine (strtext : List UInt8) (fields : CachedFields) :
    LineKind → CachedFields
  | .cacheControl => { fields with cacheControl := fieldValue "Cache-Control:" strtext }
  | .etag =>
      { fields with etag := strtrimSet (octets "\" ") (strcutFrom (octets "ETag:") strtext) }
  | .server => { fields with server := fieldValue "Server:" strtext }
  | .allow => { fields with allow := fieldValue "Allow:" strtext }
  | .encoding => { fields with encoding := fieldValue "Content-Encoding:" strtext }
  | .language => { fields with language := fieldValue "Content-Language:" strtext }
  | .lastModified => { fields with lastModified := fieldValue "Last-Modified:" strtext }
  | .expires => { fields with expires := fieldValue "Expires:" strtext }
  | .contentType => { fields with contentType := fieldValue "Content-Type:" strtext }
  | .via => { fields with via := fieldValue "Server:" strtext }
  | _ => fields

theorem HeaderInfo.fields_parseField (strtext : List UInt8) (info : HeaderInfo) :
    (info.parseField setting strtext).fields =
      info.fields.readLine strtext (lineKind strtext) := by
  rw [parseField_eq]
  cases lineKind strtext with
  | status => simp only [readLine]; split <;> rfl
  | transferEncoding => simp only [readLine]; split <;> rfl
  | cacheControl =>
      simp only [readLine, parseCacheControl]
      split
      · rfl
      · split <;> split <;> rfl
  | _ => rfl

/-- A member of the cached fields that the lines of one kind set. -/
structure Sets (kind : LineKind) (get : CachedFields → List UInt8)
    (read : List UInt8 → List UInt8) : Prop where
  blank : get HeaderInfo.new.fields = []
  own : ∀ strtext fields, get (CachedFields.readLine strtext fields kind) = read strtext
  other : ∀ strtext fields otherKind, otherKind ≠ kind →
    get (CachedFields.readLine strtext fields otherKind) = get fields

/-- The last line of its kind gives a member its value. -/
theorem Sets.readHeader {kind : LineKind} {get : CachedFields → List UInt8}
    {read : List UInt8 → List UInt8} (sets : Sets kind get read) (setting : Setting)
    (lines : List (List UInt8)) :
    get (readHeader setting lines).fields =
      ((lines.filter fun line => lineKind (seen line) = kind).getLast?.map
        fun line => read (seen line)).getD [] := by
  induction lines using List.reverseRecOn with
  | nil => exact sets.blank
  | append_singleton lines line ih =>
      rw [readHeader_concat, HeaderInfo.fields_parseField, List.filter_append]
      by_cases own : lineKind (seen line) = kind
      · rw [own, sets.own]
        simp [own]
      · rw [sets.other _ _ _ own, ih]
        simp [own]

/-- The members that hold the value behind their own name. -/
def plainMembers : List (String × LineKind × (CachedFields → List UInt8)) :=
  [("Content-Type", .contentType, CachedFields.contentType),
    ("Cache-Control", .cacheControl, CachedFields.cacheControl),
    ("Allow", .allow, CachedFields.allow),
    ("Content-Encoding", .encoding, CachedFields.encoding),
    ("Content-Language", .language, CachedFields.language),
    ("Expires", .expires, CachedFields.expires),
    ("Last-Modified", .lastModified, CachedFields.lastModified)]

theorem sets_plain : ∀ entry ∈ plainMembers,
    Sets entry.2.1 entry.2.2 (fieldValue (entry.1 ++ ":")) := by
  simp only [plainMembers, List.forall_mem_cons]
  refine ⟨?_, ?_, ?_, ?_, ?_, ?_, ?_, nofun⟩
  all_goals
    refine ⟨rfl, fun _ _ => rfl, ?_⟩
    intro _ _ otherKind differs
    cases otherKind <;> first | rfl | exact absurd rfl differs

/-- The value that is kept of `ETag`. -/
def etagValue (strtext : List UInt8) : List UInt8 :=
  strtrimSet (octets "\" ") (strcutFrom (octets "ETag:") strtext)

theorem sets_etag : Sets .etag CachedFields.etag etagValue := by
  refine ⟨rfl, fun _ _ => rfl, ?_⟩
  intro _ _ otherKind differs
  cases otherKind <;> first | rfl | exact absurd rfl differs

/-- The value that is kept of `Via` is cut behind another name. -/
theorem sets_via : Sets .via CachedFields.via (fieldValue "Server:") := by
  refine ⟨rfl, fun _ _ => rfl, ?_⟩
  intro _ _ otherKind differs
  cases otherKind <;> first | rfl | exact absurd rfl differs

namespace HeaderField

/-- The names that have a branch of their own. -/
def namedKinds : List (String × LineKind) :=
  [("Content-Length", .contentLength), ("Transfer-Encoding", .transferEncoding),
    ("Cache-Control", .cacheControl), ("ETag", .etag), ("Server", .server), ("Allow", .allow),
    ("Content-Encoding", .encoding), ("Content-Language", .language),
    ("Last-Modified", .lastModified), ("Expires", .expires), ("Content-Type", .contentType),
    ("Via", .via)]

/-- The kind of the first name in a list that a field has. -/
def kindIn (field : HeaderField) (otherwise : LineKind) : List (String × LineKind) → LineKind
  | [] => otherwise
  | entry :: entries =>
      if field.IsNamed entry.1 then entry.2 else field.kindIn otherwise entries

theorem nameKind_eq_kindIn (field : HeaderField) :
    field.nameKind = field.kindIn
      (if field.IsNamed "Connection" ∨ field.IsNamed "Accept-Ranges" ∨ field.IsNamed "Date" then
        .inert else .other) namedKinds := by
  simp only [nameKind, namedKinds, kindIn]

theorem kindIn_of_named {field : HeaderField} {otherwise : LineKind}
    {entries : List (String × LineKind)} {entry : String × LineKind} (member : entry ∈ entries)
    (named : field.IsNamed entry.1)
    (agree : ∀ other ∈ entries, (octets other.1).map loch = (octets entry.1).map loch →
      other.2 = entry.2) : field.kindIn otherwise entries = entry.2 := by
  induction entries with
  | nil => cases member
  | cons first entries ih =>
      rw [kindIn]
      split
      · rename_i isFirst
        exact agree first List.mem_cons_self (isFirst.symm.trans named)
      · rename_i notFirst
        rcases List.mem_cons.mp member with rfl | later
        · exact absurd named notFirst
        · exact ih later fun other isOther => agree other (List.mem_cons_of_mem _ isOther)

theorem named_of_kindIn {field : HeaderField} {otherwise kind : LineKind}
    {entries : List (String × LineKind)} (isKind : field.kindIn otherwise entries = kind)
    (differs : otherwise ≠ kind) : ∃ entry ∈ entries, field.IsNamed entry.1 ∧ entry.2 = kind := by
  induction entries with
  | nil => exact absurd isKind differs
  | cons first entries ih =>
      rw [kindIn] at isKind
      split at isKind
      · rename_i named
        exact ⟨first, List.mem_cons_self, named, isKind⟩
      · obtain ⟨entry, member, found⟩ := ih isKind
        exact ⟨entry, List.mem_cons_of_mem _ member, found⟩

/-- A name with a branch of its own takes that branch, and no other name does. -/
theorem nameKind_iff {entry : String × LineKind} (member : entry ∈ namedKinds)
    (field : HeaderField) : field.nameKind = entry.2 ↔ field.IsNamed entry.1 := by
  have agree : ∀ first ∈ namedKinds, ∀ second ∈ namedKinds,
      (octets first.1).map loch = (octets second.1).map loch → first.2 = second.2 := by
    decide +kernel
  have single : ∀ first ∈ namedKinds, ∀ second ∈ namedKinds, first.2 = second.2 →
      first.1 = second.1 := by
    decide +kernel
  have own : ∀ first ∈ namedKinds, LineKind.inert ≠ first.2 ∧ LineKind.other ≠ first.2 := by
    decide
  rw [nameKind_eq_kindIn]
  constructor
  · intro isKind
    have differs : (if field.IsNamed "Connection" ∨ field.IsNamed "Accept-Ranges" ∨
        field.IsNamed "Date" then LineKind.inert else .other) ≠ entry.2 :=
      LineKind.ite_ne (own entry member).1 (own entry member).2
    obtain ⟨other, isOther, named, kind⟩ := named_of_kindIn isKind differs
    rwa [← single other isOther entry member kind]
  · intro named
    exact kindIn_of_named member named fun other isOther => agree other isOther entry member

/-- Trimming takes nothing but blanks away. -/
theorem count_trimmed {ch : UInt8} (notBlank : isBlank ch = false) (text : List UInt8) :
    (trimmed text).count ch = text.count ch := by
  have front (list : List UInt8) : (list.dropWhile isBlank).count ch = list.count ch := by
    have none : (list.takeWhile isBlank).count ch = 0 := by
      refine List.count_eq_zero.mpr fun member => ?_
      have blank := List.mem_takeWhile_imp member
      rw [notBlank] at blank
      cases blank
    have whole := congrArg (List.count ch) (@List.takeWhile_append_dropWhile _ isBlank list)
    rw [List.count_append, none, Nat.zero_add] at whole
    exact whole
  rw [trimmed, List.rdropWhile, List.count_reverse, front, List.count_reverse, front]

/-- Behind another name, nothing is found, or something with fewer colons than the
value has. -/
theorem strcutFrom_other {field : HeaderField} {base : List UInt8}
    (notEnd : ¬ base <:+ field.seenName) :
    strcutFrom (base ++ [0x3a]) (seen field.text) = [] ∨
      (strcutFrom (base ++ [0x3a]) (seen field.text)).count 0x3a < field.content.count 0x3a := by
  rw [seen_text]
  rcases @strcutFrom_colon base _ (field.value.rdropWhile isBlank) field.seenName_noColon with
    nothing | ⟨before, name, -⟩ | ⟨before, found⟩
  · exact .inl nothing
  · exact absurd ⟨before, name.symm⟩ notEnd
  · right
    have colons := congrArg (List.count 0x3a) found
    rw [List.count_append, List.count_cons_self] at colons
    have whole : field.content.count 0x3a = (field.value.rdropWhile isBlank).count 0x3a := by
      rw [content, ← trimmed_rdropWhile, count_trimmed (by decide)]
    omega

end HeaderField

namespace ResponseHeader

/-- The fields with a name. -/
def named (name : String) (header : ResponseHeader) : List HeaderField :=
  header.fields.filter fun field => field.IsNamed name

/-- The values that a name has. -/
def contents (name : String) (header : ResponseHeader) : List (List UInt8) :=
  (header.named name).map HeaderField.content

/-- A name that no field has, or a single one, with a property. -/
def Once (name : String) (property : HeaderField → Prop) (header : ResponseHeader) : Prop :=
  header.named name = [] ∨ ∃ field, header.named name = [field] ∧ property field

theorem isNamed_of_mem {header : ResponseHeader} {name : String} {field : HeaderField}
    (member : field ∈ header.named name) : field.IsNamed name :=
  of_decide_eq_true (List.mem_filter.mp member).2

/-- The last field with a name gives its member its value. -/
theorem get_eq {kind : LineKind} {get : CachedFields → List UInt8}
    {read : List UInt8 → List UInt8} (sets : Sets kind get read) (notStatus : kind ≠ .status)
    {name : String} (iff : ∀ field : HeaderField, field.nameKind = kind ↔ field.IsNamed name)
    (header : ResponseHeader) :
    get (readHeader setting header.lines).fields =
      ((header.named name).getLast?.map fun field => read (seen field.text)).getD [] := by
  rw [sets.readHeader, header.filter_lines kind notStatus, List.getLast?_map, Option.map_map,
    named]
  simp only [iff]
  rfl

/-- A value that is kept of the last field and shown if it is not empty is the value that
the name has, if there is one field and its value is kept. -/
theorem shown_iff {header : ResponseHeader} {name : String} {kept : HeaderField → List UInt8}
    {property : HeaderField → Prop}
    (iff : ∀ field, field.IsNamed name →
      (property field ↔ kept field ≠ [] ∧ trimmed (kept field) = field.content)) :
    (([((header.named name).getLast?.map kept).getD []].filter fun value => value ≠ []).map
        trimmed = header.contents name ↔ header.Once name property) := by
  rw [contents, Once]
  rcases List.eq_nil_or_concat (header.named name) with none | ⟨others, last, split⟩
  · simp [none]
  · rw [List.concat_eq_append] at split
    have isNamed : last.IsNamed name := @isNamed_of_mem header _ _ (by rw [split]; simp)
    rw [split, List.getLast?_concat, Option.map_some, Option.getD_some]
    cases others with
    | nil =>
        simp only [List.nil_append, List.map_cons, List.map_nil, List.cons_ne_self, false_or,
          List.cons.injEq, and_true, exists_eq_left', iff last isNamed]
        by_cases blank : kept last = []
        · simp [blank]
        · simp [blank]
    | cons first others =>
        constructor
        · intro same
          have length := congrArg List.length same
          have most : ([kept last].filter fun value => value ≠ []).length ≤ 1 :=
            List.length_filter_le _ _
          simp only [List.length_map, List.length_append, List.length_cons, List.length_nil]
            at length
          omega
        · rintro (none | ⟨field, single, -⟩)
          · simp at none
          · have length := congrArg List.length single
            simp at length

end ResponseHeader

end Tunneling

end HeapHttpd
