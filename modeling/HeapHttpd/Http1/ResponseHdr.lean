import HeapHttpd.Library.Outcome
import HeapHttpd.Library.Replay
import HeapHttpd.Tunneling.TunnelingCache

/-!
# The text of a response header

`CHttpResponseHdr`: its text is kept, and made again when the header has been marked as changed.
A member without a value has not been initialised, and there is no result where it is looked
at.
-/

namespace HeapHttpd

namespace Http1

open General
open Tunneling (stringBefore crlf initialNames insertNames)
open Replay (Throughout)

/-- `HttpStatusText`, less the row without texts for `SCMAX`. -/
def httpStatusText : List (List UInt8 × List UInt8) :=
  [("100", "Continue"), ("101", "Switching Protocols"), ("102", "Processing"), ("200", "OK"),
    ("201", "Created"), ("202", "Accepted"), ("203", "Non-Authoriative Information"),
    ("204", "No Content"), ("205", "Reset Content"), ("206", "Partial Content"),
    ("207", "Multi-Status"), ("300", "Multiple Choices"), ("301", "Moved Permanently"),
    ("302", "Found"), ("303", "See Other"), ("304", "Not Modified"), ("305", "Use Proxy"),
    ("306", "(Unused)"), ("307", "Temporary Redirect"), ("400", "Bad Request"),
    ("401", "Unauthorized"), ("402", "Payment Granted"), ("403", "Forbidden"),
    ("404", "File Not Found"), ("405", "Method Not Allowed"), ("406", "Not Acceptable"),
    ("407", "Proxy Authentication Required"), ("408", "Request Time-out"), ("409", "Conflict"),
    ("410", "Gone"), ("411", "Length Required"), ("412", "Precondition Failed"),
    ("413", "Request Entity Too Large"), ("414", "Request-URI Too Large"),
    ("415", "Unsupported Media Type"), ("416", "Requested range not satisfiable"),
    ("417", "Expectation Failed"), ("422", "Unprocessable Entity"), ("423", "Locked"),
    ("424", "Failed Dependency"), ("500", "Internal Server Error"), ("501", "Not Implemented"),
    ("502", "Bad Gateway"), ("503", "Service Unavailable"), ("504", "Gateway Timeout"),
    ("505", "HTTP Version Not Supported"),
    ("507", "Insufficient Storage")].map fun row => (octets row.1, octets row.2)

/-- `SC200`. -/
def sc200 : Nat := 3

/-- `SC301`. -/
def sc301 : Nat := 12

/-- The names of fields with their values. -/
abbrev HeaderMap : Type :=
  List (List UInt8 × List UInt8)

namespace HeaderMap

/-- An assignment to `operator[]`. -/
def assign (name value : List UInt8) (fields : HeaderMap) : HeaderMap :=
  OrderedMap.set stringBefore name value fields

/-- What `operator[]` reads. -/
def value (name : List UInt8) (fields : HeaderMap) : List UInt8 :=
  (OrderedMap.find name fields).getD []

/-- What is left in the map where `operator[]` reads. -/
def touch (name : List UInt8) (fields : HeaderMap) : HeaderMap :=
  if (OrderedMap.find name fields).isNone then fields.assign name [] else fields

/-- The fields that a status changes, or looks at. -/
def forStatus (code : Nat) (fields : HeaderMap) : HeaderMap :=
  let fields :=
    if code = sc200 then fields.assign (octets "Accept-Ranges") (octets "bytes") else fields
  if code = sc301 then fields.touch (octets "Location") else fields

end HeaderMap

/-- The line of a field. -/
def fieldLine (entry : List UInt8 × List UInt8) : List UInt8 :=
  if entry.2 ≠ [] then entry.1 ++ octets ": " ++ entry.2 ++ crlf else []

/-- The lines of all fields. -/
def fieldLines (fields : HeaderMap) : List UInt8 :=
  fields.flatMap fieldLine

/-- The status line. -/
def statusLine (row : List UInt8 × List UInt8) : List UInt8 :=
  octets "HTTP/1.1 " ++ row.1 ++ octets " " ++ row.2 ++ crlf

/-- `CHttpResponseHdr`, less the page that is made for a status. -/
structure CHttpResponseHdr where
  mapHeader : HeaderMap
  strHeader : List UInt8
  statusCode : Option Nat
  isHdrUpdated : Option Bool
  strUserDefined : List UInt8

/-- The constructors, at a date and from another map. -/
inductive HdrConstructor
  | default (date : List UInt8)
  | copy (mapHeader : HeaderMap)

/-- The fields that a constructor sets. -/
def HdrConstructor.fields : HdrConstructor → HeaderMap
  | .default date => insertNames (initialNames date)
  | .copy mapHeader => mapHeader.foldl (fun fields entry => fields.assign entry.1 entry.2) []

/-- The second constructor calls the first one for an object of its own, so that it sets
nothing but the fields. -/
def HdrConstructor.new (constructor : HdrConstructor) : CHttpResponseHdr :=
  { mapHeader := constructor.fields
    strHeader := []
    statusCode := none
    isHdrUpdated :=
      match constructor with
      | .default _ => some true
      | .copy _ => none
    strUserDefined := [] }

namespace CHttpResponseHdr

/-- `SetStatusCode`.  A string cannot be made of the texts for `SCMAX`. -/
def setStatusCode (code : Nat) (hdr : CHttpResponseHdr) : Outcome CHttpResponseHdr :=
  match httpStatusText[code]? with
  | none => .fault
  | some _ => .ok { hdr with mapHeader := hdr.mapHeader.forStatus code, statusCode := some code }

/-- The code that `SetStatusCode` with a text finds. -/
def findStatusCode (strStatusCode : List UInt8) : Nat :=
  (httpStatusText.findIdx? fun row => row.1.take 3 = (cString strStatusCode).take 3).getD sc200

/-- A field is assigned, and the text marked. -/
def assignField (name value : List UInt8) (hdr : CHttpResponseHdr) : CHttpResponseHdr :=
  { hdr with mapHeader := hdr.mapHeader.assign name value, isHdrUpdated := some true }

/-- `SetField` with a text. -/
def setField (name value : List UInt8) (hdr : CHttpResponseHdr) : Outcome CHttpResponseHdr :=
  let hdr := hdr.assignField (cString name) (cString value)
  if strcasecmp name (octets "Location") then
    match hdr.statusCode with
    | none => .fault
    | some code => hdr.setStatusCode code
  else .ok hdr

/-- `SetField` with a number. -/
def setFieldNumber (name : List UInt8) (value : Int) (hdr : CHttpResponseHdr) :
    CHttpResponseHdr :=
  hdr.assignField (cString name) (sprintfD value)

/-- `SetFields`. -/
def setFields (fields : List UInt8) (hdr : CHttpResponseHdr) : CHttpResponseHdr :=
  { hdr with
    strUserDefined := hdr.strUserDefined ++ cString fields
    isHdrUpdated := some true }

/-- `_update_header_`. -/
def updateHeader (hdr : CHttpResponseHdr) : Outcome CHttpResponseHdr :=
  match hdr.isHdrUpdated with
  | none => .fault
  | some false => .ok hdr
  | some true =>
      match hdr.statusCode.bind fun code => httpStatusText[code]? with
      | none => .fault
      | some row =>
          .ok
            { hdr with
              strHeader := statusLine row ++ fieldLines hdr.mapHeader ++ hdr.strUserDefined
              isHdrUpdated := some false }

/-- `Text`. -/
def text (hdr : CHttpResponseHdr) : Outcome (List UInt8 × CHttpResponseHdr) :=
  hdr.updateHeader >>= fun hdr => .ok (hdr.strHeader, hdr)

/-- `Length`, an `unsigned int`. -/
def length (hdr : CHttpResponseHdr) : Outcome (Nat × CHttpResponseHdr) :=
  hdr.updateHeader >>= fun hdr => .ok (hdr.strHeader.length % 2 ^ 32, hdr)

end CHttpResponseHdr

/-! ## What the text is to show -/

/-- A call. -/
inductive HdrCall
  | setStatusCode (code : Nat)
  | setStatusCodeText (strStatusCode : List UInt8)
  | setField (name value : List UInt8)
  | setFieldNumber (name : List UInt8) (value : Int)
  | setFields (fields : List UInt8)
  | text
  | length

/-- The last status that was set, the last value of every field, and the fields of the user. -/
structure Wanted where
  status : Option Nat
  field : List UInt8 → List UInt8
  userDefined : List UInt8

namespace Wanted

/-- A field has a new value. -/
def set (name value : List UInt8) (wanted : Wanted) : Wanted :=
  { wanted with field := fun other => if name = other then value else wanted.field other }

/-- A status is set, and a field with it. -/
def setStatus (code : Nat) (wanted : Wanted) : Wanted :=
  let wanted := { wanted with status := some code }
  if code = sc200 then wanted.set (octets "Accept-Ranges") (octets "bytes") else wanted

/-- What a call sets.  A new `Location` sets the status again. -/
def call (wanted : Wanted) : HdrCall → Wanted
  | .setStatusCode code => wanted.setStatus code
  | .setStatusCodeText strStatusCode =>
      wanted.setStatus (CHttpResponseHdr.findStatusCode strStatusCode)
  | .setField name value =>
      let next := wanted.set (cString name) (cString value)
      if strcasecmp name (octets "Location") then
        match wanted.status with
        | none => next
        | some code => next.setStatus code
      else next
  | .setFieldNumber name value => wanted.set (cString name) (sprintfD value)
  | .setFields fields => { wanted with userDefined := wanted.userDefined ++ cString fields }
  | .text | .length => wanted

/-- The text begins with the status line of the last status, and goes on with the fields of
a map that has the last value of every field, once, and with the fields of the user. -/
def Shows (wanted : Wanted) (fields : HeaderMap) (text : List UInt8) : Prop :=
  ∃ code row, wanted.status = some code ∧ httpStatusText[code]? = some row ∧
    (fields.map Prod.fst).Nodup ∧ (∀ name, fields.value name = wanted.field name) ∧
    text = statusLine row ++ fieldLines fields ++ wanted.userDefined

end Wanted

/-- A header, what its text is to show, and what the text was to show when it was made. -/
structure Responding where
  hdr : CHttpResponseHdr
  wanted : Wanted
  made : Wanted

namespace Responding

/-- A new header. -/
def new (constructor : HdrConstructor) : Responding :=
  let wanted : Wanted :=
    { status := none, field := fun name => constructor.fields.value name, userDefined := [] }
  { hdr := constructor.new, wanted, made := wanted }

/-- The header behind a call. -/
def call (state : Responding) : HdrCall → Outcome CHttpResponseHdr
  | .setStatusCode code => state.hdr.setStatusCode code
  | .setStatusCodeText strStatusCode =>
      state.hdr.setStatusCode (CHttpResponseHdr.findStatusCode strStatusCode)
  | .setField name value => state.hdr.setField name value
  | .setFieldNumber name value => .ok (state.hdr.setFieldNumber name value)
  | .setFields fields => .ok (state.hdr.setFields fields)
  | .text | .length => state.hdr.updateHeader

/-- The state behind a call. -/
def apply (state : Responding) (call : HdrCall) : Responding :=
  { hdr :=
      match state.call call with
      | .ok next => next
      | _ => state.hdr
    wanted := state.wanted.call call
    made :=
      match call with
      | .text | .length => if state.hdr.isHdrUpdated = some true then state.wanted else state.made
      | _ => state.made }

/-- `Text` returns what it is to show, `Length` returns the length of that, and the other calls
have a result. -/
def Faithful (state : Responding) (call : HdrCall) : Prop :=
  match call with
  | .text => ∃ text next, state.hdr.text = .ok (text, next) ∧
      state.wanted.Shows next.mapHeader text
  | .length => ∃ text next, state.hdr.text = .ok (text, next) ∧
      state.wanted.Shows next.mapHeader text ∧ state.hdr.length = .ok (text.length, next)
  | _ => ∃ next, state.call call = .ok next

/-- The text can be made, or it has been made and the status and the value of `Accept-Ranges`
are still those of then. -/
def Current (state : Responding) : Prop :=
  state.wanted.status ≠ none ∧
    (state.hdr.isHdrUpdated = some true ∨ state.hdr.isHdrUpdated = some false ∧
      state.wanted.status = state.made.status ∧
      state.wanted.field (octets "Accept-Ranges") = state.made.field (octets "Accept-Ranges"))

/-- Every status is one of the table, it is set before a `Location` is, and the text is current
and can be counted. -/
def Kept (state : Responding) (call : HdrCall) : Prop :=
  match call with
  | .setStatusCode code => code < httpStatusText.length
  | .setField name _ =>
      strcasecmp name (octets "Location") = true → state.wanted.status ≠ none
  | .text => state.Current
  | .length => state.Current ∧
      ∀ code row, state.wanted.status = some code → httpStatusText[code]? = some row →
        (statusLine row ++ fieldLines state.hdr.mapHeader ++ state.wanted.userDefined).length <
          2 ^ 32
  | .setStatusCodeText _ | .setFieldNumber _ _ | .setFields _ => True

end Responding

/-! ## Maps of fields -/

theorem fieldLine_nil (name : List UInt8) : fieldLine (name, []) = [] :=
  if_neg (not_not.mpr rfl)

theorem fieldLine_inj {name first second : List UInt8} :
    fieldLine (name, first) = fieldLine (name, second) ↔ first = second := by
  refine ⟨fun same => ?_, fun same => by rw [same]⟩
  have colon : (octets ": ").length = 2 := rfl
  have lengths := congrArg List.length same
  unfold fieldLine at same lengths
  by_cases empty : first = []
  · by_cases empty' : second = []
    · rw [empty, empty']
    · rw [if_neg (not_not.mpr empty), if_pos empty'] at lengths
      simp only [List.length_append, List.length_nil, colon] at lengths
      omega
  · by_cases empty' : second = []
    · rw [if_pos empty, if_neg (not_not.mpr empty')] at lengths
      simp only [List.length_append, List.length_nil, colon] at lengths
      omega
    · rw [if_pos empty, if_pos empty'] at same
      exact List.append_cancel_left (List.append_cancel_right same)

namespace HeaderMap

variable {fields first second : HeaderMap} {name value other : List UInt8}

/-- No name stands twice. -/
def Distinct (fields : HeaderMap) : Prop :=
  (fields.map Prod.fst).Nodup

theorem value_assign : (fields.assign name value).value other =
    if name = other then value else fields.value other := by
  rw [HeaderMap.value, assign, OrderedMap.find_set]
  split
  · rfl
  · rfl

theorem Distinct.assign (distinct : fields.Distinct) (name value : List UInt8) :
    (fields.assign name value).Distinct :=
  OrderedMap.nodup_set distinct stringBefore name value

theorem value_touch : (fields.touch name).value other = fields.value other := by
  rw [touch]
  split
  · rename_i absent
    rw [value_assign]
    split
    · rename_i same
      rw [← same, HeaderMap.value, Option.isNone_iff_eq_none.mp absent]
      rfl
    · rfl
  · rfl

theorem Distinct.touch (distinct : fields.Distinct) (name : List UInt8) :
    (fields.touch name).Distinct := by
  unfold HeaderMap.touch
  split
  · exact distinct.assign name []
  · exact distinct

/-- The line of one field among the others. -/
theorem Distinct.split (distinct : fields.Distinct) (name : List UInt8) :
    ∃ front back,
      (∀ value, fieldLines (fields.assign name value) = front ++ fieldLine (name, value) ++ back) ∧
        fieldLines fields = front ++ fieldLine (name, fields.value name) ++ back := by
  obtain ⟨front, back, written, before⟩ := OrderedMap.set_split distinct stringBefore name
  refine ⟨fieldLines front, fieldLines back, fun value => ?_, ?_⟩
  · rw [HeaderMap.assign, written]
    simp only [fieldLines, List.flatMap_append, List.flatMap_cons, List.append_assoc]
  · rcases before with ⟨none, whole⟩ | ⟨value, found, whole⟩
    · rw [HeaderMap.value, none, Option.getD_none, fieldLine_nil, List.append_nil, whole]
      exact List.flatMap_append
    · rw [HeaderMap.value, found, Option.getD_some]
      nth_rewrite 1 [whole]
      simp only [fieldLines, List.flatMap_append, List.flatMap_cons, List.append_assoc]

/-- The lines differ in one field at most. -/
def SameBut (name : List UInt8) (first second : HeaderMap) : Prop :=
  ∀ value, fieldLines (first.assign name value) = fieldLines (second.assign name value)

theorem sameBut_assign : SameBut name (fields.assign name value) fields := by
  intro other
  rw [assign, assign, OrderedMap.set_set, assign]

/-- They are the same if they are so in this one. -/
theorem SameBut.fieldLines_eq_iff (same : SameBut name first second)
    (distinct : first.Distinct) (distinct' : second.Distinct) :
    fieldLines first = fieldLines second ↔ first.value name = second.value name := by
  obtain ⟨front, back, written, whole⟩ := distinct.split name
  obtain ⟨front', back', written', whole'⟩ := distinct'.split name
  have lines (value : List UInt8) :=
    (written value).symm.trans ((same value).trans (written' value))
  rw [whole', ← lines, whole]
  constructor
  · intro equal
    exact fieldLine_inj.mp (List.append_cancel_left (List.append_cancel_right equal))
  · intro equal
    rw [equal]

/-- A field without a value has no line. -/
theorem fieldLines_erase (blank : ∀ entry ∈ fields, entry.1 = name → entry.2 = []) :
    fieldLines (OrderedMap.erase name fields) = fieldLines fields := by
  induction fields with
  | nil => rfl
  | cons entry fields ih =>
      have later := ih fun other member => blank other (List.mem_cons_of_mem _ member)
      unfold OrderedMap.erase at later ⊢
      by_cases own : entry.1 = name
      · have empty : fieldLine entry = [] :=
          if_neg (not_not.mpr (blank entry List.mem_cons_self own))
        rw [List.filter_cons_of_neg (by simp [own]), later]
        simp only [fieldLines, List.flatMap_cons, empty, List.nil_append]
      · rw [List.filter_cons_of_pos (by simp [own])]
        simp only [fieldLines, List.flatMap_cons] at later ⊢
        rw [later]

theorem stringBefore_acceptRanges (third : List UInt8)
    (behind : stringBefore (octets "Location") third = true) :
    stringBefore (octets "Accept-Ranges") third = true := by
  have acceptRanges : octets "Accept-Ranges" = 0x41 :: octets "ccept-Ranges" := by decide
  have location : octets "Location" = 0x4c :: octets "ocation" := by decide
  rw [location] at behind
  rw [acceptRanges]
  cases third with
  | nil => cases behind
  | cons ch third =>
      simp only [stringBefore, Bool.or_eq_true, Bool.and_eq_true, decide_eq_true_eq] at behind ⊢
      left
      rw [UInt8.lt_iff_toNat_lt]
      rcases behind with later | ⟨same, -⟩
      · rw [UInt8.lt_iff_toNat_lt] at later
        exact Nat.lt_trans (by decide) later
      · rw [← same]
        decide

/-- An empty `Location` makes no difference. -/
theorem sameBut_touch :
    SameBut (octets "Accept-Ranges") (fields.touch (octets "Location")) fields := by
  intro value
  unfold touch
  split
  · rename_i absent
    have notThere : octets "Location" ∉ fields.map Prod.fst :=
      OrderedMap.find_eq_none.mp (Option.isNone_iff_eq_none.mp absent)
    have differ : octets "Accept-Ranges" ≠ octets "Location" := by decide
    have erased : OrderedMap.erase (octets "Location")
        ((fields.assign (octets "Location") []).assign (octets "Accept-Ranges") value) =
          fields.assign (octets "Accept-Ranges") value :=
      OrderedMap.erase_set_set differ stringBefore_acceptRanges notThere
    rw [← erased]
    refine (fieldLines_erase fun entry member own => ?_).symm
    rcases OrderedMap.mem_set member with rfl | member
    · exact absurd own differ
    · rcases OrderedMap.mem_set member with rfl | member
      · rfl
      · exact absurd (own ▸ List.mem_map_of_mem member) notThere
  · rfl

theorem Distinct.forStatus (distinct : fields.Distinct) (code : Nat) :
    (fields.forStatus code).Distinct := by
  have first : (if code = sc200 then
      fields.assign (octets "Accept-Ranges") (octets "bytes") else fields).Distinct := by
    split
    · exact distinct.assign _ _
    · exact distinct
  unfold HeaderMap.forStatus
  dsimp only
  split
  · exact first.touch _
  · exact first

theorem value_forStatus (code : Nat) : (fields.forStatus code).value other =
    if code = sc200 then
      if octets "Accept-Ranges" = other then octets "bytes" else fields.value other
    else fields.value other := by
  have first : (if code = sc200 then
      fields.assign (octets "Accept-Ranges") (octets "bytes") else fields).value other =
      if code = sc200 then
        if octets "Accept-Ranges" = other then octets "bytes" else fields.value other
      else fields.value other := by
    split
    · exact value_assign
    · rfl
  unfold forStatus
  dsimp only
  split
  · rw [value_touch, first]
  · exact first

theorem sameBut_forStatus (code : Nat) :
    SameBut (octets "Accept-Ranges") (fields.forStatus code) fields := by
  intro value
  have first : fieldLines ((if code = sc200 then
      fields.assign (octets "Accept-Ranges") (octets "bytes") else fields).assign
        (octets "Accept-Ranges") value) =
          fieldLines (fields.assign (octets "Accept-Ranges") value) := by
    split
    · exact sameBut_assign value
    · rfl
  unfold forStatus
  dsimp only
  split
  · rw [sameBut_touch value, first]
  · exact first

end HeaderMap

theorem distinct_fields (constructor : HdrConstructor) : constructor.fields.Distinct := by
  cases constructor with
  | default date =>
      change ((insertNames (initialNames date)).map Prod.fst).Nodup
      unfold insertNames
      generalize initialNames date = names
      induction names with
      | nil => exact List.nodup_nil
      | cons entry names ih => exact OrderedMap.nodup_set ih stringBefore _ _
  | copy mapHeader =>
      have keeps (fields : HeaderMap) (distinct : fields.Distinct) :
          (mapHeader.foldl (fun fields entry => fields.assign entry.1 entry.2) fields).Distinct := by
        induction mapHeader generalizing fields with
        | nil => exact distinct
        | cons entry mapHeader ih => exact ih _ (distinct.assign _ _)
      exact keeps [] List.nodup_nil

/-- The status line tells the status. -/
theorem statusLine_inj {first second : Nat} {row row' : List UInt8 × List UInt8}
    {rest rest' : List UInt8} (isFirst : httpStatusText[first]? = some row)
    (isSecond : httpStatusText[second]? = some row')
    (same : statusLine row ++ rest = statusLine row' ++ rest') : first = second := by
  have three : ∀ row ∈ httpStatusText, row.1.length = 3 := by decide +kernel
  have distinct : (httpStatusText.map Prod.fst).Nodup := by decide +kernel
  simp only [statusLine, List.append_assoc] at same
  have lengths : row.1.length = row'.1.length :=
    (three row (List.mem_of_getElem? isFirst)).trans
      (three row' (List.mem_of_getElem? isSecond)).symm
  have codes := (List.append_inj (List.append_cancel_left same) lengths).1
  obtain ⟨bound, -⟩ := List.getElem?_eq_some_iff.mp isFirst
  refine (List.getElem?_inj (by rwa [List.length_map]) distinct).mp ?_
  rw [List.getElem?_map, List.getElem?_map, isFirst, isSecond]
  exact congrArg some codes

/-! ## What the calls do -/

/-- What the text was made of, if it has not been marked since. -/
structure Made (hdr : CHttpResponseHdr) (made : Wanted) (fields : HeaderMap) (code : Nat)
    (row : List UInt8 × List UInt8) : Prop where
  distinct : fields.Distinct
  sameBut : HeaderMap.SameBut (octets "Accept-Ranges") hdr.mapHeader fields
  acceptRanges : fields.value (octets "Accept-Ranges") = made.field (octets "Accept-Ranges")
  status : made.status = some code
  isRow : httpStatusText[code]? = some row
  text : hdr.strHeader = statusLine row ++ fieldLines fields ++ hdr.strUserDefined

/-- The members are what they are to be, but for the text. -/
structure Sound (state : Responding) : Prop where
  distinct : state.hdr.mapHeader.Distinct
  field : ∀ name, state.hdr.mapHeader.value name = state.wanted.field name
  status : state.hdr.statusCode = state.wanted.status
  known : ∀ code, state.wanted.status = some code → code < httpStatusText.length
  userDefined : state.hdr.strUserDefined = state.wanted.userDefined
  made : state.hdr.isHdrUpdated = some false →
    ∃ fields code row, Made state.hdr state.made fields code row

variable {state : Responding}

theorem sound_new (constructor : HdrConstructor) : Sound (Responding.new constructor) where
  distinct := distinct_fields constructor
  field _ := rfl
  status := rfl
  known _ isCode := by cases isCode
  userDefined := rfl
  made marked := by
    cases constructor with
    | default date => cases marked
    | copy mapHeader => cases marked

/-- A status of the table is set. -/
theorem Sound.setStatus (sound : Sound state) {code : Nat} (known : code < httpStatusText.length) :
    ∃ next, state.hdr.setStatusCode code = .ok next ∧
      Sound { state with hdr := next, wanted := state.wanted.setStatus code } := by
  have result : state.hdr.setStatusCode code = .ok
      { state.hdr with
        mapHeader := state.hdr.mapHeader.forStatus code
        statusCode := some code } := by
    rw [CHttpResponseHdr.setStatusCode, List.getElem?_eq_getElem known]
  have status : (state.wanted.setStatus code).status = some code := by
    rw [Wanted.setStatus]
    split
    · rfl
    · rfl
  refine ⟨_, result, ⟨sound.distinct.forStatus code, fun name => ?_, status.symm, ?_, ?_, ?_⟩⟩
  · rw [HeaderMap.value_forStatus, sound.field, Wanted.setStatus]
    split
    · rfl
    · rfl
  · intro other isStatus
    rw [status, Option.some_inj] at isStatus
    exact isStatus ▸ known
  · rw [Wanted.setStatus]
    split
    · exact sound.userDefined
    · exact sound.userDefined
  · intro marked
    obtain ⟨fields, other, row, made⟩ := sound.made marked
    exact ⟨fields, other, row, made.distinct,
      fun value => (HeaderMap.sameBut_forStatus code value).trans (made.sameBut value),
      made.acceptRanges, made.status, made.isRow, made.text⟩

/-- A field is set, and the text marked. -/
theorem Sound.setField (sound : Sound state) (name value : List UInt8) :
    Sound
      { state with
        hdr := state.hdr.assignField name value
        wanted := state.wanted.set name value } where
  distinct := sound.distinct.assign name value
  field other := by
    rw [CHttpResponseHdr.assignField, HeaderMap.value_assign, sound.field]
    rfl
  status := sound.status
  known := sound.known
  userDefined := sound.userDefined
  made marked := by cases marked

theorem Sound.setFields (sound : Sound state) (fields : List UInt8) :
    Sound
      { state with
        hdr := state.hdr.setFields fields
        wanted := { state.wanted with
          userDefined := state.wanted.userDefined ++ cString fields } } where
  distinct := sound.distinct
  field := sound.field
  status := sound.status
  known := sound.known
  userDefined := congrArg (· ++ cString fields) sound.userDefined
  made marked := by cases marked

/-- A text that is made. -/
theorem Sound.make (sound : Sound state) (marked : state.hdr.isHdrUpdated = some true)
    {code : Nat} (isStatus : state.wanted.status = some code) :
    ∃ next, state.hdr.updateHeader = .ok next ∧
      Sound { state with hdr := next, made := state.wanted } ∧
      state.wanted.Shows next.mapHeader next.strHeader := by
  have known := sound.known code isStatus
  have isCode : state.hdr.statusCode = some code := sound.status.trans isStatus
  have isRow : httpStatusText[code]? = some httpStatusText[code] :=
    List.getElem?_eq_getElem known
  have result : state.hdr.updateHeader = .ok
      { state.hdr with
        strHeader := statusLine httpStatusText[code] ++ fieldLines state.hdr.mapHeader ++
          state.hdr.strUserDefined
        isHdrUpdated := some false } := by
    simp only [CHttpResponseHdr.updateHeader, marked, isCode, Option.bind_some, isRow]
  refine ⟨_, result, ⟨sound.distinct, sound.field, sound.status, sound.known, sound.userDefined,
    fun _ => ⟨state.hdr.mapHeader, code, httpStatusText[code], sound.distinct, fun _ => rfl,
      sound.field _, isStatus, isRow, rfl⟩⟩,
    code, httpStatusText[code], isStatus, isRow, sound.distinct, sound.field, ?_⟩
  rw [sound.userDefined]

/-- A text that was made before. -/
theorem Sound.shows_iff (sound : Sound state) (unmarked : state.hdr.isHdrUpdated = some false) :
    state.wanted.Shows state.hdr.mapHeader state.hdr.strHeader ↔
      state.wanted.status ≠ none ∧ state.wanted.status = state.made.status ∧
        state.wanted.field (octets "Accept-Ranges") =
          state.made.field (octets "Accept-Ranges") := by
  obtain ⟨fields, code, row, made⟩ := sound.made unmarked
  have lines := made.sameBut.fieldLines_eq_iff sound.distinct made.distinct
  rw [sound.field, made.acceptRanges] at lines
  rw [made.status, ← lines]
  constructor
  · rintro ⟨code', row', isStatus, isRow, -, -, same⟩
    rw [made.text, List.append_assoc, List.append_assoc] at same
    have codes := statusLine_inj made.isRow isRow same
    subst codes
    have rows := Option.some.inj (made.isRow.symm.trans isRow)
    subst rows
    rw [sound.userDefined] at same
    refine ⟨by rw [isStatus]; exact Option.some_ne_none code, isStatus, ?_⟩
    exact (List.append_cancel_right (List.append_cancel_left same)).symm
  · rintro ⟨-, isStatus, same⟩
    refine ⟨code, row, isStatus, made.isRow, sound.distinct, sound.field, ?_⟩
    rw [made.text, same, sound.userDefined]

theorem updateHeader_of_unmarked (unmarked : state.hdr.isHdrUpdated = some false) :
    state.hdr.updateHeader = .ok state.hdr := by
  rw [CHttpResponseHdr.updateHeader, unmarked]

/-- The text is right exactly where it is current. -/
theorem Sound.read (sound : Sound state) :
    (state.Current ∧ ∃ next, state.hdr.updateHeader = .ok next ∧ Sound (state.apply .text) ∧
      state.wanted.Shows next.mapHeader next.strHeader) ∨
    (¬state.Current ∧ ∀ next, state.hdr.updateHeader = .ok next →
      ¬state.wanted.Shows next.mapHeader next.strHeader) := by
  cases marked : state.hdr.isHdrUpdated with
  | none =>
      right
      refine ⟨?_, fun next result => ?_⟩
      · rintro ⟨-, isTrue | ⟨isFalse, -⟩⟩
        · rw [marked] at isTrue
          cases isTrue
        · rw [marked] at isFalse
          cases isFalse
      · rw [CHttpResponseHdr.updateHeader, marked] at result
        cases result
  | some isUpdated =>
      cases isUpdated with
      | true =>
          cases isStatus : state.wanted.status with
          | none =>
              right
              refine ⟨fun current => current.1 isStatus, fun next result => ?_⟩
              simp only [CHttpResponseHdr.updateHeader, marked, sound.status, isStatus,
                Option.bind_none] at result
              cases result
          | some code =>
              left
              obtain ⟨next, result, sound', shows⟩ := sound.make marked isStatus
              refine ⟨⟨by rw [isStatus]; exact Option.some_ne_none code, .inl marked⟩, next,
                result, ?_, shows⟩
              have behind : state.apply .text =
                  { state with hdr := next, made := state.wanted } := by
                simp only [Responding.apply, Responding.call, result, marked, if_true, Wanted.call]
              rw [behind]
              exact sound'
      | false =>
          have result := updateHeader_of_unmarked marked
          have behind : state.apply .text = state := by
            simp only [Responding.apply, Responding.call, result, marked, Option.some.injEq,
              Bool.false_eq_true, if_false, Wanted.call]
          have right := sound.shows_iff marked
          by_cases shows : state.wanted.Shows state.hdr.mapHeader state.hdr.strHeader
          · left
            obtain ⟨isSet, same⟩ := right.mp shows
            refine ⟨⟨isSet, .inr ⟨marked, same⟩⟩, state.hdr, result, ?_, shows⟩
            rw [behind]
            exact sound
          · right
            refine ⟨?_, fun next result' => ?_⟩
            · rintro ⟨isSet, isTrue | ⟨-, same⟩⟩
              · rw [marked] at isTrue
                cases isTrue
              · exact shows (right.mpr ⟨isSet, same⟩)
            · rw [result] at result'
              cases result'
              exact shows

/-- What `Text` and `Length` return. -/
theorem text_eq_ok_iff {hdr next : CHttpResponseHdr} {text : List UInt8} :
    hdr.text = .ok (text, next) ↔ hdr.updateHeader = .ok next ∧ text = next.strHeader := by
  rw [CHttpResponseHdr.text, Outcome.bind_eq_ok]
  constructor
  · rintro ⟨updated, result, same⟩
    cases same
    exact ⟨result, rfl⟩
  · rintro ⟨result, rfl⟩
    exact ⟨next, result, rfl⟩

theorem mapHeader_updateHeader {hdr next : CHttpResponseHdr}
    (result : hdr.updateHeader = .ok next) : next.mapHeader = hdr.mapHeader := by
  unfold CHttpResponseHdr.updateHeader at result
  split at result
  · cases result
  · cases result
    rfl
  · split at result
    · cases result
    · cases result
      rfl

theorem findStatusCode_lt (strStatusCode : List UInt8) :
    CHttpResponseHdr.findStatusCode strStatusCode < httpStatusText.length := by
  unfold CHttpResponseHdr.findStatusCode
  cases found : httpStatusText.findIdx? fun row =>
      row.1.take 3 = (cString strStatusCode).take 3 with
  | none => decide
  | some index =>
      obtain ⟨bound, -⟩ := List.findIdx?_eq_some_iff_getElem.mp found
      exact bound

namespace Responding

/-- For `Text`. -/
theorem faithful_text_iff (sound : Sound state) :
    (state.Faithful .text ↔ state.Kept .text) ∧
      (state.Faithful .text → Sound (state.apply .text)) := by
  rcases sound.read with ⟨current, next, result, sound', shows⟩ | ⟨notCurrent, notShows⟩
  · exact ⟨iff_of_true ⟨_, next, text_eq_ok_iff.mpr ⟨result, rfl⟩, shows⟩ current, fun _ => sound'⟩
  · have unfaithful : ¬state.Faithful .text := by
      rintro ⟨text, next, result, shows⟩
      obtain ⟨updated, rfl⟩ := text_eq_ok_iff.mp result
      exact notShows next updated shows
    exact ⟨iff_of_false unfaithful notCurrent, fun faithful => absurd faithful unfaithful⟩

/-- For `Length`. -/
theorem faithful_length_iff (sound : Sound state) :
    (state.Faithful .length ↔ state.Kept .length) ∧
      (state.Faithful .length → Sound (state.apply .length)) := by
  rcases sound.read with ⟨current, next, result, sound', shows⟩ | ⟨notCurrent, notShows⟩
  · refine ⟨?_, fun _ => sound'⟩
    have read : state.hdr.text = .ok (next.strHeader, next) :=
      text_eq_ok_iff.mpr ⟨result, rfl⟩
    have counted : state.hdr.length = .ok (next.strHeader.length % 2 ^ 32, next) := by
      rw [CHttpResponseHdr.length, result, Outcome.ok_bind]
    have same := mapHeader_updateHeader result
    obtain ⟨code, row, isStatus, isRow, distinct, field, whole⟩ := shows
    rw [same] at whole
    constructor
    · rintro ⟨text, other, result', -, isLength⟩
      rw [read] at result'
      cases result'
      rw [counted] at isLength
      have short : next.strHeader.length % 2 ^ 32 = next.strHeader.length := by
        injection isLength with pair
        exact (Prod.mk.inj pair).1
      refine ⟨current, fun code' row' isStatus' isRow' => ?_⟩
      have codes := Option.some.inj (isStatus.symm.trans isStatus')
      subst codes
      have rows := Option.some.inj (isRow.symm.trans isRow')
      subst rows
      rw [← whole, ← short]
      exact Nat.mod_lt _ (Nat.two_pow_pos 32)
    · rintro ⟨-, short⟩
      have few := short code row isStatus isRow
      rw [← whole] at few
      refine ⟨next.strHeader, next, read,
        ⟨code, row, isStatus, isRow, distinct, field, by rw [same]; exact whole⟩, ?_⟩
      rw [counted, Nat.mod_eq_of_lt few]
  · have unfaithful : ¬state.Faithful .length := by
      rintro ⟨text, next, result, shows, -⟩
      obtain ⟨updated, rfl⟩ := text_eq_ok_iff.mp result
      exact notShows next updated shows
    exact ⟨iff_of_false unfaithful fun kept => notCurrent kept.1,
      fun faithful => absurd faithful unfaithful⟩

/-- A call that has a result. -/
theorem faithful_of_result {call : HdrCall} {next : CHttpResponseHdr}
    (changes : state.Faithful call ↔ ∃ next, state.call call = .ok next)
    (kept : state.Kept call) (result : state.call call = .ok next)
    (sound : Sound (state.apply call)) :
    (state.Faithful call ↔ state.Kept call) ∧
      (state.Faithful call → Sound (state.apply call)) :=
  ⟨iff_of_true (changes.mpr ⟨next, result⟩) kept, fun _ => sound⟩

/-- A call that has none. -/
theorem faithful_of_fault {call : HdrCall}
    (changes : state.Faithful call ↔ ∃ next, state.call call = .ok next)
    (notKept : ¬state.Kept call) (result : state.call call = .fault) :
    (state.Faithful call ↔ state.Kept call) ∧
      (state.Faithful call → Sound (state.apply call)) := by
  have unfaithful : ¬state.Faithful call := by
    rw [changes, result]
    rintro ⟨next, same⟩
    cases same
  exact ⟨iff_of_false unfaithful notKept, fun faithful => absurd faithful unfaithful⟩

/-- For one call. -/
theorem faithful_iff_kept (sound : Sound state) (call : HdrCall) :
    (state.Faithful call ↔ state.Kept call) ∧
      (state.Faithful call → Sound (state.apply call)) := by
  cases call with
  | setStatusCode code =>
      by_cases known : code < httpStatusText.length
      · obtain ⟨next, result, sound'⟩ := sound.setStatus known
        refine faithful_of_result Iff.rfl known result ?_
        simp only [apply, Responding.call, result]
        exact sound'
      · refine faithful_of_fault Iff.rfl known ?_
        rw [Responding.call, CHttpResponseHdr.setStatusCode,
          List.getElem?_eq_none (Nat.not_lt.mp known)]
  | setStatusCodeText strStatusCode =>
      obtain ⟨next, result, sound'⟩ := sound.setStatus (findStatusCode_lt strStatusCode)
      refine faithful_of_result Iff.rfl trivial result ?_
      simp only [apply, Responding.call, result]
      exact sound'
  | setField name value =>
      have sound' := sound.setField (cString name) (cString value)
      have status : (state.hdr.assignField (cString name) (cString value)).statusCode =
          state.wanted.status := sound.status
      by_cases location : strcasecmp name (octets "Location") = true
      · cases isStatus : state.wanted.status with
        | none =>
            refine faithful_of_fault Iff.rfl (fun kept => kept location isStatus) ?_
            simp only [Responding.call, CHttpResponseHdr.setField, location, if_true, status,
              isStatus]
        | some code =>
            obtain ⟨next, result, sound''⟩ := sound'.setStatus (sound.known code isStatus)
            have result' : state.call (.setField name value) = .ok next := by
              simp only [Responding.call, CHttpResponseHdr.setField, location, if_true, status,
                isStatus]
              exact result
            refine faithful_of_result Iff.rfl
              (fun _ => by rw [isStatus]; exact Option.some_ne_none code) result' ?_
            simp only [apply, result', Wanted.call, location, if_true, isStatus]
            exact sound''
      · have result : state.call (.setField name value) =
            .ok (state.hdr.assignField (cString name) (cString value)) := by
          rw [Responding.call, CHttpResponseHdr.setField, if_neg location]
        refine faithful_of_result Iff.rfl (fun isLocation => absurd isLocation location) result ?_
        simp only [apply, result, Wanted.call, if_neg location]
        exact sound'
  | setFieldNumber name value =>
      exact faithful_of_result Iff.rfl trivial rfl (sound.setField (cString name) (sprintfD value))
  | setFields fields => exact faithful_of_result Iff.rfl trivial rfl (sound.setFields fields)
  | text => exact faithful_text_iff sound
  | length => exact faithful_length_iff sound

/-- In which runs the text shows what was set. -/
theorem respondsFaithfully_iff (constructor : HdrConstructor) (calls : List HdrCall) :
    Throughout apply Faithful (new constructor) calls ↔
      Throughout apply Kept (new constructor) calls :=
  Replay.throughout_iff (sound_new constructor) fun _ sound call => faithful_iff_kept sound call

/-- A status that is set behind a text does not come into the next one. -/
theorem not_faithful_statusCode :
    ¬∀ constructor calls, Throughout apply Faithful (new constructor) calls := by
  intro faithful
  have kept := (Replay.throughout_iff (sound_new (.default []))
    fun _ sound call => faithful_iff_kept sound call).mp
      (faithful (.default []) [.setStatusCode 0, .text, .setStatusCode 1, .text])
  simp only [Replay.throughout_cons] at kept
  obtain ⟨-, -, -, ⟨-, isTrue | ⟨-, same, -⟩⟩, -⟩ := kept
  · cases isTrue
  · cases same

end Responding

end Http1

end HeapHttpd
