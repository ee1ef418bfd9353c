import HeapHttpd.Http1.RequestStream

/-!
# The names of header fields

`LineParse` takes a field for what its name says in any letter case, and then looks
for its value behind one spelling of the name.  This file says which changes of the
letter case of names it can tell apart.
-/

namespace HeapHttpd

namespace Http1

open General
open Tunneling (HeaderField seen IsLine headerText isField fieldValue isTchar crlf)

/-! ## Header blocks -/

section Blocks

variable {site : Site} {http1 : CHttp RequestHeader}

theorem firstLine_line {line : List UInt8} (isLine : IsLine line) (rest : List UInt8) :
    firstLine (line ++ crlf ++ rest) = seen line := by
  rw [firstLine, Tunneling.takeWhile_line isLine.1, Tunneling.normalise_strtrim isLine.1]

theorem linesOf_headerText {lines : List (List UInt8)} (isLines : ∀ line ∈ lines, IsLine line) :
    linesOf (headerText lines) = (lines.map seen ++ [[]], []) := by
  induction lines with
  | nil => decide
  | cons line lines ih =>
      have isLine := isLines line List.mem_cons_self
      have hasLine : 0x0a ∈ headerText (line :: lines) := by
        rw [Tunneling.headerText_cons]
        simp [crlf]
      have behind : behindLine (headerText (line :: lines)) = headerText lines := by
        rw [Tunneling.headerText_cons, behindLine, Tunneling.tail_dropWhile_line isLine.1]
      have first : firstLine (headerText (line :: lines)) = seen line := by
        rw [Tunneling.headerText_cons, firstLine_line isLine]
      obtain ⟨passes, enough⟩ : ∃ passes, (headerText (line :: lines)).length = passes + 1 :=
        Nat.exists_eq_succ_of_ne_zero (List.length_pos_iff_ne_nil.mpr (List.ne_nil_of_mem hasLine)).ne'
      have shorter := length_behindLine hasLine
      rw [behind] at shorter
      rw [linesOf, enough, takeLines_succ hasLine, first, if_neg isLine.2, behind,
        @takeLines_patience _ (headerText lines).length _ (by omega) (Nat.le_refl _),
        ← linesOf, ih fun other member => isLines other (List.mem_cons_of_mem _ member)]
      rfl

/-- What a line changes, whatever its text is put under. -/
def CHttp.readLine (site : Site) (http1 : CHttp RequestHeader) (strtext : List UInt8) :
    CHttp RequestHeader :=
  parseLine (RequestHeader.readLine site) strtext http1

/-- The state that a header block leads to: the parse state less the stored text,
the fields by name and the variables for scripts. -/
def CHttp.outcome (http1 : CHttp RequestHeader) : CHttp RequestHeader :=
  { http1 with
    rest := { http1.rest with metaVars := [], requestHdr := [], headerContent := [] } }

theorem outcome_headerOf {rest : RequestHeader} {lines : List (List UInt8)}
    (isLines : ∀ line ∈ lines, IsLine line) :
    (headerOf site rest (headerText lines)).outcome =
      { ((lines.map seen).foldl (CHttp.readLine site) (CHttp.new rest)).outcome with
        httpState := .reqData
        lineText := [] } := by
  have nonblank : (lines.map seen).filter (fun line => !line.isEmpty) = lines.map seen := by
    rw [List.filter_eq_self]
    intro line member
    obtain ⟨source, inLines, rfl⟩ := List.mem_map.mp member
    simpa using (isLines source inLines).2
  have taken : linesOf ((CHttp.new rest).lineText ++ headerText lines) =
      (lines.map seen ++ [[]], []) := linesOf_headerText isLines
  have read : readLines (RequestHeader.readLine site) (lines.map seen ++ [[]])
      (CHttp.new rest) = (lines.map seen).foldl (CHttp.readLine site) (CHttp.new rest) := by
    have blank (http1 : CHttp RequestHeader) :
        readLines (RequestHeader.readLine site) [[]] http1 = http1 := rfl
    rw [readLines_append, blank, readLines, nonblank]
    rfl
  rw [headerOf, CHttp.lineParse, lineParse_eq, taken]
  simp only [List.mem_append, List.mem_singleton, or_true, if_true, read]
  rfl

end Blocks

/-! ## What a branch reads of a line -/

namespace FieldKind

/-- The name that leads to a branch. -/
def name : FieldKind → String
  | connection => "Connection"
  | upgrade => "Upgrade"
  | contentLength => "Content-Length"
  | contentType => "Content-Type"
  | cookie => "Cookie"
  | host => "Host"
  | authorization _ => "Authorization"
  | proxyAuthorization _ => "Proxy-Authorization"
  | cacheControl => "Cache-Control"
  | pragma => "Pragma"
  | other => ""

/-- What a branch looks for behind the name and its colon. -/
def introduction : FieldKind → List UInt8
  | host => [0x20]
  | authorization scheme => octets (" " ++ schemeName scheme ++ " ")
  | proxyAuthorization scheme => octets (" " ++ schemeName scheme ++ " ")
  | _ => []

/-- What a branch cuts a value behind. -/
def literal (kind : FieldKind) : List UInt8 :=
  octets kind.name ++ 0x3a :: kind.introduction

/-- Whether a branch finds its value behind one spelling of the name. -/
def cuts : FieldKind → Bool
  | contentType => false
  | other => false
  | _ => true

theorem cuts_iff {kind : FieldKind} :
    kind.cuts = true ↔ kind ≠ contentType ∧ kind ≠ other := by
  cases kind <;> simp [cuts]

end FieldKind

namespace RequestHeader

/-- A branch that cuts, with the text it has cut. -/
def readCut (site : Site) (cut : List UInt8) (header : RequestHeader) :
    FieldKind → RequestHeader
  | .connection => header.readConnection (strtrim cut)
  | .upgrade => header.readUpgrade (strtrim cut)
  | .cookie => { header with cookie := header.cookie ++ strtrim cut ++ octets "; " }
  | .host => header.readHost cut
  | .authorization scheme => header.readAuthorization site scheme cut
  | .proxyAuthorization scheme => header.readProxyAuthorization site scheme cut
  | .cacheControl => header.readCacheControl (strtrim cut)
  | .pragma => header.readPragma (strtrim cut)
  | .contentLength | .contentType | .other => header

theorem readField_eq (site : Site) (strtext : List UInt8) (header : RequestHeader)
    {kind : FieldKind} (cuts : kind.cuts = true) :
    header.readField site strtext kind =
      header.readCut site (strcutFrom kind.literal strtext) kind := by
  cases kind with
  | contentType => cases cuts
  | other => cases cuts
  | authorization scheme =>
      have same : FieldKind.literal (.authorization scheme) =
          octets ("Authorization: " ++ schemeName scheme ++ " ") := by
        simp [FieldKind.literal, FieldKind.name, FieldKind.introduction, octets]
      rw [readField, readCut, same]
  | proxyAuthorization scheme =>
      have same : FieldKind.literal (.proxyAuthorization scheme) =
          octets ("Proxy-Authorization: " ++ schemeName scheme ++ " ") := by
        simp [FieldKind.literal, FieldKind.name, FieldKind.introduction, octets]
      rw [readField, readCut, same]
  | _ => rfl

end RequestHeader

/-! ## Finding a value -/

section Cutting

/-- Nothing is found where nothing begins. -/
theorem strcutFrom_skip {literal text rest : List UInt8}
    (nowhere : ∀ suffix, suffix ≠ [] → suffix <:+ text → ¬literal <+: suffix ++ rest) :
    strcutFrom literal (text ++ rest) = strcutFrom literal rest := by
  induction text with
  | nil => rfl
  | cons ch text ih =>
      have here := nowhere (ch :: text) (by simp) List.suffix_rfl
      rw [List.cons_append, strcutFrom, if_neg, ih]
      · intro suffix nonempty ending
        exact nowhere suffix nonempty (ending.trans (List.suffix_cons ch text))
      · intro begins
        exact here (List.isPrefixOf_iff_prefix.mp begins)

theorem contains_skip {literal text rest : List UInt8}
    (nowhere : ∀ suffix, suffix ≠ [] → suffix <:+ text → ¬literal <+: suffix ++ rest) :
    contains (text ++ rest) literal = contains rest literal := by
  induction text with
  | nil => rfl
  | cons ch text ih =>
      have here : literal.isPrefixOf (ch :: (text ++ rest)) = false := by
        rw [Bool.eq_false_iff]
        intro begins
        exact nowhere (ch :: text) (by simp) List.suffix_rfl
          (List.isPrefixOf_iff_prefix.mp begins)
      rw [← ih fun suffix nonempty ending =>
        nowhere suffix nonempty (ending.trans (List.suffix_cons ch text))]
      rw [contains, List.cons_append, List.tails_cons, List.any_cons, here, Bool.false_or,
        contains]

variable {field : HeaderField}

theorem seen_text_concat (field : HeaderField) :
    seen field.text = (field.seenName ++ [0x3a]) ++ field.value.rdropWhile isBlank := by
  rw [field.seen_text]
  simp

theorem suffix_concat {suffix text : List UInt8} {ch : UInt8} (nonempty : suffix ≠ [])
    (ending : suffix <:+ text ++ [ch]) : ∃ front, suffix = front ++ [ch] ∧ front <:+ text := by
  obtain ⟨before, whole⟩ := ending
  obtain ⟨front, last, rfl⟩ := (List.eq_nil_or_concat suffix).resolve_left nonempty
  rw [List.concat_eq_append, ← List.append_assoc] at whole
  obtain ⟨sameFront, sameLast⟩ := List.append_inj' whole rfl
  refine ⟨front, by rw [List.concat_eq_append, sameLast], before, sameFront⟩

/-- Behind another spelling of its name, a value is looked for in the value. -/
theorem strcutFrom_unspelled {name : String} {introduction : List UInt8}
    (noColon : 0x3a ∉ octets name) (named : field.IsNamed name)
    (other : field.seenName ≠ octets name) :
    strcutFrom (octets name ++ 0x3a :: introduction) (seen field.text) =
      strcutFrom (octets name ++ 0x3a :: introduction) (field.value.rdropWhile isBlank) := by
  rw [seen_text_concat]
  apply strcutFrom_skip
  intro suffix nonempty ending begins
  obtain ⟨front, rfl, frontEnding⟩ := suffix_concat nonempty ending
  rw [List.append_assoc, List.singleton_append] at begins
  have noColonFront : 0x3a ∉ front := fun member =>
    field.seenName_noColon (frontEnding.sublist.mem member)
  have nameBegins : octets name ++ [0x3a] <+: front ++ 0x3a :: field.value.rdropWhile isBlank :=
    List.IsPrefix.trans ⟨introduction, by simp⟩ begins
  have same := (Tunneling.prefix_colon_iff noColonFront noColon _).mp nameBegins
  rw [same] at frontEnding
  exact HeaderField.not_suffix_of_named named other frontEnding

/-- A text with an octet that no name has does not begin in a name. -/
theorem nowhere_of_octet {literal : List UInt8} (special : UInt8) (inside : special ∈ literal)
    (notToken : isTchar special = false) (noColon : 0x3a ∉ literal) :
    ∀ suffix, suffix ≠ [] → suffix <:+ field.seenName ++ [0x3a] →
      ¬literal <+: suffix ++ field.value.rdropWhile isBlank := by
  intro suffix nonempty ending begins
  obtain ⟨front, rfl, frontEnding⟩ := suffix_concat nonempty ending
  rcases List.prefix_or_prefix_of_prefix begins (List.prefix_append _ _) with within | beyond
  · have member := within.sublist.mem inside
    rcases List.mem_append.mp member with inFront | isColon
    · have token := field.seenName_token special (frontEnding.sublist.mem inFront)
      rw [notToken] at token
      cases token
    · rw [List.mem_singleton.mp isColon] at inside
      exact noColon inside
  · exact noColon (beyond.sublist.mem (by simp))

end Cutting

/-! ## What a line says -/

section Lines

variable {field : HeaderField}

theorem isField_congr {first second : List UInt8} (nulFree : 0 ∉ first) (nulFree' : 0 ∉ second)
    (sameLetters : first.map loch = second.map loch) (name : String) :
    isField name first = isField name second := by
  rw [isField, isField, strncasecmp, strncasecmp, cString_of_nulFree nulFree,
    cString_of_nulFree nulFree', List.map_take, List.map_take, List.map_take, sameLetters]

theorem fieldKind_congr {first second : List UInt8} (nulFree : 0 ∉ first) (nulFree' : 0 ∉ second)
    (sameLetters : first.map loch = second.map loch) : fieldKind first = fieldKind second := by
  unfold fieldKind
  simp only [isField_congr nulFree nulFree' sameLetters]

/-- A field whose line begins with a name and its colon has that name. -/
theorem named_of_isField {full name : String} (introduction : List UInt8)
    (isFull : octets full = octets name ++ 0x3a :: introduction)
    (plain : 0 ∉ octets full ∧ 0x3a ∉ octets name)
    (begins : isField full (seen field.text) = true) : field.IsNamed name := by
  have count : full.length = ((octets full).map loch).length := by
    rw [List.length_map, octets, List.length_map, String.length_toList]
  have free (text : List UInt8) (noColon : 0x3a ∉ text) : 0x3a ∉ text.map loch := by
    intro member
    obtain ⟨ch, inText, isColon⟩ := List.mem_map.mp member
    exact noColon (Tunneling.loch_eq_colon.mp isColon ▸ inText)
  rw [isField, strncasecmp, cString_of_nulFree field.plain_seen_text,
    cString_of_nulFree plain.1, decide_eq_true_iff, List.map_take, List.map_take, count,
    List.take_length, eq_comm, ← List.prefix_iff_eq_take, isFull, field.seen_text] at begins
  simp only [List.map_append, List.map_cons, Tunneling.loch_eq_colon.mpr rfl] at begins
  have nameBegins : (octets name).map loch ++ [0x3a] <+:
      field.seenName.map loch ++ 0x3a :: (field.value.rdropWhile isBlank).map loch :=
    List.IsPrefix.trans ⟨introduction.map loch, by simp⟩ begins
  rw [HeaderField.IsNamed, ← field.map_loch_seenName]
  exact (Tunneling.prefix_colon_iff (free _ field.seenName_noColon) (free _ plain.2) _).mp
    nameBegins

/-- What the line of a branch begins with. -/
def FieldKind.beginning : FieldKind → String
  | connection => "Connection:"
  | upgrade => "Upgrade:"
  | contentLength => "Content-Length:"
  | contentType => "Content-Type:"
  | cookie => "Cookie:"
  | host => "Host:"
  | authorization .none => "Authorization:"
  | authorization .basic => "Authorization: Basic"
  | authorization .digest => "Authorization: Digest"
  | proxyAuthorization .none => "Proxy-Authorization:"
  | proxyAuthorization .basic => "Proxy-Authorization: Basic"
  | proxyAuthorization .digest => "Proxy-Authorization: Digest"
  | cacheControl => "Cache-Control:"
  | pragma => "Pragma:"
  | other => ""

theorem cases_of_ite {condition : Bool} {first second kind : FieldKind}
    (takes : (if condition = true then first else second) = kind) :
    (condition = true ∧ first = kind) ∨ second = kind := by
  cases condition
  · exact .inr takes
  · exact .inl ⟨rfl, takes⟩

theorem isField_of_fieldKind {strtext : List UInt8} {kind : FieldKind}
    (takes : fieldKind strtext = kind) (isKnown : kind ≠ .other) :
    isField kind.beginning strtext = true := by
  rcases cases_of_ite takes with ⟨begins, rfl⟩ | takes
  · exact begins
  rcases cases_of_ite takes with ⟨begins, rfl⟩ | takes
  · exact begins
  rcases cases_of_ite takes with ⟨begins, rfl⟩ | takes
  · exact begins
  rcases cases_of_ite takes with ⟨begins, rfl⟩ | takes
  · exact begins
  rcases cases_of_ite takes with ⟨begins, rfl⟩ | takes
  · exact begins
  rcases cases_of_ite takes with ⟨begins, rfl⟩ | takes
  · exact begins
  rcases cases_of_ite takes with ⟨begins, rfl⟩ | takes
  · exact begins
  rcases cases_of_ite takes with ⟨begins, rfl⟩ | takes
  · exact begins
  rcases cases_of_ite takes with ⟨begins, rfl⟩ | takes
  · exact begins
  rcases cases_of_ite takes with ⟨begins, rfl⟩ | takes
  · exact begins
  rcases cases_of_ite takes with ⟨begins, rfl⟩ | takes
  · exact begins
  rcases cases_of_ite takes with ⟨begins, rfl⟩ | rfl
  · exact begins
  · exact absurd rfl isKnown

/-- A field takes a branch only under the name of that branch. -/
theorem named_of_fieldKind {kind : FieldKind} (takes : fieldKind (seen field.text) = kind)
    (isKnown : kind ≠ .other) : field.IsNamed kind.name := by
  have begins := isField_of_fieldKind takes isKnown
  cases kind with
  | connection => exact named_of_isField [] (by decide) (by decide) begins
  | upgrade => exact named_of_isField [] (by decide) (by decide) begins
  | contentLength => exact named_of_isField [] (by decide) (by decide) begins
  | contentType => exact named_of_isField [] (by decide) (by decide) begins
  | cookie => exact named_of_isField [] (by decide) (by decide) begins
  | host => exact named_of_isField [] (by decide) (by decide) begins
  | authorization scheme =>
      cases scheme with
      | none => exact named_of_isField [] (by decide) (by decide) begins
      | basic =>
          exact named_of_isField (octets " Basic") (by decide) (by decide) begins
      | digest =>
          exact named_of_isField (octets " Digest") (by decide) (by decide) begins
  | proxyAuthorization scheme =>
      cases scheme with
      | none => exact named_of_isField [] (by decide) (by decide) begins
      | basic =>
          exact named_of_isField (octets " Basic") (by decide) (by decide) begins
      | digest =>
          exact named_of_isField (octets " Digest") (by decide) (by decide) begins
  | cacheControl => exact named_of_isField [] (by decide) (by decide) begins
  | pragma => exact named_of_isField [] (by decide) (by decide) begins
  | other => exact absurd rfl isKnown

/-- A field does not begin with the name of another. -/
theorem not_isField_of_named {name : String} (named : field.IsNamed name) (full other : String)
    (isFull : octets full = octets other ++ [0x3a])
    (plain : 0 ∉ octets full ∧ 0x3a ∉ octets other)
    (different : (octets name).map loch ≠ (octets other).map loch) :
    ¬isField full (seen field.text) = true :=
  fun begins => different (named.symm.trans (named_of_isField [] isFull plain begins))

theorem isField_contentLength :
    isField "Content-Length:" (seen field.text) = true ↔
      fieldKind (seen field.text) = .contentLength := by
  constructor
  · intro begins
    have named : field.IsNamed "Content-Length" := named_of_isField [] (by decide) (by decide) begins
    have notConnection : ¬isField "Connection:" (seen field.text) = true :=
      not_isField_of_named named _ "Connection" (by decide) (by decide) (by decide)
    have notUpgrade : ¬isField "Upgrade:" (seen field.text) = true :=
      not_isField_of_named named _ "Upgrade" (by decide) (by decide) (by decide)
    rw [fieldKind, if_neg notConnection, if_neg notUpgrade, if_pos begins]
  · intro takes
    exact (field.isField_iff "Content-Length:" "Content-Length" (by decide) (by decide)).mpr
      (named_of_fieldKind takes (by decide))

theorem isField_contentType :
    isField "Content-Type:" (seen field.text) = true ↔
      fieldKind (seen field.text) = .contentType := by
  constructor
  · intro begins
    have named : field.IsNamed "Content-Type" := named_of_isField [] (by decide) (by decide) begins
    have notConnection : ¬isField "Connection:" (seen field.text) = true :=
      not_isField_of_named named _ "Connection" (by decide) (by decide) (by decide)
    have notUpgrade : ¬isField "Upgrade:" (seen field.text) = true :=
      not_isField_of_named named _ "Upgrade" (by decide) (by decide) (by decide)
    have notLength : ¬isField "Content-Length:" (seen field.text) = true :=
      not_isField_of_named named _ "Content-Length" (by decide) (by decide) (by decide)
    rw [fieldKind, if_neg notConnection, if_neg notUpgrade, if_neg notLength, if_pos begins]
  · intro takes
    exact (field.isField_iff "Content-Type:" "Content-Type" (by decide) (by decide)).mpr
      (named_of_fieldKind takes (by decide))

theorem loch_eq_space {ch : UInt8} : loch ch = 0x20 ↔ ch = 0x20 := by
  revert ch
  apply forall_octet
  decide +kernel

/-- No line of a field begins with words. -/
theorem not_isField_of_space (field : HeaderField) (words : String)
    (space : 0x20 ∈ (octets words).map loch)
    (plain : 0 ∉ octets words ∧ 0x3a ∉ (octets words).map loch) :
    isField words (seen field.text) = false := by
  have count : words.length = ((octets words).map loch).length := by
    rw [List.length_map, octets, List.length_map, String.length_toList]
  rw [isField, strncasecmp, cString_of_nulFree field.plain_seen_text,
    cString_of_nulFree plain.1, decide_eq_false_iff_not, List.map_take, List.map_take, count,
    List.take_length, eq_comm, ← List.prefix_iff_eq_take, seen_text_concat, List.map_append]
  intro begins
  rcases List.prefix_or_prefix_of_prefix begins (List.prefix_append _ _) with within | beyond
  · obtain ⟨ch, inName, isSpace⟩ := List.mem_map.mp (within.sublist.mem space)
    rw [loch_eq_space.mp isSpace] at inName
    rcases List.mem_append.mp inName with inName | isColon
    · exact absurd (field.seenName_token _ inName) (by decide)
    · exact absurd (List.mem_singleton.mp isColon) (by decide)
  · refine plain.2 (beyond.sublist.mem ?_)
    rw [List.map_append]
    exact List.mem_append_right _ (by decide)

/-- No field is taken for a request line. -/
theorem methodOf_seen_text (field : HeaderField) : methodOf (seen field.text) = none := by
  have none_begins (words : String) (count : Nat) (isCount : words.length = count)
      (space : 0x20 ∈ (octets words).map loch)
      (plain : 0 ∉ octets words ∧ 0x3a ∉ (octets words).map loch) :
      ¬strncasecmp (seen field.text) (octets words) count = true := by
    rw [Bool.not_eq_true, ← isCount]
    exact not_isField_of_space field words space plain
  rw [methodOf, if_neg (none_begins "GET " 4 rfl (by decide) (by decide)),
    if_neg (none_begins "POST " 5 rfl (by decide) (by decide)),
    if_neg (none_begins "PUT " 4 rfl (by decide) (by decide)),
    if_neg (none_begins "HEAD " 5 rfl (by decide) (by decide)),
    if_neg (none_begins "DELETE " 7 rfl (by decide) (by decide)),
    if_neg (none_begins "OPTIONS " 8 rfl (by decide) (by decide)),
    if_neg (none_begins "TRACE " 6 rfl (by decide) (by decide)),
    if_neg (none_begins "CONNECT " 8 rfl (by decide) (by decide))]

end Lines

/-! ## Lines by what is read of them -/

/-- What `LineParse` reads of the line of a field: the branch, the text behind its
name, and what it looks for in a content type. -/
@[ext]
structure Reading where
  kind : FieldKind
  cut : List UInt8
  isForm : Bool
  isMultipart : Bool
  boundary : List UInt8

def readingOf (strtext : List UInt8) : Reading :=
  { kind := fieldKind strtext
    cut :=
      if (fieldKind strtext).cuts then strcutFrom (fieldKind strtext).literal strtext else []
    isForm := contains strtext (octets "application/x-www-form-urlencoded")
    isMultipart := contains strtext (octets "multipart/form-data")
    boundary := fieldValue "boundary=" strtext }

/-- What a line changes of the outcome of a header block. -/
def CHttp.readReading (site : Site) (http1 : CHttp RequestHeader) (reading : Reading) :
    CHttp RequestHeader :=
  match reading.kind with
  | .other => http1
  | .contentType =>
      { http1 with
        contentType :=
          if reading.isForm then .applicationXWwwFormUrlencoded
          else if reading.isMultipart then .multipartFormData
          else .applicationXWwwFormUrlencoded
        rest.boundary :=
          if reading.isForm then http1.rest.boundary
          else if reading.isMultipart then reading.boundary
          else http1.rest.boundary }
  | .contentLength =>
      { http1 with
        contentLength := if http1.httpMethod = .head then 0 else atoll (strtrim reading.cut) }
  | kind => { http1 with rest := http1.rest.readCut site reading.cut kind }

section Readings

variable {site : Site} {http1 : CHttp RequestHeader} {field : HeaderField}

/-- The members of a header less the texts that are only stored. -/
def RequestHeader.bare (header : RequestHeader) : RequestHeader :=
  { header with metaVars := [], requestHdr := [], headerContent := [] }

theorem bare_storeField (strtext : List UInt8) (header : RequestHeader) :
    (header.storeField strtext).bare = header.bare := by
  unfold RequestHeader.storeField
  simp only
  split <;> rfl

theorem bare_readCut (cut : List UInt8) (header : RequestHeader) (kind : FieldKind) :
    (header.readCut site cut kind).bare = (header.bare.readCut site cut kind).bare := by
  cases kind with
  | connection =>
      simp only [RequestHeader.readCut, RequestHeader.readConnection, RequestHeader.bare]
      split <;> rfl
  | upgrade =>
      by_cases upgrade : header.protocolUpgrade = true <;>
        simp [RequestHeader.readCut, RequestHeader.readUpgrade, RequestHeader.bare, upgrade]
  | _ => rfl

theorem outcome_readReading (reading : Reading) :
    (http1.readReading site reading).outcome =
      (http1.outcome.readReading site reading).outcome := by
  have rest (kind : FieldKind) :
      CHttp.outcome { http1 with rest := http1.rest.readCut site reading.cut kind } =
        CHttp.outcome
          { http1.outcome with rest := http1.outcome.rest.readCut site reading.cut kind } := by
    have same := @bare_readCut site reading.cut http1.rest kind
    simp only [CHttp.outcome]
    exact congrArg (fun rest => ({ http1 with rest } : CHttp RequestHeader)) same
  unfold CHttp.readReading
  split
  · rfl
  · rfl
  · rfl
  · exact rest _

theorem readReading_of_cuts {reading : Reading} (cuts : reading.kind.cuts = true)
    (notLength : reading.kind ≠ .contentLength) :
    http1.readReading site reading =
      { http1 with rest := http1.rest.readCut site reading.cut reading.kind } := by
  obtain ⟨kind, cut, isForm, isMultipart, boundary⟩ := reading
  cases kind with
  | contentType => cases cuts
  | other => cases cuts
  | contentLength => exact absurd rfl notLength
  | _ => rfl

theorem outcome_ext {first second : CHttp RequestHeader}
    (httpMethod : first.httpMethod = second.httpMethod)
    (httpState : first.httpState = second.httpState)
    (contentType : first.contentType = second.contentType)
    (contentLength : first.contentLength = second.contentLength)
    (lineText : first.lineText = second.lineText) (postdata : first.postdata = second.postdata)
    (postdataEx : first.postdataEx = second.postdataEx)
    (rest : first.rest.bare = second.rest.bare) : first.outcome = second.outcome := by
  have unfolded (http1 : CHttp RequestHeader) :
      http1.outcome = { http1 with rest := http1.rest.bare } := rfl
  rw [unfolded, unfolded, httpMethod, httpState, contentType, contentLength, lineText, postdata,
    postdataEx, rest]

theorem storeField_boundary (strtext : List UInt8) (header : RequestHeader) :
    (header.storeField strtext).boundary = header.boundary := by
  have same := congrArg RequestHeader.boundary (bare_storeField strtext header)
  exact same

theorem parseFieldLine_seen_text (field : HeaderField) :
    parseFieldLine (seen field.text) http1 =
      if fieldKind (seen field.text) = .contentLength then
        { http1 with
          contentLength :=
            if http1.httpMethod = .head then 0
            else atoll (fieldValue "Content-Length:" (seen field.text)) }
      else if fieldKind (seen field.text) = .contentType then
        { http1 with
          contentType :=
            if contains (seen field.text) (octets "application/x-www-form-urlencoded") then
              .applicationXWwwFormUrlencoded
            else if contains (seen field.text) (octets "multipart/form-data") then
              .multipartFormData
            else .applicationXWwwFormUrlencoded }
      else http1 := by
  have takesLength := @isField_contentLength field
  have takesType := @isField_contentType field
  unfold parseFieldLine
  by_cases length : fieldKind (seen field.text) = .contentLength
  · rw [if_pos length, if_pos (by exact takesLength.mpr length)]
    rfl
  · rw [if_neg length, if_neg (by exact fun begins => length (takesLength.mp begins))]
    by_cases type : fieldKind (seen field.text) = .contentType
    · rw [if_pos type, if_pos (by exact takesType.mpr type)]
    · rw [if_neg type, if_neg (by exact fun begins => type (takesType.mp begins))]

theorem bare_readContentType (strtext : List UInt8) (header : RequestHeader) :
    (header.readContentType strtext).bare =
      { header.bare with
        boundary :=
          if contains strtext (octets "application/x-www-form-urlencoded") then header.boundary
          else if contains strtext (octets "multipart/form-data") then
            fieldValue "boundary=" strtext
          else header.boundary } := by
  unfold RequestHeader.readContentType RequestHeader.bare
  simp only
  split
  · rfl
  · split <;> rfl

/-- The line of a field changes the outcome by what is read of it. -/
theorem outcome_readLine (field : HeaderField) :
    (http1.readLine site (seen field.text)).outcome =
      (http1.readReading site (readingOf (seen field.text))).outcome := by
  have read : http1.readLine site (seen field.text) =
      parseFieldLine (seen field.text) { http1 with
        rest := (http1.rest.storeField (seen field.text)).readField site (seen field.text)
          (fieldKind (seen field.text)) } := by
    rw [CHttp.readLine, parseLine, methodOf_seen_text]
    simp only [RequestHeader.readLine, methodOf_seen_text]
  have stored := bare_storeField (seen field.text) http1.rest
  have sameCut (kind : FieldKind) (text : List UInt8) :
      ((http1.rest.storeField (seen field.text)).readCut site text kind).bare =
        (http1.rest.readCut site text kind).bare := by
    rw [bare_readCut, stored, ← bare_readCut]
  rw [read, parseFieldLine_seen_text]
  by_cases length : fieldKind (seen field.text) = .contentLength
  · rw [if_pos length, CHttp.readReading, readingOf]
    simp only [length]
    exact outcome_ext rfl rfl rfl rfl rfl rfl rfl stored
  rw [if_neg length]
  by_cases type : fieldKind (seen field.text) = .contentType
  · rw [if_pos type, CHttp.readReading, readingOf]
    simp only [type]
    refine outcome_ext rfl rfl rfl rfl rfl rfl rfl ?_
    exact (bare_readContentType _ _).trans (by rw [stored, storeField_boundary]; rfl)
  rw [if_neg type]
  by_cases other : fieldKind (seen field.text) = .other
  · rw [CHttp.readReading, readingOf]
    simp only [other]
    exact outcome_ext rfl rfl rfl rfl rfl rfl rfl stored
  have cuts : (fieldKind (seen field.text)).cuts = true := FieldKind.cuts_iff.mpr ⟨type, other⟩
  have read : (readingOf (seen field.text)).cut =
      strcutFrom (fieldKind (seen field.text)).literal (seen field.text) := if_pos cuts
  rw [RequestHeader.readField_eq _ _ _ cuts,
    @readReading_of_cuts _ _ (readingOf (seen field.text)) cuts length, read]
  exact outcome_ext rfl rfl rfl rfl rfl rfl rfl (sameCut _ _)

end Readings

/-! ## Fields in two spellings -/

/-- The names whose values are found behind one spelling of the name. -/
def spelledNames : List String :=
  ["Connection", "Upgrade", "Content-Length", "Cookie", "Host", "Authorization",
    "Proxy-Authorization", "Cache-Control", "Pragma"]

/-- Changes of the letter case of names.  A name may always be left alone. -/
structure Respelling where
  changes : List UInt8 → List UInt8 → Prop
  stays : ∀ name, changes name name
  sameLetters : ∀ {name other}, changes name other → name.map loch = other.map loch

namespace Respelling

/-- A field with its name changed. -/
def Respells (respelling : Respelling) (field other : HeaderField) : Prop :=
  respelling.changes field.name other.name ∧ field.value = other.value

/-- A header block of a line and the lines of fields. -/
def block (requestLine : List UInt8) (fields : List HeaderField) : List UInt8 :=
  headerText (requestLine :: fields.map HeaderField.text)

/-- No header block ends otherwise when names of fields are changed. -/
def Harmless (respelling : Respelling) : Prop :=
  ∀ site keepAlive metaVars requestLine fields others, IsLine requestLine →
    List.Forall₂ respelling.Respells fields others →
    (headerOf site (.new keepAlive metaVars) (block requestLine fields)).outcome =
      (headerOf site (.new keepAlive metaVars) (block requestLine others)).outcome

/-- A name that is spelled as the source spells it, once letters are raised, stays so,
and no other name becomes so. -/
def KeepsSpelling (respelling : Respelling) : Prop :=
  ∀ name other, respelling.changes name other → ∀ known ∈ spelledNames,
    name.map loch = (octets known).map loch →
    (normalise true name = octets known ↔ normalise true other = octets known)

end Respelling

section Respelled

variable {field other : HeaderField}

theorem map_loch_seen_text (sameLetters : field.name.map loch = other.name.map loch)
    (sameValue : field.value = other.value) :
    (seen field.text).map loch = (seen other.text).map loch := by
  rw [seen_text_concat, seen_text_concat, List.map_append, List.map_append, List.map_append,
    List.map_append, field.map_loch_seenName, other.map_loch_seenName, sameLetters, sameValue]

theorem FieldKind.name_spelled {kind : FieldKind} (cuts : kind.cuts = true) :
    kind.name ∈ spelledNames ∧ 0x3a ∉ octets kind.name := by
  cases kind with
  | contentType => cases cuts
  | other => cases cuts
  | authorization =>
      change "Authorization" ∈ spelledNames ∧ 0x3a ∉ octets "Authorization"
      decide
  | proxyAuthorization =>
      change "Proxy-Authorization" ∈ spelledNames ∧ 0x3a ∉ octets "Proxy-Authorization"
      decide
  | _ => exact ⟨by decide, by decide⟩

/-- Two spellings that the source does not tell apart are read alike. -/
theorem readingOf_respelled (sameLetters : field.name.map loch = other.name.map loch)
    (sameValue : field.value = other.value)
    (spelled : ∀ known ∈ spelledNames, field.IsNamed known →
      (field.seenName = octets known ↔ other.seenName = octets known)) :
    readingOf (seen field.text) = readingOf (seen other.text) := by
  have kind : fieldKind (seen field.text) = fieldKind (seen other.text) :=
    fieldKind_congr field.plain_seen_text other.plain_seen_text
      (map_loch_seen_text sameLetters sameValue)
  have found (literal : List UInt8) (special : UInt8) (inside : special ∈ literal)
      (notToken : isTchar special = false) (noColon : 0x3a ∉ literal) :
      contains (seen field.text) literal = contains (seen other.text) literal := by
    rw [seen_text_concat, seen_text_concat,
      contains_skip (nowhere_of_octet _ inside notToken noColon),
      contains_skip (nowhere_of_octet _ inside notToken noColon), sameValue]
  have boundary : strcutFrom (octets "boundary=") (seen field.text) =
      strcutFrom (octets "boundary=") (seen other.text) := by
    rw [seen_text_concat, seen_text_concat,
      strcutFrom_skip (nowhere_of_octet 0x3d (by decide) (by decide) (by decide)),
      strcutFrom_skip (nowhere_of_octet 0x3d (by decide) (by decide) (by decide)),
      sameValue]
  have cut (cuts : (fieldKind (seen field.text)).cuts = true) :
      strcutFrom (fieldKind (seen field.text)).literal (seen field.text) =
        strcutFrom (fieldKind (seen field.text)).literal (seen other.text) := by
    obtain ⟨known, noColon⟩ := FieldKind.name_spelled cuts
    have named := named_of_fieldKind rfl (FieldKind.cuts_iff.mp cuts).2
    have namedOther : other.IsNamed (fieldKind (seen field.text)).name :=
      sameLetters.symm.trans named
    have both := spelled _ known named
    by_cases asSpelled : field.seenName = octets (fieldKind (seen field.text)).name
    · rw [seen_text_concat, seen_text_concat, both.mp asSpelled, asSpelled, sameValue]
    · rw [FieldKind.literal, strcutFrom_unspelled noColon named asSpelled,
        strcutFrom_unspelled noColon namedOther (fun otherSpelled =>
          asSpelled (both.mpr otherSpelled)), sameValue]
  have sameCut : (readingOf (seen field.text)).cut = (readingOf (seen other.text)).cut := by
    rw [readingOf, readingOf, ← kind]
    by_cases cuts : (fieldKind (seen field.text)).cuts = true
    · simp only [if_pos cuts, cut cuts]
    · simp only [if_neg cuts]
  refine Reading.ext kind sameCut (found _ 0x2f (by decide) (by decide) (by decide))
    (found _ 0x2f (by decide) (by decide) (by decide)) ?_
  exact congrArg strtrim boundary

end Respelled

/-! ## Harmless changes -/

namespace Respelling

variable {respelling : Respelling}

theorem foldl_respelled {site : Site} (keeps : respelling.KeepsSpelling)
    {fields others : List HeaderField} (respelled : List.Forall₂ respelling.Respells fields others)
    {first second : CHttp RequestHeader} (same : first.outcome = second.outcome) :
    ((fields.map fun field => seen field.text).foldl (CHttp.readLine site) first).outcome =
      ((others.map fun field => seen field.text).foldl (CHttp.readLine site) second).outcome := by
  induction respelled generalizing first second with
  | nil => exact same
  | @cons field other fields others here later ih =>
      obtain ⟨changed, sameValue⟩ := here
      refine ih ?_
      rw [outcome_readLine, outcome_readLine,
        readingOf_respelled (respelling.sameLetters changed) sameValue
          (fun known isKnown named => keeps _ _ changed known isKnown named),
        outcome_readReading, same, ← outcome_readReading]

theorem harmless_of_keepsSpelling (keeps : respelling.KeepsSpelling) : respelling.Harmless := by
  intro site keepAlive metaVars requestLine fields others isLine respelled
  have isLines (list : List HeaderField) :
      ∀ line ∈ requestLine :: list.map HeaderField.text, IsLine line := by
    intro line member
    rcases List.mem_cons.mp member with rfl | inFields
    · exact isLine
    · obtain ⟨field, -, rfl⟩ := List.mem_map.mp inFields
      exact field.isLine
  rw [block, block, outcome_headerOf (isLines fields), outcome_headerOf (isLines others)]
  simp only [List.map_cons, List.map_map, List.foldl_cons]
  set first := CHttp.readLine site (CHttp.new (.new keepAlive metaVars)) (seen requestLine)
  have same := @foldl_respelled _ site keeps _ _ respelled first first rfl
  exact congrArg (fun http1 : CHttp RequestHeader =>
    { http1 with httpState := .reqData, lineText := [] }) same

/-! ## Harmful changes -/

/-- A value under each of the names, with the branch it takes. -/
def trials : List (FieldKind × String) :=
  [(.connection, " close"), (.upgrade, " websocket"), (.contentLength, " 5"), (.cookie, " a=b"),
    (.host, " h"), (.authorization .basic, " Basic dTpw"),
    (.proxyAuthorization .basic, " Basic dTpw"), (.cacheControl, " no-cache"),
    (.pragma, " no-cache")]

/-- One user. -/
def trialSite : Site :=
  { enableHttpReverseProxy := false
    reverseExtList := []
    wwwAuth := fun _ strauth username _ => ⟨strauth == octets "dTpw", username, []⟩ }

/-- A field in front, which lets a protocol be named. -/
def trialUpgrade : HeaderField :=
  { name := octets "Connection"
    value := octets " Upgrade"
    nameNonempty := by decide
    nameToken := by decide +kernel
    valuePlain := by decide +kernel }

/-- The state behind the first lines. -/
def trialState : CHttp RequestHeader :=
  [octets "GET / HTTP/1.1", octets "Connection: Upgrade"].foldl (CHttp.readLine trialSite)
    (.new (.new true []))

/-- The members that the trials change. -/
def trialView (http1 : CHttp RequestHeader) : Int × RequestHeader :=
  (http1.contentLength, http1.rest.bare)

/-- What is read of a line behind a branch and a text. -/
def trialReading (kind : FieldKind) (strtext : List UInt8) : Reading :=
  { kind, cut := strcutFrom kind.literal strtext, isForm := false, isMultipart := false
    boundary := [] }

/-- The line of a trial, with its name as the source spells it. -/
def trialLine (trial : FieldKind × String) : List UInt8 :=
  octets trial.1.name ++ 0x3a :: octets trial.2

theorem trials_differ : ∀ trial ∈ trials,
    fieldKind (trialLine trial) = trial.1 ∧
    trialView (trialState.readReading trialSite (trialReading trial.1 (trialLine trial))) ≠
      trialView (trialState.readReading trialSite (trialReading trial.1 (octets trial.2))) := by
  decide +kernel

theorem trials_plain : ∀ trial ∈ trials,
    Tunneling.Plain (octets trial.2) ∧
      (octets trial.2).rdropWhile isBlank = octets trial.2 ∧
      0 ∉ trialLine trial ∧ 0x3a ∉ octets trial.1.name ∧ trial.1.cuts = true := by
  decide +kernel

theorem exists_trial : ∀ known ∈ spelledNames, ∃ trial ∈ trials, trial.1.name = known := by
  decide

theorem trialView_congr {first second : CHttp RequestHeader}
    (same : first.outcome = second.outcome) : trialView first = trialView second := by
  have view := congrArg trialView same
  exact view

theorem trialView_ended (http1 : CHttp RequestHeader) :
    trialView { http1.outcome with httpState := .reqData, lineText := [] } = trialView http1 :=
  rfl

theorem trialView_readReading {http1 : CHttp RequestHeader} {reading : Reading}
    (cuts : reading.kind.cuts = true) :
    trialView (http1.readReading trialSite reading) =
      trialView (http1.readReading trialSite
        { reading with isForm := false, isMultipart := false, boundary := [] }) := by
  obtain ⟨kind, cut, isForm, isMultipart, boundary⟩ := reading
  cases kind with
  | contentType => cases cuts
  | other => cases cuts
  | _ => rfl

/-- What a trial shows of a field: its value is found behind one spelling. -/
theorem trialView_readLine {field : HeaderField} {trial : FieldKind × String}
    (isTrial : trial ∈ trials) (named : field.IsNamed trial.1.name)
    (value : field.value = octets trial.2) :
    trialView (trialState.readLine trialSite (seen field.text)) =
      trialView (trialState.readReading trialSite (trialReading trial.1
        (if field.seenName = octets trial.1.name then trialLine trial else octets trial.2))) := by
  obtain ⟨-, noBlanks, nulFree, noColon, cuts⟩ := trials_plain trial isTrial
  have line : seen field.text = (field.seenName ++ [0x3a]) ++ octets trial.2 := by
    rw [seen_text_concat, value, noBlanks]
  have letters : (seen field.text).map loch = (trialLine trial).map loch := by
    rw [line, trialLine, List.map_append, List.map_append, field.map_loch_seenName, named]
    simp
  have kind : fieldKind (seen field.text) = trial.1 :=
    (fieldKind_congr field.plain_seen_text nulFree letters).trans (trials_differ trial isTrial).1
  have cut : strcutFrom trial.1.literal (seen field.text) = strcutFrom trial.1.literal
      (if field.seenName = octets trial.1.name then trialLine trial else octets trial.2) := by
    split
    · rename_i spelled
      rw [line, spelled, trialLine]
      simp
    · rename_i unspelled
      rw [FieldKind.literal, strcutFrom_unspelled noColon named unspelled, value, noBlanks]
  have reading : { readingOf (seen field.text) with
      isForm := false, isMultipart := false, boundary := [] } = trialReading trial.1
        (if field.seenName = octets trial.1.name then trialLine trial else octets trial.2) := by
    rw [readingOf, trialReading, kind, if_pos cuts, cut]
  rw [trialView_congr (outcome_readLine field),
    trialView_readReading (by rw [readingOf, kind]; exact cuts), reading]

theorem tchar_of_loch (ch : UInt8) : isTchar (loch ch) = true → isTchar ch = true := by
  revert ch
  apply forall_octet
  decide +kernel

theorem spelledNames_token : ∀ known ∈ spelledNames,
    octets known ≠ [] ∧ ∀ ch ∈ (octets known).map loch, isTchar ch = true := by
  have all : ∀ known ∈ spelledNames,
      octets known ≠ [] ∧ ((octets known).map loch).all isTchar = true := by
    decide +kernel
  intro known member
  exact ⟨(all known member).1, List.all_eq_true.mp (all known member).2⟩

/-- A field for a trial. -/
theorem exists_field {name : List UInt8} {trial : FieldKind × String} (isTrial : trial ∈ trials)
    (isKnown : trial.1.name ∈ spelledNames)
    (named : name.map loch = (octets trial.1.name).map loch) :
    ∃ field : HeaderField, field.name = name ∧ field.value = octets trial.2 := by
  obtain ⟨nonempty, token⟩ := spelledNames_token _ isKnown
  refine ⟨{
    name
    value := octets trial.2
    nameNonempty := ?_
    nameToken := ?_
    valuePlain := (trials_plain trial isTrial).1 }, rfl, rfl⟩
  · rintro rfl
    exact nonempty (List.map_eq_nil_iff.mp named.symm)
  · intro ch member
    exact tchar_of_loch ch (token _ (named ▸ List.mem_map_of_mem member))

theorem keepsSpelling_of_harmless (harmless : respelling.Harmless) :
    respelling.KeepsSpelling := by
  intro name other changed known isKnown named
  obtain ⟨trial, isTrial, rfl⟩ := exists_trial known isKnown
  obtain ⟨field, rfl, fieldValue⟩ := exists_field isTrial isKnown named
  obtain ⟨second, rfl, secondValue⟩ := exists_field isTrial isKnown
    ((respelling.sameLetters changed).symm.trans named)
  have ends := harmless trialSite true [] (octets "GET / HTTP/1.1") [trialUpgrade, field]
    [trialUpgrade, second] ⟨by decide, by decide⟩
    (.cons ⟨respelling.stays _, rfl⟩
      (.cons ⟨changed, fieldValue.trans secondValue.symm⟩ .nil))
  have isLines (list : List HeaderField) :
      ∀ line ∈ octets "GET / HTTP/1.1" :: list.map HeaderField.text, IsLine line := by
    intro line member
    rcases List.mem_cons.mp member with rfl | inFields
    · exact ⟨by decide, by decide⟩
    · obtain ⟨field, -, rfl⟩ := List.mem_map.mp inFields
      exact field.isLine
  have start : [octets "GET / HTTP/1.1", trialUpgrade.text].map seen =
      [octets "GET / HTTP/1.1", octets "Connection: Upgrade"] := by decide +kernel
  rw [block, block, outcome_headerOf (isLines _), outcome_headerOf (isLines _)] at ends
  have behind (last : HeaderField) :
      ((octets "GET / HTTP/1.1" :: [trialUpgrade, last].map HeaderField.text).map seen).foldl
        (CHttp.readLine trialSite) (CHttp.new (.new true [])) =
      trialState.readLine trialSite (seen last.text) := by
    rw [trialState, ← start]
    rfl
  have views : trialView (trialState.readLine trialSite (seen field.text)) =
      trialView (trialState.readLine trialSite (seen second.text)) := by
    have view := congrArg trialView ends
    rwa [trialView_ended, trialView_ended, behind, behind] at view
  rw [trialView_readLine isTrial named fieldValue,
    trialView_readLine isTrial ((respelling.sameLetters changed).symm.trans named)
      secondValue] at views
  have differ := (trials_differ trial isTrial).2
  constructor
  · intro spelled
    by_contra unspelled
    rw [if_pos (by exact spelled), if_neg (by exact unspelled)] at views
    exact differ views
  · intro spelled
    by_contra unspelled
    rw [if_neg (by exact unspelled), if_pos (by exact spelled)] at views
    exact differ views.symm

/-- A change of names is harmless exactly if it keeps the spelling of names. -/
theorem harmless_iff (respelling : Respelling) :
    respelling.Harmless ↔ respelling.KeepsSpelling :=
  ⟨keepsSpelling_of_harmless, harmless_of_keepsSpelling⟩

/-- The length of a body is lost when its name is written in capitals. -/
theorem contentLength_capitals :
    let site : Site := ⟨false, [], fun _ _ _ _ => ⟨false, [], []⟩⟩
    let header (name : String) := headerOf site (.new true [])
      (octets "POST / HTTP/1.1\r\n" ++ octets name ++ octets ": 5\r\n\r\n")
    (header "Content-Length").contentLength = 5 ∧ (header "CONTENT-LENGTH").contentLength = 0 := by
  decide +kernel

end Respelling

end Http1

end HeapHttpd
