import HeapHttpd.Tunneling.ResponseRelay

/-!
# Responses with a content length

Which responses with a content length are passed on whole and no further.  A content
length counts only under the name that the source spells, and nothing keeps the octets
of a later response apart from the content.
-/

namespace HeapHttpd

namespace Tunneling

open General
open Http1 (contains atoll decimal isSpace strcutFrom)

variable {setting : Setting}

theorem LineKind.ite_ne {condition : Prop} [Decidable condition] {first second kind : LineKind}
    (notFirst : first ≠ kind) (notSecond : second ≠ kind) :
    (if condition then first else second) ≠ kind := by
  split
  · exact notFirst
  · exact notSecond

namespace HeaderField

/-- The value of a field is a number. -/
structure Number (field : HeaderField) (number : Nat) : Prop where
  nonempty : field.content ≠ []
  digits : ∀ ch ∈ field.content, 0x30 ≤ ch ∧ ch ≤ 0x39
  value : decimal field.content = number

/-- A field with a content length, under the name that the source looks for. -/
def SpellsLength (field : HeaderField) : Prop :=
  field.seenName = octets "Content-Length"

instance (field : HeaderField) : Decidable field.SpellsLength := by
  unfold SpellsLength
  infer_instance

theorem nameKind_contentLength (field : HeaderField) :
    field.nameKind = .contentLength ↔ field.IsNamed "Content-Length" := by
  constructor
  · intro kind
    by_contra other
    rw [nameKind, if_neg other] at kind
    refine absurd kind ?_
    repeat refine LineKind.ite_ne (by decide) ?_
    decide
  · intro named
    rw [nameKind, if_pos named]

theorem named_of_transferEncoding {field : HeaderField} (kind : field.nameKind = .transferEncoding) :
    field.IsNamed "Transfer-Encoding" := by
  by_contra other
  refine absurd kind ?_
  rw [nameKind]
  refine LineKind.ite_ne (by decide) ?_
  rw [if_neg other]
  repeat refine LineKind.ite_ne (by decide) ?_
  decide

theorem digit_not (ch : UInt8) :
    0x30 ≤ ch ∧ ch ≤ 0x39 → isSpace ch = false ∧ ch ≠ 0x2d ∧ ch ≠ 0x2b ∧ ch ≠ 0x3a := by
  revert ch
  apply forall_octet
  decide +kernel

theorem atoll_digits {text : List UInt8} (nonempty : text ≠ [])
    (digits : ∀ ch ∈ text, 0x30 ≤ ch ∧ ch ≤ 0x39) :
    atoll text = min (decimal text : Int) (2 ^ 63 - 1) := by
  obtain ⟨ch, rest, rfl⟩ := List.exists_cons_of_ne_nil nonempty
  have first := digit_not ch (digits ch List.mem_cons_self)
  have all : (ch :: rest).takeWhile (fun ch => 0x30 ≤ ch && ch ≤ 0x39) = ch :: rest := by
    rw [List.takeWhile_eq_self_iff]
    simpa using digits
  have kept : (ch :: rest).dropWhile isSpace = ch :: rest := by
    rw [List.dropWhile_cons, first.1]
    rfl
  rw [atoll, kept]
  simp only
  split
  · simp_all
  · simp_all
  · rw [all]

/-- A value without a colon is found behind a name only if it is spelled so. -/
theorem declaredLength_eq {field : HeaderField} {number : Nat}
    (named : field.IsNamed "Content-Length") (isNumber : field.Number number)
    (getting : setting.isHead = false) :
    declaredLength setting (seen field.text) =
      if field.SpellsLength then min (number : Int) (2 ^ 63 - 1) else 0 := by
  have colon : octets "Content-Length:" = octets "Content-Length" ++ [0x3a] := by decide
  rw [declaredLength, getting, if_neg Bool.false_ne_true]
  by_cases spelled : field.SpellsLength
  · rw [if_pos spelled, fieldValue_of_spelled colon spelled,
      atoll_digits isNumber.nonempty isNumber.digits, isNumber.value]
  · rw [if_neg spelled]
    have nothing : strcutFrom (octets "Content-Length:") (seen field.text) = [] := by
      rw [colon, seen_text]
      rcases @strcutFrom_colon (octets "Content-Length") _ (field.value.rdropWhile isBlank)
        field.seenName_noColon with
        nothing | ⟨before, name, -⟩ | ⟨before, found⟩
      · exact nothing
      · have length := congrArg List.length field.map_loch_seenName
        rw [named, List.length_map, List.length_map, name, List.length_append] at length
        have none : before = [] := List.length_eq_zero_iff.mp (by omega)
        rw [none, List.nil_append] at name
        exact absurd name spelled
      · have inValue : 0x3a ∈ field.value := by
          apply mem_of_mem_rdropWhile
          rw [found]
          simp
        exact absurd rfl (digit_not 0x3a
          (isNumber.digits 0x3a (mem_trimmed inValue (by decide)))).2.2.2
    rw [fieldValue, nothing]
    rfl

end HeaderField

namespace ResponseHeader

/-- The last field with a content length. -/
def lastLength (header : ResponseHeader) : Option HeaderField :=
  (header.fields.filter fun field => field.IsNamed "Content-Length").getLast?

/-- A header that declares a content length and no chunks. -/
structure Declares (header : ResponseHeader) (number : Nat) : Prop where
  given : ∃ field ∈ header.fields, field.IsNamed "Content-Length"
  numbers : ∀ field ∈ header.fields, field.IsNamed "Content-Length" → field.Number number
  unchunked : ∀ field ∈ header.fields, field.IsNamed "Transfer-Encoding" →
    contains (field.value.map loch) (octets "chunked") = false

/-- Whether the last field with a content length is spelled as the source spells it. -/
def SpellsLength (header : ResponseHeader) : Prop :=
  ∀ field ∈ header.lastLength, field.SpellsLength

instance (header : ResponseHeader) : Decidable header.SpellsLength := by
  unfold SpellsLength
  infer_instance

theorem filter_lines (header : ResponseHeader) (kind : LineKind) (notStatus : kind ≠ .status) :
    (header.lines.filter fun line => lineKind (seen line) = kind) =
      (header.fields.filter fun field => field.nameKind = kind).map HeaderField.text := by
  rw [lines, List.filter_cons, StatusLine.lineKind_text, if_neg (by simpa using notStatus.symm),
    List.filter_map]
  congr 2
  funext field
  simp [HeaderField.lineKind_text]

/-- The content length that is read from a header. -/
theorem contentLength_eq {header : ResponseHeader} {number : Nat}
    (declares : header.Declares number) :
    (readHeader setting header.lines).contentLength =
      if setting.isHead = false ∧ header.SpellsLength then min (number : Int) (2 ^ 63 - 1)
      else 0 := by
  rw [contentLength_readHeader, header.filter_lines .contentLength (by decide)]
  simp only [HeaderField.nameKind_contentLength, List.getLast?_map, Option.map_map]
  rw [← lastLength]
  obtain ⟨given, isField, named⟩ := declares.given
  cases last : header.lastLength with
  | none =>
      rw [lastLength, List.getLast?_eq_none_iff, List.filter_eq_nil_iff] at last
      exact absurd (decide_eq_true named) (last given isField)
  | some field =>
      have member := List.mem_filter.mp (List.mem_of_getLast? last)
      have isNamed := of_decide_eq_true member.2
      have spells : header.SpellsLength ↔ field.SpellsLength := by
        simp [SpellsLength, last]
      rw [Option.map_some, Option.getD_some, Function.comp_apply]
      cases head : setting.isHead with
      | false =>
          rw [HeaderField.declaredLength_eq isNamed (declares.numbers field member.1 isNamed) head]
          simp [spells]
      | true => simp [declaredLength, head]

/-- No line of the header announces chunks. -/
theorem isChunked_eq {header : ResponseHeader} {number : Nat}
    (declares : header.Declares number) :
    (readHeader setting header.lines).isChunked = false := by
  rw [isChunked_readHeader, List.any_eq_false]
  intro line member
  rw [Bool.and_eq_true, decide_eq_true_iff]
  rintro ⟨kind, chunked⟩
  rcases List.mem_cons.mp member with rfl | inFields
  · rw [StatusLine.lineKind_text] at kind
    cases kind
  · obtain ⟨field, isField, rfl⟩ := List.mem_map.mp inFields
    rw [HeaderField.lineKind_text] at kind
    have plain := declares.unchunked field isField (HeaderField.named_of_transferEncoding kind)
    have inside := (contains_iff.mp chunked).trans
      (field.fieldValue_inside (octets "Transfer-Encoding") (by decide))
    have lowered : contains (field.value.map loch) (octets "chunked") = true := by
      have same : (octets "chunked").map loch = octets "chunked" := by decide
      rw [contains_iff, ← same]
      exact inside.map loch
    rw [plain] at lowered
    cases lowered

end ResponseHeader

/-- A response with a content length is passed on whole and no further, with a copy in
the cache, exactly if the content is empty or its length is found, no octets of a later
response come with its end, and the header comes with few octets behind it. -/
theorem relays_iff (sends : ∀ count, setting.sendFails count = false)
    {header : ResponseHeader} {number : Nat} (declares : header.Declares number)
    {httpUrl body excess last : List UInt8} {before : List (List UInt8)}
    (length : body.length = if setting.isHead then 0 else number)
    (received : before.flatten ++ last = header.text ++ (body ++ excess))
    (completes : before.flatten.length < header.text.length + body.length) :
    HttpClient.Relays setting httpUrl header.lines body before last ↔
      (body = [] ∨ header.SpellsLength ∧ body.length < 2 ^ 63) ∧ (excess = [] ∨ body = []) ∧
        (cString (arrived header.text.length [] (before ++ [last])).1).length ≤ 64 * 1024 := by
  have nonempty : header.lines ≠ [] := by
    rw [ResponseHeader.lines]
    nofun
  rw [ResponseHeader.text] at received completes ⊢
  rw [HttpClient.relays_iff_lines sends header.isLines nonempty
    (ResponseHeader.isChunked_eq declares) received completes,
    ResponseHeader.contentLength_eq declares]
  refine and_congr_left fun _ => ?_
  rw [← List.length_eq_zero_iff (l := body)]
  cases head : setting.isHead with
  | true =>
      rw [head, if_pos rfl] at length
      simp [length]
  | false =>
      rw [head, if_neg Bool.false_ne_true] at length
      by_cases spelled : header.SpellsLength
      · rw [if_pos ⟨rfl, spelled⟩]
        simp only [spelled, true_and]
        omega
      · rw [if_neg fun both => spelled both.2]
        simp only [spelled, false_and, or_false]
        omega

/-- A setting in which everything is sent and nothing of what the environment decides
is asked for. -/
def plainSetting : Setting :=
  { enableHttpTunnelingCache := true
    singleTunnelingCacheSize := 4096
    localhostname := octets "localhost"
    isHead := false
    expiresIn := fun _ => 0
    beyond := fun _ => []
    sendFails := fun _ => false
    chunk := fun _ => { sent := [], left := [], continues := true } }

/-- `Content-Length: 2`. -/
def twoOctets : HeaderField :=
  { name := octets "Content-Length"
    value := octets " 2"
    nameNonempty := by decide
    nameToken := by decide +kernel
    valuePlain := by decide }

/-- The header of a response with two octets. -/
def briefHeader : ResponseHeader :=
  { status :=
      { minor := true
        code := octets "200"
        reason := octets "OK"
        codeDigits := by decide +kernel
        reasonPlain := by decide }
    fields := [twoOctets] }

theorem briefHeader_declares : briefHeader.Declares 2 where
  given := ⟨twoOctets, List.mem_singleton_self _, rfl⟩
  numbers := by
    intro field member _
    rw [List.mem_singleton.mp member]
    exact ⟨by decide +kernel, by decide +kernel, by decide +kernel⟩
  unchunked := by
    intro field member named
    rw [List.mem_singleton.mp member] at named
    exact absurd named (by decide)

theorem relays_brief :
    HttpClient.Relays plainSetting [] briefHeader.lines (octets "hi")
        [briefHeader.text, octets "h"] (octets "i") ↔
      (octets "hi" = [] ∨ briefHeader.SpellsLength ∧ (octets "hi").length < 2 ^ 63) ∧
        (([] : List UInt8) = [] ∨ octets "hi" = []) ∧
          (cString (arrived briefHeader.text.length []
            ([briefHeader.text, octets "h"] ++ [octets "i"])).1).length ≤ 64 * 1024 :=
  relays_iff (fun _ => rfl) briefHeader_declares (by decide) (by decide)
    (by decide)

/-- The first octet of a later response is taken for content. -/
theorem not_relays_excess :
    briefHeader.Declares 2 ∧
      ¬ HttpClient.Relays plainSetting [] briefHeader.lines (octets "hi") []
        (briefHeader.text ++ octets "hiH") := by
  refine ⟨briefHeader_declares, ?_⟩
  intro relays
  exact absurd relays.stops (by decide)

end Tunneling

end HeapHttpd
