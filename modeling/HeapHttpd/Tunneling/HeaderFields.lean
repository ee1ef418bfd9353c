import HeapHttpd.Http1.Strcut
import HeapHttpd.Tunneling.ResponseHeader

/-!
# Header fields as lines

What the loop of `parse` makes of the line of a header field: its name, with some
letters raised, decides the branch, and a value is found behind the name only when the
name is spelled as the source spells it.
-/

namespace HeapHttpd

namespace Tunneling

open General
open Http1 (normalise strcutFrom contains hich)

theorem rdropWhile_append_nonblank (text : List UInt8) {ch : UInt8}
    (notBlank : isBlank ch = false) (rest : List UInt8) :
    (text ++ ch :: rest).rdropWhile isBlank = text ++ ch :: rest.rdropWhile isBlank := by
  induction rest using List.reverseRecOn with
  | nil => exact List.rdropWhile_concat_neg isBlank text ch (by simp [notBlank])
  | append_singleton rest last ih =>
      rw [← List.cons_append, ← List.append_assoc]
      by_cases blank : isBlank last = true
      · rw [List.rdropWhile_concat_pos _ _ _ blank, ih, List.rdropWhile_concat_pos _ _ _ blank]
      · rw [List.rdropWhile_concat_neg _ _ _ blank, List.rdropWhile_concat_neg _ _ _ blank]
        simp

/-- Blanks at the end do not matter to trimming. -/
theorem mem_of_mem_rdropWhile {text : List UInt8} {ch : UInt8}
    (member : ch ∈ text.rdropWhile isBlank) : ch ∈ text :=
  (List.rdropWhile_prefix isBlank text).sublist.mem member

/-- `strcut` finds nothing, or what is behind an occurrence. -/
theorem strcutFrom_cases (begString text : List UInt8) :
    strcutFrom begString text = [] ∨
      ∃ before, text = before ++ begString ++ strcutFrom begString text := by
  rcases General.strcutFrom_first_or_absent begString text with
    ⟨index, first, behind⟩ | ⟨_, nothing⟩
  · exact .inr ⟨text.take index, by rw [behind]; exact first.split⟩
  · exact .inl nothing

theorem strcutFrom_prefix (begString rest : List UInt8) (nonempty : begString ≠ []) :
    strcutFrom begString (begString ++ rest) = rest := by
  obtain ⟨ch, tail, rfl⟩ := List.exists_cons_of_ne_nil nonempty
  have begins : (ch :: tail).isPrefixOf (ch :: (tail ++ rest)) = true :=
    List.isPrefixOf_iff_prefix.mpr ⟨rest, rfl⟩
  rw [List.cons_append, strcutFrom, if_pos begins]
  exact List.drop_left

/-- An occurrence of a text that ends in a colon lies in front of the first colon or
behind it. -/
theorem strcutFrom_colon {name text rest : List UInt8} (noColon : 0x3a ∉ text) :
    strcutFrom (name ++ [0x3a]) (text ++ 0x3a :: rest) = [] ∨
      (∃ before, text = before ++ name ∧
        strcutFrom (name ++ [0x3a]) (text ++ 0x3a :: rest) = rest) ∨
      ∃ before, rest = before ++ 0x3a :: strcutFrom (name ++ [0x3a]) (text ++ 0x3a :: rest) := by
  rcases strcutFrom_cases (name ++ [0x3a]) (text ++ 0x3a :: rest) with nothing | ⟨before, found⟩
  · exact .inl nothing
  · right
    generalize strcutFrom (name ++ [0x3a]) (text ++ 0x3a :: rest) = behind at found
    have split : text ++ 0x3a :: rest = (before ++ name) ++ 0x3a :: behind := by
      rw [found]
      simp
    rcases List.append_eq_append_iff.mp split with
      ⟨between, front, later⟩ | ⟨between, front, later⟩
    · cases between with
      | nil =>
          simp only [List.append_nil, List.nil_append, List.cons.injEq, true_and] at front later
          exact .inl ⟨before, front.symm, later.symm⟩
      | cons ch between =>
          simp only [List.cons_append, List.cons.injEq] at later
          exact .inr ⟨between, later.2⟩
    · cases between with
      | nil =>
          simp only [List.append_nil, List.nil_append, List.cons.injEq, true_and] at front later
          exact .inl ⟨before, front, later⟩
      | cons ch between =>
          simp only [List.cons_append, List.cons.injEq] at later
          rw [front, ← later.1] at noColon
          simp at noColon

namespace HeaderField

/-- The name as the loop of `parse` leaves it. -/
def seenName (field : HeaderField) : List UInt8 :=
  normalise true field.name

/-- Whether a field has a name, whatever its letter case. -/
def IsNamed (name : String) (field : HeaderField) : Prop :=
  field.name.map loch = (octets name).map loch

instance (name : String) (field : HeaderField) : Decidable (field.IsNamed name) := by
  unfold IsNamed
  infer_instance

/-- The value without the blanks around it. -/
def content (field : HeaderField) : List UInt8 :=
  trimmed field.value

end HeaderField

theorem tchar_hich (ch : UInt8) :
    isTchar ch = true → isTchar (hich ch) = true ∧ loch (hich ch) = loch ch := by
  revert ch
  apply forall_octet
  decide +kernel

/-- The loop over a name. -/
theorem normalise_name {name : List UInt8} (token : ∀ ch ∈ name, isTchar ch = true)
    (high : Bool) (rest : List UInt8) :
    normalise high (name ++ 0x3a :: rest) = normalise high name ++ 0x3a :: rest := by
  induction name generalizing high with
  | nil => cases high <;> simp [normalise, hich]
  | cons ch name ih =>
      have isToken := token ch List.mem_cons_self
      have raised := (tchar_hich ch isToken).1
      have plain : ¬ ((if high then hich ch else ch) = 0x3a ∨
          (if high then hich ch else ch) = 0x20) := by
        cases high
        · have := tchar_plain ch isToken
          simp [this.2.2.1, this.2.2.2.1]
        · have := tchar_plain _ raised
          simp [this.2.2.1, this.2.2.2.1]
      rw [List.cons_append, normalise, normalise]
      simp only [plain, if_false]
      rw [ih fun other member => token other (List.mem_cons_of_mem _ member), List.cons_append]

/-- Raising letters does not change a name otherwise. -/
theorem normalise_token {name : List UInt8} (token : ∀ ch ∈ name, isTchar ch = true)
    (high : Bool) :
    (normalise high name).map loch = name.map loch ∧
      ∀ ch ∈ normalise high name, isTchar ch = true := by
  induction name generalizing high with
  | nil => simp [normalise]
  | cons ch name ih =>
      have isToken := token ch List.mem_cons_self
      have raised := tchar_hich ch isToken
      have later (high : Bool) := ih (fun other member => token other (List.mem_cons_of_mem _ member))
        high
      have here : loch (if high then hich ch else ch) = loch ch ∧
          isTchar (if high then hich ch else ch) = true := by
        cases high
        · exact ⟨rfl, isToken⟩
        · exact ⟨raised.2, raised.1⟩
      have plain := tchar_plain _ here.2
      rw [normalise]
      simp only [plain.2.2.1, plain.2.2.2.1, or_self, if_false, List.map_cons, here.1,
        (later _).1, true_and, List.mem_cons, forall_eq_or_imp, here.2]
      exact (later _).2

namespace HeaderField

theorem seenName_token (field : HeaderField) : ∀ ch ∈ field.seenName, isTchar ch = true :=
  (normalise_token field.nameToken true).2

theorem map_loch_seenName (field : HeaderField) :
    field.seenName.map loch = field.name.map loch :=
  (normalise_token field.nameToken true).1

theorem seenName_noColon (field : HeaderField) : 0x3a ∉ field.seenName :=
  fun member => (tchar_plain _ (field.seenName_token _ member)).2.2.1 rfl

/-- The line of a field as the loop of `parse` looks at it. -/
theorem seen_text (field : HeaderField) :
    seen field.text = field.seenName ++ 0x3a :: field.value.rdropWhile isBlank := by
  obtain ⟨first, rest, shape⟩ := List.exists_cons_of_ne_nil field.nameNonempty
  have notBlank : isBlank first = false :=
    (tchar_plain first (field.nameToken first (by simp [shape]))).1
  have whole : field.text = field.name ++ 0x3a :: field.value := by
    rw [text]
    simp [octets]
  have front : (field.name ++ 0x3a :: field.value).dropWhile isBlank =
      field.name ++ 0x3a :: field.value := by
    rw [shape, List.cons_append, List.dropWhile_cons, if_neg (by simp [notBlank])]
  rw [seen, trimmed, whole, front, rdropWhile_append_nonblank _ (by decide),
    normalise_name field.nameToken, seenName]

theorem plain_seen_text (field : HeaderField) : 0 ∉ seen field.text := by
  rw [seen_text]
  intro member
  rcases List.mem_append.mp member with inName | behind
  · exact (tchar_plain _ (field.seenName_token _ inName)).2.1.1 rfl
  · rcases List.mem_cons.mp behind with isColon | inValue
    · cases isColon
    · exact field.valuePlain.nulFree (mem_of_mem_rdropWhile inValue)

/-- The value behind a name that is spelled as the source spells it. -/
theorem fieldValue_of_spelled {field : HeaderField} {name : String} {base : List UInt8}
    (isBase : octets name = base ++ [0x3a]) (spelled : field.seenName = base) :
    fieldValue name (seen field.text) = field.content := by
  have nulFree : 0 ∉ field.value.rdropWhile isBlank := fun member =>
    field.valuePlain.nulFree (mem_of_mem_rdropWhile member)
  have line : seen field.text = (base ++ [0x3a]) ++ field.value.rdropWhile isBlank := by
    rw [seen_text, spelled]
    simp
  rw [fieldValue, isBase, line, strcutFrom_prefix _ _ (by simp), strtrim_eq_trimmed nulFree,
    trimmed_rdropWhile, content]

/-- A field with a name, in another spelling. -/
theorem not_suffix_of_named {field : HeaderField} {name : String} (named : field.IsNamed name)
    (other : field.seenName ≠ octets name) : ¬ octets name <:+ field.seenName := by
  intro atEnd
  have length := congrArg List.length field.map_loch_seenName
  rw [named, List.length_map, List.length_map] at length
  exact other (atEnd.eq_of_length length.symm).symm

end HeaderField

theorem tchar_loch (ch : UInt8) : isTchar ch = true → loch ch ≠ 0x2f := by
  revert ch
  apply forall_octet
  decide +kernel

theorem loch_eq_colon {ch : UInt8} : loch ch = 0x3a ↔ ch = 0x3a := by
  revert ch
  apply forall_octet
  decide +kernel

/-- A name and its colon begin a text only if the text has that name. -/
theorem prefix_colon_iff {first second : List UInt8} (noColon : 0x3a ∉ first)
    (noColon' : 0x3a ∉ second) (rest : List UInt8) :
    second ++ [0x3a] <+: first ++ 0x3a :: rest ↔ first = second := by
  constructor
  · rintro ⟨behind, whole⟩
    rw [List.append_assoc, List.singleton_append] at whole
    rw [← Lines.takeWhile_until noColon rest, ← whole, Lines.takeWhile_until noColon' behind]
  · rintro rfl
    exact ⟨rest, by simp⟩

namespace HeaderField

/-- `strncasecmp` compares the name of a field. -/
theorem isField_iff (field : HeaderField) (full name : String)
    (isFull : octets full = octets name ++ [0x3a])
    (plain : 0 ∉ octets full ∧ 0x3a ∉ octets name) :
    isField full (seen field.text) = true ↔ field.IsNamed name := by
  have count : full.length = ((octets full).map loch).length := by
    rw [List.length_map, octets, List.length_map, String.length_toList]
  have free (text : List UInt8) (noColon : 0x3a ∉ text) : 0x3a ∉ text.map loch := by
    intro member
    obtain ⟨ch, inText, isColon⟩ := List.mem_map.mp member
    exact noColon (loch_eq_colon.mp isColon ▸ inText)
  rw [isField, strncasecmp, cString_of_nulFree field.plain_seen_text,
    cString_of_nulFree plain.1, decide_eq_true_iff, List.map_take, List.map_take, count,
    List.take_length, eq_comm, ← List.prefix_iff_eq_take, isFull, seen_text]
  simp only [List.map_append, List.map_cons, List.map_nil, loch_eq_colon.mpr rfl]
  rw [prefix_colon_iff (free _ field.seenName_noColon) (free _ plain.2), map_loch_seenName,
    IsNamed]

theorem not_isField_of_slash (field : HeaderField) (version : String)
    (slash : 0x2f ∈ (octets version).map loch)
    (plain : 0 ∉ octets version ∧ 0x3a ∉ (octets version).map loch) :
    isField version (seen field.text) = false := by
  have count : version.length = ((octets version).map loch).length := by
    rw [List.length_map, octets, List.length_map, String.length_toList]
  rw [isField, strncasecmp, cString_of_nulFree field.plain_seen_text,
    cString_of_nulFree plain.1, decide_eq_false_iff_not, List.map_take, List.map_take, count,
    List.take_length, eq_comm, ← List.prefix_iff_eq_take, seen_text]
  intro begins
  rw [List.map_append, map_loch_seenName] at begins
  have inside : (octets version).map loch <+: field.name.map loch := by
    rcases Nat.le_total ((octets version).map loch).length (field.name.map loch).length with
      short | long
    · exact List.prefix_of_prefix_length_le begins (List.prefix_append _ _) short
    · obtain ⟨behind, whole⟩ :=
        List.prefix_of_prefix_length_le (List.prefix_append _ _) begins long
      cases behind with
      | nil => exact ⟨[], by rw [List.append_nil, ← whole, List.append_nil]⟩
      | cons ch behind =>
          rw [← whole, List.map_cons, List.prefix_append_right_inj, List.cons_prefix_cons] at begins
          rw [← whole, begins.1] at plain
          exact absurd plain.2 (by simp [loch])
  obtain ⟨ch, inName, isSlash⟩ := List.mem_map.mp (inside.sublist.mem slash)
  exact (tchar_loch ch (field.nameToken ch inName)) isSlash

/-- The branch that a name takes. -/
def nameKind (field : HeaderField) : LineKind :=
  if field.IsNamed "Content-Length" then .contentLength
  else if field.IsNamed "Transfer-Encoding" then .transferEncoding
  else if field.IsNamed "Cache-Control" then .cacheControl
  else if field.IsNamed "ETag" then .etag
  else if field.IsNamed "Server" then .server
  else if field.IsNamed "Allow" then .allow
  else if field.IsNamed "Content-Encoding" then .encoding
  else if field.IsNamed "Content-Language" then .language
  else if field.IsNamed "Last-Modified" then .lastModified
  else if field.IsNamed "Expires" then .expires
  else if field.IsNamed "Content-Type" then .contentType
  else if field.IsNamed "Via" then .via
  else if field.IsNamed "Connection" ∨ field.IsNamed "Accept-Ranges" ∨ field.IsNamed "Date" then
    .inert
  else .other

theorem lineKind_text (field : HeaderField) : lineKind (seen field.text) = field.nameKind := by
  unfold lineKind nameKind
  rw [field.not_isField_of_slash "HTTP/1.0 " (by decide) (by decide),
    field.not_isField_of_slash "HTTP/1.1 " (by decide) (by decide)]
  simp only [Bool.or_self, Bool.false_eq_true, if_false, Bool.or_eq_true, or_assoc,
    field.isField_iff "Content-Length:" "Content-Length" (by decide) (by decide),
    field.isField_iff "Transfer-Encoding:" "Transfer-Encoding" (by decide) (by decide),
    field.isField_iff "Cache-Control:" "Cache-Control" (by decide) (by decide),
    field.isField_iff "ETag:" "ETag" (by decide) (by decide),
    field.isField_iff "Server:" "Server" (by decide) (by decide),
    field.isField_iff "Allow:" "Allow" (by decide) (by decide),
    field.isField_iff "Content-Encoding:" "Content-Encoding" (by decide) (by decide),
    field.isField_iff "Content-Language:" "Content-Language" (by decide) (by decide),
    field.isField_iff "Last-Modified:" "Last-Modified" (by decide) (by decide),
    field.isField_iff "Expires:" "Expires" (by decide) (by decide),
    field.isField_iff "Content-Type:" "Content-Type" (by decide) (by decide),
    field.isField_iff "Via:" "Via" (by decide) (by decide),
    field.isField_iff "Connection:" "Connection" (by decide) (by decide),
    field.isField_iff "Accept-Ranges:" "Accept-Ranges" (by decide) (by decide),
    field.isField_iff "Date:" "Date" (by decide) (by decide)]

end HeaderField

namespace StatusLine

/-- The protocol version and the space behind it. -/
def version (status : StatusLine) : List UInt8 :=
  octets (if status.minor then "HTTP/1.1 " else "HTTP/1.0 ")

theorem digit_blank (ch : UInt8) : 0x30 ≤ ch ∧ ch ≤ 0x39 → isBlank ch = false ∧ ch ≠ 0 := by
  revert ch
  apply forall_octet
  decide +kernel

/-- The status line as the loop of `parse` looks at it. -/
theorem seen_text (status : StatusLine) :
    seen status.text =
      status.version ++ status.code ++ (0x20 :: status.reason).rdropWhile isBlank := by
  obtain ⟨first, second, third, code⟩ := List.length_eq_three.mp status.codeDigits.1
  have notBlank : isBlank third = false :=
    (digit_blank third (status.codeDigits.2 third (by simp [code]))).1
  have split : status.text =
      (status.version ++ [first, second]) ++ third :: 0x20 :: status.reason := by
    simp [text, version, code, octets]
  have front (rest : List UInt8) :
      (status.version ++ rest).dropWhile isBlank = status.version ++ rest := by
    unfold version
    cases status.minor <;> rfl
  have kept (rest : List UInt8) : normalise true (status.version ++ rest) = status.version ++ rest := by
    unfold version
    cases status.minor <;> rfl
  rw [seen, trimmed, split, List.append_assoc, front, ← List.append_assoc,
    rdropWhile_append_nonblank _ notBlank, List.append_assoc, kept, code]
  simp

theorem plain_seen_text (status : StatusLine) : 0 ∉ seen status.text := by
  rw [seen_text]
  intro member
  rcases List.mem_append.mp member with front | inReason
  · rcases List.mem_append.mp front with inVersion | inCode
    · unfold version at inVersion
      cases minor : status.minor <;> rw [minor] at inVersion <;> exact absurd inVersion (by decide)
    · exact (digit_blank 0 (status.codeDigits.2 0 inCode)).2 rfl
  · rcases List.mem_cons.mp (mem_of_mem_rdropWhile inReason) with isSpace | inside
    · cases isSpace
    · exact status.reasonPlain.nulFree inside

/-- The branch of a status line. -/
theorem lineKind_text (status : StatusLine) : lineKind (seen status.text) = .status := by
  have begins (line : List UInt8) (nulFree : 0 ∉ line) (name : String)
      (plain : 0 ∉ octets name) (starts : octets name <+: line) : isField name line = true := by
    have count : name.length = (octets name).length := by
      rw [octets, List.length_map, String.length_toList]
    rw [isField, strncasecmp, cString_of_nulFree nulFree, cString_of_nulFree plain, count,
      List.take_length, ← List.prefix_iff_eq_take.mp starts, decide_eq_true rfl]
  have starts : status.version <+: seen status.text := by
    rw [seen_text, List.append_assoc]
    exact List.prefix_append _ _
  have isVersion : (isField "HTTP/1.0 " (seen status.text) ||
      isField "HTTP/1.1 " (seen status.text)) = true := by
    unfold version at starts
    cases minor : status.minor with
    | false =>
        rw [minor] at starts
        rw [begins _ status.plain_seen_text "HTTP/1.0 " (by decide) starts, Bool.true_or]
    | true =>
        rw [minor] at starts
        rw [begins _ status.plain_seen_text "HTTP/1.1 " (by decide) starts, Bool.or_true]
  rw [lineKind, if_pos isVersion]

end StatusLine

theorem contains_iff {text literal : List UInt8} :
    contains text literal = true ↔ literal <:+: text := by
  rw [contains, List.any_eq_true]
  constructor
  · rintro ⟨rest, isTail, begins⟩
    exact (List.isPrefixOf_iff_prefix.mp begins).isInfix.trans
      ((List.mem_tails rest text).mp isTail).isInfix
  · rintro ⟨before, behind, whole⟩
    refine ⟨literal ++ behind, (List.mem_tails _ _).mpr ⟨before, ?_⟩, ?_⟩
    · rw [← List.append_assoc, whole]
    · exact List.isPrefixOf_iff_prefix.mpr (List.prefix_append literal behind)

theorem strtrim_inside (text : List UInt8) : strtrim text <:+: text := by
  unfold strtrim
  split
  · exact List.infix_rfl
  · split
    · exact List.nil_infix
    · exact (List.rdropWhile_prefix isBlank _).isInfix.trans
        (List.dropWhile_suffix isBlank).isInfix

/-- A value that is found lies in the value of the field. -/
theorem HeaderField.fieldValue_inside (field : HeaderField) {full : String} (base : List UInt8)
    (isFull : octets full = base ++ [0x3a]) :
    fieldValue full (seen field.text) <:+: field.value := by
  have rest := (List.rdropWhile_prefix isBlank field.value).isInfix
  refine (strtrim_inside _).trans ?_
  rw [isFull, seen_text]
  rcases @strcutFrom_colon base _ (field.value.rdropWhile isBlank)
    field.seenName_noColon with nothing | ⟨_, _, found⟩ | ⟨before, found⟩
  · rw [nothing]
    exact List.nil_infix
  · rw [found]
    exact rest
  · refine List.IsInfix.trans ?_ rest
    refine List.IsSuffix.isInfix ⟨before ++ [0x3a], ?_⟩
    rw [List.append_assoc, List.singleton_append, ← found]

end Tunneling

end HeapHttpd
