import HeapHttpd.Hpack.BuildCorrect

/-!
# The field of a line

What `hpack::build` makes of one line, and when the field it makes is resolved
to what the line says.
-/

namespace HeapHttpd

namespace Hpack

open General PrefixInteger Huffman

/-- How a field is built: the first row with its name and value, the last row
with its name, or a new name. -/
inductive FieldBuilt (name value : List UInt8) : Outcome (List UInt8) → Prop
  | pair (row : Row) (member : row ∈ headerStaticTable) (sameName : row.2.1 = name)
      (sameValue : row.2.2.map loch = value.map loch) :
      FieldBuilt name value (.ok (encode 7 1 row.1))
  | named (row : Row) (member : row ∈ headerStaticTable) (sameName : row.2.1 = name)
      (noPair : ¬ TablePair name value) :
      FieldBuilt name value
        (do
          let valueCode ← buildString value
          .ok (encode 6 1 row.1 ++ valueCode))
  | new (noName : ¬ TableName name) :
      FieldBuilt name value
        (do
          let nameCode ← buildString (name ++ [0])
          let valueCode ← buildString value
          .ok (encode 4 1 0 ++ (nameCode ++ valueCode)))

/-- The octets a field takes. -/
def fieldSize (field : List UInt8 × List UInt8) : Nat :=
  if TablePair field.1 field.2 then 1
  else if TableName field.1 then 1 + (encodeString true field.2).length
  else 1 + ((encodeString true (field.1 ++ [0])).length + (encodeString true field.2).length)

/-- The outcome of building a field: a fault if the field does not fit, else
octets that come back as the field exactly if it fits. -/
def FieldSpec (fits : Prop) (field : List UInt8 × List UInt8)
    (outcome : Outcome (List UInt8)) : Prop :=
  (outcome = .fault ∧ ¬ fits) ∨
    ∃ bytes sent, outcome = .ok bytes ∧ Sent bytes sent ∧
      (fits ↔ sent.Short huffmanLimit ∧
        resolveStatic sent.field.parsedHeader = some field) ∧
      (fits → bytes.length = fieldSize field)

theorem TablePair.named {name value : List UInt8} (pair : TablePair name value) :
    TableName name := by
  obtain ⟨row, member, sameName, -⟩ := pair
  exact ⟨row, member, sameName⟩

theorem short_iff_sendable {text : List UInt8} (encodable : Encodable text) :
    Short huffmanLimit true text ↔ Sendable text := by
  simp [Short, Sendable, encodable]

theorem FieldBuilt.pair_spec {name value : List UInt8} {row : Row}
    (member : row ∈ headerStaticTable) (sameName : row.2.1 = name)
    (sameValue : row.2.2.map loch = value.map loch) :
    FieldSpec (HeaderFits name value) (name, value) (.ok (encode 7 1 row.1)) := by
  obtain ⟨-, small, -⟩ := rows_fit row member
  have pair : TablePair name value := ⟨row, member, sameName, sameValue⟩
  obtain ⟨sent, isSent, short, resolved⟩ := sent_indexed member
  refine Or.inr ⟨_, sent, rfl, isSent, ⟨fun fits => ⟨short, ?_⟩, ?_⟩, fun _ => ?_⟩
  · obtain ⟨other, otherMember, isField⟩ := fits.1 pair
    have same : row.2 = other.2 :=
      rows_distinct row member other otherMember (by rw [sameName, isField])
        (by rw [sameValue, isField])
    rw [resolved, same, isField]
  · rintro ⟨-, isField⟩
    rw [resolved] at isField
    exact ⟨fun _ => ⟨row, member, Option.some.inj isField⟩, fun noPair => absurd pair noPair⟩
  · rw [encode_short (by omega), fieldSize, if_pos pair]

theorem FieldBuilt.named_spec {name value : List UInt8} {row : Row}
    (member : row ∈ headerStaticTable) (sameName : row.2.1 = name)
    (noPair : ¬ TablePair name value) (nulFree : 0 ∉ value) :
    FieldSpec (HeaderFits name value) (name, value)
      (do
        let valueCode ← buildString value
        .ok (encode 6 1 row.1 ++ valueCode)) := by
  obtain ⟨-, small, -⟩ := rows_fit row member
  have isName : TableName name := ⟨row, member, sameName⟩
  have fits_iff : HeaderFits name value ↔ Sendable value := by
    simp [HeaderFits, noPair, isName]
  by_cases encodable : Encodable value
  · obtain ⟨sent, isSent, short, resolved⟩ := sent_named member nulFree
    rw [buildString_encodable encodable]
    refine Or.inr ⟨_, sent, rfl, isSent, ?_, fun _ => ?_⟩
    · rw [fits_iff, short, short_iff_sendable encodable, resolved, sameName]
      simp
    · rw [List.length_append, encode_short (by omega), fieldSize, if_neg noPair, if_pos isName]
  · refine Or.inl ⟨?_, fun fits => encodable (fits_iff.mp fits).1⟩
    rw [buildString_fault encodable]
    rfl

theorem FieldBuilt.new_spec {name value : List UInt8} (noName : ¬ TableName name)
    (nameNulFree : 0 ∉ name) (nulFree : 0 ∉ value) :
    FieldSpec (HeaderFits name value) (name, value)
      (do
        let nameCode ← buildString (name ++ [0])
        let valueCode ← buildString value
        .ok (encode 4 1 0 ++ (nameCode ++ valueCode))) := by
  have noPair : ¬ TablePair name value := fun pair => noName pair.named
  have fits_iff : HeaderFits name value ↔ Sendable value ∧ Sendable (name ++ [0]) := by
    simp [HeaderFits, noPair, noName]
  by_cases nameEncodable : Encodable (name ++ [0])
  · by_cases encodable : Encodable value
    · obtain ⟨sent, isSent, short, resolved⟩ := sent_new nameNulFree nulFree
      rw [buildString_encodable nameEncodable, buildString_encodable encodable]
      refine Or.inr ⟨_, sent, rfl, isSent, ?_, fun _ => ?_⟩
      · rw [fits_iff, short, short_iff_sendable nameEncodable, short_iff_sendable encodable,
          resolved, and_comm]
        simp
      · rw [List.length_append, List.length_append, encode_short (by omega), fieldSize,
          if_neg noPair, if_neg noName]
    · refine Or.inl ⟨?_, fun fits => encodable (fits_iff.mp fits).1.1⟩
      rw [buildString_encodable nameEncodable, buildString_fault encodable]
      rfl
  · refine Or.inl ⟨?_, fun fits => nameEncodable (fits_iff.mp fits).2.1⟩
    rw [buildString_fault nameEncodable]
    rfl

theorem FieldBuilt.spec {name value : List UInt8} {outcome : Outcome (List UInt8)}
    (built : FieldBuilt name value outcome) (nameNulFree : 0 ∉ name) (nulFree : 0 ∉ value) :
    FieldSpec (HeaderFits name value) (name, value) outcome := by
  cases built with
  | pair row member sameName sameValue => exact pair_spec member sameName sameValue
  | named row member sameName noPair => exact named_spec member sameName noPair nulFree
  | new noName => exact new_spec noName nameNulFree nulFree

theorem statusLine_of_starts {line : List UInt8} (starts : octets "HTTP/1.1" <+: line) :
    StatusLine line := by
  obtain ⟨rest, rfl⟩ := starts
  rfl

theorem plain_of_loch (ch : UInt8) : loch ch = 0x68 → ch ≠ 0x3a ∧ isBlank ch = false := by
  revert ch
  apply forall_octet
  decide +kernel

/-- The name in a line that begins with `http/1.1` is not `:status`. -/
theorem name_ne_status {line : List UInt8} (status : StatusLine line) :
    (trimmed (fieldName line)).map loch ≠ octets ":status" := by
  intro equal
  cases line with
  | nil => cases status
  | cons ch rest =>
      rw [StatusLine, List.take_succ_cons, List.map_cons] at status
      have letter : loch ch = 0x68 := (List.cons.inj status).1
      have plain := plain_of_loch ch letter
      have inName : ch ∈ fieldName (ch :: rest) := by
        rw [fieldName, if_neg plain.1, List.takeWhile_cons, if_pos (by simpa using plain.1)]
        exact List.mem_cons_self
      have inField := List.mem_map_of_mem (f := loch) (mem_trimmed inName plain.2)
      rw [equal, letter] at inField
      revert inField
      decide

theorem startTag : encodeHttp2HeaderIndex 4 0 = some [0] := by
  decide

theorem withCode_start : withCode 4 1 [0] = encode 4 1 0 := by
  decide

theorem lowerName_nul {name : List UInt8} (lower : name.map loch = name) (nulFree : 0 ∉ name) :
    LowerName name (name ++ [0]) :=
  ⟨lower, cString_append_nul nulFree []⟩

/-- A header line is built as the field it stands for. -/
theorem fieldBuilt_header {line : List UInt8} (nulFree : 0 ∉ line)
    (notStatus : ¬ StatusLine line) :
    FieldBuilt ((trimmed (fieldName line)).map loch) (trimmed (fieldValue line))
      (buildLine headerStaticTable line) := by
  have nameFree : 0 ∉ fieldName line := fun member =>
    nulFree ((fieldName_sublist line).mem member)
  have valueFree : 0 ∉ fieldValue line := fun member =>
    nulFree ((fieldValue_sublist line).mem member)
  have trimmedName : 0 ∉ trimmed (fieldName line) := fun member =>
    nameFree (mem_of_mem_trimmed member)
  have trimmedValue : 0 ∉ trimmed (fieldValue line) := fun member =>
    valueFree (mem_of_mem_trimmed member)
  have lower : ((trimmed (fieldName line)).map loch).map loch =
      (trimmed (fieldName line)).map loch := by
    simp [Function.comp_def]
  have notCompared : ¬ strncasecmp line (octets "HTTP/1.1") 8 = true := by
    rwa [strncasecmp_status nulFree]
  rw [buildLine, startTag]
  dsimp only
  rw [if_neg notCompared, lineName_eq nulFree, lineValue_eq nulFree,
    strtrim_eq_trimmed nameFree, strtrim_eq_trimmed valueFree, lowercase,
    cString_of_nulFree trimmedName, withCode_start]
  generalize trimmed (fieldName line) = name at *
  generalize trimmed (fieldValue line) = value at *
  rcases scanTable_static (lowerName_nul lower (nulFree_map_loch trimmedName)) trimmedValue
      (.neverIndexedNewName, some (encode 4 1 0)) with
    ⟨row, member, sameName, sameValue, found⟩ |
      ⟨noPair, ⟨row, member, sameName, found⟩ | ⟨noName, found⟩⟩
  · rw [found]
    have built := FieldBuilt.pair row member sameName sameValue
    simpa using built
  · rw [found]
    exact FieldBuilt.named row member sameName noPair
  · rw [found]
    have built : FieldBuilt (name.map loch) value _ := .new noName
    simpa using built

/-- The digits `hpack::build` takes from a status line. -/
def statusCode (line : List UInt8) : List UInt8 :=
  if line.drop 8 = [] ∨ isDigit ((line.drop 8).headD 0) = true then [] else statusDigits line

theorem statusCode_digits (line : List UInt8) : ∀ ch ∈ statusCode line, isDigit ch = true := by
  intro ch member
  unfold statusCode at member
  split at member
  · cases member
  · exact List.mem_takeWhile_imp member

theorem nulFree_statusCode (line : List UInt8) : 0 ∉ statusCode line := by
  intro member
  have digit := statusCode_digits line 0 member
  revert digit
  decide

/-- A status line is built as a status field, unless its digits overflow. -/
theorem fieldBuilt_status {line : List UInt8} (nulFree : 0 ∉ line) (status : StatusLine line)
    (few : (statusCode line).length < 16) :
    FieldBuilt (octets ":status") (statusCode line) (buildLine headerStaticTable line) := by
  have scanned : scanStatusCode (lowercase line) = .ok (statusCode line) := by
    rw [scanStatusCode_eq nulFree]
    unfold statusCode at few ⊢
    split
    · rfl
    · rename_i separated
      rw [if_neg separated] at few
      rw [if_neg (by omega)]
  rw [buildLine, startTag]
  dsimp only
  rw [if_pos ((strncasecmp_status nulFree).mpr status), scanned, Outcome.ok_bind, withCode_start]
  have lowerName : LowerName (octets ":status") (octets ":status") := ⟨by decide, by decide⟩
  rcases scanTable_static lowerName (nulFree_statusCode line)
      (.neverIndexedNewName, some (encode 4 1 0)) with
    ⟨row, member, sameName, sameValue, found⟩ |
      ⟨noPair, ⟨row, member, sameName, found⟩ | ⟨noName, found⟩⟩
  · rw [found]
    have built := FieldBuilt.pair row member sameName sameValue
    simpa using built
  · rw [found]
    exact FieldBuilt.named row member sameName noPair
  · exact absurd (by decide) noName

theorem buildLine_overflow {line : List UInt8} (nulFree : 0 ∉ line) (status : StatusLine line)
    (many : 16 ≤ (statusCode line).length) : buildLine headerStaticTable line = .fault := by
  have scanned : scanStatusCode (lowercase line) = .fault := by
    rw [scanStatusCode_eq nulFree]
    unfold statusCode at many
    split at many
    · cases many
    · rename_i separated
      rw [if_neg separated, if_pos many]
  rw [buildLine, startTag]
  dsimp only
  rw [if_pos ((strncasecmp_status nulFree).mpr status), scanned]
  rfl

theorem statusRows_lower :
    ∀ row ∈ headerStaticTable, row.2.1 = octets ":status" → row.2.2.map loch = row.2.2 := by
  decide +kernel

/-- Status digits that do not overflow are always sent as they are. -/
theorem headerFits_status {code : List UInt8} (digits : ∀ ch ∈ code, isDigit ch = true)
    (few : code.length < 16) : HeaderFits (octets ":status") code := by
  have isName : TableName (octets ":status") := by decide
  have lower : code.map loch = code := by
    conv_rhs => rw [← List.map_id code]
    exact List.map_congr_left fun ch member => loch_of_isDigit ch (digits ch member)
  refine ⟨?_, fun _ => ⟨⟨⟨fun ch member => ?_, by omega⟩, ?_⟩, fun noName => absurd isName noName⟩⟩
  · rintro ⟨row, member, sameName, sameValue⟩
    rw [statusRows_lower row member sameName, lower] at sameValue
    exact ⟨row, member, Prod.ext sameName sameValue⟩
  · have digit := digits ch member
    simp only [isDigit, Bool.and_eq_true, decide_eq_true_eq, UInt8.le_iff_toNat_le] at digit
    have bound : ch.toNat ≤ 57 := digit.2
    omega
  · have bound := length_huffmanEncode_le code
    unfold huffmanLimit
    omega

/-- The digits of a status line are taken as they are exactly behind a separator. -/
theorem statusCode_eq_digits {line : List UInt8} :
    statusCode line = statusDigits line ↔ isDigit ((line.drop 8).headD 0) = false := by
  unfold statusCode statusDigits
  cases line.drop 8 with
  | nil => simp [isDigit]
  | cons ch rest =>
      cases digit : isDigit ch with
      | false => simp [digit]
      | true => simp [digit]

theorem lineFits_status {line : List UInt8} (status : StatusLine line) :
    LineFits line ↔ expectedField line = (octets ":status", statusCode line) ∧
      (statusCode line).length < 16 := by
  rw [LineFits, if_pos status, StatusFits, expectedField, ← statusCode_eq_digits]
  by_cases starts : octets "HTTP/1.1" <+: line
  · rw [if_pos starts]
    constructor
    · rintro ⟨-, same, few⟩
      rw [same]
      exact ⟨rfl, few⟩
    · rintro ⟨same, few⟩
      have digits := (Prod.ext_iff.mp same).2
      dsimp only at digits
      rw [digits]
      exact ⟨starts, rfl, few⟩
  · rw [if_neg starts]
    constructor
    · rintro ⟨impossible, -⟩
      exact absurd impossible starts
    · rintro ⟨same, -⟩
      exact absurd (Prod.ext_iff.mp same).1 (name_ne_status status)

/-- What building one line leads to. -/
theorem buildLine_spec {line : List UInt8} (nulFree : 0 ∉ line) :
    FieldSpec (LineFits line) (expectedField line) (buildLine headerStaticTable line) := by
  by_cases status : StatusLine line
  · by_cases few : (statusCode line).length < 16
    · have fits := headerFits_status (statusCode_digits line) few
      rcases (fieldBuilt_status nulFree status few).spec (by decide) (nulFree_statusCode line) with
        ⟨-, unfit⟩ | ⟨bytes, sent, built, isSent, back, size⟩
      · exact absurd fits unfit
      · obtain ⟨short, resolved⟩ := back.mp fits
        refine Or.inr ⟨bytes, sent, built, isSent, ?_, fun lineFits => ?_⟩
        · rw [lineFits_status status, resolved]
          constructor
          · rintro ⟨same, -⟩
            exact ⟨short, by rw [same]⟩
          · rintro ⟨-, same⟩
            exact ⟨(Option.some.inj same).symm, few⟩
        · rw [((lineFits_status status).mp lineFits).1]
          exact size fits
    · refine Or.inl ⟨buildLine_overflow nulFree status (by omega), ?_⟩
      rw [lineFits_status status]
      exact fun same => few same.2
  · have notPrefix : ¬ octets "HTTP/1.1" <+: line := fun starts =>
      status (statusLine_of_starts starts)
    have nameFree : 0 ∉ (trimmed (fieldName line)).map loch := nulFree_map_loch fun member =>
      nulFree ((fieldName_sublist line).mem (mem_of_mem_trimmed member))
    have valueFree : 0 ∉ trimmed (fieldValue line) := fun member =>
      nulFree ((fieldValue_sublist line).mem (mem_of_mem_trimmed member))
    have spec := (fieldBuilt_header nulFree status).spec nameFree valueFree
    rwa [LineFits, if_neg status, expectedField, if_neg notPrefix]

end Hpack

end HeapHttpd
