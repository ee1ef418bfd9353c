import HeapHttpd.Hpack.Build
import HeapHttpd.Hpack.ParseCorrect

/-!
# What building a field writes

The functions `hpack::build` calls: integers, strings, the search in the static
table, and the parts of a line.
-/

namespace HeapHttpd

namespace Hpack

open General PrefixInteger Huffman BitString

theorem encodeIntegerLoop_eq {room value count : Nat} (positive : 0 < count)
    (fits : value < 2 ^ (7 * count)) (enough : count < room) :
    encodeIntegerLoop room value = some (encodeGroups value) := by
  induction count generalizing room value with
  | zero => omega
  | succ count ih =>
      obtain ⟨room, rfl⟩ : ∃ fewer, room = fewer + 1 := ⟨room - 1, by omega⟩
      rw [encodeIntegerLoop, encodeGroups_eq]
      by_cases large : 128 ≤ value
      · have nonzero : 0 < count := by
          rcases Nat.eq_zero_or_pos count with rfl | nonzero
          · omega
          · exact nonzero
        have smaller : value / 128 < 2 ^ (7 * count) := by
          rw [Nat.div_lt_iff_lt_mul (by omega), show 128 = 2 ^ 7 from rfl, ← Nat.pow_add]
          exact fits
        rw [if_pos large, if_neg (by omega), ih nonzero smaller (by omega)]
        rfl
      · rw [if_neg large, if_neg (by omega), if_pos (by omega)]

theorem encodeInteger_eq {room value n : Nat} (enough : 7 ≤ room) (small : value < 2 ^ 32) :
    encodeInteger room value n = some (encode n 0 value) := by
  unfold encodeInteger encode
  rw [if_neg (by omega), Nat.zero_mul, Nat.zero_add, Nat.zero_add]
  split
  · rfl
  · have fits : value - (2 ^ n - 1) < 2 ^ (7 * 5) := by omega
    rw [encodeIntegerLoop_eq (by omega) fits (by omega)]
    rfl

theorem withCode_encode {width code value : Nat} (narrow : width ≤ 8) :
    withCode width code (encode width 0 value) = encode width code value := by
  have positive := Nat.two_pow_pos width
  have octet (number : Nat) (small : number < 2 ^ width) :
      (UInt8.ofNat number).toNat % 2 ^ width = number := by
    have within : 2 ^ width ≤ 2 ^ 8 := Nat.pow_le_pow_right (by omega) narrow
    have fits : number < 2 ^ 8 := by omega
    rw [UInt8.toNat_ofNat', Nat.mod_eq_of_lt fits, Nat.mod_eq_of_lt small]
  unfold encode
  rw [Nat.zero_mul, Nat.zero_add, Nat.zero_add]
  split
  · rw [withCode, octet value (by omega)]
  · rw [withCode, octet _ (by omega)]

theorem encode_short {width high value : Nat} (fits : value < 2 ^ width - 1) :
    (encode width high value).length = 1 := by
  rw [encode, if_pos fits, List.length_singleton]

/-- The strings `buildString` can encode. -/
def Encodable (text : List UInt8) : Prop :=
  (∀ ch ∈ text, ch.toNat < 0x80) ∧ text.length < 2 ^ 28

theorem length_encodeBits_le (text : List UInt8) :
    (encodeBits text).length ≤ 30 * text.length := by
  induction text with
  | nil => simp
  | cons symbol text ih =>
      have := hexToHfCodeLen_le symbol
      simp only [encodeBits_cons, List.length_append, List.length_cons, length_codeBits]
      omega

theorem length_huffmanEncode_le (text : List UInt8) :
    (huffmanEncode text).length ≤ 4 * text.length + 1 := by
  have bits := congrArg List.length (bytesBits_huffmanEncode text)
  have codes := length_encodeBits_le text
  rw [length_bytesBits, List.length_append, List.length_replicate] at bits
  omega

theorem buildString_encodable {text : List UInt8} (encodable : Encodable text) :
    buildString text = .ok (encodeString true text) := by
  obtain ⟨ascii, short⟩ := encodable
  have length := length_huffmanEncode_le text
  rw [buildString, if_neg (by omega), hfStringEncode_ascii ascii, Outcome.ok_bind,
    encodeHttp2HeaderString, encodeInteger_eq (by decide) (by omega)]
  dsimp only
  rw [withCode_encode (by omega), encodeString, if_pos rfl]

theorem buildString_fault {text : List UInt8} (encodable : ¬ Encodable text) :
    buildString text = .fault := by
  rw [buildString]
  split
  · rfl
  · rename_i short
    have beyond : ∃ ch ∈ text, 0x80 ≤ ch.toNat := by
      by_contra ascii
      push Not at ascii
      exact encodable ⟨ascii, by omega⟩
    rw [hfStringEncode_fault beyond]
    rfl

/-- The outcome of the loop over the table: the first row that has the name and
the value, else the last row that has the name, else what was there. -/
theorem scanTable_cases (name value : List UInt8) {table : List Row}
    (keys : ∀ row ∈ table, row.1 < 62) (found : IndexType × Option (List UInt8)) :
    (∃ row ∈ table, strcasecmp row.2.1 name = true ∧ strcasecmp row.2.2 value = true ∧
        scanTable name value table found = (.indexed, some (encode 7 1 row.1))) ∨
      (∀ row ∈ table, strcasecmp row.2.1 name = true → strcasecmp row.2.2 value = false) ∧
        ((∃ row ∈ table, strcasecmp row.2.1 name = true ∧
            scanTable name value table found =
              (.withIndexingIndexedName, some (encode 6 1 row.1))) ∨
          (∀ row ∈ table, strcasecmp row.2.1 name = false) ∧
            scanTable name value table found = found) := by
  induction table generalizing found with
  | nil => simp [scanTable]
  | cons row table ih =>
      obtain ⟨key, entryName, entryValue⟩ := row
      simp only [List.mem_cons, forall_eq_or_imp] at keys
      have small : key < 2 ^ 32 := by omega
      rw [scanTable]
      by_cases sameName : strcasecmp entryName name = true
      · rw [if_pos sameName, encodeHttp2HeaderIndex, encodeInteger_eq (by decide) small]
        dsimp only
        by_cases sameValue : strcasecmp entryValue value = true
        · rw [if_pos sameValue, encodeHttp2HeaderIndex, encodeInteger_eq (by decide) small, Option.map_some,
            withCode_encode (by omega)]
          exact Or.inl ⟨_, List.mem_cons_self, sameName, sameValue, rfl⟩
        · rw [if_neg sameValue, withCode_encode (by omega)]
          rcases ih keys.2 (.withIndexingIndexedName, some (encode 6 1 key)) with
            ⟨row, member, exact'⟩ | ⟨none', ⟨row, member, named⟩ | ⟨-, unchanged⟩⟩
          · exact Or.inl ⟨row, List.mem_cons_of_mem _ member, exact'⟩
          · refine Or.inr ⟨?_, Or.inl ⟨row, List.mem_cons_of_mem _ member, named⟩⟩
            simpa [sameValue] using none'
          · refine Or.inr ⟨?_, Or.inl ⟨_, List.mem_cons_self, sameName, unchanged⟩⟩
            simpa [sameValue] using none'
      · rw [if_neg sameName]
        rcases ih keys.2 found with
          ⟨row, member, exact'⟩ | ⟨none', ⟨row, member, named⟩ | ⟨unnamed, unchanged⟩⟩
        · exact Or.inl ⟨row, List.mem_cons_of_mem _ member, exact'⟩
        · refine Or.inr ⟨?_, Or.inl ⟨row, List.mem_cons_of_mem _ member, named⟩⟩
          simpa [sameName] using none'
        · refine Or.inr ⟨?_, Or.inr ⟨?_, unchanged⟩⟩
          · simpa [sameName] using none'
          · simpa [sameName] using unnamed

theorem rows_fit :
    ∀ row ∈ headerStaticTable, 0 < row.1 ∧ row.1 < 62 ∧
      headerStaticTable.lookup row.1 = some row.2 ∧ row.2.1.map loch = row.2.1 ∧
      0 ∉ row.2.1 ∧ 0 ∉ row.2.2 := by
  decide +kernel

theorem rows_distinct :
    ∀ row ∈ headerStaticTable, ∀ other ∈ headerStaticTable, row.2.1 = other.2.1 →
      row.2.2.map loch = other.2.2.map loch → row.2 = other.2 := by
  decide +kernel

/-- The table has a row with this name. -/
def TableName (name : List UInt8) : Prop :=
  ∃ row ∈ headerStaticTable, row.2.1 = name

/-- The table has a row with this name and, up to letter case, this value. -/
def TablePair (name value : List UInt8) : Prop :=
  ∃ row ∈ headerStaticTable, row.2.1 = name ∧ row.2.2.map loch = value.map loch

instance (name : List UInt8) : Decidable (TableName name) :=
  inferInstanceAs (Decidable (∃ row ∈ headerStaticTable, _))

instance (name value : List UInt8) : Decidable (TablePair name value) :=
  inferInstanceAs (Decidable (∃ row ∈ headerStaticTable, _))

/-- A lower-case name as the table loop compares it. -/
structure LowerName (name compared : List UInt8) : Prop where
  lower : name.map loch = name
  seen : cString compared = name

theorem strcasecmp_name {name compared : List UInt8} (lowerName : LowerName name compared)
    {row : Row} (member : row ∈ headerStaticTable) :
    strcasecmp row.2.1 compared = true ↔ row.2.1 = name := by
  obtain ⟨-, -, -, lower, nulFree, -⟩ := rows_fit row member
  simp only [strcasecmp, decide_eq_true_eq]
  rw [lowerName.seen, lowerName.lower, cString_of_nulFree nulFree, lower]

theorem strcasecmp_value {value : List UInt8} (nulFree : 0 ∉ value) {row : Row}
    (member : row ∈ headerStaticTable) :
    strcasecmp row.2.2 value = true ↔ row.2.2.map loch = value.map loch := by
  obtain ⟨-, -, -, -, -, rowNulFree⟩ := rows_fit row member
  simp only [strcasecmp, decide_eq_true_eq]
  rw [cString_of_nulFree nulFree, cString_of_nulFree rowNulFree]

/-- What the loop over the static table finds for a name and a value. -/
theorem scanTable_static {name compared value : List UInt8}
    (lowerName : LowerName name compared) (nulFree : 0 ∉ value)
    (start : IndexType × Option (List UInt8)) :
    (∃ row ∈ headerStaticTable, row.2.1 = name ∧ row.2.2.map loch = value.map loch ∧
        scanTable compared value headerStaticTable start =
          (.indexed, some (encode 7 1 row.1))) ∨
      ¬ TablePair name value ∧
        ((∃ row ∈ headerStaticTable, row.2.1 = name ∧
            scanTable compared value headerStaticTable start =
              (.withIndexingIndexedName, some (encode 6 1 row.1))) ∨
          ¬ TableName name ∧ scanTable compared value headerStaticTable start = start) := by
  rcases scanTable_cases compared value (fun row member => (rows_fit row member).2.1) start with
    ⟨row, member, sameName, sameValue, found⟩ | ⟨apart, rest⟩
  · exact Or.inl ⟨row, member, (strcasecmp_name lowerName member).mp sameName,
      (strcasecmp_value nulFree member).mp sameValue, found⟩
  · have noPair : ¬ TablePair name value := by
      rintro ⟨row, member, sameName, sameValue⟩
      have differs := apart row member ((strcasecmp_name lowerName member).mpr sameName)
      rw [(strcasecmp_value nulFree member).mpr sameValue] at differs
      cases differs
    refine Or.inr ⟨noPair, ?_⟩
    rcases rest with ⟨row, member, sameName, found⟩ | ⟨unnamed, found⟩
    · exact Or.inl ⟨row, member, (strcasecmp_name lowerName member).mp sameName, found⟩
    · refine Or.inr ⟨?_, found⟩
      rintro ⟨row, member, sameName⟩
      have differs := unnamed row member
      rw [(strcasecmp_name lowerName member).mpr sameName] at differs
      cases differs

/-- A header resolved in the static table. -/
def resolveStatic (header : Header) : Option (List UInt8 × List UInt8) :=
  if 0 < header.index then
    (headerStaticTable.lookup header.index).map fun entry =>
      (entry.1, if header.indexType = .indexed then entry.2 else header.value)
  else some (header.name, header.value)

/-- A field as `hpack::build` sends it. -/
structure Sent (bytes : List UInt8) (sent : Transmitted) : Prop where
  bytes : bytes = sent.encode
  indexFits : sent.field.IndexFits
  notRaw : sent.endsRaw = false

theorem sent_indexed {row : Row} (member : row ∈ headerStaticTable) :
    ∃ sent, Sent (encode 7 1 row.1) sent ∧ sent.Short huffmanLimit ∧
      resolveStatic sent.field.parsedHeader = some row.2 := by
  obtain ⟨positive, small, lookup, -⟩ := rows_fit row member
  refine ⟨⟨.indexed row.1 positive, true, true⟩, ⟨rfl, ?_, rfl⟩, trivial, ?_⟩
  · show row.1 < 2 ^ 32
    omega
  · simp [resolveStatic, Field.parsedHeader, positive, lookup]

theorem sent_named {row : Row} (member : row ∈ headerStaticTable) {value : List UInt8}
    (nulFree : 0 ∉ value) :
    ∃ sent, Sent (encode 6 1 row.1 ++ encodeString true value) sent ∧
      (sent.Short huffmanLimit ↔ Short huffmanLimit true value) ∧
      resolveStatic sent.field.parsedHeader = some (row.2.1, value) := by
  obtain ⟨positive, small, lookup, -⟩ := rows_fit row member
  refine ⟨⟨.indexedName .withIndexing row.1 positive value, true, true⟩, ⟨rfl, ?_, rfl⟩,
    Iff.rfl, ?_⟩
  · show row.1 < 2 ^ 32
    omega
  · simp [resolveStatic, Field.parsedHeader, LiteralForm.keptIndex, LiteralForm.indexedName,
      positive, lookup, cString_of_nulFree nulFree]

theorem sent_new {name value : List UInt8} (nameNulFree : 0 ∉ name) (nulFree : 0 ∉ value) :
    ∃ sent, Sent (encode 4 1 0 ++ (encodeString true (name ++ [0]) ++ encodeString true value))
        sent ∧
      (sent.Short huffmanLimit ↔
        Short huffmanLimit true (name ++ [0]) ∧ Short huffmanLimit true value) ∧
      resolveStatic sent.field.parsedHeader = some (name, value) := by
  refine ⟨⟨.newName .neverIndexed (name ++ [0]) value, true, true⟩, ⟨rfl, trivial, rfl⟩,
    Iff.rfl, ?_⟩
  simp [resolveStatic, Field.parsedHeader, cString_of_nulFree nulFree,
    cString_append_nul nameNulFree]

/-- The name in a header line: up to the first colon behind the first octet. -/
def fieldName : List UInt8 → List UInt8
  | [] => []
  | ch :: rest =>
      if ch = 0x3a then ch :: rest.takeWhile (· ≠ 0x3a)
      else (ch :: rest).takeWhile (· ≠ 0x3a)

/-- The value in a header line: behind the colon that ends the name. -/
def fieldValue : List UInt8 → List UInt8
  | [] => []
  | ch :: rest =>
      if ch = 0x3a then (rest.dropWhile (· ≠ 0x3a)).tail
      else ((ch :: rest).dropWhile (· ≠ 0x3a)).tail

/-- The digits of a status line. -/
def statusDigits (line : List UInt8) : List UInt8 :=
  ((line.drop 8).dropWhile fun ch => !isDigit ch).takeWhile isDigit

/-- The field a line stands for. -/
def expectedField (line : List UInt8) : List UInt8 × List UInt8 :=
  if octets "HTTP/1.1" <+: line then (octets ":status", statusDigits line)
  else ((trimmed (fieldName line)).map loch, trimmed (fieldValue line))

/-- The line begins with `HTTP/1.1`, in whatever letter case. -/
def StatusLine (line : List UInt8) : Prop :=
  (line.take 8).map loch = octets "http/1.1"

instance (line : List UInt8) : Decidable (StatusLine line) :=
  inferInstanceAs (Decidable (_ = _))

/-- A status line in capitals, with a separator and at most fifteen digits. -/
def StatusFits (line : List UInt8) : Prop :=
  octets "HTTP/1.1" <+: line ∧ isDigit ((line.drop 8).headD 0) = false ∧
    (statusDigits line).length < 16

/-- The strings that are sent and come back. -/
def Sendable (text : List UInt8) : Prop :=
  Encodable text ∧ (huffmanEncode text).length < huffmanLimit

/-- A field whose value, if the table has it in some letter case, is in the case
of the table, and whose strings are sendable where they are sent. -/
def HeaderFits (name value : List UInt8) : Prop :=
  (TablePair name value → ∃ row ∈ headerStaticTable, row.2 = (name, value)) ∧
    (¬ TablePair name value →
      Sendable value ∧ (¬ TableName name → Sendable (name ++ [0])))

/-- The lines that come back as the field they stand for. -/
def LineFits (line : List UInt8) : Prop :=
  if StatusLine line then StatusFits line
  else HeaderFits ((trimmed (fieldName line)).map loch) (trimmed (fieldValue line))

theorem lineName_eq {line : List UInt8} (nulFree : 0 ∉ line) : lineName line = fieldName line := by
  cases line with
  | nil => rfl
  | cons ch rest =>
      have restFree : 0 ∉ rest := fun member => nulFree (List.mem_cons_of_mem _ member)
      rw [lineName, fieldName, List.headD_cons]
      split
      · rename_i colon
        rw [strcutBefore, List.drop_one, List.tail_cons, cString_of_nulFree restFree, colon]
      · rw [strcutBefore, cString_of_nulFree nulFree]

theorem lineValue_eq {line : List UInt8} (nulFree : 0 ∉ line) :
    lineValue line = fieldValue line := by
  cases line with
  | nil => rfl
  | cons ch rest =>
      have restFree : 0 ∉ rest := fun member => nulFree (List.mem_cons_of_mem _ member)
      rw [lineValue, fieldValue, List.headD_cons]
      split
      · rw [strcutAfter, List.drop_one, List.tail_cons, cString_of_nulFree restFree]
      · rw [strcutAfter, cString_of_nulFree nulFree]

theorem fieldName_sublist (line : List UInt8) : (fieldName line).Sublist line := by
  cases line with
  | nil => exact List.Sublist.refl _
  | cons ch rest =>
      rw [fieldName]
      split
      · exact (List.takeWhile_sublist _).cons_cons ch
      · exact List.takeWhile_sublist _

theorem fieldValue_sublist (line : List UInt8) : (fieldValue line).Sublist line := by
  cases line with
  | nil => exact List.Sublist.refl _
  | cons ch rest =>
      rw [fieldValue]
      split
      · exact ((List.tail_sublist _).trans (List.dropWhile_sublist _)).cons ch
      · exact (List.tail_sublist _).trans (List.dropWhile_sublist _)

theorem isDigit_loch (ch : UInt8) : isDigit (loch ch) = isDigit ch := by
  revert ch
  apply forall_octet
  decide +kernel

theorem loch_of_isDigit (ch : UInt8) : isDigit ch = true → loch ch = ch := by
  revert ch
  apply forall_octet
  decide +kernel

theorem scanStatusCode_eq {line : List UInt8} (nulFree : 0 ∉ line) :
    scanStatusCode (lowercase line) =
      if line.drop 8 = [] ∨ isDigit ((line.drop 8).headD 0) = true then .ok []
      else if 16 ≤ (statusDigits line).length then .fault
      else .ok (statusDigits line) := by
  have lowered : (cString (lowercase line)).drop 8 = (line.drop 8).map loch := by
    rw [lowercase, cString_of_nulFree nulFree, cString_append_nul (nulFree_map_loch nulFree),
      List.map_drop]
  have sameTest : (fun ch => !isDigit ch) ∘ loch = fun ch => !isDigit ch := by
    funext ch
    exact congrArg (!·) (isDigit_loch ch)
  have digits : (((line.drop 8).map loch).dropWhile fun ch => !isDigit ch).takeWhile isDigit =
      statusDigits line := by
    rw [List.dropWhile_map, sameTest, List.takeWhile_map,
      show isDigit ∘ loch = isDigit from funext isDigit_loch]
    conv_rhs => rw [statusDigits, ← List.map_id (List.takeWhile isDigit _)]
    apply List.map_congr_left
    intro ch member
    exact loch_of_isDigit ch (List.mem_takeWhile_imp member)
  have start : ((line.drop 8).map loch).takeWhile (fun ch => !isDigit ch) = [] ↔
      line.drop 8 = [] ∨ isDigit ((line.drop 8).headD 0) = true := by
    rw [List.takeWhile_map, sameTest, List.map_eq_nil_iff]
    cases line.drop 8 with
    | nil => simp
    | cons ch rest => simp [List.takeWhile_cons]
  rw [scanStatusCode, lowered]
  dsimp only
  rw [digits]
  exact if_congr start rfl rfl

theorem strncasecmp_status {line : List UInt8} (nulFree : 0 ∉ line) :
    strncasecmp line (octets "HTTP/1.1") 8 = true ↔ StatusLine line := by
  rw [strncasecmp, decide_eq_true_eq, cString_of_nulFree nulFree]
  rfl

end Hpack

end HeapHttpd
