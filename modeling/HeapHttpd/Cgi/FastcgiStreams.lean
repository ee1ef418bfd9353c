import HeapHttpd.Cgi.Fastcgi
import Mathlib.Data.List.Perm.Basic

/-!
# Records that are read back

A request is read back from what `fastcgi` sends as long as a single record can hold
its body, or its parameters.
-/

namespace HeapHttpd

namespace Cgi

open Wire

/-! ## Records -/

theorem length_of_readContent {type : UInt8} {requestId contentLength padding : Nat}
    {text rest : List UInt8} {record : Record}
    (found : readContent type requestId contentLength padding text = some (record, rest)) :
    record.content.length = contentLength ∧ record.padding.length = padding ∧
      contentLength + padding + rest.length = text.length := by
  unfold readContent at found
  split at found
  case h_1 => cases found
  case h_2 content behind contents =>
    split at found
    case h_1 => cases found
    case h_2 paddingData left paddings =>
      cases found
      have contentFits := length_of_split contents
      have paddingFits := length_of_split paddings
      exact ⟨contentFits.1, paddingFits.1, by omega⟩

theorem size_of_readRecord {text rest : List UInt8} {record : Record}
    (found : readRecord text = some (record, rest)) :
    record.size + rest.length = text.length := by
  unfold readRecord at found
  split at found
  case h_2 => cases found
  case h_1 =>
    split at found
    case isFalse => cases found
    case isTrue =>
      have lengths := length_of_readContent found
      simp only [Record.size, List.length_cons]
      omega

theorem write_two (value : Nat) :
    write 2 value = [UInt8.ofNat (value / 256), UInt8.ofNat value] :=
  rfl

theorem length_fcgiHeader (type : UInt8) (requestId : UInt16) (contentLength padding : Nat) :
    (fcgiHeader type requestId contentLength padding).length = 8 := by
  simp [fcgiHeader]

theorem readRecord_fcgiHeader (type : UInt8) (requestId : UInt16) {contentLength padding : Nat}
    (fits : contentLength < 2 ^ 16) (few : padding < 2 ^ 8) (rest : List UInt8) :
    readRecord (fcgiHeader type requestId contentLength padding ++ rest) =
      readContent type requestId.toNat contentLength padding rest := by
  have id : read (write 2 requestId.toNat) = requestId.toNat := by
    rw [read_write]
    exact Nat.mod_eq_of_lt requestId.toNat_lt
  have length : read (write 2 contentLength) = contentLength := by
    rw [read_write]
    exact Nat.mod_eq_of_lt fits
  have count : (UInt8.ofNat padding).toNat = padding := by
    rw [UInt8.toNat_ofNat']
    exact Nat.mod_eq_of_lt few
  rw [write_two] at id length
  simp only [fcgiHeader, write_two, List.cons_append, List.nil_append, readRecord, if_true, id,
    length, count]

/-- The octets of a record. -/
def recordOctets (requestId : UInt16) (record : Record) : List UInt8 :=
  fcgiHeader record.type requestId record.content.length record.padding.length ++
    record.content ++ record.padding

/-- A record of a request whose lengths have room in the header. -/
structure Record.Fits (requestId : UInt16) (record : Record) : Prop where
  requestId : record.requestId = requestId.toNat
  content : record.content.length < 2 ^ 16
  padding : record.padding.length < 2 ^ 8

theorem readRecord_recordOctets {requestId : UInt16} {record : Record}
    (fits : record.Fits requestId) (rest : List UInt8) :
    readRecord (recordOctets requestId record ++ rest) = some (record, rest) := by
  obtain ⟨type, id, content, padding⟩ := record
  obtain ⟨rfl, contentFits, paddingFits⟩ := fits
  rw [recordOctets, List.append_assoc, List.append_assoc,
    readRecord_fcgiHeader type requestId contentFits paddingFits, readContent, split_append rfl]
  simp only
  rw [split_append rfl]

/-- Records with room for their lengths are read back. -/
theorem readAll_recordOctets {requestId : UInt16} {records : List Record}
    (fit : ∀ record ∈ records, record.Fits requestId) :
    readAll readRecord (records.flatMap (recordOctets requestId)) = some records := by
  refine readAll_flatMap (fun record member => readRecord_recordOctets (fit record member)) ?_
  intro record _ nothing
  have noOctets := congrArg List.length nothing
  simp [recordOctets, length_fcgiHeader] at noOctets

theorem paddingLength_lt (contentLength : Nat) : paddingLength contentLength < 8 :=
  Nat.mod_lt _ (by decide)

theorem contentLength16bit_eq {length : Nat} (fits : length ≤ 0xffff) :
    contentLength16bit length = length := by
  rw [contentLength16bit, if_neg (Nat.not_lt.mpr fits)]

theorem contentLength16bit_lt (length : Nat) : contentLength16bit length < 2 ^ 16 := by
  unfold contentLength16bit
  split <;> omega

/-- The octets of a record in which the length is capped. -/
def capped (type : UInt8) (requestId : UInt16) (contentLength : Nat) (content : List UInt8) :
    List UInt8 :=
  let contentLength := contentLength16bit contentLength
  fcgiHeader type requestId contentLength (paddingLength contentLength) ++ content ++
    List.replicate (paddingLength contentLength) 0

/-- The record that is meant. -/
def meant (type : UInt8) (requestId : UInt16) (content : List UInt8) : Record :=
  ⟨type, requestId.toNat, content, List.replicate (paddingLength content.length) 0⟩

theorem fits_meant (type : UInt8) (requestId : UInt16) {content : List UInt8}
    (fits : content.length ≤ 0xffff) : (meant type requestId content).Fits requestId := by
  have few := paddingLength_lt content.length
  exact ⟨rfl, Nat.lt_succ_of_le fits, by simp only [meant, List.length_replicate]; omega⟩

theorem capped_eq (type : UInt8) (requestId : UInt16) {content : List UInt8}
    (fits : content.length ≤ 0xffff) :
    capped type requestId content.length content =
      recordOctets requestId (meant type requestId content) := by
  simp only [capped, contentLength16bit_eq fits, recordOctets, meant, List.length_replicate]

/-- The octets in the content of records are some of the octets of the records. -/
theorem length_content_le (records : List Record) :
    8 * records.length + (records.flatMap Record.content).length ≤ total Record.size records := by
  induction records with
  | nil => simp
  | cons record records ih =>
      simp only [List.length_cons, List.flatMap_cons, List.length_append, total_cons, Record.size]
      omega

/-- The first record has the length that the header says, and there is no room for the
header of a record that was not sent. -/
theorem records_of_capped {type : UInt8} {requestId : UInt16} {contentLength : Nat}
    {content rest : List UInt8} {records : List Record}
    (back : readAll readRecord (capped type requestId contentLength content ++ rest) =
      some records) :
    (∃ first others, records = first :: others ∧
      first.content.length = contentLength16bit contentLength) ∧
    8 * records.length + (records.flatMap Record.content).length ≤
      15 + content.length + rest.length := by
  have few := paddingLength_lt (contentLength16bit contentLength)
  constructor
  · have nonempty : capped type requestId contentLength content ++ rest ≠ [] := by
      intro nothing
      have noOctets := congrArg List.length nothing
      simp [capped, length_fcgiHeader] at noOctets
    obtain ⟨first, left, others, one, rfl⟩ := head_of_readAll nonempty back
    refine ⟨first, others, rfl, ?_⟩
    simp only [capped, List.append_assoc] at one
    rw [readRecord_fcgiHeader type requestId (contentLength16bit_lt _) (by omega)] at one
    exact (length_of_readContent one).1
  · have room := @total_le_of_readAll _ _ readRecord Record.size
      (fun _ _ _ found => (size_of_readRecord found).le) _ _ back
    have contents := length_content_le records
    simp only [capped, List.length_append, length_fcgiHeader, List.length_replicate] at room
    omega

/-! ## The body -/

/-- The record that ends a body. -/
def emptyRecord (requestId : UInt16) : Record :=
  ⟨RecordType.stdin, requestId.toNat, [], []⟩

/-- A body comes through: it is what the records hold up to an empty one. -/
def BodyComesThrough (requestId : UInt16) (body sent : List UInt8) : Prop :=
  ∃ records, readAll readRecord sent = some (records ++ [emptyRecord requestId]) ∧
    (∀ record ∈ records, record.type = RecordType.stdin ∧
      record.requestId = requestId.toNat ∧ record.content ≠ []) ∧
    records.flatMap Record.content = body

theorem sendBody_eq (requestId : UInt16) {body : List UInt8} (positive : 0 < body.length) :
    sendBody requestId body = capped RecordType.stdin requestId body.length body ++
      recordOctets requestId (emptyRecord requestId) := by
  rw [sendBody, if_pos positive]
  simp [sendRequestData, sendEmptyRequestData, capped, recordOctets, emptyRecord]

theorem length_le_of_bodyComesThrough {requestId : UInt16} {body : List UInt8}
    (through : BodyComesThrough requestId body (sendBody requestId body)) :
    body.length ≤ 0xffff := by
  obtain ⟨records, back, own, whole⟩ := through
  by_contra tooLong
  have cap : contentLength16bit body.length = 0xffff := by
    rw [contentLength16bit, if_pos (by omega)]
  rw [sendBody_eq requestId (by omega)] at back
  obtain ⟨⟨first, others, split, firstLength⟩, room⟩ := records_of_capped back
  have contents : ((records ++ [emptyRecord requestId]).flatMap Record.content).length =
      body.length := by
    rw [List.flatMap_append, whole]
    simp [emptyRecord]
  have emptyLength : (recordOctets requestId (emptyRecord requestId)).length = 8 := by
    simp [recordOctets, emptyRecord, length_fcgiHeader]
  rw [contents, emptyLength, List.length_append, List.length_singleton] at room
  rcases records with _ | ⟨record, _ | ⟨second, records⟩⟩
  · have nothing := congrArg List.length whole
    simp at nothing
    omega
  · rw [List.cons_append, List.cons.injEq] at split
    have single := congrArg List.length whole
    rw [List.flatMap_cons, List.flatMap_nil, List.append_nil, split.1, firstLength] at single
    omega
  · simp only [List.length_cons] at room
    omega

theorem bodyComesThrough_of_le (requestId : UInt16) {body : List UInt8}
    (fits : body.length ≤ 0xffff) :
    BodyComesThrough requestId body (sendBody requestId body) := by
  have fitsEmpty : (emptyRecord requestId).Fits requestId :=
    ⟨rfl, by simp [emptyRecord], by simp [emptyRecord]⟩
  by_cases positive : 0 < body.length
  · refine ⟨[meant RecordType.stdin requestId body], ?_, ?_, by simp [meant]⟩
    · rw [sendBody_eq requestId positive, capped_eq RecordType.stdin requestId fits]
      have back := @readAll_recordOctets requestId
        [meant RecordType.stdin requestId body, emptyRecord requestId] (by
          intro record member
          rcases List.mem_pair.mp member with rfl | rfl
          · exact fits_meant RecordType.stdin requestId fits
          · exact fitsEmpty)
      simpa using back
    · intro record member
      rw [List.mem_singleton] at member
      subst member
      exact ⟨rfl, rfl, List.ne_nil_of_length_pos positive⟩
  · have nothing : body = [] := List.eq_nil_of_length_eq_zero (by omega)
    subst nothing
    refine ⟨[], ?_, by simp, rfl⟩
    have back := @readAll_recordOctets requestId [emptyRecord requestId] (by simpa using fitsEmpty)
    simpa [sendBody, sendEmptyRequestData, recordOctets, emptyRecord] using back

/-- A body comes through exactly if a single record can hold it. -/
theorem bodyComesThrough_iff (requestId : UInt16) (body : List UInt8) :
    BodyComesThrough requestId body (sendBody requestId body) ↔ body.length ≤ 0xffff :=
  ⟨length_le_of_bodyComesThrough, bodyComesThrough_of_le requestId⟩

/-- A body of 64 KiB goes out whole behind a length of an octet less. -/
theorem not_bodyComesThrough :
    ¬BodyComesThrough 1 (List.replicate 65536 0x61) (sendBody 1 (List.replicate 65536 0x61)) := by
  intro through
  have fits := length_le_of_bodyComesThrough through
  rw [List.length_replicate] at fits
  omega

/-! ## The parameters -/

/-- The parameters of a request, in the order of the map. -/
structure Params where
  entries : List (List UInt8 × List UInt8)
  distinct : (entries.map Prod.fst).Nodup
  named : ∀ entry ∈ entries, 0 < entry.1.length ∧ entry.1.length < 2 ^ 31
  valued : ∀ entry ∈ entries, 0 < entry.2.length ∧ entry.2.length < 2 ^ 31

/-- Parameters come through: they are what records with whole multiples of 8 octets hold. -/
def ParamsComeThrough (requestId : UInt16) (params : Params) (sent : List UInt8) : Prop :=
  ∃ records, readAll readRecord sent = some records ∧
    (∀ record ∈ records, record.type = RecordType.params ∧
      record.requestId = requestId.toNat ∧ 8 ∣ record.size) ∧
    ∃ entries, readAll readPair (records.flatMap Record.content) = some entries ∧
      entries.Perm params.entries

/-- A length as it is written where it is not 128. -/
def lengthOctets (length : Nat) : List UInt8 :=
  if length < 0x80 then [UInt8.ofNat length] else longLength length

theorem readLength_lengthOctets {length : Nat} (small : length < 2 ^ 31) (rest : List UInt8) :
    readLength (lengthOctets length ++ rest) = some (length, rest) := by
  unfold lengthOctets
  by_cases short : length < 0x80
  · rw [if_pos short]
    have isShort : UInt8.ofNat length < 0x80 := by
      rw [UInt8.lt_iff_toNat_lt, UInt8.toNat_ofNat', Nat.mod_eq_of_lt (by omega)]
      exact short
    have same : (UInt8.ofNat length).toNat = length := by
      rw [UInt8.toNat_ofNat', Nat.mod_eq_of_lt (by omega)]
    simp [readLength, isShort, same]
  · rw [if_neg short]
    have high : ∀ octet : UInt8, octet < 0x80 →
        ¬(octet ||| 0x80) < 0x80 ∧ (octet ||| 0x80) &&& 0x7f = octet :=
      General.forall_octet (by decide +kernel)
    have top : (UInt8.ofNat (length / 2 ^ 24)).toNat = length / 2 ^ 24 := by
      rw [UInt8.toNat_ofNat', Nat.mod_eq_of_lt (by omega)]
    have isLow : UInt8.ofNat (length / 2 ^ 24) < 0x80 := by
      rw [UInt8.lt_iff_toNat_lt, top]
      exact Nat.div_lt_of_lt_mul small
    obtain ⟨isHigh, back⟩ := high _ isLow
    have low : ∀ value, (UInt8.ofNat value).toNat = value % 256 := by simp
    simp only [longLength, write, List.nil_append, List.cons_append, readLength, if_neg isHigh,
      back, Wire.read, List.foldl_cons, List.foldl_nil, top, low]
    congr 2
    omega

theorem param_eq {name value : List UInt8} (named : 0 < name.length)
    (valued : 0 < value.length) :
    param name value =
      if name.length = 0x80 ∨ value.length = 0x80 then []
      else lengthOctets name.length ++ lengthOctets value.length ++ name ++ value := by
  unfold param lengthOctets
  rw [if_pos ⟨named, valued⟩]
  split_ifs <;> first | omega | simp

theorem length_param (name value : List UInt8) :
    (param name value).length = paramLength name.length value.length := by
  unfold param paramLength
  split_ifs <;> simp [longLength] <;> omega

theorem readPair_lengthOctets {name value : List UInt8} (named : name.length < 2 ^ 31)
    (valued : value.length < 2 ^ 31) (rest : List UInt8) :
    readPair (lengthOctets name.length ++ lengthOctets value.length ++ name ++ value ++ rest) =
      some ((name, value), rest) := by
  simp only [List.append_assoc, readPair]
  rw [readLength_lengthOctets named]
  simp only
  rw [readLength_lengthOctets valued]
  simp only
  rw [split_append rfl]
  simp only
  rw [split_append rfl]

/-- A length takes up an octet, and from 128 on at least four. -/
theorem length_of_readLength {text rest : List UInt8} {length : Nat}
    (found : readLength text = some (length, rest)) :
    (if length < 0x80 then 1 else 4) + rest.length ≤ text.length := by
  unfold readLength at found
  split at found
  case h_1 => cases found
  case h_2 first behind =>
    split at found
    case isTrue short =>
      cases found
      have short : first.toNat < 0x80 := UInt8.lt_iff_toNat_lt.mp short
      rw [if_pos short, List.length_cons]
      omega
    case isFalse =>
      split at found
      case h_2 => cases found
      case h_1 =>
        cases found
        simp only [List.length_cons]
        split <;> omega

/-- A pair that is read takes up what a parameter would that is sent. -/
theorem paramLength_of_readPair {text rest : List UInt8} {pair : List UInt8 × List UInt8}
    (found : readPair text = some (pair, rest)) :
    paramLength pair.1.length pair.2.length + rest.length ≤ text.length := by
  unfold readPair at found
  split at found
  case h_1 => cases found
  case h_2 nameLength behindName nameFound =>
    split at found
    case h_1 => cases found
    case h_2 valueLength behindValue valueFound =>
      split at found
      case h_1 => cases found
      case h_2 name behind names =>
        split at found
        case h_1 => cases found
        case h_2 value left values =>
          cases found
          have first := length_of_readLength nameFound
          have second := length_of_readLength valueFound
          have third := length_of_split names
          have fourth := length_of_split values
          simp only
          rw [third.1, fourth.1]
          unfold paramLength
          split_ifs at * <;> omega

/-- The parameters of which something is sent. -/
def sentEntries (entries : List (List UInt8 × List UInt8)) : List (List UInt8 × List UInt8) :=
  entries.filter fun entry => decide (entry.1.length ≠ 0x80 ∧ entry.2.length ≠ 0x80)

namespace Params

variable (params : Params)

/-- The content that is sent. -/
def content : List UInt8 :=
  params.entries.flatMap fun entry => param entry.1 entry.2

theorem length_content : params.content.length = paramsLength params.entries := by
  rw [content, length_flatMap_eq, paramsLength]
  congr 1
  funext entry
  exact length_param entry.1 entry.2

theorem sendParams_eq (requestId : UInt16) :
    sendParams requestId params.entries =
      capped RecordType.params requestId params.content.length params.content := by
  rw [length_content]
  rfl

theorem content_eq : params.content = (sentEntries params.entries).flatMap fun entry =>
    lengthOctets entry.1.length ++ lengthOctets entry.2.length ++ entry.1 ++ entry.2 := by
  have each : ∀ entries : List (List UInt8 × List UInt8), (∀ entry ∈ entries,
      0 < entry.1.length ∧ 0 < entry.2.length) →
      (entries.flatMap fun entry => param entry.1 entry.2) =
        (sentEntries entries).flatMap fun entry =>
          lengthOctets entry.1.length ++ lengthOctets entry.2.length ++ entry.1 ++ entry.2 := by
    intro entries positive
    induction entries with
    | nil => rfl
    | cons entry entries ih =>
        have first := positive entry List.mem_cons_self
        have later := ih fun other member => positive other (List.mem_cons_of_mem _ member)
        unfold sentEntries at later ⊢
        rw [List.flatMap_cons, param_eq first.1 first.2, later]
        by_cases skipped : entry.1.length = 0x80 ∨ entry.2.length = 0x80
        · rw [if_pos skipped, List.filter_cons_of_neg (by simp; omega)]
          rfl
        · rw [if_neg skipped, List.filter_cons_of_pos (by simp; omega), List.flatMap_cons]
  exact each params.entries fun entry member =>
    ⟨(params.named entry member).1, (params.valued entry member).1⟩

/-- The parameters of which something is sent are read back. -/
theorem readAll_content :
    readAll readPair params.content = some (sentEntries params.entries) := by
  rw [content_eq]
  refine readAll_flatMap (fun entry member rest => ?_) fun entry _ nothing => ?_
  · have isEntry := (List.mem_filter.mp member).1
    exact readPair_lengthOctets (params.named entry isEntry).2 (params.valued entry isEntry).2 rest
  · have noOctets := congrArg List.length nothing
    have positive : 0 < (lengthOctets entry.1.length).length := by
      unfold lengthOctets
      split <;> simp [longLength]
    simp only [List.length_append, List.length_nil] at noOctets
    omega

end Params

theorem paramsLength_of_comeThrough {requestId : UInt16} {params : Params}
    (through : ParamsComeThrough requestId params (sendParams requestId params.entries)) :
    paramsLength params.entries ≤ 0xffff := by
  obtain ⟨records, back, own, entries, read, perm⟩ := through
  by_contra tooLong
  rw [params.sendParams_eq, ← List.append_nil (capped _ _ _ _)] at back
  obtain ⟨⟨first, others, rfl, firstLength⟩, room⟩ := records_of_capped back
  -- what is read back is no shorter than what is sent
  have needed := total_le_of_readAll (fun _ _ _ found => paramLength_of_readPair found) read
  rw [total_perm _ perm] at needed
  have needed : paramsLength params.entries ≤
      ((first :: others).flatMap Record.content).length := needed
  rw [params.length_content, List.length_nil, List.length_cons] at room
  have single : others = [] := List.eq_nil_of_length_eq_zero (by omega)
  subst single
  have cap : contentLength16bit params.content.length = 0xffff := by
    rw [params.length_content, contentLength16bit, if_pos (by omega)]
  rw [List.flatMap_cons, List.flatMap_nil, List.append_nil, firstLength, cap] at needed
  omega

theorem readAll_sendParams (requestId : UInt16) {params : Params}
    (fits : paramsLength params.entries ≤ 0xffff) :
    readAll readRecord (sendParams requestId params.entries) =
      some [meant RecordType.params requestId params.content] := by
  have fits : params.content.length ≤ 0xffff := by rwa [params.length_content]
  rw [params.sendParams_eq, capped_eq RecordType.params requestId fits]
  have back := @readAll_recordOctets requestId [meant RecordType.params requestId params.content]
    (by simpa using fits_meant RecordType.params requestId fits)
  simpa using back

theorem paramsComeThrough_of_fits (requestId : UInt16) {params : Params}
    (whole : ∀ entry ∈ params.entries, entry.1.length ≠ 0x80 ∧ entry.2.length ≠ 0x80)
    (fits : paramsLength params.entries ≤ 0xffff) :
    ParamsComeThrough requestId params (sendParams requestId params.entries) := by
  have allSent : sentEntries params.entries = params.entries :=
    List.filter_eq_self.mpr fun entry member => by simpa using whole entry member
  refine ⟨_, readAll_sendParams requestId fits, ?_, params.entries, ?_, List.Perm.refl _⟩
  · intro record member
    rw [List.mem_singleton] at member
    subst member
    refine ⟨rfl, rfl, ?_⟩
    simp only [meant, Record.size, List.length_replicate, paddingLength]
    omega
  · have back := params.readAll_content
    rw [allSent] at back
    simpa [meant] using back

theorem lengths_of_comeThrough {requestId : UInt16} {params : Params}
    (through : ParamsComeThrough requestId params (sendParams requestId params.entries)) :
    ∀ entry ∈ params.entries, entry.1.length ≠ 0x80 ∧ entry.2.length ≠ 0x80 := by
  have fits := paramsLength_of_comeThrough through
  obtain ⟨records, back, own, entries, read, perm⟩ := through
  rw [readAll_sendParams requestId fits] at back
  cases back
  have content : [meant RecordType.params requestId params.content].flatMap Record.content =
      params.content := by
    simp [meant]
  rw [content, params.readAll_content] at read
  cases read
  have allSent := List.length_filter_eq_length_iff.mp perm.length_eq
  intro entry member
  simpa using allSent entry member

/-- Parameters come through exactly if none of them has a name or a value of 128 octets, and
a single record can hold them. -/
theorem paramsComeThrough_iff (requestId : UInt16) (params : Params) :
    ParamsComeThrough requestId params (sendParams requestId params.entries) ↔
      (∀ entry ∈ params.entries, entry.1.length ≠ 0x80 ∧ entry.2.length ≠ 0x80) ∧
        paramsLength params.entries ≤ 0xffff :=
  ⟨fun through => ⟨lengths_of_comeThrough through, paramsLength_of_comeThrough through⟩,
    fun holds => paramsComeThrough_of_fits requestId holds.1 holds.2⟩

theorem length_longValue : 0 < (List.replicate 128 (0x62 : UInt8)).length ∧
    (List.replicate 128 (0x62 : UInt8)).length < 2 ^ 31 := by
  rw [List.length_replicate]
  decide

/-- A parameter with a value of 128 octets, which is left out. -/
theorem not_paramsComeThrough :
    ¬ParamsComeThrough 1
      ⟨[([0x61], List.replicate 128 0x62)], by decide,
        List.forall_mem_singleton.mpr (by decide), List.forall_mem_singleton.mpr length_longValue⟩
      (sendParams 1 [([0x61], List.replicate 128 0x62)]) := by
  intro through
  have lengths := lengths_of_comeThrough through _ List.mem_cons_self
  simp at lengths

end Cgi

end HeapHttpd
