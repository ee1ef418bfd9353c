import HeapHttpd.Tunneling.CacheAdmission

/-!
# Which responses may be cached

What the cache must not hold, and the headers for which the source keeps to it whatever
the order of their fields.
-/

namespace HeapHttpd

namespace Tunneling

open General
open Http1 (contains)

variable {setting : Setting}

/-- A line with a content length that the cache takes. -/
def fitsCache (setting : Setting) (strtext : List UInt8) : Bool :=
  decide (0 < declaredLength setting strtext) &&
    decide (declaredLength setting strtext ≤ setting.singleTunnelingCacheSize)

theorem useCache_of_clears {lines : List (List UInt8)} {last : List UInt8}
    (clears : clearsCache setting (seen last) = true) :
    (readHeader setting (lines ++ [last])).useCache = false := by
  rw [(decides_readHeader setting lines last).useCache, clears, Bool.true_or]
  rfl

theorem contentLength_concat (lines : List (List UInt8)) (last : List UInt8) :
    (readHeader setting (lines ++ [last])).contentLength =
      if lineKind (seen last) = .contentLength then declaredLength setting (seen last)
      else (readHeader setting lines).contentLength := by
  rw [readHeader_concat, HeaderInfo.contentLength_parseField]

theorem HeaderField.nameKind_cacheControl (field : HeaderField) :
    field.nameKind = .cacheControl ↔ field.IsNamed "Cache-Control" := by
  constructor
  · intro kind
    by_contra other
    refine absurd kind ?_
    rw [nameKind]
    refine LineKind.ite_ne (by decide) (LineKind.ite_ne (by decide) ?_)
    rw [if_neg other]
    repeat refine LineKind.ite_ne (by decide) ?_
    decide
  · intro named
    have notLength : ¬ field.IsNamed "Content-Length" := by
      rw [IsNamed, named]
      decide
    have notEncoding : ¬ field.IsNamed "Transfer-Encoding" := by
      rw [IsNamed, named]
      decide
    rw [nameKind, if_neg notLength, if_neg notEncoding, if_pos named]

theorem HeaderField.nameKind_ne_status (field : HeaderField) : field.nameKind ≠ .status := by
  rw [nameKind]
  repeat refine LineKind.ite_ne (by decide) ?_
  decide

namespace ResponseHeader

/-- The header with other fields. -/
def withFields (header : ResponseHeader) (fields : List HeaderField) : ResponseHeader :=
  { header with fields }

/-- Whether the header, when it comes alone and can be sent, is admitted to the cache. -/
def admitted (setting : Setting) (header : ResponseHeader) : Bool :=
  decide (header.text.length ≤ 64 * 1024) && (readHeader setting header.lines).admits setting

/-- What the cache may hold: no field forbids it, the status is 200, and there are no
chunks. -/
structure Clean (header : ResponseHeader) : Prop where
  permitted : ∀ field ∈ header.fields, field.IsNamed "Cache-Control" →
    forbidsCache (field.value.map loch) = false
  ok : header.status.code = octets "200"
  unchunked : ∀ field ∈ header.fields, field.IsNamed "Transfer-Encoding" →
    contains (field.value.map loch) (octets "chunked") = false

/-- A header that is admitted with its fields in some order. -/
structure Candidate (setting : Setting) (header : ResponseHeader) : Prop where
  enabled : setting.enableHttpTunnelingCache = true
  ok : isOk (seen header.status.text) = true
  unchunked : ∀ field ∈ header.fields, announcesChunks (seen field.text) = false
  inScope : ∀ field ∈ header.fields, field.nameKind ≠ .other
  ages : ∀ field ∈ header.fields, ∀ age ∈ givenAge setting (seen field.text), 0 < age
  allowed : ∃ field ∈ header.fields, allowsCache setting (seen field.text) = true
  eligible : ∃ field ∈ header.fields, field.nameKind = .contentLength ∧
    fitsCache setting (seen field.text) = true

/-- A header of which no order of the fields matters: no field takes the response out
of the cache, and every content length is one that the cache takes. -/
structure Settled (setting : Setting) (header : ResponseHeader) : Prop where
  keeps : ∀ field ∈ header.fields, clearsCache setting (seen field.text) = false
  fits : ∀ field ∈ header.fields, field.nameKind = .contentLength →
    fitsCache setting (seen field.text) = true

theorem Candidate.perm {header : ResponseHeader} {fields : List HeaderField}
    (candidate : header.Candidate setting) (same : ∀ field, field ∈ fields ↔ field ∈ header.fields) :
    (header.withFields fields).Candidate setting where
  enabled := candidate.enabled
  ok := candidate.ok
  unchunked field member := candidate.unchunked field ((same field).mp member)
  inScope field member := candidate.inScope field ((same field).mp member)
  ages field member := candidate.ages field ((same field).mp member)
  allowed := by
    obtain ⟨field, member, allows⟩ := candidate.allowed
    exact ⟨field, (same field).mpr member, allows⟩
  eligible := by
    obtain ⟨field, member, fits⟩ := candidate.eligible
    exact ⟨field, (same field).mpr member, fits⟩

theorem status_silent (setting : Setting) (status : StatusLine) :
    givenAge setting (seen status.text) = none ∧
      announcesChunks (seen status.text) = false ∧
      clearsCache setting (seen status.text) = false := by
  have kind := status.lineKind_text
  refine ⟨?_, ?_, ?_⟩
  · rw [givenAge, kind]
  · simp [announcesChunks, kind]
  · simp [clearsCache, kind]

/-- The members of a candidate that no order of the fields changes. -/
theorem Candidate.members {header : ResponseHeader} (candidate : header.Candidate setting) :
    (readHeader setting header.lines).outOfCacheHeaderScope = false ∧
      0 < (readHeader setting header.lines).cacheMaxAge ∧
      ∀ line ∈ header.lines, announcesChunks (seen line) = false := by
  have silent := status_silent setting header.status
  refine ⟨?_, ?_, ?_⟩
  · rw [scope_readHeader, lines, List.any_eq_false]
    intro line member
    rcases List.mem_cons.mp member with rfl | inFields
    · simp [header.status.lineKind_text]
    · obtain ⟨field, isField, rfl⟩ := List.mem_map.mp inFields
      simpa [field.lineKind_text] using candidate.inScope field isField
  · rw [age_readHeader, lines]
    intro line member
    rcases List.mem_cons.mp member with rfl | inFields
    · intro age isGiven
      rw [silent.1] at isGiven
      cases isGiven
    · obtain ⟨field, isField, rfl⟩ := List.mem_map.mp inFields
      exact candidate.ages field isField
  · intro line member
    rcases List.mem_cons.mp member with rfl | inFields
    · exact silent.2.1
    · obtain ⟨field, isField, rfl⟩ := List.mem_map.mp inFields
      exact candidate.unchunked field isField

theorem admits_iff (header : ResponseHeader) :
    (readHeader setting header.lines).admits setting = true ↔
      setting.enableHttpTunnelingCache = true ∧
        (readHeader setting header.lines).outOfCacheHeaderScope = false ∧
        (readHeader setting header.lines).useCache = true ∧
        0 < (readHeader setting header.lines).contentLength ∧
        (readHeader setting header.lines).contentLength ≤ setting.singleTunnelingCacheSize :=
  admits_iff_members _ (hasContentLength_readHeader setting header.lines)

theorem contentLength_lines (header : ResponseHeader) :
    (readHeader setting header.lines).contentLength =
      ((header.fields.filter fun field => field.nameKind = .contentLength).getLast?.map
        fun field => declaredLength setting (seen field.text)).getD (-1) := by
  rw [contentLength_readHeader, header.filter_lines .contentLength (by decide), List.getLast?_map,
    Option.map_map]
  rfl

/-- What is admitted is a candidate. -/
theorem candidate_of_admits {header : ResponseHeader}
    (admits : (readHeader setting header.lines).admits setting = true) :
    header.Candidate setting := by
  obtain ⟨enabled, scope, use, positive, small⟩ := header.admits_iff.mp admits
  obtain ⟨⟨line, member, allows⟩, age, ok, unchunked⟩ := of_useCache use
  have silent := status_silent setting header.status
  have inFields (line : List UInt8) (member : line ∈ header.lines)
      (other : line ≠ header.status.text) : ∃ field ∈ header.fields, line = field.text := by
    rcases List.mem_cons.mp member with isStatus | inFields
    · exact absurd isStatus other
    · obtain ⟨field, isField, rfl⟩ := List.mem_map.mp inFields
      exact ⟨field, isField, rfl⟩
  have isLine (field : HeaderField) (isField : field ∈ header.fields) :
      field.text ∈ header.lines :=
    List.mem_cons_of_mem _ (List.mem_map_of_mem isField)
  constructor
  case enabled => exact enabled
  case ok =>
    rw [is200Ok_readHeader, List.any_eq_true] at ok
    obtain ⟨status, isMember, isOk'⟩ := ok
    rcases List.mem_cons.mp isMember with rfl | other
    · exact isOk'
    · obtain ⟨field, isField, rfl⟩ := List.mem_map.mp other
      simp only [isOk, Bool.and_eq_true, decide_eq_true_iff, field.lineKind_text] at isOk'
      exact absurd isOk'.1 field.nameKind_ne_status
  case unchunked =>
    intro field isField
    rw [isChunked_readHeader, List.any_eq_false] at unchunked
    exact Bool.eq_false_iff.mpr (unchunked _ (isLine field isField))
  case inScope =>
    intro field isField
    rw [scope_readHeader, List.any_eq_false] at scope
    simpa [field.lineKind_text] using scope _ (isLine field isField)
  case ages =>
    intro field isField
    exact (age_readHeader setting header.lines).mp age _ (isLine field isField)
  case allowed =>
    obtain ⟨field, isField, rfl⟩ := inFields line member (by
      rintro rfl
      simp [allowsCache, silent.1] at allows)
    exact ⟨field, isField, allows⟩
  case eligible =>
    rw [contentLength_lines] at positive small
    cases last : (header.fields.filter fun field => field.nameKind = .contentLength).getLast? with
    | none =>
        rw [last] at positive
        exact absurd positive (by simp)
    | some field =>
        rw [last] at positive small
        have isMember := List.mem_filter.mp (List.mem_of_getLast? last)
        refine ⟨field, isMember.1, of_decide_eq_true isMember.2, ?_⟩
        simp only [Option.map_some, Option.getD_some] at positive small
        simp [fitsCache, positive, small]

/-- A candidate is admitted in any order if no order matters to it. -/
theorem admits_of_settled {header : ResponseHeader} (candidate : header.Candidate setting)
    (settled : header.Settled setting) :
    (readHeader setting header.lines).admits setting = true := by
  obtain ⟨scope, age, unchunked⟩ := candidate.members
  refine header.admits_iff.mpr ⟨candidate.enabled, scope, ?_, ?_⟩
  · rw [lines] at age unchunked ⊢
    refine useCache_of_allows candidate.ok ?_ ?_ age
    · intro line member
      refine ⟨?_, unchunked line (List.mem_cons_of_mem _ member)⟩
      obtain ⟨field, isField, rfl⟩ := List.mem_map.mp member
      exact settled.keeps field isField
    · obtain ⟨field, isField, allows⟩ := candidate.allowed
      exact ⟨field.text, List.mem_map_of_mem isField, allows⟩
  · rw [contentLength_lines]
    cases last : (header.fields.filter fun field => field.nameKind = .contentLength).getLast? with
    | none =>
        rw [List.getLast?_eq_none_iff, List.filter_eq_nil_iff] at last
        obtain ⟨field, isField, kind, -⟩ := candidate.eligible
        exact absurd (decide_eq_true kind) (last field isField)
    | some field =>
        have isMember := List.mem_filter.mp (List.mem_of_getLast? last)
        have fits := settled.fits field isMember.1 (of_decide_eq_true isMember.2)
        simpa [fitsCache] using fits

theorem lines_concat (header : ResponseHeader) (fields : List HeaderField) (last : HeaderField) :
    (header.withFields (fields ++ [last])).lines =
      (header.withFields fields).lines ++ [last.text] := by
  simp [lines, withFields]

/-- A candidate is admitted if its last fields are a content length that fits and a line
that allows the cache. -/
theorem admits_of_last {header : ResponseHeader} {fields : List HeaderField}
    {given allowing : HeaderField}
    (candidate : (header.withFields (fields ++ [given] ++ [allowing])).Candidate setting)
    (isLength : given.nameKind = .contentLength)
    (fits : fitsCache setting (seen given.text) = true)
    (allows : allowsCache setting (seen allowing.text) = true) :
    (readHeader setting (header.withFields (fields ++ [given] ++ [allowing])).lines).admits
      setting = true := by
  obtain ⟨scope, age, unchunked⟩ := candidate.members
  refine (admits_iff _).mpr ⟨candidate.enabled, scope, ?_, ?_⟩
  · have shape : (header.withFields (fields ++ [given] ++ [allowing])).lines =
        header.status.text ::
          ((fields ++ [given]).map HeaderField.text ++ [allowing.text]) := by
      simp [lines, withFields]
    rw [shape] at age unchunked ⊢
    exact (useCache_of_last candidate.ok unchunked age).1 allows
  · have other : lineKind (seen allowing.text) ≠ .contentLength := by
      intro kind
      simp [allowsCache, givenAge, kind] at allows
    rw [lines_concat, lines_concat, contentLength_concat, if_neg other, contentLength_concat,
      if_pos (given.lineKind_text.trans isLength)]
    simpa [fitsCache] using fits

/-- A last field that takes the response out of the cache, or a last content length that
does not fit. -/
theorem not_admits_of_last {header : ResponseHeader} {fields : List HeaderField}
    {last : HeaderField}
    (refuses : clearsCache setting (seen last.text) = true ∨
      last.nameKind = .contentLength ∧ fitsCache setting (seen last.text) = false) :
    (readHeader setting (header.withFields (fields ++ [last])).lines).admits setting = false := by
  rw [← Bool.not_eq_true, admits_iff, lines_concat]
  rintro ⟨-, -, use, positive, small⟩
  rcases refuses with clears | ⟨kind, large⟩
  · rw [useCache_of_clears clears] at use
    cases use
  · rw [contentLength_concat, if_pos (last.lineKind_text.trans kind)] at positive small
    simp [fitsCache, positive, small] at large

theorem exists_perm_last {fields : List HeaderField} {field : HeaderField}
    (member : field ∈ fields) : ∃ rest, (rest ++ [field]).Perm fields := by
  obtain ⟨front, behind, rfl⟩ := List.append_of_mem member
  refine ⟨front ++ behind, ?_⟩
  rw [List.append_assoc]
  exact List.Perm.append_left front (List.perm_append_singleton field behind)

/-- The size of a header does not depend on the order of its fields. -/
theorem length_text_perm {header : ResponseHeader} {fields : List HeaderField}
    (perm : fields.Perm header.fields) :
    (header.withFields fields).text.length = header.text.length := by
  have flat : ((header.withFields fields).lines.flatMap (· ++ crlf)).Perm
      (header.lines.flatMap (· ++ crlf)) :=
    ((perm.map HeaderField.text).cons header.status.text).flatMap_right _
  rw [text, text, headerText, headerText, List.length_append, List.length_append,
    flat.length_eq]

/-- Whether every order of the fields is decided alike. -/
theorem orderFree_iff (header : ResponseHeader) (short : header.text.length ≤ 64 * 1024) :
    (∀ fields, fields.Perm header.fields →
        (header.withFields fields).admitted setting = header.admitted setting) ↔
      (header.Candidate setting → header.Settled setting) := by
  have decided {fields : List HeaderField} (perm : fields.Perm header.fields) :
      (header.withFields fields).admitted setting =
        (readHeader setting (header.withFields fields).lines).admits setting := by
    rw [admitted, length_text_perm perm, decide_eq_true short, Bool.true_and]
  constructor
  · intro orderFree candidate
    have same {first second : List HeaderField} (perm : first.Perm header.fields)
        (perm' : second.Perm header.fields) :
        (readHeader setting (header.withFields first).lines).admits setting =
          (readHeader setting (header.withFields second).lines).admits setting := by
      rw [← decided perm, ← decided perm', orderFree first perm, orderFree second perm']
    -- Some order is admitted: a content length that fits and an allowing field come last.
    obtain ⟨allowing, isAllowing, allows⟩ := candidate.allowed
    obtain ⟨given, isGiven, kind, fits⟩ := candidate.eligible
    obtain ⟨rest, atEnd⟩ := exists_perm_last isAllowing
    have inRest : given ∈ rest := by
      rcases List.mem_append.mp (atEnd.mem_iff.mpr isGiven) with inRest | isLast
      · exact inRest
      · rw [← List.mem_singleton.mp isLast] at allows
        simp [allowsCache, givenAge, given.lineKind_text, kind] at allows
    obtain ⟨front, before⟩ := exists_perm_last inRest
    have perm : (front ++ [given] ++ [allowing]).Perm header.fields :=
      (before.append_right [allowing]).trans atEnd
    have admits := admits_of_last (candidate.perm fun field => perm.mem_iff) kind fits allows
    have refused (last : HeaderField) (member : last ∈ header.fields)
        (refuses : clearsCache setting (seen last.text) = true ∨
          last.nameKind = .contentLength ∧ fitsCache setting (seen last.text) = false) : False := by
      obtain ⟨others, perm'⟩ := exists_perm_last member
      rw [same perm perm', not_admits_of_last refuses] at admits
      cases admits
    constructor
    · intro field member
      by_contra clears
      exact refused field member (.inl (Bool.not_eq_false _ ▸ clears))
    · intro field member kind
      by_contra large
      exact refused field member (.inr ⟨kind, Bool.not_eq_true _ ▸ large⟩)
  · intro settled fields perm
    have own : header.admitted setting = (readHeader setting header.lines).admits setting := by
      rw [admitted, decide_eq_true short, Bool.true_and]
    rw [decided perm, own]
    have same (field : HeaderField) : field ∈ fields ↔ field ∈ header.fields := perm.mem_iff
    by_cases candidate : header.Candidate setting
    · have isSettled := settled candidate
      rw [admits_of_settled candidate isSettled, admits_of_settled (candidate.perm same)]
      exact ⟨fun field member => isSettled.keeps field ((same field).mp member),
        fun field member => isSettled.fits field ((same field).mp member)⟩
    · have other : ¬ (header.withFields fields).Candidate setting := fun isCandidate =>
        candidate (@Candidate.perm _ (header.withFields fields) header.fields isCandidate fun field =>
          (same field).symm)
      rw [Bool.eq_false_iff.mpr fun admits => candidate (candidate_of_admits admits),
        Bool.eq_false_iff.mpr fun admits => other (candidate_of_admits admits)]

/-- What is asked of a header: whatever is sent, whatever comes behind it and in whatever
segments, only a clean response is stored and no octet behind a value is read, and every
order of the fields is decided alike. -/
structure Cautious (setting : Setting) (header : ResponseHeader) : Prop where
  clean : ∀ sendFails httpUrl segments body, segments.flatten = header.text ++ body →
    (HttpClient.processSegments { setting with sendFails } segments (.new httpUrl)).1.stores
      { setting with sendFails } = true → header.Clean
  orderFree : ∀ fields, fields.Perm header.fields →
    (header.withFields fields).admitted setting = header.admitted setting
  inside : ∀ sendFails httpUrl segments body, segments.flatten = header.text ++ body →
    (HttpClient.processSegments { setting with sendFails } segments
      (.new httpUrl)).1.info.strayed = false

theorem readHeader_sendFails (setting : Setting) (sendFails : Nat → Bool)
    (lines : List (List UInt8)) :
    readHeader { setting with sendFails } lines = readHeader setting lines :=
  rfl

theorem strayed_iff (header : ResponseHeader) :
    (readHeader setting header.lines).strayed = false ↔
      ∀ field ∈ header.fields, field.IsNamed "Cache-Control" →
        14 ≤ (fieldValue "Cache-Control:" (seen field.text)).length := by
  rw [strayed_readHeader, List.any_eq_false, lines]
  have strays (field : HeaderField) : ¬ straysBehind (seen field.text) = true ↔
      (field.IsNamed "Cache-Control" →
        14 ≤ (fieldValue "Cache-Control:" (seen field.text)).length) := by
    simp only [straysBehind, field.lineKind_text, Bool.and_eq_true, decide_eq_true_iff,
      not_and, Nat.not_lt, field.nameKind_cacheControl]
  have status : straysBehind (seen header.status.text) = false := by
    simp [straysBehind, header.status.lineKind_text]
  constructor
  · intro none field member
    exact (strays field).mp (none _ (List.mem_cons_of_mem _ (List.mem_map_of_mem member)))
  · intro long line member
    rcases List.mem_cons.mp member with rfl | inFields
    · exact Bool.eq_false_iff.mp status
    · obtain ⟨field, isField, rfl⟩ := List.mem_map.mp inFields
      exact (strays field).mpr (long field isField)

/-- A run that stores a response that is admitted. -/
theorem exists_stores {header : ResponseHeader} (candidate : header.Candidate setting)
    (short : header.text.length ≤ 64 * 1024)
    (admits : (readHeader setting header.lines).admits setting = true) :
    ∃ sendFails httpUrl segments body, segments.flatten = header.text ++ body ∧
      (HttpClient.processSegments { setting with sendFails } segments (.new httpUrl)).1.stores
        { setting with sendFails } = true := by
  obtain ⟨-, -, -, positive, -⟩ := header.admits_iff.mp admits
  have unchunked : (readHeader setting header.lines).isChunked = false := by
    rw [isChunked_readHeader, List.any_eq_false]
    exact fun line member => Bool.eq_false_iff.mp (candidate.members.2.2 line member)
  obtain ⟨body, length⟩ : ∃ body : List UInt8,
      (readHeader setting header.lines).contentLength = body.length :=
    ⟨List.replicate (readHeader setting header.lines).contentLength.toNat 0x61, by
      rw [List.length_replicate, Int.toNat_of_nonneg positive.le]⟩
  have url : (HttpClient.new (octets "/")).httpTunnelingUrl ≠ [] := by decide
  have received : [header.text, body].flatten = header.text ++ body := by simp
  have stored := @HttpClient.stores_of_admits { setting with sendFails := fun _ => false } _ _
    (fun _ => rfl) header.isLines (by simp [lines]) short unchunked
    admits url body length
  exact ⟨fun _ => false, octets "/", _, body, received, stored⟩

end ResponseHeader

/-- The cache holds only what it may hold, whatever the order of the fields, and no octet
behind a value is read, exactly for the headers that are too long to be read and for
those whose `Cache-Control` values have 14 octets, and which, if some order of their
fields is admitted, are settled and clean. -/
theorem cautious_iff (setting : Setting) (header : ResponseHeader) :
    header.Cautious setting ↔
      64 * 1024 < header.text.length ∨
        (∀ field ∈ header.fields, field.IsNamed "Cache-Control" →
          14 ≤ (fieldValue "Cache-Control:" (seen field.text)).length) ∧
        (header.Candidate setting → header.Settled setting ∧ header.Clean) := by
  have nonempty : header.lines ≠ [] := by simp [ResponseHeader.lines]
  rw [← @ResponseHeader.strayed_iff setting header]
  by_cases short : header.text.length ≤ 64 * 1024
  · rw [or_iff_right (Nat.not_lt.mpr short)]
    constructor
    · intro cautious
      refine ⟨?_, ?_⟩
      · have alone := @HttpClient.processing_alone { setting with sendFails := fun _ => false } _ []
          (fun _ => rfl) header.isLines nonempty short
        have kept := cautious.inside (fun _ => false) [] [header.text] [] (by simp)
        rw [ResponseHeader.text, alone, HeaderInfo.settled_strayed] at kept
        exact kept
      · intro candidate
        have settled := (header.orderFree_iff short).mp cautious.orderFree candidate
        obtain ⟨sendFails, httpUrl, segments, body, received, stores⟩ :=
          ResponseHeader.exists_stores candidate short
            (ResponseHeader.admits_of_settled candidate settled)
        exact ⟨settled, cautious.clean sendFails httpUrl segments body received stores⟩
    · rintro ⟨inside, settles⟩
      constructor
      case clean =>
        intro sendFails httpUrl segments body received stores
        have allocated := HttpClient.cacheBuf_of_stores stores
        have admits := ((HttpClient.processSegments_spec header.isLines nonempty received).1
          allocated).2
        exact (settles (ResponseHeader.candidate_of_admits admits)).2
      case orderFree =>
        exact (header.orderFree_iff short).mpr fun candidate => (settles candidate).1
      case inside =>
        intro sendFails httpUrl segments body received
        by_contra strays
        have strayed := ((HttpClient.processSegments_spec header.isLines nonempty received).2
          (Bool.not_eq_false _ ▸ strays)).2
        rw [ResponseHeader.readHeader_sendFails, inside] at strayed
        cases strayed
  · refine iff_of_true ?_ (.inl (Nat.lt_of_not_le short))
    constructor
    case clean =>
      intro sendFails httpUrl segments body received stores
      have allocated := HttpClient.cacheBuf_of_stores stores
      exact absurd ((HttpClient.processSegments_spec header.isLines nonempty received).1
        allocated).1 short
    case orderFree =>
      intro fields perm
      rw [ResponseHeader.admitted, ResponseHeader.admitted,
        ResponseHeader.length_text_perm perm, decide_eq_false short]
      rfl
    case inside =>
      intro sendFails httpUrl segments body received
      by_contra strays
      exact absurd ((HttpClient.processSegments_spec header.isLines nonempty received).2
        (Bool.not_eq_false _ ▸ strays)).1 short

/-- `Cache-Control: private, max-age=60`. -/
def privatePage : HeaderField :=
  { name := octets "Cache-Control"
    value := octets " private, max-age=60"
    nameNonempty := by decide
    nameToken := by decide +kernel
    valuePlain := by decide }

/-- An `Expires` field. -/
def datedPage : HeaderField :=
  { name := octets "Expires"
    value := octets " Fri, 01 Jan 2100 00:00:00 GMT"
    nameNonempty := by decide
    nameToken := by decide +kernel
    valuePlain := by decide +kernel }

/-- The header of a private page that expires later. -/
def privateHeader : ResponseHeader :=
  { briefHeader with fields := [twoOctets, privatePage, datedPage] }

/-- The word `private` stands in front of what is looked at: the page is stored. -/
theorem not_cautious_private :
    ¬ privateHeader.Cautious { plainSetting with expiresIn := fun _ => 60 } := by
  intro cautious
  have clean := cautious.clean (fun _ => false) (octets "/") [privateHeader.text, octets "hi"]
    (octets "hi") (by simp) (by decide +kernel)
  exact absurd (clean.permitted privatePage (by simp [privateHeader]) rfl) (by decide)

end Tunneling

end HeapHttpd
