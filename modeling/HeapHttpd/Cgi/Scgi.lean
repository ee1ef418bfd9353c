import HeapHttpd.General
import HeapHttpd.Library.Decimal
import HeapHttpd.Library.Lines
import HeapHttpd.Library.OrderedMap
import HeapHttpd.Library.Outcome
import HeapHttpd.Library.Wire

/-!
# What goes to an SCGI application

The octets that `scgi` sends for a request, and the rules by which an application takes
the variables and the body from them.
-/

namespace HeapHttpd

namespace Cgi

open General
open Wire

/-! ## The rules -/

/-- A netstring: a length in decimals, a colon, so many octets and a comma. -/
def readNetstring (text : List UInt8) : Option (List UInt8 × List UInt8) :=
  let numeral := text.takeWhile Decimal.isDigit
  if numeral = Decimal.digits (Decimal.value numeral) then
    match text.dropWhile Decimal.isDigit with
    | 0x3a :: rest =>
        match split (Decimal.value numeral) rest with
        | some (content, 0x2c :: rest) => some (content, rest)
        | _ => none
    | _ => none
  else none

/-- A string with its NUL. -/
def readString (text : List UInt8) : Option (List UInt8 × List UInt8) :=
  match text.dropWhile (· ≠ 0) with
  | [] => none
  | _ :: rest => some (text.takeWhile (· ≠ 0), rest)

/-- A name, which is not empty, and a value. -/
def readHeader (text : List UInt8) : Option ((List UInt8 × List UInt8) × List UInt8) :=
  match readString text with
  | none => none
  | some (name, rest) =>
      if name = [] then none
      else
        match readString rest with
        | none => none
        | some (value, rest) => some ((name, value), rest)

/-- The variables in a netstring, and the body behind it. -/
def readScgiRequest (text : List UInt8) :
    Option (List (List UInt8 × List UInt8) × List UInt8) :=
  match readNetstring text with
  | none => none
  | some (content, body) => (readAll readHeader content).map fun headers => (headers, body)

/-! ## The code -/

/-- `INT_MAX`. -/
def intMax : Nat := 2 ^ 31 - 1

/-- The loop over a string and its NUL.  It counts in an `int`, which ends up one beyond
the NUL. -/
def pushString (text data : List UInt8) : Outcome (List UInt8) :=
  if text.length < intMax then .ok (data ++ text ++ [0]) else .fault

/-- The loop over `params_map`. -/
def pushParams : List (List UInt8 × List UInt8) → List UInt8 → Outcome (List UInt8)
  | [], data => .ok data
  | (name, value) :: paramsMap, data =>
      if name ≠ octets "CONTENT_LENGTH" ∧ value ≠ [] then
        pushString (cString name) data >>= pushString (cString value) >>= pushParams paramsMap
      else pushParams paramsMap data

/-- The loop over the body, which counts in an `int` too. -/
def pushBody (postdata : List UInt8) (postdataLen : Nat) (data : List UInt8) :
    Outcome (List UInt8) :=
  if postdataLen ≤ intMax then .ok (data ++ postdata.take postdataLen) else .fault

/-- The octets of `_Send_`, whose length is an `unsigned int`. -/
def sent (data : List UInt8) : List UInt8 :=
  data.take (data.length % 2 ^ 32)

/-- `scgi::SendParamsAndData` on a connection that takes everything: what is sent for a
body whose length is passed as an `unsigned int`. -/
def sendScgi (paramsMap : List (List UInt8 × List UInt8)) (postdata : List UInt8) :
    Outcome (List UInt8) :=
  let postdataLen := postdata.length % 2 ^ 32
  pushString (octets "CONTENT_LENGTH") [] >>= pushString (Decimal.digits postdataLen) >>=
    pushString (octets "SCGI") >>= pushString (octets "1") >>= pushParams paramsMap >>=
    fun scgiSendData =>
      let szlen := Decimal.digits (scgiSendData.length % 2 ^ 32) ++ octets ":"
      pushBody postdata postdataLen (scgiSendData ++ octets ",") >>= fun scgiSendData =>
        .ok (szlen ++ sent scgiSendData)

/-! ## Requests -/

/-- The variables of a request. -/
structure ParamsMap where
  entries : List (List UInt8 × List UInt8)
  distinct : (entries.map Prod.fst).Nodup
  nulFree : ∀ entry ∈ entries, 0 ∉ entry.1 ∧ 0 ∉ entry.2

/-- The variables that are taken from the map. -/
def ParamsMap.sentEntries (params : ParamsMap) : List (List UInt8 × List UInt8) :=
  params.entries.filter fun entry => entry.1 ≠ octets "CONTENT_LENGTH" ∧ entry.2 ≠ []

/-- The variables in front of them. -/
def required (length : Nat) : List (List UInt8 × List UInt8) :=
  [(octets "CONTENT_LENGTH", Decimal.digits length), (octets "SCGI", octets "1")]

/-- What is sent is a request with the body, in which each key occurs once: the length of
the body comes first, `SCGI` is 1, and the variables of the map that are not empty have
their values. -/
def IsScgiRequest (params : ParamsMap) (body : List UInt8) (sent : Outcome (List UInt8)) : Prop :=
  ∃ text headers, sent = .ok text ∧ readScgiRequest text = some (headers, body) ∧
    headers.head? = some (octets "CONTENT_LENGTH", Decimal.digits body.length) ∧
    (headers.map Prod.fst).Nodup ∧ (octets "SCGI", octets "1") ∈ headers ∧
    ∀ entry ∈ params.entries, entry.1 ≠ octets "CONTENT_LENGTH" → entry.2 ≠ [] →
      entry ∈ headers

/-- What a variable takes up. -/
def headerSize (entry : List UInt8 × List UInt8) : Nat :=
  entry.1.length + entry.2.length + 2

/-- The map has no variable that is called `SCGI` or has no name, except for empty ones,
and everything can be counted. -/
structure Sendable (params : ParamsMap) (body : List UInt8) : Prop where
  unreserved : ∀ entry ∈ params.sentEntries, entry.1 ≠ octets "SCGI"
  named : ∀ entry ∈ params.sentEntries, entry.1 ≠ []
  short : ∀ entry ∈ params.sentEntries, entry.1.length < intMax ∧ entry.2.length < intMax
  shortBody : body.length ≤ intMax
  whole : total headerSize (required body.length ++ params.sentEntries) + 1 + body.length < 2 ^ 32

/-! ## What is sent -/

section Sent

/-- A variable in the netstring. -/
def headerOctets (entry : List UInt8 × List UInt8) : List UInt8 :=
  entry.1 ++ 0 :: (entry.2 ++ [0])

theorem length_headerOctets (entry : List UInt8 × List UInt8) :
    (headerOctets entry).length = headerSize entry := by
  simp only [headerOctets, headerSize, List.length_append, List.length_cons, List.length_nil]
  omega

/-- What stands in the netstring. -/
def scgiContent (params : ParamsMap) (postdataLen : Nat) : List UInt8 :=
  (required postdataLen ++ params.sentEntries).flatMap headerOctets

theorem length_scgiContent (params : ParamsMap) (postdataLen : Nat) :
    (scgiContent params postdataLen).length =
      total headerSize (required postdataLen ++ params.sentEntries) := by
  rw [scgiContent, length_flatMap_eq]
  simp only [length_headerOctets]

theorem pushString_eq_ok {text data result : List UInt8} :
    pushString text data = .ok result ↔ text.length < intMax ∧ result = data ++ (text ++ [0]) := by
  rw [pushString]
  split
  · next short =>
      rw [Outcome.ok.injEq, eq_comm, List.append_assoc, and_iff_right short]
  · next long => exact iff_of_false (fun faulted => by cases faulted) fun both => long both.1

theorem pushParams_eq_ok {entries : List (List UInt8 × List UInt8)} {data result : List UInt8}
    (nulFree : ∀ entry ∈ entries, 0 ∉ entry.1 ∧ 0 ∉ entry.2) :
    pushParams entries data = .ok result ↔
      (∀ entry ∈ entries.filter fun entry =>
          entry.1 ≠ octets "CONTENT_LENGTH" ∧ entry.2 ≠ [],
        entry.1.length < intMax ∧ entry.2.length < intMax) ∧
      result = data ++ (entries.filter fun entry =>
        entry.1 ≠ octets "CONTENT_LENGTH" ∧ entry.2 ≠ []).flatMap headerOctets := by
  induction entries generalizing data with
  | nil => simp [pushParams, eq_comm]
  | cons entry entries ih =>
      obtain ⟨name, value⟩ := entry
      obtain ⟨here, later⟩ := List.forall_mem_cons.mp nulFree
      rw [pushParams]
      by_cases isSent : name ≠ octets "CONTENT_LENGTH" ∧ value ≠ []
      · rw [if_pos isSent, cString_of_nulFree here.1, cString_of_nulFree here.2,
          List.filter_cons_of_pos (by simpa using isSent), List.forall_mem_cons,
          List.flatMap_cons, headerOctets]
        simp only [Outcome.bind_eq_ok, pushString_eq_ok, ih later]
        constructor
        · rintro ⟨_, ⟨_, ⟨shortName, rfl⟩, shortValue, rfl⟩, short, rfl⟩
          refine ⟨⟨⟨shortName, shortValue⟩, short⟩, ?_⟩
          simp only [List.append_assoc, List.cons_append, List.nil_append]
        · rintro ⟨⟨⟨shortName, shortValue⟩, short⟩, rfl⟩
          refine ⟨_, ⟨_, ⟨shortName, rfl⟩, shortValue, rfl⟩, short, ?_⟩
          simp only [List.append_assoc, List.cons_append, List.nil_append]
      · rw [if_neg isSent, List.filter_cons_of_neg (by simpa using isSent)]
        exact ih later

theorem length_digits_lt (number : Nat) : (Decimal.digits (number % 2 ^ 32)).length < intMax := by
  have bounded : (Nat.toDigits 10 (number % 2 ^ 32)).length ≤ 10 := by
    rw [Nat.length_toDigits_le_iff (by decide) (by decide)]
    omega
  rw [Decimal.digits, List.length_map, intMax]
  omega

variable {params : ParamsMap} {postdata text : List UInt8}

/-- When the octets are sent, and which. -/
theorem sendScgi_eq_ok :
    sendScgi params.entries postdata = .ok text ↔
      (∀ entry ∈ params.sentEntries, entry.1.length < intMax ∧ entry.2.length < intMax) ∧
      postdata.length % 2 ^ 32 ≤ intMax ∧
      text = Decimal.digits ((scgiContent params (postdata.length % 2 ^ 32)).length % 2 ^ 32) ++
        0x3a :: sent (scgiContent params (postdata.length % 2 ^ 32) ++
          0x2c :: postdata.take (postdata.length % 2 ^ 32)) := by
  have fixed : (octets "CONTENT_LENGTH").length < intMax ∧ (octets "SCGI").length < intMax ∧
      (octets "1").length < intMax := by
    decide
  have front : pushString (octets "CONTENT_LENGTH") [] >>=
      pushString (Decimal.digits (postdata.length % 2 ^ 32)) >>= pushString (octets "SCGI") >>=
      pushString (octets "1") =
        .ok ((required (postdata.length % 2 ^ 32)).flatMap headerOctets) := by
    simp only [pushString, if_pos fixed.1, if_pos fixed.2.1, if_pos fixed.2.2,
      if_pos (length_digits_lt postdata.length), Outcome.ok_bind]
    simp only [required, headerOctets, List.flatMap_cons, List.flatMap_nil, List.append_assoc,
      List.cons_append, List.nil_append]
  have separators : octets ":" = [0x3a] ∧ octets "," = [0x2c] := by decide
  rw [sendScgi]
  dsimp only
  rw [front, Outcome.ok_bind, Outcome.bind_eq_ok]
  simp only [pushParams_eq_ok params.nulFree, pushBody, Outcome.bind_eq_ok]
  constructor
  · rintro ⟨_, ⟨short, rfl⟩, _, pushed, isText⟩
    split at pushed
    · next shortBody =>
        cases pushed
        cases isText
        refine ⟨short, shortBody, ?_⟩
        rw [scgiContent, List.flatMap_append, separators.1, separators.2, List.append_assoc,
          List.append_assoc _ [0x2c]]
        rfl
    · cases pushed
  · rintro ⟨short, shortBody, rfl⟩
    refine ⟨_, ⟨short, rfl⟩, _, if_pos shortBody, ?_⟩
    rw [scgiContent, List.flatMap_append, separators.1, separators.2, List.append_assoc,
      List.append_assoc _ [0x2c]]
    rfl

end Sent

/-! ## What is read -/

section Read

theorem readString_append {text : List UInt8} (nulFree : 0 ∉ text) (rest : List UInt8) :
    readString (text ++ 0 :: rest) = some (text, rest) := by
  rw [readString, Lines.dropWhile_until nulFree, Lines.takeWhile_until nulFree]

theorem length_of_readString {text string rest : List UInt8}
    (found : readString text = some (string, rest)) :
    string.length + 1 + rest.length = text.length := by
  have whole := congrArg List.length
    (@List.takeWhile_append_dropWhile _ (fun ch : UInt8 => decide (ch ≠ 0)) text)
  rw [List.length_append] at whole
  rw [readString] at found
  split at found
  · cases found
  · next left =>
      cases found
      rw [left, List.length_cons] at whole
      omega

theorem readHeader_headerOctets {entry : List UInt8 × List UInt8}
    (nulFree : 0 ∉ entry.1 ∧ 0 ∉ entry.2) (named : entry.1 ≠ []) (rest : List UInt8) :
    readHeader (headerOctets entry ++ rest) = some (entry, rest) := by
  rw [headerOctets, List.append_assoc, List.cons_append, List.append_assoc, readHeader,
    readString_append nulFree.1]
  dsimp only
  rw [if_neg named, List.singleton_append, readString_append nulFree.2]

theorem of_readHeader {text rest : List UInt8} {entry : List UInt8 × List UInt8}
    (found : readHeader text = some (entry, rest)) :
    entry.1 ≠ [] ∧ headerSize entry + rest.length ≤ text.length := by
  rw [readHeader] at found
  split at found
  · cases found
  · next name behind isName =>
      split at found
      · cases found
      · next named =>
          split at found
          · cases found
          · next value rest isValue =>
              cases found
              have nameLength := length_of_readString isName
              have valueLength := length_of_readString isValue
              refine ⟨named, ?_⟩
              show name.length + value.length + 2 + rest.length ≤ text.length
              omega

theorem readNetstring_digits_iff {length : Nat} {rest content body : List UInt8} :
    readNetstring (Decimal.digits length ++ 0x3a :: rest) = some (content, body) ↔
      split length rest = some (content, 0x2c :: body) := by
  have all : ∀ ch ∈ Decimal.digits length, Decimal.isDigit ch = true := fun ch member =>
    Decimal.isDigit_of_mem_digits member
  rw [readNetstring, Lines.takeWhile_stop all (by simp; decide),
    Lines.dropWhile_stop all (by simp; decide), Decimal.value_digits, if_pos rfl]
  constructor
  · intro found
    split at found
    · next behind isBehind =>
        obtain rfl := (List.cons.inj isBehind).2
        split at found
        · next isSplit =>
            cases found
            exact isSplit
        · cases found
    · cases found
  · intro isSplit
    split
    · next behind isBehind =>
        obtain rfl := (List.cons.inj isBehind).2
        rw [isSplit]
        rfl
    · next noColon => exact (noColon rest rfl).elim

variable {params : ParamsMap} {body : List UInt8}

theorem nulFree_headers (length : Nat) :
    ∀ entry ∈ required length ++ params.sentEntries, 0 ∉ entry.1 ∧ 0 ∉ entry.2 := by
  refine List.forall_mem_append.mpr ⟨?_, fun entry member =>
    params.nulFree entry (List.mem_of_mem_filter member)⟩
  refine List.forall_mem_cons.mpr
    ⟨⟨show 0 ∉ octets "CONTENT_LENGTH" by decide, fun nul => ?_⟩,
      List.forall_mem_singleton.mpr ⟨by decide, by decide⟩⟩
  have isDigit := Decimal.isDigit_of_mem_digits nul
  exact absurd isDigit (by decide)

/-- The variables that are read from a netstring with names. -/
theorem readAll_scgiContent (named : ∀ entry ∈ params.sentEntries, entry.1 ≠ []) (length : Nat) :
    readAll readHeader (scgiContent params length) =
      some (required length ++ params.sentEntries) := by
  have allNamed : ∀ entry ∈ required length ++ params.sentEntries, entry.1 ≠ [] := by
    refine List.forall_mem_append.mpr ⟨?_, named⟩
    exact List.forall_mem_cons.mpr ⟨show octets "CONTENT_LENGTH" ≠ [] by decide,
      List.forall_mem_singleton.mpr (by decide)⟩
  refine readAll_flatMap (fun entry member rest => ?_) fun entry member => ?_
  · exact readHeader_headerOctets (nulFree_headers length entry member) (allNamed entry member) rest
  · exact List.append_ne_nil_of_left_ne_nil (allNamed entry member) _

theorem named_of_readItems {fuel : Nat} {text : List UInt8}
    {headers : List (List UInt8 × List UInt8)}
    (found : readItems readHeader fuel text = some headers) : ∀ entry ∈ headers, entry.1 ≠ [] := by
  induction fuel generalizing text headers with
  | zero =>
      cases text with
      | nil =>
          cases found
          simp
      | cons first text => cases found
  | succ fuel ih =>
      cases text with
      | nil =>
          cases found
          simp
      | cons first text =>
          rw [readItems] at found
          split at found
          · cases found
          · next entry rest one =>
              obtain ⟨others, later, rfl⟩ := Option.map_eq_some_iff.mp found
              exact List.forall_mem_cons.mpr ⟨(of_readHeader one).1, ih later⟩

theorem distinct_sentEntries (params : ParamsMap) :
    (params.sentEntries.map Prod.fst).Nodup :=
  params.distinct.sublist (List.filter_sublist.map _)

end Read

/-! ## When it is a request -/

section Request

variable {params : ParamsMap} {body : List UInt8}

/-- The variables of a request are all there is room for, up to one that is called `SCGI`. -/
theorem length_scgiContent_le {content : List UInt8}
    {headers : List (List UInt8 × List UInt8)} {length : Nat}
    (short : ∀ entry ∈ params.sentEntries, entry.1.length < intMax ∧ entry.2.length < intMax)
    (found : readAll readHeader content = some headers)
    (first : headers.head? = some (octets "CONTENT_LENGTH", Decimal.digits length))
    (one : (octets "SCGI", octets "1") ∈ headers)
    (all : ∀ entry ∈ params.sentEntries, entry ∈ headers) :
    (scgiContent params length).length < content.length + 2 ^ 32 := by
  have room := total_le_of_readAll (fun _ _ _ read => (of_readHeader read).2) found
  have distinct := distinct_sentEntries params
  let isScgi : List UInt8 × List UInt8 → Bool := fun entry => entry.1 = octets "SCGI"
  have parts := total_filter headerSize isScgi params.sentEntries
  -- there is at most one such variable
  have one' : total headerSize (params.sentEntries.filter isScgi) < 2 ^ 32 := by
    rw [OrderedMap.filter_eq_find distinct]
    cases value : OrderedMap.find (octets "SCGI") params.sentEntries with
    | none => exact Nat.two_pow_pos 32
    | some value' =>
        obtain ⟨shortName, shortValue⟩ := short _ (OrderedMap.mem_of_find value)
        show headerSize (octets "SCGI", value') + 0 < 2 ^ 32
        rw [headerSize]
        dsimp only [intMax] at shortName shortValue ⊢
        omega
  have others : ((octets "CONTENT_LENGTH", Decimal.digits length) :: (octets "SCGI", octets "1") ::
      params.sentEntries.filter fun entry => !isScgi entry).Nodup := by
    refine List.Nodup.of_map Prod.fst ?_
    rw [List.map_cons, List.map_cons, List.nodup_cons, List.nodup_cons]
    refine ⟨?_, ?_, distinct.sublist (List.filter_sublist.map _)⟩
    · rw [List.mem_cons, not_or]
      refine ⟨show octets "CONTENT_LENGTH" ≠ octets "SCGI" by decide, fun member => ?_⟩
      obtain ⟨entry, isEntry, isKey⟩ := List.mem_map.mp member
      have kept := List.mem_filter.mp (List.mem_of_mem_filter isEntry)
      exact (of_decide_eq_true kept.2).1 isKey
    · intro member
      obtain ⟨entry, isEntry, isKey⟩ := List.mem_map.mp member
      have kept := (List.mem_filter.mp isEntry).2
      simp [isScgi, isKey] at kept
  have among := total_le_of_subset headerSize others (List.forall_mem_cons.mpr
    ⟨List.mem_of_head? first, List.forall_mem_cons.mpr
      ⟨one, fun entry member => all entry (List.mem_of_mem_filter member)⟩⟩)
  rw [length_scgiContent, total_append, required]
  simp only [total_cons, total_nil] at among ⊢
  omega

theorem isScgiRequest_of_sendable (sendable : Sendable params body) :
    IsScgiRequest params body (sendScgi params.entries body) := by
  have whole := sendable.whole
  have shortBody := sendable.shortBody
  rw [intMax] at shortBody
  have sameLength : body.length % 2 ^ 32 = body.length := Nat.mod_eq_of_lt (by omega)
  have contentLength := length_scgiContent params body.length
  have goes : sent (scgiContent params body.length ++ 0x2c :: body) =
      scgiContent params body.length ++ 0x2c :: body := by
    rw [sent, Nat.mod_eq_of_lt, List.take_length]
    rw [List.length_append, List.length_cons]
    omega
  refine ⟨_, required body.length ++ params.sentEntries, sendScgi_eq_ok.mpr
    ⟨sendable.short, by rw [sameLength]; exact sendable.shortBody, rfl⟩, ?_, rfl, ?_, ?_, ?_⟩
  · rw [sameLength, List.take_length, goes, Nat.mod_eq_of_lt (by omega), readScgiRequest,
      readNetstring_digits_iff.mpr (split_append rfl _)]
    dsimp only
    rw [readAll_scgiContent sendable.named]
    rfl
  · rw [List.map_append, List.nodup_append]
    refine ⟨show [octets "CONTENT_LENGTH", octets "SCGI"].Nodup by decide,
      distinct_sentEntries params, fun key inRequired other isOther => ?_⟩
    obtain ⟨entry, member, rfl⟩ := List.mem_map.mp isOther
    have kept := of_decide_eq_true (List.mem_filter.mp member).2
    rcases List.mem_cons.mp inRequired with rfl | isScgi
    · exact Ne.symm kept.1
    · rw [List.mem_singleton.mp isScgi]
      exact Ne.symm (sendable.unreserved entry member)
  · exact List.mem_append_left _ (List.mem_cons_of_mem _ List.mem_cons_self)
  · intro entry member notLength nonempty
    refine List.mem_append_right _ (List.mem_filter.mpr ⟨member, ?_⟩)
    exact decide_eq_true ⟨notLength, nonempty⟩

theorem sendable_of_isScgiRequest
    (request : IsScgiRequest params body (sendScgi params.entries body)) :
    Sendable params body := by
  obtain ⟨text, headers, isSent, read, first, distinct, one, all⟩ := request
  obtain ⟨short, shortBody, rfl⟩ := sendScgi_eq_ok.mp isSent
  have all' : ∀ entry ∈ params.sentEntries, entry ∈ headers := by
    intro entry member
    obtain ⟨inMap, kept⟩ := List.mem_filter.mp member
    obtain ⟨notLength, nonempty⟩ := of_decide_eq_true kept
    exact all entry inMap notLength nonempty
  rw [readScgiRequest] at read
  split at read
  · cases read
  · next content rest isNetstring =>
      obtain ⟨others, found, same⟩ := Option.map_eq_some_iff.mp read
      rw [Prod.mk.injEq] at same
      obtain ⟨rfl, isBody⟩ := same
      rw [isBody] at isNetstring
      have isSplit := readNetstring_digits_iff.mp isNetstring
      obtain ⟨isLength, lengths⟩ := length_of_split isSplit
      rw [sent, List.length_take, List.length_cons] at lengths
      have sameLength : body.length % 2 ^ 32 = body.length := Nat.mod_eq_of_lt (by omega)
      rw [sameLength, List.take_length] at isSplit lengths
      rw [sameLength] at isLength shortBody
      have few := length_scgiContent_le short found first one all'
      have fits : (scgiContent params body.length).length < 2 ^ 32 := by
        omega
      have whole : (scgiContent params body.length ++ 0x2c :: body).length < 2 ^ 32 := by
        rw [List.length_append, List.length_cons] at lengths ⊢
        omega
      have goes : sent (scgiContent params body.length ++ 0x2c :: body) =
          scgiContent params body.length ++ 0x2c :: body := by
        rw [sent, Nat.mod_eq_of_lt whole, List.take_length]
      rw [goes, Nat.mod_eq_of_lt fits, split_append rfl, Option.some.injEq,
        Prod.mk.injEq] at isSplit
      have named : ∀ entry ∈ params.sentEntries, entry.1 ≠ [] := fun entry member =>
        named_of_readItems found entry (all' entry member)
      rw [← isSplit.1, readAll_scgiContent named, Option.some.injEq] at found
      rw [List.length_append, List.length_cons, length_scgiContent] at whole
      refine ⟨fun entry member isScgi => ?_, named, short, shortBody, by omega⟩
      rw [← found, List.map_append, List.nodup_append] at distinct
      exact distinct.2.2 (octets "SCGI") (List.mem_cons_of_mem _ List.mem_cons_self) entry.1
        (List.mem_map_of_mem member) isScgi.symm

end Request

/-- For which variables and bodies a request is sent. -/
theorem isScgiRequest_iff (params : ParamsMap) (body : List UInt8) :
    IsScgiRequest params body (sendScgi params.entries body) ↔ Sendable params body :=
  ⟨sendable_of_isScgiRequest, isScgiRequest_of_sendable⟩

/-- A variable that is called `SCGI` is sent a second time. -/
theorem not_isScgiRequest :
    ¬∀ (params : ParamsMap) (body : List UInt8),
      IsScgiRequest params body (sendScgi params.entries body) := by
  intro request
  have distinct : ([(octets "SCGI", octets "1")].map Prod.fst).Nodup := List.nodup_singleton _
  have nulFree : ∀ entry ∈ [(octets "SCGI", octets "1")], 0 ∉ entry.1 ∧ 0 ∉ entry.2 := by
    decide +kernel
  have isSent : (octets "SCGI", octets "1") ∈
      (⟨[(octets "SCGI", octets "1")], distinct, nulFree⟩ : ParamsMap).sentEntries := by
    refine List.mem_filter.mpr ⟨List.mem_cons_self, ?_⟩
    decide
  exact (sendable_of_isScgiRequest (request ⟨_, distinct, nulFree⟩ [])).unreserved _ isSent rfl

end Cgi

end HeapHttpd
