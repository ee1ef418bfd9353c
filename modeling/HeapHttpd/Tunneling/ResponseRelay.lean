import HeapHttpd.Tunneling.HeaderFields

/-!
# Relaying a response with a content length

The segments of a response as `http_client::processing` takes them: the header call,
then the calls that pass content on.  Content is counted but never cut to the length
that the header declares.
-/

namespace HeapHttpd

namespace Tunneling

open General
open Http1 (normalise strcutFrom contains atoll)

namespace HttpClient

theorem processSegments_append (setting : Setting) (first second : List (List UInt8))
    (client : HttpClient) :
    processSegments setting (first ++ second) client =
      let reached := processSegments setting first client
      if reached.2 then processSegments setting second reached.1 else reached := by
  induction first generalizing client with
  | nil => rfl
  | cons segment first ih =>
      simp only [List.cons_append, processSegments]
      split
      · exact ih _
      · rfl

end HttpClient

/-- The octets that have arrived with the call that completes the header, and the
segments behind it. -/
def arrived (size : Nat) : List UInt8 → List (List UInt8) → List UInt8 × List (List UInt8)
  | buf, [] => (buf, [])
  | buf, segment :: segments =>
      if size ≤ (buf ++ segment).length then (buf ++ segment, segments)
      else arrived size (buf ++ segment) segments

variable {setting : Setting} {lines : List (List UInt8)} {httpUrl : List UInt8}

namespace HttpClient

/-- A segment that does not complete the header. -/
theorem processing_waiting (isLines : ∀ line ∈ lines, IsLine line) (nonempty : lines ≠ [])
    {buf segment : List UInt8} (begins : buf ++ segment <+: headerText lines)
    (short : (buf ++ segment).length < (headerText lines).length) :
    (waiting httpUrl buf).processing setting segment =
      (waiting httpUrl (buf ++ segment), true) := by
  have missing : findHeaderEnd (buf ++ segment) = none := by
    cases found : findHeaderEnd (buf ++ segment) with
    | none => rfl
    | some pos =>
        obtain ⟨rest, whole⟩ := begins
        obtain ⟨line, lines, rfl⟩ := List.exists_cons_of_ne_nil nonempty
        have inside := findHeaderEnd_inside found
        have inWhole := findHeaderEnd_append found rest
        have atEnd := findHeaderEnd_headerText isLines []
        rw [whole] at inWhole
        rw [List.append_nil, inWhole, Option.some.injEq] at atEnd
        omega
  simp only [processing, waiting, new]
  rw [missing]

/-- The segments before the header is complete. -/
theorem processSegments_waiting (isLines : ∀ line ∈ lines, IsLine line) (nonempty : lines ≠ [])
    {segments : List (List UInt8)} {buf : List UInt8}
    (begins : buf ++ segments.flatten <+: headerText lines)
    (short : (buf ++ segments.flatten).length < (headerText lines).length) :
    processSegments setting segments (waiting httpUrl buf) =
      (waiting httpUrl (buf ++ segments.flatten), true) := by
  induction segments generalizing buf with
  | nil => simp [processSegments]
  | cons segment segments ih =>
      rw [List.flatten_cons, ← List.append_assoc] at begins short ⊢
      have first : (waiting httpUrl buf).processing setting segment = _ :=
        processing_waiting isLines nonempty
          ((List.prefix_append _ _).trans begins) (by simp at short ⊢; omega)
      simp only [processSegments]
      rw [first]
      exact ih begins short

/-- A client that has passed on its header and some content. -/
structure Relaying (setting : Setting) (lines : List (List UInt8)) (client : HttpClient)
    (delivered : List UInt8) : Prop where
  state : client.state = .content
  info : client.info = (readHeader setting lines).settled
  buf : client.buf = []
  sentContentLength : client.sentContentLength = delivered.length
  sent : client.sent.flatten = relayedHeader setting lines ++ delivered
  cacheBuf : client.cacheBuf = (readHeader setting lines).allocated setting
  cached : client.cached =
    if (readHeader setting lines).admits setting then delivered else []

end HttpClient

namespace HeaderInfo

theorem contentLength_parseCacheControl (strtext : List UInt8) (info : HeaderInfo) :
    (info.parseCacheControl setting strtext).contentLength = info.contentLength ∧
      (info.parseCacheControl setting strtext).hasContentLength = info.hasContentLength ∧
      (info.parseCacheControl setting strtext).isChunked = info.isChunked := by
  simp only [parseCacheControl]
  split
  · exact ⟨rfl, rfl, rfl⟩
  · split <;> split <;> exact ⟨rfl, rfl, rfl⟩

theorem contentLength_parseField (strtext : List UInt8) (info : HeaderInfo) :
    (info.parseField setting strtext).contentLength =
      if lineKind strtext = .contentLength then declaredLength setting strtext
      else info.contentLength := by
  rw [parseField_eq]
  cases lineKind strtext with
  | status => simp only [readLine]; split <;> rfl
  | transferEncoding => simp only [readLine]; split <;> rfl
  | cacheControl => exact (contentLength_parseCacheControl strtext info).1
  | _ => rfl

theorem hasContentLength_parseField {info : HeaderInfo} (has : info.hasContentLength = true)
    (strtext : List UInt8) :
    (info.parseField setting strtext).hasContentLength = true := by
  rw [parseField_eq]
  cases lineKind strtext with
  | status => simp only [readLine]; split <;> exact has
  | contentLength => simp [readLine, has]
  | transferEncoding => simp only [readLine]; split <;> exact has
  | cacheControl => exact (contentLength_parseCacheControl strtext info).2.1.trans has
  | _ => exact has

/-- Whether a line announces chunks. -/
theorem isChunked_parseField (strtext : List UInt8) (info : HeaderInfo) :
    (info.parseField setting strtext).isChunked =
      (info.isChunked || decide (lineKind strtext = .transferEncoding) &&
        contains (fieldValue "Transfer-Encoding:" strtext) (octets "chunked")) := by
  rw [parseField_eq]
  cases lineKind strtext with
  | status => simp only [readLine]; split <;> simp
  | transferEncoding =>
      simp only [readLine]
      split
      · rename_i chunked
        simp [chunked]
      · rename_i plain
        simp [plain]
  | cacheControl => simp [readLine, (contentLength_parseCacheControl strtext info).2.2]
  | expires => simp [readLine, parseExpires, decideCache]
  | _ => simp [readLine]

end HeaderInfo

theorem readHeader_concat (setting : Setting) (lines : List (List UInt8)) (line : List UInt8) :
    readHeader setting (lines ++ [line]) =
      (readHeader setting lines).parseField setting (seen line) := by
  simp [readHeader]

/-- The flag for a content length is never taken back. -/
theorem hasContentLength_readHeader (setting : Setting) (lines : List (List UInt8)) :
    (readHeader setting lines).hasContentLength = true := by
  induction lines using List.reverseRecOn with
  | nil => rfl
  | append_singleton lines line ih =>
      rw [readHeader_concat]
      exact HeaderInfo.hasContentLength_parseField ih _

/-- The last line with a content length counts. -/
theorem contentLength_readHeader (setting : Setting) (lines : List (List UInt8)) :
    (readHeader setting lines).contentLength =
      ((lines.filter fun line => lineKind (seen line) = .contentLength).getLast?.map
        fun line => declaredLength setting (seen line)).getD (-1) := by
  induction lines using List.reverseRecOn with
  | nil => rfl
  | append_singleton lines line ih =>
      rw [readHeader_concat, HeaderInfo.contentLength_parseField, ih, List.filter_append]
      by_cases isLength : lineKind (seen line) = .contentLength
      · simp [isLength]
      · simp [isLength]

theorem isChunked_readHeader (setting : Setting) (lines : List (List UInt8)) :
    (readHeader setting lines).isChunked =
      lines.any fun line => decide (lineKind (seen line) = .transferEncoding) &&
        contains (fieldValue "Transfer-Encoding:" (seen line)) (octets "chunked") := by
  induction lines using List.reverseRecOn with
  | nil => rfl
  | append_singleton lines line ih =>
      rw [readHeader_concat, HeaderInfo.isChunked_parseField, ih, List.any_append]
      simp

@[simp]
theorem HeaderInfo.settled_hasContentLength (info : HeaderInfo) :
    info.settled.hasContentLength = info.hasContentLength := by
  unfold HeaderInfo.settled
  split <;> rfl

@[simp]
theorem HeaderInfo.settled_contentLength (info : HeaderInfo) :
    info.settled.contentLength = info.contentLength := by
  unfold HeaderInfo.settled
  split <;> rfl

@[simp]
theorem HeaderInfo.settled_isChunked (info : HeaderInfo) :
    info.settled.isChunked = info.isChunked := by
  unfold HeaderInfo.settled
  split <;> rfl

/-- What is admitted has its cache buffer and is to be cached. -/
theorem HeaderInfo.admits_iff (info : HeaderInfo) :
    (info.settled.useCache && (info.allocated setting).isSome) = info.admits setting := by
  unfold HeaderInfo.allocated
  by_cases admitted : info.admits setting = true
  · have use : info.settled.useCache = true := by
      simp only [HeaderInfo.admits, Bool.and_eq_true] at admitted
      exact admitted.1.1.1.2
    simp [admitted, use]
  · simp [admitted]

namespace HttpClient

/-- Whether the buffer completes the declared length. -/
def delivered (client : HttpClient) : Bool :=
  client.info.hasContentLength &&
    decide (client.sentContentLength + client.buf.length = client.info.contentLength)

theorem relayContent_eq (setting : Setting) (client : HttpClient) :
    client.relayContent setting =
      if setting.sendFails client.sent.length then
        ({ client with
            cached :=
              if client.info.useCache && client.cacheBuf.isSome then client.cached ++ client.buf
              else client.cached
            sent := client.sent ++ [client.buf] }, false)
      else
        ({ client with
            cached :=
              if client.info.useCache && client.cacheBuf.isSome then client.cached ++ client.buf
              else client.cached
            sent := client.sent ++ [client.buf]
            sentContentLength := client.sentContentLength + client.buf.length
            buf := []
            cacheCompleted := client.cacheCompleted || client.delivered }, !client.delivered) := by
  simp only [relayContent, clientSend, delivered]
  by_cases caches : (client.info.useCache && client.cacheBuf.isSome) = true <;>
    by_cases fails : setting.sendFails client.sent.length = true <;>
      by_cases done : (client.info.hasContentLength && decide
        (client.sentContentLength + client.buf.length = client.info.contentLength)) = true <;>
        simp [caches, fails, done]

/-- The content in the buffer is passed on, and the flag says whether more is to come. -/
theorem relayContent_relaying (sends : ∀ count, setting.sendFails count = false)
    {client : HttpClient} {delivered : List UInt8}
    (relaying : Relaying setting lines { client with buf := [] } delivered) :
    Relaying setting lines (client.relayContent setting).1 (delivered ++ client.buf) ∧
      (client.relayContent setting).2 =
        decide (((delivered ++ client.buf).length : Int) ≠
          (readHeader setting lines).contentLength) := by
  obtain ⟨state, info, -, counted, sent, cacheBuf, cached⟩ := relaying
  simp only at state info counted sent cacheBuf cached
  have caches : (client.info.useCache && client.cacheBuf.isSome) =
      (readHeader setting lines).admits setting := by
    rw [info, cacheBuf, HeaderInfo.admits_iff]
  have total : client.sentContentLength + client.buf.length =
      ((delivered ++ client.buf).length : Int) := by
    rw [counted]
    simp
  have has : client.info.hasContentLength = true := by
    rw [info, HeaderInfo.settled_hasContentLength, hasContentLength_readHeader]
  have declared : client.info.contentLength = (readHeader setting lines).contentLength := by
    rw [info, HeaderInfo.settled_contentLength]
  have finished : client.delivered = decide (((delivered ++ client.buf).length : Int) =
      (readHeader setting lines).contentLength) := by
    rw [HttpClient.delivered, has, declared, total, Bool.true_and]
  rw [relayContent_eq, if_neg (by simp [sends]), finished]
  refine ⟨?_, by simp⟩
  constructor
  case state => exact state
  case info => exact info
  case buf => rfl
  case sentContentLength => exact total
  case sent => simp [sent]
  case cacheBuf => exact cacheBuf
  case cached =>
    simp only [caches, cached]
    split <;> rfl

/-- What `processing` does behind `parse`. -/
def afterParse (setting : Setting) (size : Nat) (parsed : HttpClient × Bool) :
    HttpClient × Bool :=
  if !parsed.2 then (parsed.1, false)
  else if !parsed.1.info.hasContentLength && !parsed.1.info.isChunked then (parsed.1, false)
  else
    let client : HttpClient :=
      { parsed.1 with
        buf := parsed.1.buf.drop size
        state := .content
        sentContentLength := 0 }
    if client.info.isChunked then client.relayChunk setting
    else if client.info.hasContentLength && decide (client.info.contentLength = 0) then
      (client, false)
    else if client.buf = [] then (client, true)
    else client.relayContent setting

/-- The client that has read its header. -/
def behindHeader (size : Nat) (client : HttpClient) : HttpClient :=
  { client with buf := client.buf.drop size, state := .content, sentContentLength := 0 }

theorem afterParse_content {size : Nat} {client : HttpClient}
    (has : client.info.hasContentLength = true) (unchunked : client.info.isChunked = false)
    (content : client.info.contentLength ≠ 0) :
    afterParse setting size (client, true) =
      if client.buf.drop size = [] then (client.behindHeader size, true)
      else (client.behindHeader size).relayContent setting := by
  simp [afterParse, behindHeader, has, unchunked, content]

theorem processing_found {client : HttpClient} {data : List UInt8} {pos : Nat}
    (state : client.state = .header) (found : findHeaderEnd (client.buf ++ data) = some pos) :
    client.processing setting data =
      afterParse setting (pos + 4)
        ({ client with buf := client.buf ++ data }.parse setting
          (cString (client.buf ++ data))) := by
  simp only [processing, state, found, afterParse]

/-- The call that completes the header hands it to `parse`. -/
theorem processing_completing (isLines : ∀ line ∈ lines, IsLine line) (nonempty : lines ≠ [])
    {buf segment rest : List UInt8} (whole : buf ++ segment = headerText lines ++ rest) :
    (waiting httpUrl buf).processing setting segment =
      afterParse setting (headerText lines).length
        ((waiting httpUrl (headerText lines ++ rest)).parse setting
          (headerText lines ++ cString rest)) := by
  obtain ⟨line, lines, rfl⟩ := List.exists_cons_of_ne_nil nonempty
  have found : findHeaderEnd ((waiting httpUrl buf).buf ++ segment) =
      some ((headerText (line :: lines)).length - 4) := by
    rw [← findHeaderEnd_headerText isLines rest, ← whole]
    rfl
  have size : (headerText (line :: lines)).length - 4 + 4 = (headerText (line :: lines)).length := by
    have inside := findHeaderEnd_inside (findHeaderEnd_headerText isLines [])
    simp only [List.append_nil] at inside
    omega
  rw [processing_found rfl found, size, ← cString_headerText isLines, ← whole]
  rfl

theorem parse_long {text : List UInt8} (long : 64 * 1024 < text.length) (buf : List UInt8) :
    (waiting httpUrl buf).parse setting text =
      ({ waiting httpUrl buf with lineText := text }, false) := by
  simp only [parse, waiting, new, List.nil_append]
  exact if_pos long

/-- A header that `parse` finds too long. -/
theorem processing_long (isLines : ∀ line ∈ lines, IsLine line) (nonempty : lines ≠ [])
    {buf segment rest : List UInt8} (whole : buf ++ segment = headerText lines ++ rest)
    (long : 64 * 1024 < (headerText lines ++ cString rest).length) :
    ((waiting httpUrl buf).processing setting segment).2 = false ∧
      ((waiting httpUrl buf).processing setting segment).1.sent = [] ∧
      ((waiting httpUrl buf).processing setting segment).1.cacheCompleted = false := by
  rw [processing_completing isLines nonempty whole, parse_long long]
  exact ⟨rfl, rfl, rfl⟩

section Completing

variable (sends : ∀ count, setting.sendFails count = false)
    (isLines : ∀ line ∈ lines, IsLine line) (nonempty : lines ≠ [])
    (unchunked : (readHeader setting lines).isChunked = false)
    {buf segment rest : List UInt8} (whole : buf ++ segment = headerText lines ++ rest)
    (short : (headerText lines ++ cString rest).length ≤ 64 * 1024)
include sends isLines nonempty unchunked whole short

/-- The call that completes the header of a response without content. -/
theorem processing_empty (empty : (readHeader setting lines).contentLength = 0) :
    ((waiting httpUrl buf).processing setting segment).2 = false ∧
      ((waiting httpUrl buf).processing setting segment).1.sent.flatten =
        relayedHeader setting lines ∧
      ((waiting httpUrl buf).processing setting segment).1.cacheBuf = none ∧
      ((waiting httpUrl buf).processing setting segment).1.cached = [] := by
  have ok := parse_ok sends isLines httpUrl (headerText lines ++ rest) (cString rest) short
  have parsed := parse_header setting isLines httpUrl (headerText lines ++ rest) (cString rest) short
  have refused : (readHeader setting lines).allocated setting = none := by
    rw [HeaderInfo.allocated, if_neg]
    simp [HeaderInfo.admits, empty]
  rw [processing_completing isLines nonempty whole]
  simp only [afterParse, ok, parsed.info ok, HeaderInfo.settled_hasContentLength,
    HeaderInfo.settled_isChunked, HeaderInfo.settled_contentLength, hasContentLength_readHeader,
    unchunked, empty]
  exact ⟨rfl, parsed.sent ok, (parsed.cacheBuf ok).trans refused, parsed.cached ok⟩

/-- The call that completes the header of a response with content. -/
theorem processing_content (content : (readHeader setting lines).contentLength ≠ 0) :
    Relaying setting lines ((waiting httpUrl buf).processing setting segment).1 rest ∧
      ((waiting httpUrl buf).processing setting segment).2 =
        decide (rest = [] ∨ (rest.length : Int) ≠ (readHeader setting lines).contentLength) := by
  have ok := parse_ok sends isLines httpUrl (headerText lines ++ rest) (cString rest) short
  have parsed := parse_header setting isLines httpUrl (headerText lines ++ rest) (cString rest) short
  generalize reached : (waiting httpUrl (headerText lines ++ rest)).parse setting
    (headerText lines ++ cString rest) = result at ok parsed
  obtain ⟨client, flag⟩ := result
  cases ok
  have buffered : client.buf.drop (headerText lines).length = rest := by
    rw [parsed.buf]
    exact List.drop_left
  have begins : Relaying setting lines
      { client.behindHeader (headerText lines).length with buf := [] } [] := by
    constructor
    case state => rfl
    case info => exact parsed.info rfl
    case buf => rfl
    case sentContentLength => rfl
    case sent => exact (parsed.sent rfl).trans (List.append_nil _).symm
    case cacheBuf => exact parsed.cacheBuf rfl
    case cached => exact (parsed.cached rfl).trans (ite_self _).symm
  have info := parsed.info rfl
  rw [processing_completing isLines nonempty whole, reached, afterParse_content
    (by rw [info, HeaderInfo.settled_hasContentLength, hasContentLength_readHeader])
    (by rw [info, HeaderInfo.settled_isChunked, unchunked])
    (by rwa [info, HeaderInfo.settled_contentLength]), buffered]
  by_cases empty : rest = []
  · have drained : (client.behindHeader (headerText lines).length).buf = [] :=
      buffered.trans empty
    rw [if_pos empty, empty]
    refine ⟨?_, by simp⟩
    have same : { client.behindHeader (headerText lines).length with buf := [] } =
        client.behindHeader (headerText lines).length := by
      rw [← drained]
    rwa [same] at begins
  · rw [if_neg empty]
    have relayed := relayContent_relaying sends begins
    have held : (client.behindHeader (headerText lines).length).buf = rest := buffered
    rw [held, List.nil_append] at relayed
    simpa [empty] using relayed

end Completing

/-- A call behind the header takes its segment alone. -/
theorem processing_eq_of_relaying (unchunked : (readHeader setting lines).isChunked = false)
    {client : HttpClient} {delivered : List UInt8}
    (relaying : Relaying setting lines client delivered) (segment : List UInt8) :
    client.processing setting segment =
      if segment = [] then ({ client with buf := segment }, true)
      else { client with buf := segment }.relayContent setting := by
  have buffered : client.buf ++ segment = segment := by
    rw [relaying.buf, List.nil_append]
  have plain : client.info.isChunked = false := by
    rw [relaying.info, HeaderInfo.settled_isChunked, unchunked]
  simp only [processing, relaying.state, buffered, plain, Bool.false_eq_true, if_false]

/-- The call that returns `false` has completed what is cached. -/
theorem cacheCompleted_of_stops (sends : ∀ count, setting.sendFails count = false)
    (unchunked : (readHeader setting lines).isChunked = false)
    {client : HttpClient} {delivered : List UInt8}
    (relaying : Relaying setting lines client delivered) {segment : List UInt8}
    (stops : (client.processing setting segment).2 = false) :
    (client.processing setting segment).1.cacheCompleted = true := by
  rw [processing_eq_of_relaying unchunked relaying] at stops ⊢
  split at stops
  · cases stops
  · rename_i given
    rw [if_neg given, relayContent_eq, if_neg (by simp [sends])]
    rw [relayContent_eq, if_neg (by simp [sends])] at stops
    simpa using Or.inr stops

section Relaying

variable (sends : ∀ count, setting.sendFails count = false)
    (unchunked : (readHeader setting lines).isChunked = false)
include sends unchunked

/-- A call behind the header passes its segment on. -/
theorem processing_relaying {client : HttpClient} {delivered : List UInt8}
    (relaying : Relaying setting lines client delivered) (segment : List UInt8) :
    Relaying setting lines (client.processing setting segment).1 (delivered ++ segment) ∧
      (client.processing setting segment).2 =
        decide (segment = [] ∨ ((delivered ++ segment).length : Int) ≠
          (readHeader setting lines).contentLength) := by
  rw [processing_eq_of_relaying unchunked relaying]
  by_cases empty : segment = []
  · rw [if_pos empty, empty, List.append_nil]
    have same : { client with buf := [] } = client := by
      rw [← relaying.buf]
    refine ⟨?_, by simp⟩
    rw [same]
    exact relaying
  · rw [if_neg empty]
    have begins : Relaying setting lines { { client with buf := segment } with buf := [] }
        delivered :=
      { relaying with buf := rfl }
    simpa [empty] using relayContent_relaying sends begins

/-- The segments up to the call that returns `false` are passed on. -/
theorem processSegments_passed {segments : List (List UInt8)} {client : HttpClient}
    {delivered : List UInt8} (relaying : Relaying setting lines client delivered) :
    ∃ passed, passed <+: segments ∧
      ((processSegments setting segments client).2 = true → passed = segments) ∧
      Relaying setting lines (processSegments setting segments client).1
        (delivered ++ passed.flatten) := by
  induction segments generalizing client delivered with
  | nil => exact ⟨[], List.prefix_rfl, fun _ => rfl, by simpa [processSegments] using relaying⟩
  | cons segment segments ih =>
      have called := processing_relaying sends unchunked relaying segment
      simp only [processSegments]
      by_cases more : (client.processing setting segment).2 = true
      · obtain ⟨passed, begins, all, later⟩ := ih called.1
        rw [if_pos more]
        refine ⟨segment :: passed, (List.prefix_cons_inj segment).mpr begins, ?_, ?_⟩
        · intro continues
          rw [all continues]
        · rw [List.flatten_cons, ← List.append_assoc]
          exact later
      · rw [if_neg more]
        refine ⟨[segment], ⟨segments, rfl⟩, fun continues => absurd continues Bool.false_ne_true, ?_⟩
        rw [List.flatten_cons, List.flatten_nil, List.append_nil]
        exact called.1

/-- As long as content is missing, calls return `true`. -/
theorem processSegments_continues {segments : List (List UInt8)} {client : HttpClient}
    {delivered : List UInt8} (relaying : Relaying setting lines client delivered)
    (missing : ((delivered ++ segments.flatten).length : Int) <
      (readHeader setting lines).contentLength) :
    (processSegments setting segments client).2 = true := by
  induction segments generalizing client delivered with
  | nil => rfl
  | cons segment segments ih =>
      have called := processing_relaying sends unchunked relaying segment
      rw [List.flatten_cons, ← List.append_assoc] at missing
      have more : (client.processing setting segment).2 = true := by
        rw [called.2, decide_eq_true_iff]
        right
        rw [List.length_append] at missing
        omega
      simp only [processSegments]
      rw [if_pos more]
      exact ih called.1 missing

end Relaying

/-- What is cached lies in the buffer that was allocated for it. -/
def Fits (client : HttpClient) : Prop :=
  ∀ size, client.cacheBuf = some size → client.cached.length ≤ size

theorem Relaying.fits {client : HttpClient} {delivered : List UInt8}
    (relaying : Relaying setting lines client delivered)
    (short : (delivered.length : Int) ≤ (readHeader setting lines).contentLength) :
    client.Fits := by
  intro size allocated
  rw [relaying.cacheBuf, HeaderInfo.allocated] at allocated
  rw [relaying.cached]
  by_cases admitted : (readHeader setting lines).admits setting = true
  · rw [if_pos admitted, Option.some.injEq] at allocated
    rw [if_pos admitted]
    omega
  · rw [if_neg admitted] at allocated
    cases allocated

theorem Relaying.cached_eq {client : HttpClient} {body : List UInt8}
    (relaying : Relaying setting lines client body)
    (length : (readHeader setting lines).contentLength = body.length) :
    ∀ size, client.cacheBuf = some size → size = body.length + 1 ∧ client.cached = body := by
  intro size allocated
  rw [relaying.cacheBuf, HeaderInfo.allocated] at allocated
  rw [relaying.cached]
  by_cases admitted : (readHeader setting lines).admits setting = true
  · rw [if_pos admitted, Option.some.injEq] at allocated
    rw [if_pos admitted]
    exact ⟨by omega, rfl⟩
  · rw [if_neg admitted] at allocated
    cases allocated

/-- The segments `before` and `last` of a response: it is passed on with its header,
the content `body` and nothing else, the call for `last` and no earlier one returns
`false`, and what is cached is the content and lies in its buffer at any time. -/
structure Relays (setting : Setting) (httpUrl : List UInt8) (lines : List (List UInt8))
    (body : List UInt8) (before : List (List UInt8)) (last : List UInt8) : Prop where
  continues : (processSegments setting before (new httpUrl)).2 = true
  stops : (processSegments setting (before ++ [last]) (new httpUrl)).2 = false
  sent : (processSegments setting (before ++ [last]) (new httpUrl)).1.sent.flatten =
    relayedHeader setting lines ++ body
  cached : ∀ size, (processSegments setting (before ++ [last]) (new httpUrl)).1.cacheBuf =
    some size → size = body.length + 1 ∧
      (processSegments setting (before ++ [last]) (new httpUrl)).1.cached = body
  fits : ∀ calls, calls <+: before ++ [last] →
    (processSegments setting calls (new httpUrl)).1.Fits

end HttpClient

/-- Some segment completes the header. -/
theorem exists_completing {size : Nat} {segments : List (List UInt8)} {buf : List UInt8}
    (waits : buf.length < size) (enough : size ≤ (buf ++ segments.flatten).length) :
    ∃ early segment late, segments = early ++ segment :: late ∧
      (buf ++ early.flatten).length < size ∧ size ≤ (buf ++ early.flatten ++ segment).length ∧
      arrived size buf segments = (buf ++ early.flatten ++ segment, late) := by
  induction segments generalizing buf with
  | nil =>
      rw [List.flatten_nil, List.append_nil] at enough
      omega
  | cons segment segments ih =>
      by_cases completes : size ≤ (buf ++ segment).length
      · refine ⟨[], segment, segments, rfl, by simpa using waits, by simpa using completes, ?_⟩
        rw [arrived, if_pos completes]
        simp
      · rw [List.flatten_cons, ← List.append_assoc] at enough
        obtain ⟨early, completing, late, split, short, long, arrives⟩ := ih (by omega) enough
        refine ⟨segment :: early, completing, late, by rw [split]; rfl, ?_, ?_, ?_⟩
        · simpa using short
        · simpa using long
        · rw [arrived, if_neg completes, arrives]
          simp

/-- The segments of a response split where its header is complete. -/
theorem exists_split {segments : List (List UInt8)} {body : List UInt8}
    (received : segments.flatten = headerText lines ++ body) :
    ∃ early segment late rest, segments = early ++ segment :: late ∧
      early.flatten.length < (headerText lines).length ∧
      early.flatten ++ segment = headerText lines ++ rest ∧ rest ++ late.flatten = body ∧
      arrived (headerText lines).length [] segments = (headerText lines ++ rest, late) := by
  have positive : 0 < (headerText lines).length := by
    simp [headerText, crlf]
  obtain ⟨early, segment, late, split, waits, long, arrives⟩ :=
    @exists_completing (headerText lines).length segments [] positive
      (by rw [List.nil_append, received, List.length_append]; omega)
  rw [List.nil_append] at waits long arrives
  rw [split, List.flatten_append, List.flatten_cons, ← List.append_assoc] at received
  have front : headerText lines <+: early.flatten ++ segment := by
    refine List.prefix_of_prefix_length_le (List.prefix_append _ body) ?_ long
    rw [← received]
    exact List.prefix_append _ _
  obtain ⟨rest, whole⟩ := front
  rw [← whole, List.append_assoc, List.append_cancel_left_eq] at received
  rw [← whole] at arrives
  exact ⟨early, segment, late, rest, split, waits, whole.symm, received, arrives⟩

namespace HttpClient

section Whole

variable (isLines : ∀ line ∈ lines, IsLine line) (nonempty : lines ≠ [])
    {early late : List (List UInt8)} {segment rest : List UInt8}
    (waits : early.flatten.length < (headerText lines).length)
    (whole : early.flatten ++ segment = headerText lines ++ rest)
include isLines nonempty waits whole

theorem processSegments_early {calls : List (List UInt8)} (begins : calls <+: early) :
    processSegments setting calls (new httpUrl) = (waiting httpUrl calls.flatten, true) := by
  obtain ⟨behind, split⟩ := begins
  have front : early.flatten <+: headerText lines :=
    List.prefix_of_prefix_length_le ⟨segment, whole⟩ ⟨rest, rfl⟩ waits.le
  have part : calls.flatten <+: early.flatten :=
    ⟨behind.flatten, by rw [← List.flatten_append, split]⟩
  have called := @processSegments_waiting setting lines httpUrl isLines nonempty calls []
    (part.trans front) (lt_of_le_of_lt part.length_le waits)
  exact called

theorem processSegments_completing :
    processSegments setting (early ++ segment :: late) (new httpUrl) =
      let called := (waiting httpUrl early.flatten).processing setting segment
      if called.2 then processSegments setting late called.1 else called := by
  rw [processSegments_append, processSegments_early isLines nonempty waits whole List.prefix_rfl]
  simp only [if_true, processSegments]
  split
  · rfl
  · rename_i failed
    exact Prod.ext rfl (Bool.eq_false_iff.mpr failed).symm

variable (sends : ∀ count, setting.sendFails count = false)
    (unchunked : (readHeader setting lines).isChunked = false)
include sends unchunked

/-- The header comes with the last segment. -/
theorem relays_early_iff {body excess : List UInt8} (split : rest = body ++ excess) :
    Relays setting httpUrl lines body early segment ↔
      (readHeader setting lines).contentLength = body.length ∧ (excess = [] ∨ body = []) ∧
        (headerText lines ++ cString rest).length ≤ 64 * 1024 := by
  have run : processSegments setting (early ++ [segment]) (new httpUrl) =
      (waiting httpUrl early.flatten).processing setting segment := by
    rw [processSegments_completing isLines nonempty waits whole]
    simp only [processSegments]
    split
    · rename_i more
      exact Prod.ext rfl more.symm
    · rfl
  have start : (processSegments setting early (new httpUrl)).2 = true := by
    rw [processSegments_early isLines nonempty waits whole List.prefix_rfl]
  have fits (last : ((waiting httpUrl early.flatten).processing setting segment).1.Fits) :
      ∀ calls, calls <+: early ++ [segment] →
        (processSegments setting calls (new httpUrl)).1.Fits := by
    intro calls begins
    rcases List.prefix_concat_iff.mp begins with all | inFront
    · rw [all, run]
      exact last
    · rw [processSegments_early isLines nonempty waits whole inFront]
      intro size allocated
      cases allocated
  by_cases short : (headerText lines ++ cString rest).length ≤ 64 * 1024
  · by_cases empty : (readHeader setting lines).contentLength = 0
    · obtain ⟨stops, sent, cacheBuf, -⟩ := @processing_empty _ _ httpUrl sends isLines
        nonempty unchunked _ _ _ whole short empty
      constructor
      · intro relays
        have none : body = [] := by
          have := relays.sent
          rw [run, sent] at this
          exact (List.self_eq_append_right.mp this)
        exact ⟨by rw [empty, none]; rfl, .inr none, short⟩
      · rintro ⟨length, -, -⟩
        have none : body = [] := List.length_eq_zero_iff.mp (by omega)
        refine ⟨start, by rw [run, stops], by rw [run, sent, none, List.append_nil], ?_, ?_⟩
        · rw [run, cacheBuf]
          intro size allocated
          cases allocated
        · refine fits ?_
          intro size allocated
          rw [cacheBuf] at allocated
          cases allocated
    · obtain ⟨relaying, stops⟩ := @processing_content _ _ httpUrl sends isLines nonempty
        unchunked _ _ _ whole short empty
      constructor
      · intro relays
        have stopped := relays.stops
        have sent := relays.sent
        rw [run, stops, decide_eq_false_iff_not, not_or, not_not] at stopped
        rw [run, relaying.sent, List.append_cancel_left_eq, split] at sent
        have none : excess = [] := List.append_right_eq_self.mp sent
        rw [split, none, List.append_nil] at stopped
        exact ⟨stopped.2.symm, .inl none, short⟩
      · rintro ⟨length, either, -⟩
        have none : excess = [] := by
          rcases either with none | bodyNone
          · exact none
          · rw [bodyNone] at length
            exact absurd length empty
        rw [none, List.append_nil] at split
        rw [split] at relaying stops
        have given : body ≠ [] := by
          rintro rfl
          exact empty length
        have last := relaying.fits (by omega)
        refine ⟨start, ?_, by rw [run, relaying.sent], ?_, fits last⟩
        · rw [run, stops, decide_eq_false_iff_not, not_or, not_not]
          exact ⟨given, length.symm⟩
        · rw [run]
          exact relaying.cached_eq length
  · have failed := @processing_long setting _ httpUrl isLines nonempty _ _ _ whole
      (Nat.lt_of_not_le short)
    constructor
    · intro relays
      have sent := relays.sent
      rw [run, failed.2.1] at sent
      exact absurd sent.symm (by simp [relayedHeader, crlf])
    · rintro ⟨-, -, isShort⟩
      exact absurd isShort short

/-- The header comes before the last segment. -/
theorem relays_later_iff {body excess last : List UInt8} {between : List (List UInt8)}
    (split : rest ++ between.flatten ++ last = body ++ excess)
    (completes : (rest ++ between.flatten).length < body.length) :
    Relays setting httpUrl lines body (early ++ segment :: between) last ↔
      (readHeader setting lines).contentLength = body.length ∧ (excess = [] ∨ body = []) ∧
        (headerText lines ++ cString rest).length ≤ 64 * 1024 := by
  have run (late : List (List UInt8)) :=
    @processSegments_completing setting _ httpUrl isLines nonempty _ late _ _ waits whole
  have given : body ≠ [] := by
    rintro rfl
    simp at completes
  -- What the call for the last segment does once the calls before it have returned `true`.
  have step {client : HttpClient} (relaying : Relaying setting lines client rest)
      (more : ((waiting httpUrl early.flatten).processing setting segment) = (client, true))
      (continues : (processSegments setting between client).2 = true) :
      Relaying setting lines (processSegments setting (early ++ segment :: between ++ [last])
          (new httpUrl)).1 (body ++ excess) ∧
        (processSegments setting (early ++ segment :: between ++ [last]) (new httpUrl)).2 =
          decide (last = [] ∨ ((body ++ excess).length : Int) ≠
            (readHeader setting lines).contentLength) := by
    obtain ⟨passed, -, all, reached⟩ :=
      @processSegments_passed _ _ sends unchunked between _ _ relaying
    rw [all continues] at reached
    have called := processing_relaying sends unchunked reached last
    rw [split] at called
    rw [List.append_assoc, List.cons_append, run, more]
    simp only [if_true]
    rw [processSegments_append]
    simp only [continues, if_true, processSegments]
    split
    · rename_i goesOn
      rw [← called.2]
      exact ⟨called.1, goesOn.symm⟩
    · rename_i stopped
      rw [← called.2]
      exact ⟨called.1, (Bool.eq_false_iff.mpr stopped).symm⟩
  constructor
  · intro relays
    have continues := relays.continues
    rw [run] at continues
    simp only at continues
    split at continues
    · rename_i more
      have short : (headerText lines ++ cString rest).length ≤ 64 * 1024 := by
        by_contra long
        rw [(processing_long isLines nonempty whole (Nat.lt_of_not_le long)).1] at more
        cases more
      have content : (readHeader setting lines).contentLength ≠ 0 := by
        intro empty
        rw [(processing_empty sends isLines nonempty unchunked whole short empty).1] at more
        cases more
      obtain ⟨relaying, -⟩ := @processing_content _ _ httpUrl sends isLines nonempty
        unchunked _ _ _ whole short content
      obtain ⟨reached, result⟩ := step relaying (Prod.ext rfl more) continues
      have stopped := relays.stops
      have sent := relays.sent
      rw [result, decide_eq_false_iff_not, not_or, not_not] at stopped
      rw [reached.sent, List.append_cancel_left_eq] at sent
      have none : excess = [] := List.append_right_eq_self.mp sent
      rw [none, List.append_nil] at stopped
      exact ⟨stopped.2.symm, .inl none, short⟩
    · rename_i failed
      exact absurd continues failed
  · rintro ⟨length, either, short⟩
    have none : excess = [] := either.resolve_right given
    rw [none, List.append_nil] at split step
    have positive : 0 < body.length := List.length_pos_iff.mpr given
    obtain ⟨relaying, result⟩ := @processing_content _ _ httpUrl sends isLines nonempty
      unchunked _ _ _ whole short (by omega)
    have more : ((waiting httpUrl early.flatten).processing setting segment).2 = true := by
      rw [result, decide_eq_true_iff]
      right
      rw [List.length_append] at completes
      omega
    have continues := @processSegments_continues _ _ sends unchunked between _ _ relaying
      (by omega)
    obtain ⟨reached, stops⟩ := step relaying (Prod.ext rfl more) continues
    have some : last ≠ [] := by
      rintro rfl
      rw [List.append_nil] at split
      rw [split] at completes
      omega
    refine ⟨?_, ?_, reached.sent, reached.cached_eq length, ?_⟩
    · rw [run]
      simp only [more, if_true]
      exact continues
    · rw [stops, decide_eq_false_iff_not, not_or, not_not]
      exact ⟨some, length.symm⟩
    · intro calls begins
      rw [List.append_assoc, List.cons_append] at begins
      rcases List.prefix_or_prefix_of_prefix begins (List.prefix_append early _) with
        inFront | ⟨late, rfl⟩
      · rw [processSegments_early isLines nonempty waits whole inFront]
        intro size allocated
        cases allocated
      · rw [List.prefix_append_right_inj] at begins
        cases late with
        | nil =>
            rw [List.append_nil, processSegments_early isLines nonempty waits whole
              List.prefix_rfl]
            intro size allocated
            cases allocated
        | cons first late =>
            rw [List.cons_prefix_cons] at begins
            obtain ⟨rfl, begins⟩ := begins
            obtain ⟨passed, part, -, inside⟩ :=
              @processSegments_passed _ _ sends unchunked late _ _ relaying
            rw [run]
            simp only [more, if_true]
            refine inside.fits ?_
            have inWhole : rest ++ passed.flatten <+: body := by
              rw [← split, List.append_assoc, List.prefix_append_right_inj]
              obtain ⟨behind, all⟩ := part.trans begins
              refine ⟨behind.flatten, ?_⟩
              rw [← List.flatten_append, all]
              simp
            have := inWhole.length_le
            omega

end Whole

/-- The header and the content of a response, in segments of which the last one holds
the last octet. -/
theorem relays_iff_lines (sends : ∀ count, setting.sendFails count = false)
    (isLines : ∀ line ∈ lines, IsLine line) (nonempty : lines ≠ [])
    (unchunked : (readHeader setting lines).isChunked = false)
    {body excess last : List UInt8} {before : List (List UInt8)}
    (received : before.flatten ++ last = headerText lines ++ (body ++ excess))
    (completes : before.flatten.length < (headerText lines).length + body.length) :
    Relays setting httpUrl lines body before last ↔
      (readHeader setting lines).contentLength = body.length ∧ (excess = [] ∨ body = []) ∧
        (cString (arrived (headerText lines).length [] (before ++ [last])).1).length ≤
          64 * 1024 := by
  have all : (before ++ [last]).flatten = headerText lines ++ (body ++ excess) := by
    rw [List.flatten_append, ← received]
    simp
  obtain ⟨early, segment, late, rest, split, waits, whole, content, arrives⟩ := exists_split all
  rw [arrives, cString_headerText isLines]
  rcases List.eq_nil_or_concat late with rfl | ⟨between, final, rfl⟩
  · obtain ⟨rfl, same⟩ := List.append_inj' split rfl
    cases same
    rw [List.flatten_nil, List.append_nil] at content
    exact relays_early_iff isLines nonempty waits whole sends unchunked content
  · rw [List.concat_eq_append, ← List.cons_append, ← List.append_assoc] at split
    obtain ⟨rfl, same⟩ := List.append_inj' split rfl
    cases same
    rw [List.concat_eq_append, List.flatten_append, ← List.append_assoc] at content
    refine relays_later_iff isLines nonempty waits whole sends unchunked
      (by simpa using content) ?_
    rw [List.flatten_append, List.flatten_cons, ← List.append_assoc, whole,
      List.append_assoc, List.length_append] at completes
    omega

end HttpClient

end Tunneling

end HeapHttpd
