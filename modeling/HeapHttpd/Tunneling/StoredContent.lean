import HeapHttpd.Tunneling.CachePolicy

/-!
# The content that is stored

Whatever fails on the way: a response is only stored with exactly as many octets behind
its header as the content length that was read.
-/

namespace HeapHttpd

namespace Tunneling

open General

variable {setting : Setting} {lines : List (List UInt8)} {httpUrl : List UInt8}

namespace HttpClient

/-- A client behind its header that has copied what it was given. -/
structure Copying (setting : Setting) (lines : List (List UInt8)) (client : HttpClient)
    (delivered : List UInt8) : Prop where
  state : client.state = .content
  info : client.info = (readHeader setting lines).settled
  buf : client.buf = []
  sentContentLength : client.sentContentLength = delivered.length
  cacheBuf : client.cacheBuf = (readHeader setting lines).allocated setting
  cached : client.cached = if (readHeader setting lines).admits setting then delivered else []
  open' : client.cacheCompleted = false

/-- What a call leaves: more is copied, or the call returns `false`, with a copy that is
complete only if it has the length that was read. -/
def Copied (setting : Setting) (lines : List (List UInt8)) (result : HttpClient × Bool)
    (delivered : List UInt8) : Prop :=
  result.2 = true ∧ Copying setting lines result.1 delivered ∨
    result.2 = false ∧ (result.1.cacheCompleted = true →
      result.1.info = (readHeader setting lines).settled ∧
      (delivered.length : Int) = (readHeader setting lines).contentLength ∧
        result.1.cached =
          if (readHeader setting lines).admits setting then delivered else [])

theorem relayContent_copied {client : HttpClient} {delivered : List UInt8}
    (copying : Copying setting lines { client with buf := [] } delivered) :
    Copied setting lines (client.relayContent setting) (delivered ++ client.buf) := by
  obtain ⟨state, info, -, counted, cacheBuf, cached, isOpen⟩ := copying
  simp only at state info counted cacheBuf cached isOpen
  have caches : (client.info.useCache && client.cacheBuf.isSome) =
      (readHeader setting lines).admits setting := by
    rw [info, cacheBuf, HeaderInfo.admits_iff]
  have total : client.sentContentLength + client.buf.length =
      ((delivered ++ client.buf).length : Int) := by
    rw [counted]
    simp
  have finished : client.delivered = decide (((delivered ++ client.buf).length : Int) =
      (readHeader setting lines).contentLength) := by
    rw [HttpClient.delivered, info, HeaderInfo.settled_hasContentLength,
      hasContentLength_readHeader, HeaderInfo.settled_contentLength, total, Bool.true_and]
  have copied : (if client.info.useCache && client.cacheBuf.isSome then client.cached ++ client.buf
      else client.cached) = if (readHeader setting lines).admits setting then
        delivered ++ client.buf else [] := by
    rw [caches, cached]
    split <;> rfl
  rw [relayContent_eq, copied, finished]
  by_cases fails : setting.sendFails client.sent.length = true
  · rw [if_pos fails]
    refine .inr ⟨rfl, fun completed => ?_⟩
    rw [isOpen] at completed
    cases completed
  · rw [if_neg fails, isOpen, Bool.false_or]
    by_cases done : ((delivered ++ client.buf).length : Int) =
        (readHeader setting lines).contentLength
    · rw [decide_eq_true done]
      exact .inr ⟨rfl, fun _ => ⟨info, done, rfl⟩⟩
    · rw [decide_eq_false done]
      exact .inl ⟨rfl, state, info, rfl, total, cacheBuf, rfl, rfl⟩

section Copying

variable (unchunked : (readHeader setting lines).isChunked = false)
include unchunked

theorem processing_copied {client : HttpClient} {delivered : List UInt8}
    (copying : Copying setting lines client delivered) (segment : List UInt8) :
    Copied setting lines (client.processing setting segment) (delivered ++ segment) := by
  have buffered : client.buf ++ segment = segment := by
    rw [copying.buf, List.nil_append]
  have plain : client.info.isChunked = false := by
    rw [copying.info, HeaderInfo.settled_isChunked, unchunked]
  simp only [processing, copying.state, buffered, plain, Bool.false_eq_true, if_false]
  split
  · rename_i empty
    rw [empty, List.append_nil]
    exact .inl ⟨rfl, { copying with state := rfl, buf := rfl }⟩
  · exact @relayContent_copied _ _
      { client with buf := segment, state := .content } _ { copying with state := rfl, buf := rfl }

/-- A run that completes the copy has copied as many octets as the length that was
read, from the start of what it was given. -/
theorem processSegments_copied {segments : List (List UInt8)} {client : HttpClient}
    {delivered : List UInt8} (copying : Copying setting lines client delivered)
    (completed : (processSegments setting segments client).1.cacheCompleted = true) :
    ∃ passed, passed <+: segments.flatten ∧
      (processSegments setting segments client).1.info = (readHeader setting lines).settled ∧
      ((delivered ++ passed).length : Int) = (readHeader setting lines).contentLength ∧
      (processSegments setting segments client).1.cached =
        if (readHeader setting lines).admits setting then delivered ++ passed else [] := by
  induction segments generalizing client delivered with
  | nil =>
      rw [processSegments, copying.open'] at completed
      cases completed
  | cons segment segments ih =>
      have called := processing_copied unchunked copying segment
      simp only [processSegments] at completed ⊢
      rcases called with ⟨more, later⟩ | ⟨stopped, copied⟩
      · rw [if_pos more] at completed ⊢
        obtain ⟨passed, begins, info, length, cached⟩ := ih later completed
        refine ⟨segment ++ passed, ?_, info, ?_, ?_⟩
        · rw [List.flatten_cons, List.prefix_append_right_inj]
          exact begins
        · rw [← List.append_assoc]
          exact length
        · rw [← List.append_assoc]
          exact cached
      · have notMore : ¬ (client.processing setting segment).2 = true := by
          rw [stopped]
          exact Bool.false_ne_true
        rw [if_neg notMore] at completed ⊢
        obtain ⟨info, length, cached⟩ := copied completed
        refine ⟨segment, ?_, info, length, cached⟩
        rw [List.flatten_cons]
        exact List.prefix_append _ _

end Copying

/-- The call that completes the header of a response that is admitted. -/
theorem processing_completing_copied (isLines : ∀ line ∈ lines, IsLine line)
    (nonempty : lines ≠ []) {buf segment rest : List UInt8}
    (whole : buf ++ segment = headerText lines ++ rest)
    (admits : (readHeader setting lines).admits setting = true) :
    Copied setting lines ((waiting httpUrl buf).processing setting segment) rest := by
  obtain ⟨-, -, use, positive, -⟩ :=
    (admits_iff_members _ (hasContentLength_readHeader setting lines)).mp admits
  have unchunked := (of_useCache use).2.2.2
  rw [processing_completing isLines nonempty whole]
  by_cases short : (headerText lines ++ cString rest).length ≤ 64 * 1024
  · have parsed := parse_header setting isLines httpUrl (headerText lines ++ rest) (cString rest)
      short
    generalize (waiting httpUrl (headerText lines ++ rest)).parse setting
      (headerText lines ++ cString rest) = result at parsed
    obtain ⟨client, ok⟩ := result
    cases ok with
    | false =>
        refine .inr ⟨rfl, fun completed => ?_⟩
        have isOpen : client.cacheCompleted = false := parsed.cacheCompleted
        rw [show afterParse setting (headerText lines).length (client, false) = (client, false)
          from rfl, isOpen] at completed
        cases completed
    | true =>
        have info := parsed.info rfl
        have buffered : client.buf.drop (headerText lines).length = rest := by
          rw [parsed.buf]
          exact List.drop_left
        have begins : Copying setting lines
            { client.behindHeader (headerText lines).length with buf := [] } [] := by
          constructor
          case state => rfl
          case info => exact info
          case buf => rfl
          case sentContentLength => rfl
          case cacheBuf => exact parsed.cacheBuf rfl
          case cached => exact (parsed.cached rfl).trans (ite_self _).symm
          case open' => exact parsed.cacheCompleted
        rw [afterParse_content
          (by rw [info, HeaderInfo.settled_hasContentLength, hasContentLength_readHeader])
          (by rw [info, HeaderInfo.settled_isChunked, unchunked])
          (by rw [info, HeaderInfo.settled_contentLength]; exact positive.ne'), buffered]
        by_cases empty : rest = []
        · have drained : (client.behindHeader (headerText lines).length).buf = [] :=
            buffered.trans empty
          rw [if_pos empty, empty]
          have same : { client.behindHeader (headerText lines).length with buf := [] } =
              client.behindHeader (headerText lines).length := by
            rw [← drained]
          rw [same] at begins
          exact .inl ⟨rfl, begins⟩
        · rw [if_neg empty]
          have relayed := relayContent_copied begins
          have held : (client.behindHeader (headerText lines).length).buf = rest := buffered
          rwa [held, List.nil_append] at relayed
  · rw [parse_long (Nat.lt_of_not_le short)]
    refine .inr ⟨rfl, fun completed => ?_⟩
    cases completed

/-- What is stored of a response is what is behind its header, in the length that was
read. -/
theorem processSegments_stored (isLines : ∀ line ∈ lines, IsLine line) (nonempty : lines ≠ [])
    {segments : List (List UInt8)} {body : List UInt8}
    (received : segments.flatten = headerText lines ++ body)
    (stores : (processSegments setting segments (new httpUrl)).1.stores setting = true) :
    (processSegments setting segments (new httpUrl)).1.info = (readHeader setting lines).settled ∧
      (processSegments setting segments (new httpUrl)).1.cached <+: body ∧
      ((processSegments setting segments (new httpUrl)).1.cached.length : Int) =
        (readHeader setting lines).contentLength := by
  have admits := ((processSegments_spec isLines nonempty received).1
    (cacheBuf_of_stores stores)).2
  obtain ⟨-, -, use, -, -⟩ :=
    (admits_iff_members _ (hasContentLength_readHeader setting lines)).mp admits
  have unchunked := (of_useCache use).2.2.2
  have completed : (processSegments setting segments (new httpUrl)).1.cacheCompleted = true := by
    simp only [HttpClient.stores, Bool.and_eq_true] at stores
    exact stores.1.1.1.2
  obtain ⟨early, segment, late, rest, rfl, waits, whole, content, -⟩ := exists_split received
  have called := @processing_completing_copied setting _ httpUrl isLines nonempty _ _ _ whole admits
  rw [processSegments_completing isLines nonempty waits whole] at completed ⊢
  simp only at completed ⊢
  rcases called with ⟨more, copying⟩ | ⟨stopped, copied⟩
  · rw [if_pos more] at completed ⊢
    obtain ⟨passed, begins, info, length, cached⟩ :=
      processSegments_copied unchunked copying completed
    rw [if_pos admits] at cached
    rw [info, cached]
    refine ⟨rfl, ?_, length⟩
    rw [← content, List.prefix_append_right_inj]
    exact begins
  · have notMore : ¬ ((waiting httpUrl early.flatten).processing setting segment).2 = true := by
      rw [stopped]
      exact Bool.false_ne_true
    rw [if_neg notMore] at completed ⊢
    obtain ⟨info, length, cached⟩ := copied completed
    rw [if_pos admits] at cached
    rw [info, cached]
    refine ⟨rfl, ?_, length⟩
    rw [← content]
    exact List.prefix_append _ _

end HttpClient

end Tunneling

end HeapHttpd
