import HeapHttpd.Tunneling.CacheDecision

/-!
# What is admitted to the cache

The run of `http_client` over a response and the decision of its header: what is stored
was admitted by the blank line, which looks at the last line that spoke about the cache.
-/

namespace HeapHttpd

namespace Tunneling

open General
open Http1 (contains)

variable {setting : Setting} {lines : List (List UInt8)} {httpUrl : List UInt8}

theorem admits_iff_members (info : HeaderInfo) (has : info.hasContentLength = true) :
    info.admits setting = true ↔ setting.enableHttpTunnelingCache = true ∧
      info.outOfCacheHeaderScope = false ∧ info.useCache = true ∧ 0 < info.contentLength ∧
        info.contentLength ≤ setting.singleTunnelingCacheSize := by
  have use : info.settled.useCache = (info.useCache && !info.outOfCacheHeaderScope) := by
    unfold HeaderInfo.settled
    cases scope : info.outOfCacheHeaderScope <;> simp
  rw [HeaderInfo.admits, use, has]
  simp only [Bool.and_eq_true, decide_eq_true_iff, Bool.not_eq_true', and_true]
  tauto

@[simp]
theorem HeaderInfo.settled_strayed (info : HeaderInfo) : info.settled.strayed = info.strayed := by
  unfold settled
  split <;> rfl

namespace HttpClient

theorem cacheBuf_of_stores {client : HttpClient} (stores : client.stores setting = true) :
    client.cacheBuf.isSome = true := by
  simp only [HttpClient.stores, Bool.and_eq_true] at stores
  exact stores.1.1.2

/-- The members that the calls behind the header leave alone. -/
structure Kept (before client : HttpClient) : Prop where
  cacheBuf : client.cacheBuf = before.cacheBuf
  info : client.info = before.info
  httpTunnelingUrl : client.httpTunnelingUrl = before.httpTunnelingUrl

theorem Kept.trans {first second third : HttpClient} (before : Kept first second)
    (behind : Kept second third) : Kept first third :=
  ⟨behind.cacheBuf.trans before.cacheBuf, behind.info.trans before.info,
    behind.httpTunnelingUrl.trans before.httpTunnelingUrl⟩

theorem relayContent_kept (setting : Setting) (client : HttpClient) :
    Kept client (client.relayContent setting).1 ∧
      (client.relayContent setting).1.state = client.state := by
  rw [relayContent_eq]
  split <;> exact ⟨⟨rfl, rfl, rfl⟩, rfl⟩

/-- Calls behind the header change neither. -/
theorem processing_kept {client : HttpClient} (state : client.state = .content)
    (segment : List UInt8) :
    Kept client (client.processing setting segment).1 ∧
      (client.processing setting segment).1.state = .content := by
  simp only [processing, state]
  split
  · exact ⟨⟨rfl, rfl, rfl⟩, rfl⟩
  · split
    · exact ⟨⟨rfl, rfl, rfl⟩, rfl⟩
    · have relayed := relayContent_kept setting
        { client with buf := client.buf ++ segment, state := .content }
      exact ⟨⟨relayed.1.cacheBuf, relayed.1.info, relayed.1.httpTunnelingUrl⟩, relayed.2⟩

theorem processSegments_kept {client : HttpClient} (state : client.state = .content)
    (segments : List (List UInt8)) :
    Kept client (processSegments setting segments client).1 := by
  induction segments generalizing client with
  | nil => exact ⟨rfl, rfl, rfl⟩
  | cons segment segments ih =>
      have called := @processing_kept setting _ state segment
      simp only [processSegments]
      split
      · exact called.1.trans (ih called.2)
      · exact called.1

theorem afterParse_kept (setting : Setting) (size : Nat) (parsed : HttpClient × Bool) :
    Kept parsed.1 (afterParse setting size parsed).1 ∧
      ((afterParse setting size parsed).2 = true →
        (afterParse setting size parsed).1.state = .content) := by
  unfold afterParse
  split
  · exact ⟨⟨rfl, rfl, rfl⟩, nofun⟩
  · split
    · exact ⟨⟨rfl, rfl, rfl⟩, nofun⟩
    · simp only
      split
      · exact ⟨⟨rfl, rfl, rfl⟩, fun _ => rfl⟩
      · split
        · exact ⟨⟨rfl, rfl, rfl⟩, nofun⟩
        · split
          · exact ⟨⟨rfl, rfl, rfl⟩, fun _ => rfl⟩
          · have relayed := relayContent_kept setting
              { parsed.1 with
                buf := parsed.1.buf.drop size
                state := .content
                sentContentLength := 0 }
            exact ⟨⟨relayed.1.cacheBuf, relayed.1.info, relayed.1.httpTunnelingUrl⟩, fun _ => relayed.2⟩

/-- What the lines leave is what some of them in front leave. -/
theorem feed_info (setting : Setting) (strtexts : List (List UInt8)) (client : HttpClient) :
    ∃ part, part <+: strtexts ∧ (client.feed setting strtexts).1.info =
      part.foldl (fun info strtext => info.parseField setting strtext) client.info := by
  induction strtexts generalizing client with
  | nil => exact ⟨[], List.prefix_rfl, rfl⟩
  | cons strtext rest ih =>
      have first : (client.feedLine setting strtext).1.info =
          client.info.parseField setting strtext := by
        simp only [feedLine]
        split
        · split <;> rfl
        · rfl
      simp only [feed]
      split
      · obtain ⟨part, begins, reached⟩ := ih (client.feedLine setting strtext).1
        exact ⟨strtext :: part, (List.prefix_cons_inj strtext).mpr begins,
          by rw [reached, first, List.foldl_cons]⟩
      · exact ⟨[strtext], ⟨rest, rfl⟩, first⟩

/-- Reading a header goes behind a value only at a line that is short. -/
theorem parse_strayed (isLines : ∀ line ∈ lines, IsLine line) {buf rest : List UInt8}
    (short : (headerText lines ++ rest).length ≤ 64 * 1024)
    (strays : ((waiting httpUrl buf).parse setting
      (headerText lines ++ rest)).1.info.strayed = true) :
    (readHeader setting lines).strayed = true := by
  obtain ⟨left, parsed⟩ := parse_waiting setting isLines httpUrl buf rest short
  obtain ⟨part, begins, reached⟩ := feed_info setting (lines.map seen) (waiting httpUrl buf)
  have read : ((waiting httpUrl buf).feed setting (lines.map seen)).1.info.strayed = true := by
    rw [parsed] at strays
    simp only at strays
    split at strays
    · rwa [endHeader_eq, HeaderInfo.settled_strayed] at strays
    · exact strays
  obtain ⟨kept, isKept, rfl⟩ : ∃ kept, kept <+: lines ∧ part = kept.map seen := by
    rw [List.prefix_iff_eq_take] at begins
    refine ⟨lines.take part.length, List.take_prefix _ _, ?_⟩
    rw [begins, List.map_take]
    simp
  have some : (readHeader setting kept).strayed = true := by
    rw [← read, reached]
    rfl
  rw [strayed_readHeader, List.any_eq_true] at some ⊢
  obtain ⟨line, member, short⟩ := some
  exact ⟨line, isKept.sublist.mem member, short⟩

/-- A run over a response leaves what `parse` leaves of the header and some octets
behind it. -/
theorem processSegments_parsed (isLines : ∀ line ∈ lines, IsLine line) (nonempty : lines ≠ [])
    {segments : List (List UInt8)} {body : List UInt8}
    (received : segments.flatten = headerText lines ++ body) :
    ∃ rest, rest <+: body ∧ Kept ((waiting httpUrl (headerText lines ++ rest)).parse setting
        (headerText lines ++ cString rest)).1
      (processSegments setting segments (new httpUrl)).1 := by
  obtain ⟨early, segment, late, rest, rfl, waits, whole, content, -⟩ := exists_split received
  refine ⟨rest, ⟨late.flatten, content⟩, ?_⟩
  have behind := afterParse_kept setting (headerText lines).length
    ((waiting httpUrl (headerText lines ++ rest)).parse setting
      (headerText lines ++ cString rest))
  rw [← processing_completing isLines nonempty whole] at behind
  rw [processSegments_completing isLines nonempty waits whole]
  simp only
  split
  · rename_i more
    exact behind.1.trans (processSegments_kept (behind.2 more) late)
  · exact behind.1

/-- What a run over a response leaves: only an admitted response has a cache buffer,
and only a header with a short line has been read behind a value. -/
theorem processSegments_spec (isLines : ∀ line ∈ lines, IsLine line) (nonempty : lines ≠ [])
    {segments : List (List UInt8)} {body : List UInt8}
    (received : segments.flatten = headerText lines ++ body) :
    ((processSegments setting segments (new httpUrl)).1.cacheBuf.isSome →
      (headerText lines).length ≤ 64 * 1024 ∧ (readHeader setting lines).admits setting = true) ∧
    ((processSegments setting segments (new httpUrl)).1.info.strayed = true →
      (headerText lines).length ≤ 64 * 1024 ∧ (readHeader setting lines).strayed = true) := by
  obtain ⟨rest, -, parsed⟩ :=
    @processSegments_parsed setting _ httpUrl isLines nonempty _ _ received
  rw [parsed.cacheBuf, parsed.info]
  by_cases short : (headerText lines ++ cString rest).length ≤ 64 * 1024
  · have inside : (headerText lines).length ≤ 64 * 1024 := by
      rw [List.length_append] at short
      omega
    exact ⟨fun allocated => ⟨inside, (parse_header setting isLines httpUrl _ _ short).admitted
      allocated⟩, fun strays => ⟨inside, parse_strayed isLines short strays⟩⟩
  · rw [parse_long (Nat.lt_of_not_le short)]
    exact ⟨nofun, nofun⟩

/-- A header that comes alone and is read. -/
theorem processing_alone (sends : ∀ count, setting.sendFails count = false)
    (isLines : ∀ line ∈ lines, IsLine line) (nonempty : lines ≠ [])
    (short : (headerText lines).length ≤ 64 * 1024) :
    (processSegments setting [headerText lines] (new httpUrl)).1.info =
      (readHeader setting lines).settled := by
  have received : [headerText lines].flatten = headerText lines ++ [] := by simp
  obtain ⟨rest, begins, parsed⟩ :=
    @processSegments_parsed setting _ httpUrl isLines nonempty _ _ received
  rw [List.prefix_nil.mp begins] at parsed
  have short' : (headerText lines ++ cString []).length ≤ 64 * 1024 := by
    simpa [cString] using short
  rw [parsed.info, (parse_header setting isLines httpUrl _ _ short').info
    (parse_ok sends isLines httpUrl _ _ short')]

/-- An admitted response is stored when its header comes alone and its content behind
it. -/
theorem stores_of_admits (sends : ∀ count, setting.sendFails count = false)
    (isLines : ∀ line ∈ lines, IsLine line) (nonempty : lines ≠ [])
    (short : (headerText lines).length ≤ 64 * 1024)
    (unchunked : (readHeader setting lines).isChunked = false)
    (admits : (readHeader setting lines).admits setting = true)
    (url : (new httpUrl).httpTunnelingUrl ≠ []) {body : List UInt8}
    (length : (readHeader setting lines).contentLength = body.length) :
    (processSegments setting [headerText lines, body] (new httpUrl)).1.stores setting = true := by
  obtain ⟨enabled, -, -, positive, -⟩ :=
    (admits_iff_members _ (hasContentLength_readHeader setting lines)).mp admits
  have given : body ≠ [] := by
    rintro rfl
    rw [length] at positive
    cases positive
  have short' : (headerText lines ++ cString []).length ≤ 64 * 1024 := by
    simpa [cString] using short
  obtain ⟨relaying, more⟩ := @processing_content _ _ httpUrl sends isLines nonempty unchunked []
    (headerText lines) [] (by simp) short' positive.ne'
  obtain ⟨relayed, stops⟩ := processing_relaying sends unchunked relaying body
  have stopped := stops.trans (decide_eq_false (by simp [given, length]))
  have completed := cacheCompleted_of_stops sends unchunked relaying stopped
  have run : processSegments setting [headerText lines, body] (new httpUrl) =
      (((waiting httpUrl []).processing setting (headerText lines)).1.processing setting body) := by
    have first : (new httpUrl).processing setting (headerText lines) =
        (waiting httpUrl []).processing setting (headerText lines) := rfl
    simp only [processSegments, first]
    rw [more]
    simp only [true_or, decide_true, if_true, stopped, Bool.false_eq_true, if_false]
    exact Prod.ext rfl stopped.symm
  have kept := processSegments_httpTunnelingUrl setting [headerText lines, body] (new httpUrl)
  rw [run] at kept ⊢
  have use : (readHeader setting lines).settled.useCache = true := by
    simp only [HeaderInfo.admits, Bool.and_eq_true] at admits
    exact admits.1.1.1.2
  have copied := relayed.cached
  rw [if_pos admits, List.nil_append] at copied
  have allocated := relayed.cacheBuf
  rw [HeaderInfo.allocated, if_pos admits] at allocated
  rw [stores, enabled, relayed.info, use, completed, allocated, copied, kept,
    decide_eq_true given, decide_eq_true url]
  rfl

end HttpClient

end Tunneling

end HeapHttpd
