import HeapHttpd.Http2.Histories

/-!
# Requests and their responses

The connection answers a request where a header block ends and where data
complete a body.  How often it answers, and whether the client has ended the
request by then, depends on how often and when that happens.
-/

namespace HeapHttpd

namespace Http2

open General Hpack Http1 Replay

variable {X : Type}

/-- A frame that ends the requests of its stream. -/
def HTTP2Frame.EndsRequest (frame : HTTP2Frame) : Prop :=
  (frame.type = FrameType.headers ∨ frame.type = FrameType.data) ∧
    hasFlag frame.flags Flag.endStream

instance (frame : HTTP2Frame) : Decidable frame.EndsRequest :=
  inferInstanceAs (Decidable (_ ∧ _))

/-- What is known of the request on a stream: its method, whether the client has ended
it, and whether the latest frame has. -/
structure Intake where
  method : Option HttpMethod
  ended : Bool
  latest : Bool

namespace Intake

/-- Nothing is known of the request. -/
def new : Intake :=
  { method := none
    ended := false
    latest := false }

/-- What is known of the request on a stream after an event. -/
def apply (stream : StreamPtr) (intake : Intake) : Event → Intake
  | .received frame _ =>
      let latest := decide (frame.streamInd = stream.streamInd ∧ frame.EndsRequest)
      { intake with
        ended := intake.ended || latest
        latest }
  | .created other _ _ =>
      if other = stream then { intake with method := none, ended := intake.latest } else intake
  | .headersEnd other method =>
      if other = stream then { intake with method := some method } else intake
  | _ => intake

/-- A `POST` request is answered when the client has ended it. -/
def Timely (stream : StreamPtr) (intake : Intake) : Event → Prop
  | .response other => other = stream → intake.method = some .post → intake.ended
  | _ => True

/-- The body of a `POST` request is complete when the client has ended it. -/
def Punctual (stream : StreamPtr) (intake : Intake) : Event → Prop
  | .pushed other _ _ complete =>
      other = stream → complete → intake.method = some .post → intake.ended
  | _ => True

instance (stream : StreamPtr) (intake : Intake) (event : Event) :
    Decidable (intake.Timely stream event) :=
  match event with
  | .response _ => inferInstanceAs (Decidable (_ → _ → _))
  | .received _ _ | .returned _ | .sent _ _ | .unsent _ _ | .building _ _ _ _ | .created _ _ _
  | .promised _ | .erased _ _ | .reset _ _ | .cleared _ _ | .stale _ | .opened _ | .ended _
  | .settings _ _ _ | .windowUpdate _ _ _ | .data _ _ | .credited _ _ | .pushed _ _ _ _
  | .field _ | .line _ _ | .headersEnd _ _ => isTrue trivial

instance (stream : StreamPtr) (intake : Intake) (event : Event) :
    Decidable (intake.Punctual stream event) :=
  match event with
  | .pushed _ _ _ _ => inferInstanceAs (Decidable (_ → _ → _ → _))
  | .received _ _ | .returned _ | .sent _ _ | .unsent _ _ | .building _ _ _ _ | .created _ _ _
  | .promised _ | .erased _ _ | .reset _ _ | .cleared _ _ | .stale _ | .opened _ | .ended _
  | .settings _ _ _ | .windowUpdate _ _ _ | .data _ _ | .credited _ _ | .response _
  | .field _ | .line _ _ | .headersEnd _ _ => isTrue trivial

end Intake

/-- A call of `Response` on a stream. -/
def Event.Answers (stream : StreamPtr) : Event → Bool
  | .response other => other = stream
  | _ => false

/-- The end of a header block without a body to come, or data that complete a body. -/
def Event.Completes (stream : StreamPtr) : Event → Bool
  | .headersEnd other method => other = stream ∧ method ≠ .post
  | .pushed other _ _ complete => other = stream ∧ complete
  | _ => false

/-- The request on a stream is answered once, and not before its body is complete. -/
def AnsweredOnce (stream : StreamPtr) (trace : List Event) : Prop :=
  trace.countP (Event.Answers stream) = 1 ∧
    Throughout (Intake.apply stream) (Intake.Timely stream) .new trace

/-- The request on a stream is completed once, and not before the client has ended it. -/
def CompletedOnce (stream : StreamPtr) (trace : List Event) : Prop :=
  trace.countP (Event.Completes stream) = 1 ∧
    Throughout (Intake.apply stream) (Intake.Punctual stream) .new trace

/-- An event that has nothing to do with answers. -/
def Event.IsSilent : Event → Prop
  | .response _ | .headersEnd _ _ | .pushed _ _ _ _ => False
  | _ => True

theorem silent_sending (succeeds : Bool) (sender : Option StreamPtr) (frame : SentFrame) :
    (Event.sending succeeds sender frame).IsSilent := by
  cases succeeds <;> trivial

theorem Credits.silent {async : Bool} {ledger : Ledger} {streamInd increment : Nat}
    {events : List Event} (credits : Credits async ledger streamInd increment events) :
    ∀ event ∈ events, event.IsSilent := by
  intro event member
  cases credits with
  | finished => cases member
  | stream stream flow same listed unfinished succeeds buffered =>
      rcases List.mem_cons.mp member with rfl | isSent
      · trivial
      · cases List.mem_singleton.mp isSent
        exact silent_sending succeeds _ _
  | control absent succeeds buffered =>
      rcases List.mem_cons.mp member with rfl | isSent
      · trivial
      · cases List.mem_singleton.mp isSent
        exact silent_sending succeeds _ _

/-- What happens is silent, or it is the end of a header block or data of a body. -/
theorem Happens.silent_or {async : Bool} {loose : Prop} {ledger : Ledger} {events : List Event}
    (happens : Happens async loose ledger events) :
    (∃ stream method,
      events = .headersEnd stream method :: if method = .post then [] else [.response stream]) ∨
    (∃ stream contentLength stored complete,
      events = .pushed stream contentLength stored complete ::
        if complete then [.response stream] else []) ∨
    ∀ event ∈ events, event.IsSilent := by
  have frames (sender : Option StreamPtr) (succeeds : Bool) (sent : List SentFrame) :
      ∀ event ∈ sent.map (Event.sending succeeds sender), event.IsSilent := by
    intro event member
    rcases List.mem_map.mp member with ⟨frame, -, rfl⟩
    exact silent_sending succeeds sender frame
  cases happens with
  | headersEnd stream method => exact .inl ⟨stream, method, rfl⟩
  | pushed stream contentLength stored complete =>
      exact .inr (.inl ⟨stream, contentLength, stored, complete, rfl⟩)
  | control sent isControl succeeds => exact .inr (.inr (frames none succeeds sent))
  | header stream listed frameType kind payload head succeeds =>
      exact .inr (.inr (frames (some stream) succeeds _))
  | rstStream stream listed succeeds => exact .inr (.inr (frames (some stream) succeeds [_]))
  | emptyContent stream listed padding some_ fills succeeds =>
      exact .inr (.inr (frames (some stream) succeeds [_]))
  | exchange synchronous succeeds =>
      refine .inr (.inr fun event member => ?_)
      rcases List.mem_cons.mp member with rfl | isSent
      · trivial
      · exact frames none succeeds [_] event isSent
  | content stream window rest agrees listed succeeds =>
      refine .inr (.inr fun event member => ?_)
      rcases List.mem_cons.mp member with rfl | isSent
      · trivial
      · exact frames (some stream) succeeds [_] event isSent
  | data streamInd length extra credits emptied returned =>
      refine .inr (.inr fun event member => ?_)
      rcases List.mem_cons.mp member with rfl | isCredit
      · trivial
      · rcases List.mem_append.mp isCredit with isExtra | isReturned
        · rcases emptied with rfl | ⟨-, credited⟩
          · cases isExtra
          · exact credited.silent event isExtra
        · exact returned.silent event isReturned
  | plain event plain =>
      refine .inr (.inr fun event' member => ?_)
      cases List.mem_singleton.mp member
      cases event <;> trivial
  | nothing => exact .inr (.inr (by simp))
  | promise => exact .inr (.inr (by simp [Event.IsSilent]))
  | stale => exact .inr (.inr (by simp [Event.IsSilent]))
  | cleared => exact .inr (.inr (by simp [Event.IsSilent]))
  | create => exact .inr (.inr (by simp [Event.IsSilent]))
  | erase => exact .inr (.inr (by simp [Event.IsSilent]))
  | reset => exact .inr (.inr (by simp [Event.IsSilent]))
  | opens => exact .inr (.inr (by simp [Event.IsSilent]))
  | ends => exact .inr (.inr (by simp [Event.IsSilent]))
  | setting => exact .inr (.inr (by simp [Event.IsSilent]))
  | windowUpdate => exact .inr (.inr (by simp [Event.IsSilent]))
  | field => exact .inr (.inr (by simp [Event.IsSilent]))

section Answers

variable (stream : StreamPtr)

theorem silent_answers {event : Event} (silent : event.IsSilent) :
    event.Answers stream = false ∧ event.Completes stream = false := by
  cases event with
  | response other => exact silent.elim
  | headersEnd other method => exact silent.elim
  | pushed other contentLength stored complete => exact silent.elim
  | _ => exact ⟨rfl, rfl⟩

theorem silent_timely (intake : Intake) {event : Event} (silent : event.IsSilent) :
    intake.Timely stream event ∧ intake.Punctual stream event := by
  cases event with
  | response other => exact silent.elim
  | headersEnd other method => exact silent.elim
  | pushed other contentLength stored complete => exact silent.elim
  | _ => exact ⟨trivial, trivial⟩

theorem silent_chunk (intake : Intake) {events : List Event}
    (silent : ∀ event ∈ events, event.IsSilent) :
    Throughout (Intake.apply stream) (Intake.Timely stream) intake events ∧
      Throughout (Intake.apply stream) (Intake.Punctual stream) intake events := by
  induction events generalizing intake with
  | nil => exact ⟨throughout_nil, throughout_nil⟩
  | cons event events ih =>
      have first := silent_timely stream intake (silent event List.mem_cons_self)
      have later := ih (intake.apply stream event) fun other member =>
        silent other (List.mem_cons_of_mem _ member)
      exact ⟨.cons _ _ _ first.1 later.1, .cons _ _ _ first.2 later.2⟩

/-- A response follows what completes its request, and nothing else. -/
theorem Happens.answers {async : Bool} {loose : Prop} {ledger : Ledger} {events : List Event}
    (happens : Happens async loose ledger events) (intake : Intake) :
    events.countP (Event.Answers stream) = events.countP (Event.Completes stream) ∧
      (Throughout (Intake.apply stream) (Intake.Timely stream) intake events ↔
        Throughout (Intake.apply stream) (Intake.Punctual stream) intake events) := by
  rcases happens.silent_or with ⟨other, method, rfl⟩ |
    ⟨other, contentLength, stored, complete, rfl⟩ | silent
  · by_cases post : method = .post
    · rw [if_pos post]
      simp [Event.Answers, Event.Completes, Intake.Timely, Intake.Punctual, post]
    · rw [if_neg post]
      constructor
      · by_cases same : other = stream <;>
          simp [Event.Answers, Event.Completes, post, same]
      · simp only [throughout_cons, throughout_nil, Intake.Timely, Intake.Punctual, true_and,
          and_true, iff_true]
        intro same
        simp [Intake.apply, same, post]
  · cases complete with
    | false => simp [Event.Answers, Event.Completes, Intake.Timely, Intake.Punctual]
    | true =>
        by_cases same : other = stream <;>
          simp [Event.Answers, Event.Completes, Intake.Timely, Intake.Punctual, Intake.apply, same]
  · have chunk := silent_chunk stream intake silent
    refine ⟨?_, iff_of_true chunk.1 chunk.2⟩
    rw [List.countP_eq_zero.mpr, List.countP_eq_zero.mpr]
    · intro event member
      simp [(silent_answers stream (silent event member)).2]
    · intro event member
      simp [(silent_answers stream (silent event member)).1]

theorem History.answers {async : Bool} {trace : List Event} (history : History async trace) :
    trace.countP (Event.Answers stream) = trace.countP (Event.Completes stream) ∧
      (Throughout (Intake.apply stream) (Intake.Timely stream) .new trace ↔
        Throughout (Intake.apply stream) (Intake.Punctual stream) .new trace) := by
  induction history with
  | start => simp
  | more trace events _ loose happens ih =>
      have chunk := happens.answers stream (trace.foldl (Intake.apply stream) .new)
      rw [List.countP_append, List.countP_append, ih.1, chunk.1, throughout_append,
        throughout_append, ih.2, chunk.2]
      exact ⟨rfl, Iff.rfl⟩

end Answers

/-- A `POST` request with an empty body. -/
theorem trace_emptyBody :
    (afterFrames (plainEnv true []) true
      [some (⟨2, FrameType.headers, Flag.endStream ||| Flag.endHeaders, 1⟩,
        [0x83, 0x84])]).state.conn.trace =
      [.sent ⟨6, 4, 0, 0, [0, 3, 0, 0, 0, 101]⟩ none,
        .sent ⟨6, 4, 0, 0, [0, 4, 127, 255, 255, 255]⟩ none,
        .received ⟨2, 1, 5, 1⟩ [131, 132], .created ⟨1, 0⟩ 65535 2147483647, .opened ⟨1, 0⟩,
        .field ⟨.indexed, 3, [58, 109, 101, 116, 104, 111, 100], [80, 79, 83, 84]⟩,
        .line ⟨1, 0⟩ [80, 79, 83, 84, 32, 47, 32, 72, 84, 84, 80, 47, 49, 46, 49, 13, 10],
        .field ⟨.indexed, 4, [58, 112, 97, 116, 104], [47]⟩, .headersEnd ⟨1, 0⟩ .post,
        .cleared ⟨1, 0⟩ false, .ended ⟨1, 0⟩, .returned 2] := by
  decide +kernel

end Http2

end HeapHttpd
