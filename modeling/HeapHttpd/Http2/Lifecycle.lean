import HeapHttpd.Http2.Histories

/-!
# The life of a stream

The state that the connection records for a stream, beside the state that the
protocol gives it for what has happened on it.
-/

namespace HeapHttpd

namespace Http2

open General Hpack Http1 Replay

variable {X : Type}

/-- What has happened on a stream. -/
structure Lifecycle where
  promised : Bool
  opened : Bool
  clientEnded : Bool
  serverEnded : Bool
  reset : Bool
  deriving DecidableEq, Repr

namespace Lifecycle

/-- A stream on which nothing has happened. -/
def new : Lifecycle :=
  { promised := false
    opened := false
    clientEnded := false
    serverEnded := false
    reset := false }

/-- The state of the protocol: a stream is closed when it is reset or when both
ends have ended it, and a promised stream is one that the client has ended. -/
def state (life : Lifecycle) : StreamState :=
  if life.reset then .closed
  else if life.promised then
    if life.serverEnded then .closed
    else if life.opened then .halfClosedRemote
    else .reservedLocal
  else if !life.opened then .idle
  else
    match life.clientEnded, life.serverEnded with
    | true, true => .closed
    | true, false => .halfClosedRemote
    | false, true => .halfClosedLocal
    | false, false => .open

/-- The life of a stream after one of its frames is sent. -/
def sends (frame : SentFrame) (life : Lifecycle) : Lifecycle :=
  if frame.type = FrameType.headers then { life with opened := true }
  else if frame.type = FrameType.rstStream then { life with reset := true }
  else if frame.type = FrameType.data ∧ hasFlag frame.flags Flag.endStream then
    { life with serverEnded := true }
  else life

/-- The life of a stream that an event is about. -/
def apply (stream : StreamPtr) (life : Lifecycle) : Event → Lifecycle
  | .created other _ _ => if stream = other then new else life
  | .promised other => if stream = other then { new with promised := true } else life
  | .opened other => if stream = other then { life with opened := true } else life
  | .ended other => if stream = other then { life with clientEnded := true } else life
  | .reset other _ => if stream = other then { life with reset := true } else life
  | .sent frame (some sender) => if stream = sender then life.sends frame else life
  | _ => life

/-- A stream that is not opened is not ended either. -/
def Begun (life : Lifecycle) : Prop :=
  life.opened = false → life.clientEnded = false ∧ life.serverEnded = false

end Lifecycle

/-- What the connection records, beside the lives of the streams. -/
structure Register where
  ledger : Ledger
  lives : StreamPtr → Lifecycle

namespace Register

/-- The register at the start. -/
def start : Register :=
  { ledger := .start
    lives := fun _ => .new }

/-- The register after an event. -/
def apply (register : Register) (event : Event) : Register :=
  { ledger := register.ledger.apply event
    lives := fun stream => (register.lives stream).apply stream event }

/-- The state that is recorded for a stream, if it is listed. -/
def Records (register : Register) (stream : StreamPtr) (states : List StreamState) : Prop :=
  ∀ flow, register.ledger.flows stream = some flow → flow.streamState ∈ states

/-- The frames of a stream that the code has an answer to: the client opens a stream that it
has not opened yet or that is open, and ends one that is not reserved or closed; header
blocks are sent on open streams, no end of a stream fails to be sent and none is sent
on a stream that is closed. -/
def Orderly (register : Register) : Event → Prop
  | .opened stream => register.Records stream [.idle, .open]
  | .ended stream => register.Records stream [.open, .halfClosedLocal, .halfClosedRemote]
  | .sent frame (some sender) =>
      (frame.type = FrameType.headers ∨ frame.type = FrameType.pushPromise →
        register.Records sender [.open]) ∧
      (frame.type = FrameType.data ∧ hasFlag frame.flags Flag.endStream →
        register.Records sender [.open, .halfClosedLocal, .halfClosedRemote])
  | .unsent frame (some sender) =>
      (frame.type = FrameType.headers ∨ frame.type = FrameType.pushPromise →
        register.Records sender [.open]) ∧
      frame.type ≠ FrameType.rstStream ∧
      ¬(frame.type = FrameType.data ∧ hasFlag frame.flags Flag.endStream)
  | _ => True

instance (register : Register) (stream : StreamPtr) (states : List StreamState) :
    Decidable (register.Records stream states) :=
  inferInstanceAs
    (Decidable (∀ flow ∈ register.ledger.flows stream, flow.streamState ∈ states))

instance (register : Register) (event : Event) : Decidable (register.Orderly event) :=
  match event with
  | .opened stream => inferInstanceAs (Decidable (register.Records stream _))
  | .ended stream => inferInstanceAs (Decidable (register.Records stream _))
  | .sent _ (some _) => inferInstanceAs (Decidable ((_ → _) ∧ (_ → _)))
  | .unsent _ (some _) => inferInstanceAs (Decidable ((_ → _) ∧ _ ∧ _))
  | .sent _ none | .unsent _ none | .received _ _ | .returned _ | .building _ _ _ _
  | .created _ _ _ | .promised _ | .erased _ _ | .reset _ _ | .cleared _ _ | .stale _
  | .settings _ _ _ | .windowUpdate _ _ _ | .data _ _ | .credited _ _ | .pushed _ _ _ _
  | .field _ | .line _ _ | .headersEnd _ _ | .response _ => isTrue trivial

/-- Every listed stream has the state that the protocol gives it. -/
def Agrees (register : Register) : Prop :=
  ∀ stream flow, register.ledger.flows stream = some flow →
    flow.streamState = (register.lives stream).state ∧ (register.lives stream).Begun

end Register

/-- The recorded states follow the protocol. -/
def FollowsProtocol (conn : Conn X) : Prop :=
  ∀ pointer stream, conn.listed pointer = some stream →
    stream.streamState = ((conn.trace.foldl Register.apply .start).lives pointer).state

namespace StreamState

/-- The state that is recorded after a frame is sent, or should have been. -/
def sends (frame : SentFrame) (state : StreamState) : StreamState :=
  if frame.type = FrameType.headers ∨ frame.type = FrameType.pushPromise then .open
  else if frame.type = FrameType.rstStream then .closed
  else if frame.type = FrameType.data ∧ hasFlag frame.flags Flag.endStream then
    if state ≠ .halfClosedRemote then .halfClosedLocal else .closed
  else state

/-- The state that is recorded for a stream after an event. -/
def after (stream : StreamPtr) (state : StreamState) : Event → StreamState
  | .promised other => if stream = other then .reservedLocal else state
  | .opened other => if stream = other then .open else state
  | .ended other =>
      if stream = other then
        if state ≠ .halfClosedLocal then .halfClosedRemote else .closed
      else state
  | .sent frame (some sender) | .unsent frame (some sender) =>
      if stream = sender then state.sends frame else state
  | _ => state

end StreamState

namespace Ledger

theorem flows_update {ledger : Ledger} {concerns : StreamPtr → Bool} {change : Flow → Flow}
    {stream : StreamPtr} {flow : Flow}
    (present : (ledger.update concerns change).flows stream = some flow) :
    ∃ before, ledger.flows stream = some before ∧
      flow = if concerns stream then change before else before := by
  simp only [update] at present
  split at present
  · rename_i concerned
    rcases Option.map_eq_some_iff.mp present with ⟨before, found, rfl⟩
    exact ⟨before, found, (if_pos concerned).symm⟩
  · rename_i other
    exact ⟨flow, present, (if_neg other).symm⟩

/-- A change that leaves the states alone. -/
theorem state_update {ledger : Ledger} {concerns : StreamPtr → Bool} {change : Flow → Flow}
    (same : ∀ flow, (change flow).streamState = flow.streamState) {stream : StreamPtr}
    {flow : Flow} (present : (ledger.update concerns change).flows stream = some flow) :
    ∃ before, ledger.flows stream = some before ∧ flow.streamState = before.streamState := by
  rcases flows_update present with ⟨before, found, rfl⟩
  refine ⟨before, found, ?_⟩
  split
  · exact same before
  · rfl

theorem state_charge {ledger : Ledger} {frame : SentFrame} {sender : Option StreamPtr}
    {stream : StreamPtr} {flow : Flow}
    (present : (ledger.charge frame sender).flows stream = some flow) :
    ∃ before, ledger.flows stream = some before ∧ flow.streamState = before.streamState := by
  cases sender with
  | none => exact ⟨flow, present, rfl⟩
  | some sender =>
      have charged : (ledger.update (fun pointer => pointer = sender) (Flow.charge frame)).flows
          stream = some flow := by
        unfold charge at present
        dsimp only at present
        split at present <;> exact present
      refine state_update (fun before => ?_) charged
      unfold Flow.charge
      split <;> rfl

theorem state_sends {ledger : Ledger} {frame : SentFrame} {sender stream : StreamPtr} {flow : Flow}
    (present : (ledger.sends frame (some sender)).flows stream = some flow) :
    ∃ before, ledger.flows stream = some before ∧ flow.streamState =
      if stream = sender then before.streamState.sends frame else before.streamState := by
  rcases flows_update present with ⟨before, found, rfl⟩
  refine ⟨before, found, ?_⟩
  simp only [decide_eq_true_eq, Flow.sends, StreamState.sends]
  split_ifs <;> rfl

/-- A stream is new and idle, or it has the state that the event leads to. -/
theorem state_apply {ledger : Ledger} {event : Event} {stream : StreamPtr} {flow : Flow}
    (present : (ledger.apply event).flows stream = some flow) :
    (∃ peerWindowSize localWindowSize,
      event = .created stream peerWindowSize localWindowSize ∧ flow.streamState = .idle) ∨
    (∀ peerWindowSize localWindowSize, event ≠ .created stream peerWindowSize localWindowSize) ∧
      ∃ before, ledger.flows stream = some before ∧
        flow.streamState = before.streamState.after stream event := by
  cases event with
  | created other peerWindowSize localWindowSize =>
      simp only [apply, put] at present
      split at present
      · rename_i same
        cases same
        cases present
        exact .inl ⟨peerWindowSize, localWindowSize, rfl, rfl⟩
      · rename_i differs
        refine .inr ⟨fun _ _ same => differs ?_, flow, present, rfl⟩
        cases same
        rfl
  | erased other inUse =>
      simp only [apply, put] at present
      split at present
      · cases present
      · exact .inr ⟨by simp, flow, present, rfl⟩
  | reset other inUse =>
      simp only [apply, put] at present
      split at present
      · cases present
      · exact .inr ⟨by simp, flow, present, rfl⟩
  | sent frame sender =>
      refine .inr ⟨by simp, ?_⟩
      rcases state_charge present with ⟨middle, sent, same⟩
      cases sender with
      | none => exact ⟨middle, sent, same⟩
      | some sender =>
          rcases state_sends sent with ⟨before, found, state⟩
          exact ⟨before, found, same.trans state⟩
  | unsent frame sender =>
      refine .inr ⟨by simp, ?_⟩
      cases sender with
      | none => exact ⟨flow, present, rfl⟩
      | some sender => exact state_sends present
  | promised other =>
      refine .inr ⟨by simp, ?_⟩
      rcases flows_update present with ⟨before, found, rfl⟩
      refine ⟨before, found, ?_⟩
      simp only [decide_eq_true_eq, StreamState.after]
      split_ifs <;> rfl
  | opened other =>
      refine .inr ⟨by simp, ?_⟩
      rcases flows_update present with ⟨before, found, rfl⟩
      refine ⟨before, found, ?_⟩
      simp only [decide_eq_true_eq, StreamState.after]
      split_ifs <;> rfl
  | ended other =>
      refine .inr ⟨by simp, ?_⟩
      rcases flows_update present with ⟨before, found, rfl⟩
      refine ⟨before, found, ?_⟩
      simp only [decide_eq_true_eq, StreamState.after, Flow.ends]
      split_ifs <;> rfl
  | settings identifier value payload =>
      refine .inr ⟨by simp, flow, ?_, rfl⟩
      simp only [apply] at present
      split_ifs at present <;> exact present
  | windowUpdate streamInd winSize payload =>
      refine .inr ⟨by simp, ?_⟩
      simp only [apply] at present
      split_ifs at present
      · exact ⟨flow, present, rfl⟩
      · exact ⟨flow, present, rfl⟩
      · refine state_update ?_ present
        exact fun _ => rfl
  | data streamInd length =>
      refine .inr ⟨by simp, ?_⟩
      have taken : (ledger.update (fun pointer => pointer.streamInd = streamInd)
          (Flow.takes length)).flows stream = some flow := present
      refine state_update ?_ taken
      exact fun _ => rfl
  | credited other increment =>
      refine .inr ⟨by simp, ?_⟩
      cases other with
      | none => exact ⟨flow, present, rfl⟩
      | some other =>
          have credited : (ledger.update (fun pointer => pointer = other)
              (Flow.credits increment)).flows stream = some flow := present
          refine state_update ?_ credited
          exact fun _ => rfl
  | _ => exact .inr ⟨by simp, flow, present, rfl⟩

end Ledger

namespace Lifecycle

variable {life : Lifecycle}

theorem state_opened (begun : life.Begun) (idle : life.state = .idle ∨ life.state = .open) :
    { life with opened := true }.state = .open := by
  rcases life with ⟨promised, opened, clientEnded, serverEnded, reset⟩
  revert begun idle
  unfold Begun
  cases promised <;> cases opened <;> cases clientEnded <;> cases serverEnded <;> cases reset <;>
    decide

theorem state_clientEnded
    (listed : life.state = .open ∨ life.state = .halfClosedLocal ∨ life.state = .halfClosedRemote) :
    { life with clientEnded := true }.state =
      if life.state ≠ .halfClosedLocal then .halfClosedRemote else .closed := by
  rcases life with ⟨promised, opened, clientEnded, serverEnded, reset⟩
  revert listed
  cases promised <;> cases opened <;> cases clientEnded <;> cases serverEnded <;> cases reset <;>
    decide

theorem state_serverEnded
    (listed : life.state = .open ∨ life.state = .halfClosedLocal ∨ life.state = .halfClosedRemote) :
    { life with serverEnded := true }.state =
      if life.state ≠ .halfClosedRemote then .halfClosedLocal else .closed := by
  rcases life with ⟨promised, opened, clientEnded, serverEnded, reset⟩
  revert listed
  cases promised <;> cases opened <;> cases clientEnded <;> cases serverEnded <;> cases reset <;>
    decide

/-- A stream in one of these states has been opened. -/
theorem opened_of_state
    (listed : life.state = .open ∨ life.state = .halfClosedLocal ∨ life.state = .halfClosedRemote) :
    life.opened = true := by
  rcases life with ⟨promised, opened, clientEnded, serverEnded, reset⟩
  revert listed
  cases promised <;> cases opened <;> cases clientEnded <;> cases serverEnded <;> cases reset <;>
    decide

theorem state_reset : { life with reset := true }.state = .closed :=
  if_pos rfl

end Lifecycle

/-- What a frame that is sent does to the state is what it does to the life. -/
theorem Lifecycle.sends_agrees {life : Lifecycle} (begun : life.Begun) (frame : SentFrame)
    (headers : frame.type = FrameType.headers ∨ frame.type = FrameType.pushPromise →
      life.state = .open)
    (ends : frame.type = FrameType.data ∧ hasFlag frame.flags Flag.endStream →
      life.state = .open ∨ life.state = .halfClosedLocal ∨ life.state = .halfClosedRemote) :
    life.state.sends frame = (life.sends frame).state ∧ (life.sends frame).Begun := by
  unfold StreamState.sends Lifecycle.sends
  by_cases isHeaders : frame.type = FrameType.headers
  · rw [if_pos (.inl isHeaders), if_pos isHeaders]
    have isOpen := headers (.inl isHeaders)
    exact ⟨(Lifecycle.state_opened begun (.inr isOpen)).symm, fun unopened => by cases unopened⟩
  by_cases isPromise : frame.type = FrameType.pushPromise
  · have notReset : frame.type ≠ FrameType.rstStream := by
      rw [isPromise]
      decide
    have notData : ¬(frame.type = FrameType.data ∧ hasFlag frame.flags Flag.endStream) := by
      rw [isPromise]
      exact fun isData => absurd isData.1 (by decide)
    rw [if_pos (.inr isPromise), if_neg isHeaders, if_neg notReset, if_neg notData]
    exact ⟨(headers (.inr isPromise)).symm, begun⟩
  rw [if_neg (not_or.mpr ⟨isHeaders, isPromise⟩), if_neg isHeaders]
  by_cases isReset : frame.type = FrameType.rstStream
  · rw [if_pos isReset, if_pos isReset]
    exact ⟨Lifecycle.state_reset.symm, begun⟩
  rw [if_neg isReset, if_neg isReset]
  by_cases isEnd : frame.type = FrameType.data ∧ hasFlag frame.flags Flag.endStream
  · rw [if_pos isEnd, if_pos isEnd]
    refine ⟨(Lifecycle.state_serverEnded (ends isEnd)).symm, fun unopened => ?_⟩
    rw [Lifecycle.opened_of_state (ends isEnd)] at unopened
    cases unopened
  · rw [if_neg isEnd, if_neg isEnd]
    exact ⟨rfl, begun⟩

/-- A frame that should have been sent leaves the state as it is. -/
theorem StreamState.sends_unsent {state : StreamState} {frame : SentFrame}
    (headers : frame.type = FrameType.headers ∨ frame.type = FrameType.pushPromise →
      state = .open)
    (stays : frame.type ≠ FrameType.rstStream ∧
      ¬(frame.type = FrameType.data ∧ hasFlag frame.flags Flag.endStream)) :
    state.sends frame = state := by
  unfold StreamState.sends
  split_ifs with isHeaders isReset isEnd
  · exact (headers isHeaders).symm
  · exact absurd isReset stays.1
  · exact absurd isEnd stays.2
  · exact absurd isEnd stays.2
  · rfl

/-- An event that the code has an answer to keeps the recorded states in step with the
protocol. -/
theorem Register.Agrees.apply {register : Register} (agrees : register.Agrees) {event : Event}
    (orderly : register.Orderly event) : (register.apply event).Agrees := by
  intro stream flow present
  rcases Ledger.state_apply present with ⟨peerWindowSize, localWindowSize, rfl, isIdle⟩ |
    ⟨uncreated, before, found, isAfter⟩
  · have fresh : ((register.apply (.created stream peerWindowSize localWindowSize)).lives stream) =
        .new := if_pos rfl
    rw [fresh, isIdle]
    exact ⟨rfl, fun _ => ⟨rfl, rfl⟩⟩
  rcases agrees stream before found with ⟨same, begun⟩
  rw [isAfter, same]
  have untouched : (register.lives stream).state = (register.lives stream).state ∧
      (register.lives stream).Begun := ⟨rfl, begun⟩
  show (register.lives stream).state.after stream event =
      ((register.lives stream).apply stream event).state ∧
    ((register.lives stream).apply stream event).Begun
  cases event with
  | created other peerWindowSize localWindowSize =>
      have differs : stream ≠ other := by
        rintro rfl
        exact uncreated _ _ rfl
      simpa [StreamState.after, Lifecycle.apply, differs] using begun
  | promised other =>
      simp only [StreamState.after, Lifecycle.apply]
      split_ifs with concerns
      · exact ⟨rfl, fun _ => ⟨rfl, rfl⟩⟩
      · exact untouched
  | opened other =>
      simp only [StreamState.after, Lifecycle.apply]
      split_ifs with concerns
      · subst concerns
        have recorded := orderly before found
        rw [same] at recorded
        refine ⟨(Lifecycle.state_opened begun ?_).symm, fun unopened => by cases unopened⟩
        simpa using recorded
      · exact untouched
  | ended other =>
      simp only [StreamState.after, Lifecycle.apply]
      by_cases concerns : stream = other
      · subst concerns
        rw [if_pos rfl, if_pos rfl]
        have recorded := orderly before found
        rw [same] at recorded
        have listed : (register.lives stream).state = .open ∨
            (register.lives stream).state = .halfClosedLocal ∨
            (register.lives stream).state = .halfClosedRemote := by simpa using recorded
        refine ⟨(Lifecycle.state_clientEnded listed).symm, fun unopened => ?_⟩
        rw [Lifecycle.opened_of_state listed] at unopened
        cases unopened
      · rw [if_neg concerns, if_neg concerns]
        exact untouched
  | reset other inUse =>
      have differs : stream ≠ other := by
        rintro rfl
        simp [Register.apply, Ledger.apply, Ledger.put] at present
      simpa [StreamState.after, Lifecycle.apply, differs] using begun
  | sent frame sender =>
      cases sender with
      | none => exact untouched
      | some sender =>
          simp only [StreamState.after, Lifecycle.apply]
          split_ifs with concerns
          · subst concerns
            refine Lifecycle.sends_agrees begun frame (fun isHeaders => ?_) fun isEnd => ?_
            · have recorded := orderly.1 isHeaders before found
              rw [same] at recorded
              simpa using recorded
            · have recorded := orderly.2 isEnd before found
              rw [same] at recorded
              simpa using recorded
          · exact untouched
  | unsent frame sender =>
      cases sender with
      | none => exact untouched
      | some sender =>
          simp only [StreamState.after, Lifecycle.apply]
          split_ifs with concerns
          · subst concerns
            refine ⟨StreamState.sends_unsent (fun isHeaders => ?_) orderly.2, begun⟩
            have recorded := orderly.1 isHeaders before found
            rw [same] at recorded
            simpa using recorded
          · exact untouched
  | _ => exact untouched

/-- As long as frames arrive and are sent in an order the code has an answer to, the
recorded states follow the protocol. -/
theorem followsProtocol_of_orderly {env : Env X} {machine : Machine (Turn X) Int}
    (reachable : Reachable env machine)
    (orderly : Throughout Register.apply Register.Orderly .start machine.state.conn.trace) :
    FollowsProtocol machine.state.conn := by
  have starts : Register.ledger Register.start = Ledger.start := rfl
  have initially : Register.Agrees .start := by
    intro stream flow present
    cases present
  have agrees := orderly.invariant initially fun register agrees event _ now =>
    agrees.apply now
  intro pointer stream listed
  have ledger : (machine.state.conn.trace.foldl Register.apply .start).ledger =
      machine.state.conn.ledger :=
    (ledger_foldl starts (fun _ _ => rfl) _).trans reachable.run.told.2.symm
  exact (agrees pointer stream.flow (by rw [ledger, flows_ledger, listed]; rfl)).1

theorem followsProtocol_of_orderly_short :
    FollowsProtocol
      (afterFrames (plainEnv true [1, 2, 3]) true [some (getRequest 1)]).state.conn := by
  have orderly : Throughout Register.apply Register.Orderly .start
      (afterFrames (plainEnv true [1, 2, 3]) true [some (getRequest 1)]).state.conn.trace := by
    rw [trace_short]
    decide
  have follows := followsProtocol_of_orderly
    (reachable_afterFrames (plainEnv true [1, 2, 3]) true [some (getRequest 1)] (.inl rfl))
  exact follows orderly

/-- A `POST` request with trailers, which come when the response is complete. -/
theorem trace_trailers :
    (afterFrames (plainEnv true []) true
      [some (⟨2, FrameType.headers, Flag.endHeaders, 1⟩, [0x83, 0x84]),
        some (⟨1, FrameType.data, Flag.unset, 1⟩, [1]),
        some (⟨0, FrameType.headers, Flag.endStream ||| Flag.endHeaders, 1⟩,
          [])]).state.conn.trace =
      [.sent ⟨6, 4, 0, 0, [0, 3, 0, 0, 0, 101]⟩ none,
        .sent ⟨6, 4, 0, 0, [0, 4, 127, 255, 255, 255]⟩ none,
        .received ⟨2, 1, 4, 1⟩ [131, 132], .created ⟨1, 0⟩ 65535 2147483647, .opened ⟨1, 0⟩,
        .field ⟨.indexed, 3, [58, 109, 101, 116, 104, 111, 100], [80, 79, 83, 84]⟩,
        .line ⟨1, 0⟩ [80, 79, 83, 84, 32, 47, 32, 72, 84, 84, 80, 47, 49, 46, 49, 13, 10],
        .field ⟨.indexed, 4, [58, 112, 97, 116, 104], [47]⟩, .headersEnd ⟨1, 0⟩ .post,
        .cleared ⟨1, 0⟩ false, .returned 2, .received ⟨1, 0, 0, 1⟩ [1], .data 1 1,
        .credited (some ⟨1, 0⟩) 1, .sent ⟨4, 8, 0, 1, [0, 0, 0, 1]⟩ (some ⟨1, 0⟩),
        .pushed ⟨1, 0⟩ 0 1 true, .response ⟨1, 0⟩, .sent ⟨1, 1, 4, 1, [136]⟩ (some ⟨1, 0⟩),
        .building ⟨1, 0⟩ 0 16384 65535,
        .sent ⟨9, 0, 8, 1, [8, 0, 0, 0, 0, 0, 0, 0, 0]⟩ (some ⟨1, 0⟩),
        .sent ⟨9, 0, 9, 1, [8, 0, 0, 0, 0, 0, 0, 0, 0]⟩ (some ⟨1, 0⟩), .returned 1,
        .received ⟨0, 1, 5, 1⟩ [], .opened ⟨1, 0⟩, .headersEnd ⟨1, 0⟩ .post,
        .cleared ⟨1, 0⟩ false, .ended ⟨1, 0⟩, .returned 0] := by
  decide +kernel

theorem state_trailers :
    ((afterFrames (plainEnv true []) true
      [some (⟨2, FrameType.headers, Flag.endHeaders, 1⟩, [0x83, 0x84]),
        some (⟨1, FrameType.data, Flag.unset, 1⟩, [1]),
        some (⟨0, FrameType.headers, Flag.endStream ||| Flag.endHeaders, 1⟩,
          [])]).state.conn.listed ⟨1, 0⟩).map Http2Stream.streamState =
      some .halfClosedRemote := by
  decide +kernel

/-- Both ends have ended the stream, and it is not recorded as closed. -/
theorem not_followsProtocol_trailers :
    ¬FollowsProtocol
      (afterFrames (plainEnv true []) true
        [some (⟨2, FrameType.headers, Flag.endHeaders, 1⟩, [0x83, 0x84]),
          some (⟨1, FrameType.data, Flag.unset, 1⟩, [1]),
          some (⟨0, FrameType.headers, Flag.endStream ||| Flag.endHeaders, 1⟩,
            [])]).state.conn := by
  intro follows
  rcases Option.map_eq_some_iff.mp state_trailers with ⟨stream, listed, recorded⟩
  have same := follows ⟨1, 0⟩ stream listed
  rw [trace_trailers, recorded] at same
  revert same
  decide

end Http2

end HeapHttpd
