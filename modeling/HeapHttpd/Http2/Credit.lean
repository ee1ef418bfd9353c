import HeapHttpd.Http2.Histories

/-!
# Windows for what the client sends

What the server has granted to the client, beside the windows that the connection
keeps.  A `DATA` frame takes its length from the window of the connection, and
the length is given back to the window of the stream.
-/

namespace HeapHttpd

namespace Http2

open General Hpack Http1 Replay

variable {X : Type}

/-- The increment of a `WINDOW_UPDATE` frame that is sent. -/
def SentFrame.increment (frame : SentFrame) : Nat :=
  ntoh (frame.payload.take 4) % 2 ^ 31

/-- What a client has been granted for streams and for the connection, less what
it has sent; and for stream 0, what has been returned and what has been received
in all. -/
structure Granted where
  ledger : Ledger
  streams : StreamPtr → Int
  control : Int
  returned : Nat
  received : Nat

namespace Granted

/-- The grants at the start. -/
def start : Granted :=
  { ledger := .start
    streams := fun _ => 0
    control := defaultWindowSize
    returned := 0
    received := 0 }

/-- The grants after an event. -/
def apply (granted : Granted) (event : Event) : Granted :=
  let granted := { granted with ledger := granted.ledger.apply event }
  match event with
  | .created stream _ localWindowSize =>
      { granted with
        streams := fun pointer =>
          if pointer = stream then localWindowSize else granted.streams pointer }
  | .data streamInd length =>
      { granted with
        streams := fun pointer =>
          if pointer.streamInd = streamInd then granted.streams pointer - length
          else granted.streams pointer
        control := granted.control - length
        received := granted.received + length }
  | .sent frame _ =>
      if frame.type = FrameType.windowUpdate then
        if frame.identifier = 0 then
          { granted with
            control := granted.control + frame.increment
            returned := granted.returned + frame.increment }
        else
          { granted with
            streams := fun pointer =>
              if pointer.streamInd = frame.identifier then
                granted.streams pointer + frame.increment
              else granted.streams pointer }
      else granted
  | _ => granted

/-- A `DATA` frame of the client fits its windows. -/
def Obeyed (granted : Granted) : Event → Prop
  | .data streamInd length =>
      length ≤ granted.control ∧
        ∀ pointer, pointer.streamInd = streamInd → (granted.ledger.flows pointer).isSome →
          length ≤ granted.streams pointer
  | _ => True

/-- A window in its range. -/
def InRange (window : Int) : Prop :=
  0 ≤ window ∧ window ≤ maxWindowSize

/-- A `DATA` frame for which nothing has to be returned, or which returns its
length to the connection. -/
def Returns (granted : Granted) : Event → Prop
  | .data streamInd length =>
      (length = 0 ∧ ∃ stream flow, stream.streamInd = streamInd ∧
        granted.ledger.flows stream = some flow ∧ flow.streamState = .halfClosedLocal) ∨
      (streamInd = 0 ∧ 0 < length ∧ length < 2 ^ 24)
  | _ => True

end Granted

/-- An event does not send a `WINDOW_UPDATE` frame with an increment that is out of
range. -/
def Event.IncrementsFairly : Event → Prop
  | .sent frame _ =>
      frame.type = FrameType.windowUpdate →
        1 ≤ frame.increment ∧ frame.increment ≤ maxWindowSize
  | _ => True

/-- Credit is conserved. -/
structure CreditConserved (conn : Conn X) : Prop where
  streams : ∀ pointer stream, conn.listed pointer = some stream →
    stream.localWindowSize = (conn.trace.foldl Granted.apply .start).streams pointer
  control :
    (conn.localControlWindowSize : Int) = (conn.trace.foldl Granted.apply .start).control
  inRange : Throughout Granted.apply Granted.Obeyed .start conn.trace →
    Granted.InRange (conn.trace.foldl Granted.apply .start).control ∧
      ∀ pointer stream, conn.listed pointer = some stream →
        Granted.InRange ((conn.trace.foldl Granted.apply .start).streams pointer)
  increments : ∀ event ∈ conn.trace, event.IncrementsFairly
  returned : (conn.trace.foldl Granted.apply .start).returned =
    (conn.trace.foldl Granted.apply .start).received

/-- The events that concern the windows for what the client sends. -/
def Event.IsLocal : Event → Prop
  | .data _ _ | .credited _ _ | .created _ _ _ => True
  | .sent frame _ => frame.type = FrameType.windowUpdate
  | _ => False

/-- Nothing has been taken for good from any window. -/
structure Granted.Balanced (granted : Granted) : Prop where
  control : granted.ledger.localControlWindowSize = defaultWindowSize ∧
    granted.control = defaultWindowSize
  returned : granted.returned = granted.received
  streams : ∀ stream flow, granted.ledger.flows stream = some flow →
    flow.localWindowSize = maxWindowSize ∧ granted.streams stream = maxWindowSize ∧
      0 < stream.streamInd
  unique : ∀ first second, (granted.ledger.flows first).isSome →
    (granted.ledger.flows second).isSome → first.streamInd = second.streamInd → first = second
  initial : granted.ledger.initialLocalWindowSize = maxWindowSize

namespace Ledger

/-- A ledger without new streams and with the same windows for the client. -/
structure SameLocal (before after : Ledger) : Prop where
  control : after.localControlWindowSize = before.localControlWindowSize
  initial : after.initialLocalWindowSize = before.initialLocalWindowSize
  flows : ∀ stream flow, after.flows stream = some flow →
    ∃ known, before.flows stream = some known ∧ known.localWindowSize = flow.localWindowSize

namespace SameLocal

variable {before after middle : Ledger}

theorem refl (ledger : Ledger) : SameLocal ledger ledger :=
  ⟨rfl, rfl, fun _ flow present => ⟨flow, present, rfl⟩⟩

theorem trans (first : SameLocal before middle) (second : SameLocal middle after) :
    SameLocal before after := by
  refine ⟨second.control.trans first.control, second.initial.trans first.initial,
    fun stream flow present => ?_⟩
  rcases second.flows stream flow present with ⟨known, found, same⟩
  rcases first.flows stream known found with ⟨known', found', same'⟩
  exact ⟨known', found', same'.trans same⟩

theorem update (ledger : Ledger) (concerns : StreamPtr → Bool) {change : Flow → Flow}
    (same : ∀ flow, (change flow).localWindowSize = flow.localWindowSize) :
    SameLocal ledger (ledger.update concerns change) := by
  refine ⟨rfl, rfl, fun stream flow present => ?_⟩
  simp only [Ledger.update] at present
  split at present
  · rcases Option.map_eq_some_iff.mp present with ⟨known, found, rfl⟩
    exact ⟨known, found, (same known).symm⟩
  · exact ⟨flow, present, rfl⟩

theorem remove (ledger : Ledger) (stream : StreamPtr) :
    SameLocal ledger (ledger.put stream none) := by
  refine ⟨rfl, rfl, fun other flow present => ?_⟩
  simp only [Ledger.put] at present
  split at present
  · cases present
  · exact ⟨flow, present, rfl⟩

theorem sends (ledger : Ledger) (frame : SentFrame) (sender : Option StreamPtr) :
    SameLocal ledger (ledger.sends frame sender) := by
  cases sender with
  | none => exact refl ledger
  | some sender =>
      refine update ledger _ fun flow => ?_
      unfold Flow.sends
      split_ifs <;> rfl

theorem charge (ledger : Ledger) (frame : SentFrame) (sender : Option StreamPtr) :
    SameLocal ledger (ledger.charge frame sender) := by
  cases sender with
  | none => exact refl ledger
  | some sender =>
      have updated : SameLocal ledger
          (ledger.update (fun pointer => pointer = sender) (Flow.charge frame)) := by
        refine update ledger _ fun flow => ?_
        unfold Flow.charge
        split <;> rfl
      unfold Ledger.charge
      dsimp only
      split
      · exact ⟨updated.control, updated.initial, updated.flows⟩
      · exact updated

end SameLocal

/-- Other events leave the windows for the client as they are. -/
theorem sameLocal_apply (ledger : Ledger) {event : Event} (other : ¬event.IsLocal) :
    SameLocal ledger (ledger.apply event) := by
  cases event with
  | data streamInd length => exact absurd trivial other
  | credited stream increment => exact absurd trivial other
  | created stream peerWindowSize localWindowSize => exact absurd trivial other
  | sent frame sender => exact (SameLocal.sends ledger frame sender).trans (.charge _ frame sender)
  | unsent frame sender => exact .sends ledger frame sender
  | promised stream => exact .update ledger _ fun _ => rfl
  | erased stream inUse => exact .remove ledger stream
  | reset stream inUse => exact .remove ledger stream
  | opened stream => exact .update ledger _ fun _ => rfl
  | ended stream => exact .update ledger _ fun _ => rfl
  | settings identifier value payload =>
      simp only [Ledger.apply]
      split_ifs
      · exact ⟨rfl, rfl, fun _ flow present => ⟨flow, present, rfl⟩⟩
      · exact ⟨rfl, rfl, fun _ flow present => ⟨flow, present, rfl⟩⟩
      · exact .refl ledger
  | windowUpdate streamInd winSize payload =>
      simp only [Ledger.apply]
      split_ifs
      · exact .refl ledger
      · exact ⟨rfl, rfl, fun _ flow present => ⟨flow, present, rfl⟩⟩
      · exact .update ledger _ fun _ => rfl
  | field header => exact ⟨rfl, rfl, fun _ flow present => ⟨flow, present, rfl⟩⟩
  | _ => exact .refl ledger

end Ledger

/-- Other events leave the grants as they are. -/
theorem Granted.apply_of_not_local (granted : Granted) {event : Event} (other : ¬event.IsLocal) :
    granted.apply event = { granted with ledger := granted.ledger.apply event } := by
  cases event with
  | sent frame sender => exact if_neg other
  | data streamInd length => exact absurd trivial other
  | created stream peerWindowSize localWindowSize => exact absurd trivial other
  | _ => rfl

namespace Granted.Balanced

variable {granted : Granted}

theorem keep (balanced : granted.Balanced) {ledger : Ledger}
    (same : Ledger.SameLocal granted.ledger ledger) :
    Granted.Balanced { granted with ledger } := by
  refine ⟨⟨same.control.trans balanced.control.1, balanced.control.2⟩, balanced.returned,
    fun stream flow present => ?_, fun first second isFirst isSecond => ?_,
    same.initial.trans balanced.initial⟩
  · rcases same.flows stream flow present with ⟨known, found, windows⟩
    rw [← windows]
    exact balanced.streams stream known found
  · rcases Option.isSome_iff_exists.mp isFirst with ⟨flow, present⟩
    rcases Option.isSome_iff_exists.mp isSecond with ⟨flow', present'⟩
    rcases same.flows first flow present with ⟨known, found, -⟩
    rcases same.flows second flow' present' with ⟨known', found', -⟩
    exact balanced.unique first second (by simp [found]) (by simp [found'])

theorem apply (balanced : granted.Balanced) {event : Event} (other : ¬event.IsLocal) :
    (granted.apply event).Balanced := by
  rw [granted.apply_of_not_local other]
  exact balanced.keep (granted.ledger.sameLocal_apply other)

/-- A new stream has the windows it starts with. -/
theorem create (balanced : granted.Balanced) (stream : StreamPtr) (peerWindowSize : Nat)
    (positive : 0 < stream.streamInd)
    (fresh : ∀ other, other.streamInd = stream.streamInd → granted.ledger.flows other = none) :
    (granted.apply (.created stream peerWindowSize
      granted.ledger.initialLocalWindowSize)).Balanced := by
  refine ⟨balanced.control, balanced.returned, fun other flow present => ?_,
    fun first second isFirst isSecond sameInd => ?_, balanced.initial⟩
  · simp only [Granted.apply, Ledger.apply, Ledger.put, balanced.initial] at present ⊢
    split_ifs at present ⊢ with same
    · cases present
      subst same
      exact ⟨show toInt maxWindowSize = maxWindowSize by decide, rfl, positive⟩
    · exact balanced.streams other flow present
  · simp only [Granted.apply, Ledger.apply, Ledger.put] at isFirst isSecond
    split_ifs at isFirst isSecond with isNew isNew' isNew'
    · exact isNew.trans isNew'.symm
    · rw [fresh second (sameInd.symm.trans (congrArg _ isNew))] at isSecond
      cases isSecond
    · rw [fresh first (sameInd.trans (congrArg _ isNew'))] at isFirst
      cases isFirst
    · exact balanced.unique first second isFirst isSecond sameInd

end Granted.Balanced

/-- Apart from new streams, only data concern the windows for the client in the
asynchronous build. -/
theorem Happens.data_or_not_local {loose : Prop} {ledger : Ledger} {events : List Event}
    (happens : Happens true loose ledger events)
    (uncreated : ∀ stream peerWindowSize localWindowSize,
      .created stream peerWindowSize localWindowSize ∉ events) :
    (∃ streamInd length extra credits,
      (extra = [] ∨ ∃ stream flow, stream.streamInd = streamInd ∧
        (ledger.apply (.data streamInd length)).flows stream = some flow ∧
        flow.localWindowSize ≤ 0) ∧
      Credits true ((ledger.apply (.data streamInd length)).replay extra) streamInd length
        credits ∧
      events = .data streamInd length :: (extra ++ credits)) ∨
    ∀ event ∈ events, ¬event.IsLocal := by
  have frames (sender : Option StreamPtr) (succeeds : Bool) (sent : List SentFrame)
      (others : ∀ frame ∈ sent, frame.type ≠ FrameType.windowUpdate) :
      ∀ event ∈ sent.map (Event.sending succeeds sender), ¬event.IsLocal := by
    intro event member
    rcases List.mem_map.mp member with ⟨frame, isSent, rfl⟩
    cases succeeds with
    | false => exact id
    | true => exact others frame isSent
  cases happens with
  | create stream => exact absurd List.mem_cons_self (uncreated stream _ _)
  | promise stream => exact absurd List.mem_cons_self (uncreated stream _ _)
  | data streamInd length extra credits emptied returned =>
      exact .inl ⟨streamInd, length, extra, credits, emptied.imp_right And.left, returned, rfl⟩
  | exchange synchronous => cases synchronous
  | control sent isControl succeeds =>
      refine .inr <| frames none succeeds sent fun frame member => ?_
      rcases isControl frame member with isType | isType | isType
      all_goals
        rw [isType]
        decide
  | header stream listed frameType kind payload head succeeds =>
      refine .inr <| frames (some stream) succeeds _ fun frame member => ?_
      rcases List.mem_cons.mp member with rfl | isEmpty
      · rcases kind with rfl | rfl
        · exact (show FrameType.headers ≠ FrameType.windowUpdate by decide)
        · exact (show FrameType.pushPromise ≠ FrameType.windowUpdate by decide)
      · cases head with
        | false => cases isEmpty
        | true =>
            cases List.mem_singleton.mp isEmpty
            exact (show FrameType.data ≠ FrameType.windowUpdate by decide)
  | rstStream stream listed succeeds =>
      refine .inr <| frames (some stream) succeeds [_] fun frame member => ?_
      cases List.mem_singleton.mp member
      exact (show FrameType.rstStream ≠ FrameType.windowUpdate by decide)
  | emptyContent stream listed padding some_ fills succeeds =>
      refine .inr <| frames (some stream) succeeds [_] fun frame member => ?_
      cases List.mem_singleton.mp member
      exact (show FrameType.data ≠ FrameType.windowUpdate by decide)
  | content stream window rest agrees listed succeeds =>
      refine .inr fun event member => ?_
      rcases List.mem_cons.mp member with rfl | isSent
      · exact id
      · refine frames (some stream) succeeds [_] (fun frame member => ?_) event isSent
        rw [List.mem_singleton.mp member,
          (type_contentFrame ledger.maxFrameSize window stream.streamInd rest).1]
        decide
  | plain event plain =>
      refine .inr fun event' member => ?_
      cases List.mem_singleton.mp member
      cases event <;> first | exact id | exact plain.elim
  | headersEnd stream method =>
      refine .inr fun event member => ?_
      split at member <;> simp at member <;> rcases member with rfl | rfl <;> exact id
  | pushed stream contentLength stored complete =>
      refine .inr fun event member => ?_
      split at member <;> simp at member <;> rcases member with rfl | rfl <;> exact id
  | nothing => exact .inr (by simp)
  | stale holding => exact .inr (by simp [Event.IsLocal])
  | cleared stream inUse => exact .inr (by simp [Event.IsLocal])
  | erase stream inUse => exact .inr (by simp [Event.IsLocal])
  | reset stream inUse => exact .inr (by simp [Event.IsLocal])
  | opens stream listed => exact .inr (by simp [Event.IsLocal])
  | ends stream => exact .inr (by simp [Event.IsLocal])
  | setting setting payload first => exact .inr (by simp [Event.IsLocal])
  | windowUpdate streamInd winSize payload increment => exact .inr (by simp [Event.IsLocal])
  | field header => exact .inr (by simp [Event.IsLocal])

/-- The window update for data on the connection gives their length back. -/
theorem increment_windowUpdate {increment : Nat} (small : increment < 2 ^ 24) :
    (frameOf FrameType.windowUpdate Flag.unset 0 (hton31 increment)).increment = increment := by
  have first : increment / 2 ^ 24 = 0 := Nat.div_eq_of_lt small
  have masked : UInt8.ofNat 0 &&& 0xfe = 0 := by decide
  simp only [SentFrame.increment, frameOf, hton31, htonl, hton24, first, masked, ntoh,
    List.take_succ_cons, List.take_nil, List.foldl_cons, List.foldl_nil, UInt8.toNat_ofNat',
    UInt8.toNat_zero]
  omega

/-- Octets received on the connection are returned to it. -/
theorem Granted.Balanced.returns {granted : Granted} (balanced : granted.Balanced)
    {length : Nat} (some_ : 0 < length) (small : length < 2 ^ 24) :
    Throughout Granted.apply (fun _ event => event.IncrementsFairly) granted
        [.data 0 length, .credited none length,
          .sent (frameOf FrameType.windowUpdate Flag.unset 0 (hton31 length)) none] ∧
      (List.foldl Granted.apply granted [.data 0 length, .credited none length,
        .sent (frameOf FrameType.windowUpdate Flag.unset 0 (hton31 length)) none]).Balanced := by
  have increment := increment_windowUpdate small
  have unlisted (stream : StreamPtr) (flow : Flow)
      (present : granted.ledger.flows stream = some flow) : stream.streamInd ≠ 0 := by
    have := (balanced.streams stream flow present).2.2
    omega
  have untouched : (granted.ledger.update (fun pointer => pointer.streamInd = 0)
      (Flow.takes length)) = granted.ledger := by
    refine (Ledger.update_congr fun stream flow present concerned => ?_).trans
      (Ledger.update_id granted.ledger _)
    exact absurd (by simpa using concerned) (unlisted stream flow present)
  have window := balanced.control
  have back : (toUint (granted.ledger.localControlWindowSize - length) + length) % 2 ^ 32 =
      defaultWindowSize := by
    rw [window.1]
    simp only [toUint, defaultWindowSize]
    omega
  have sent : (frameOf FrameType.windowUpdate Flag.unset 0 (hton31 length)).type =
      FrameType.windowUpdate := rfl
  constructor
  · simp only [throughout_cons, throughout_nil, Event.IncrementsFairly, increment, true_and,
      and_true]
    exact fun _ => ⟨some_, by simp only [maxWindowSize]; omega⟩
  · simp only [List.foldl_cons, List.foldl_nil, Granted.apply, increment, Ledger.apply, untouched,
      Ledger.sends, Ledger.charge, back, sent, if_true]
    refine ⟨⟨rfl, ?_⟩, ?_, fun stream flow present => ?_, balanced.unique, balanced.initial⟩
    · show granted.control - length + length = defaultWindowSize
      omega
    · show granted.returned + length = granted.received + length
      rw [balanced.returned]
    · have known := balanced.streams stream flow present
      refine ⟨known.1, ?_, known.2.2⟩
      show (if stream.streamInd = 0 then _ else granted.streams stream) = _
      rw [if_neg (unlisted stream flow present)]
      exact known.2.1

/-- Empty data leave the windows as they are. -/
theorem Granted.Balanced.apply_empty {granted : Granted} (balanced : granted.Balanced)
    (streamInd : Nat) : granted.apply (.data streamInd 0) = granted := by
  have untouched : granted.ledger.apply (.data streamInd 0) = granted.ledger := by
    have flows : granted.ledger.update (fun pointer => pointer.streamInd = streamInd)
        (Flow.takes 0) = granted.ledger := by
      refine (Ledger.update_congr fun stream flow present _ => ?_).trans
        (Ledger.update_id granted.ledger _)
      have full := (balanced.streams stream flow present).1
      have window : toInt (flow.localWindowSize - (0 : Nat)) = flow.localWindowSize := by
        rw [full]
        decide
      show { flow with localWindowSize := toInt (flow.localWindowSize - (0 : Nat)) } = flow
      rw [window]
    have control : toUint (granted.ledger.localControlWindowSize - (0 : Nat)) =
        granted.ledger.localControlWindowSize := by
      rw [balanced.control.1]
      decide
    simp only [Ledger.apply, flows, control]
  unfold Granted.apply
  simp [untouched]

/-- An empty frame on a stream that the server has ended returns nothing. -/
theorem Granted.Balanced.credits_ended {granted : Granted} (balanced : granted.Balanced)
    {stream : StreamPtr} {flow : Flow} (listed : granted.ledger.flows stream = some flow)
    (isEnded : flow.streamState = .halfClosedLocal) {increment : Nat} {credits : List Event}
    (returned : Credits true granted.ledger stream.streamInd increment credits) :
    credits = [] := by
  cases returned with
  | finished => rfl
  | stream other flow' same listed' unfinished =>
      have sameStream : other = stream :=
        balanced.unique other stream (by simp [listed']) (by simp [listed]) same
      rw [sameStream, listed] at listed'
      cases listed'
      exact absurd (.inl isEnded) unfinished
  | control absent =>
      have positive := (balanced.streams stream flow listed).2.2
      rw [absent positive stream rfl] at listed
      cases listed

/-- No stream has the number 0. -/
theorem Granted.Balanced.flows_zero {granted : Granted} (balanced : granted.Balanced)
    {length : Nat} {stream : StreamPtr} (whole : stream.streamInd = 0) :
    (granted.ledger.apply (.data 0 length)).flows stream = none := by
  have absent : granted.ledger.flows stream = none := by
    cases present : granted.ledger.flows stream with
    | none => rfl
    | some flow =>
        have := (balanced.streams stream flow present).2.2
        omega
  simp [Ledger.apply, Ledger.update, absent]

theorem Event.incrementsFairly_of_not_local {event : Event} (other : ¬event.IsLocal) :
    event.IncrementsFairly := by
  cases event with
  | sent frame sender => exact fun isUpdate => absurd isUpdate other
  | _ => trivial

/-- Whatever happens keeps the balance, if a `DATA` frame returns what it takes. -/
theorem balanced_chunk {loose : Prop} {granted : Granted} {events : List Event} (balanced : granted.Balanced)
    (happens : Happens true loose granted.ledger events)
    (returns : Throughout Granted.apply Granted.Returns granted events) :
    Throughout Granted.apply (fun _ event => event.IncrementsFairly) granted events ∧
      (events.foldl Granted.apply granted).Balanced := by
  rcases happens.creates with ⟨stream, rest, positive, fresh, rfl, ends⟩ | uncreated
  · have created := balanced.create stream granted.ledger.initialPeerWindowSize positive fresh
    rcases ends with rfl | rfl
    · exact ⟨.cons _ _ _ trivial (.nil _), created⟩
    · have promised : ¬(Event.promised stream).IsLocal := id
      exact ⟨.cons _ _ _ trivial (.cons _ _ _ trivial (.nil _)), created.apply promised⟩
  rcases happens.data_or_not_local uncreated with
    ⟨streamInd, length, extra, credits, emptied, returned, rfl⟩ | others
  · rcases (throughout_cons.mp returns).1 with
      ⟨rfl, stream, flow, rfl, present, isEnded⟩ | ⟨rfl, some_, small⟩
    · have same := balanced.apply_empty stream.streamInd
      have sameLedger : granted.ledger.apply (.data stream.streamInd 0) = granted.ledger :=
        congrArg Granted.ledger same
      rw [sameLedger] at emptied returned
      have nothing : extra = [] := by
        refine emptied.resolve_right ?_
        rintro ⟨other, flow', -, present', low⟩
        have full := (balanced.streams other flow' present').1
        rw [full] at low
        exact absurd low (by decide)
      subst nothing
      rw [balanced.credits_ended present isEnded returned]
      refine ⟨.cons _ _ _ trivial (.nil _), ?_⟩
      rw [List.append_nil, List.foldl_cons, same]
      exact balanced
    · have nothing : extra = [] := by
        refine emptied.resolve_right ?_
        rintro ⟨other, flow', whole, present', -⟩
        rw [balanced.flows_zero whole] at present'
        cases present'
      subst nothing
      cases returned with
      | finished stream flow whole listed =>
          rw [Ledger.replay_nil, balanced.flows_zero whole] at listed
          cases listed
      | stream stream flow whole listed =>
          rw [Ledger.replay_nil, balanced.flows_zero whole] at listed
          cases listed
      | control absent succeeds buffered =>
          cases buffered rfl
          exact balanced.returns some_ small
  · exact returns.keeps balanced fun granted balanced event member _ =>
      ⟨event.incrementsFairly_of_not_local (others event member),
        balanced.apply (others event member)⟩

/-- Credit is conserved in the asynchronous build as long as nothing but data on
stream 0 is received. -/
theorem creditConserved_of_returns {env : Env X} {machine : Machine (Turn X) Int}
    (reachable : Reachable env machine) (asynchronous : env.async = true)
    (returns : Throughout Granted.apply Granted.Returns .start machine.state.conn.trace) :
    CreditConserved machine.state.conn := by
  have starts : Granted.ledger Granted.start = Ledger.start := rfl
  have agrees (granted : Granted) (event : Event) :
      (granted.apply event).ledger = granted.ledger.apply event := by
    cases event with
    | sent frame sender =>
        simp only [Granted.apply]
        split_ifs <;> rfl
    | _ => rfl
  have initially : Granted.Balanced .start := by
    refine ⟨⟨rfl, rfl⟩, rfl, fun stream flow present => ?_, fun first second isFirst => ?_, rfl⟩
    · cases present
    · cases isFirst
  have told := reachable.run.told
  rcases told with ⟨history, same⟩
  rw [asynchronous] at history
  rcases history.throughout starts agrees initially
    (fun granted events _ balanced happens met => balanced_chunk balanced happens met) returns with
    ⟨fairly, balanced⟩
  have ledger : (machine.state.conn.trace.foldl Granted.apply .start).ledger =
      machine.state.conn.ledger := (ledger_foldl starts agrees _).trans same.symm
  have full (pointer : StreamPtr) (stream : Http2Stream X)
      (listed : machine.state.conn.listed pointer = some stream) :
      stream.localWindowSize = maxWindowSize ∧
        (machine.state.conn.trace.foldl Granted.apply .start).streams pointer = maxWindowSize := by
    have known := balanced.streams pointer stream.flow (by rw [ledger, flows_ledger, listed]; rfl)
    exact ⟨known.1, known.2.1⟩
  have control := balanced.control
  rw [ledger] at control
  refine ⟨fun pointer stream listed => ?_, ?_, fun _ => ⟨?_, fun pointer stream listed => ?_⟩, ?_,
    balanced.returned⟩
  · rw [(full pointer stream listed).1, (full pointer stream listed).2]
  · rw [control.2]
    exact congrArg _ control.1
  · rw [control.2]
    exact ⟨by decide, by decide⟩
  · rw [(full pointer stream listed).2]
    exact ⟨by decide, by decide⟩
  · intro event member
    rcases fairly.mem member with ⟨_, fair⟩
    exact fair

/-- Data on stream 0. -/
theorem trace_stray :
    (afterFrames (plainEnv true []) true
      [some (⟨3, FrameType.data, Flag.unset, 0⟩, [1, 2, 3])]).state.conn.trace =
      [.sent ⟨6, 4, 0, 0, [0, 3, 0, 0, 0, 101]⟩ none,
        .sent ⟨6, 4, 0, 0, [0, 4, 127, 255, 255, 255]⟩ none,
        .received ⟨3, 0, 0, 0⟩ [1, 2, 3], .data 0 3, .credited none 3,
        .sent ⟨4, 8, 0, 0, [0, 0, 0, 3]⟩ none,
        .sent ⟨8, 7, 0, 0, [0, 0, 0, 0, 0, 0, 0, 5]⟩ none, .returned (-1)] := by
  decide

theorem creditConserved_of_returns_stray :
    CreditConserved (afterFrames (plainEnv true []) true
      [some (⟨3, FrameType.data, Flag.unset, 0⟩, [1, 2, 3])]).state.conn := by
  have returns : Throughout Granted.apply Granted.Returns .start (afterFrames (plainEnv true [])
      true [some (⟨3, FrameType.data, Flag.unset, 0⟩, [1, 2, 3])]).state.conn.trace := by
    rw [trace_stray]
    simp only [throughout_cons, throughout_nil, Granted.Returns, and_true, true_and]
    exact .inr ⟨by decide, by decide⟩
  have conserved := creditConserved_of_returns (reachable_afterFrames (plainEnv true []) true
    [some (⟨3, FrameType.data, Flag.unset, 0⟩, [1, 2, 3])] (.inl rfl))
  exact conserved rfl returns

/-- A `POST` request with one octet of data. -/
theorem trace_upload :
    (afterFrames (plainEnv true []) true
      [some (⟨2, FrameType.headers, Flag.endHeaders, 1⟩, [0x83, 0x84]),
        some (⟨1, FrameType.data, Flag.unset, 1⟩, [1])]).state.conn.trace =
      [.sent ⟨6, 4, 0, 0, [0, 3, 0, 0, 0, 101]⟩ none,
        .sent ⟨6, 4, 0, 0, [0, 4, 127, 255, 255, 255]⟩ none,
        .received ⟨2, 1, 4, 1⟩ [131, 132], .created ⟨1, 0⟩ 65535 2147483647, .opened ⟨1, 0⟩,
        .field ⟨.indexed, 3, [58, 109, 101, 116, 104, 111, 100], [80, 79, 83, 84]⟩,
        .line ⟨1, 0⟩ [80, 79, 83, 84, 32, 47, 32, 72, 84, 84, 80, 47, 49, 46, 49, 13, 10],
        .field ⟨.indexed, 4, [58, 112, 97, 116, 104], [47]⟩, .headersEnd ⟨1, 0⟩ .post,
        .cleared ⟨1, 0⟩ false, .returned 2, .received ⟨1, 0, 0, 1⟩ [1], .data 1 1,
        .credited (some ⟨1, 0⟩) 1, .sent ⟨4, 8, 0, 1, [0, 0, 0, 1]⟩ (some ⟨1, 0⟩),
        .pushed ⟨1, 0⟩ 0 1 true, .response ⟨1, 0⟩, .sent ⟨1, 1, 4, 1, [136]⟩ (some ⟨1, 0⟩),
        .building ⟨1, 0⟩ 0 16384 65535,
        .sent ⟨9, 0, 8, 1, [8, 0, 0, 0, 0, 0, 0, 0, 0]⟩ (some ⟨1, 0⟩),
        .sent ⟨9, 0, 9, 1, [8, 0, 0, 0, 0, 0, 0, 0, 0]⟩ (some ⟨1, 0⟩), .returned 1] := by
  decide +kernel

/-- The octet is returned to the stream and not to the connection. -/
theorem not_creditConserved_upload :
    ¬CreditConserved (afterFrames (plainEnv true []) true
      [some (⟨2, FrameType.headers, Flag.endHeaders, 1⟩, [0x83, 0x84]),
        some (⟨1, FrameType.data, Flag.unset, 1⟩, [1])]).state.conn := by
  intro conserved
  have returned := conserved.returned
  rw [trace_upload] at returned
  have none_ : ¬(0 : Nat) = 1 := by decide
  exact none_ returned

end Http2

end HeapHttpd
