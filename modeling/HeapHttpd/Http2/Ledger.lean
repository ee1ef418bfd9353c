import HeapHttpd.Http2.Steps

/-!
# What the trace of a connection tells

The states and the windows of the streams, the windows of the connection and its
header table are what the events of the trace make of them, one after the other.
Claims about runs are claims about such traces.
-/

namespace HeapHttpd

namespace Http2

open General Hpack Http1

variable {X : Type}

/-- The state and the windows of a stream. -/
structure Flow where
  streamState : StreamState
  peerWindowSize : Int
  localWindowSize : Int
  deriving DecidableEq, Repr

/-- What the events of a connection determine. -/
@[ext]
structure Ledger where
  flows : StreamPtr → Option Flow
  peerControlWindowSize : Nat
  localControlWindowSize : Nat
  initialPeerWindowSize : Nat
  initialLocalWindowSize : Nat
  maxFrameSize : Nat
  headerDynamicTable : Std.TreeMap Nat (List UInt8 × List UInt8)

/-- The state and the windows a stream has. -/
def Http2Stream.flow (stream : Http2Stream X) : Flow :=
  { streamState := stream.streamState
    peerWindowSize := stream.peerWindowSize
    localWindowSize := stream.localWindowSize }

/-- The part of a connection that its events determine. -/
def Conn.ledger (conn : Conn X) : Ledger :=
  { flows := fun pointer => (conn.listed pointer).map Http2Stream.flow
    peerControlWindowSize := conn.peerControlWindowSize
    localControlWindowSize := conn.localControlWindowSize
    initialPeerWindowSize := conn.initialPeerWindowSize
    initialLocalWindowSize := conn.initialLocalWindowSize
    maxFrameSize := conn.maxFrameSize
    headerDynamicTable := conn.headerDynamicTable }

/-- What is noted for a frame, when its send succeeds or fails. -/
def Event.sending (succeeds : Bool) (sender : Option StreamPtr) (frame : SentFrame) : Event :=
  if succeeds then .sent frame sender else .unsent frame sender

/-- The length of the data of a `DATA` frame. -/
def SentFrame.dataLength (frame : SentFrame) : Nat :=
  if hasFlag frame.flags Flag.padded then
    frame.payload.length - 1 - (frame.payload.headD 0).toNat
  else frame.payload.length

namespace Flow

/-- A stream that is created with some windows. -/
def new (peerWindowSize localWindowSize : Nat) : Flow :=
  { streamState := .idle
    peerWindowSize := toInt peerWindowSize
    localWindowSize := toInt localWindowSize }

/-- The stream after one of its frames is sent, or should have been. -/
def sends (frame : SentFrame) (flow : Flow) : Flow :=
  if frame.type = FrameType.headers ∨ frame.type = FrameType.pushPromise then
    { flow with streamState := .open }
  else if frame.type = FrameType.rstStream then { flow with streamState := .closed }
  else if frame.type = FrameType.data ∧ hasFlag frame.flags Flag.endStream then
    { flow with
      streamState :=
        if flow.streamState ≠ .halfClosedRemote then .halfClosedLocal else .closed }
  else flow

/-- The stream after the data of a frame are taken from its window. -/
def charge (frame : SentFrame) (flow : Flow) : Flow :=
  if frame.type = FrameType.data then
    { flow with peerWindowSize := toInt (flow.peerWindowSize - frame.dataLength) }
  else flow

/-- The client ends the stream. -/
def ends (flow : Flow) : Flow :=
  { flow with
    streamState :=
      if flow.streamState ≠ .halfClosedLocal then .halfClosedRemote else .closed }

/-- The stream after a window increment of the client. -/
def grants (winSize : Nat) (flow : Flow) : Flow :=
  { flow with peerWindowSize := toInt (flow.peerWindowSize + winSize) }

/-- The stream after data of the client. -/
def takes (length : Nat) (flow : Flow) : Flow :=
  { flow with localWindowSize := toInt (flow.localWindowSize - length) }

/-- The stream after a window increment of the server. -/
def credits (increment : Nat) (flow : Flow) : Flow :=
  { flow with localWindowSize := toInt (flow.localWindowSize + increment) }

end Flow

namespace Ledger

/-- The ledger after the constructor. -/
def start : Ledger :=
  { flows := fun _ => none
    peerControlWindowSize := defaultWindowSize
    localControlWindowSize := defaultWindowSize
    initialPeerWindowSize := defaultWindowSize
    initialLocalWindowSize := maxWindowSize
    maxFrameSize := 16384
    headerDynamicTable := ∅ }

/-- A change of the streams some pointers point to. -/
def update (ledger : Ledger) (concerns : StreamPtr → Bool) (change : Flow → Flow) : Ledger :=
  { ledger with
    flows := fun pointer =>
      if concerns pointer then (ledger.flows pointer).map change else ledger.flows pointer }

/-- A stream that comes or goes. -/
def put (ledger : Ledger) (stream : StreamPtr) (flow : Option Flow) : Ledger :=
  { ledger with flows := fun pointer => if pointer = stream then flow else ledger.flows pointer }

/-- The ledger after a frame is sent, or should have been. -/
def sends (ledger : Ledger) (frame : SentFrame) : Option StreamPtr → Ledger
  | some sender => ledger.update (fun pointer => pointer = sender) (Flow.sends frame)
  | none => ledger

/-- The ledger after the data of a frame are taken from the windows. -/
def charge (ledger : Ledger) (frame : SentFrame) : Option StreamPtr → Ledger
  | some sender =>
      let ledger := ledger.update (fun pointer => pointer = sender) (Flow.charge frame)
      if frame.type = FrameType.data then
        { ledger with
          peerControlWindowSize := toUint (ledger.peerControlWindowSize - frame.dataLength) }
      else ledger
  | none => ledger

/-- The ledger after an event. -/
def apply (ledger : Ledger) : Event → Ledger
  | .sent frame sender => (ledger.sends frame sender).charge frame sender
  | .unsent frame sender => ledger.sends frame sender
  | .created stream peerWindowSize localWindowSize =>
      ledger.put stream (some (.new peerWindowSize localWindowSize))
  | .promised stream =>
      ledger.update (fun pointer => pointer = stream) fun flow =>
        { flow with streamState := .reservedLocal }
  | .erased stream _ => ledger.put stream none
  | .reset stream _ => ledger.put stream none
  | .opened stream =>
      ledger.update (fun pointer => pointer = stream) fun flow =>
        { flow with streamState := .open }
  | .ended stream => ledger.update (fun pointer => pointer = stream) Flow.ends
  | .settings identifier value _ =>
      if identifier = SettingId.initialWindowSize then
        { ledger with initialPeerWindowSize := value }
      else if identifier = SettingId.maxFrameSize then { ledger with maxFrameSize := value }
      else ledger
  | .windowUpdate streamInd winSize _ =>
      if winSize = 0 then ledger
      else if streamInd = 0 then
        { ledger with
          peerControlWindowSize := (ledger.peerControlWindowSize + winSize) % 2 ^ 32 }
      else ledger.update (fun pointer => pointer.streamInd = streamInd) (Flow.grants winSize)
  | .data streamInd length =>
      { ledger.update (fun pointer => pointer.streamInd = streamInd) (Flow.takes length) with
        localControlWindowSize := toUint (ledger.localControlWindowSize - length) }
  | .credited (some stream) increment =>
      ledger.update (fun pointer => pointer = stream) (Flow.credits increment)
  | .credited none increment =>
      { ledger with
        localControlWindowSize := (ledger.localControlWindowSize + increment) % 2 ^ 32 }
  | .field header =>
      { ledger with headerDynamicTable := insertField ledger.headerDynamicTable header }
  | _ => ledger

/-- The ledger after some events. -/
def replay (ledger : Ledger) (events : List Event) : Ledger :=
  events.foldl apply ledger

@[simp]
theorem replay_append (ledger : Ledger) (first second : List Event) :
    ledger.replay (first ++ second) = (ledger.replay first).replay second :=
  List.foldl_append

@[simp]
theorem replay_nil (ledger : Ledger) : ledger.replay [] = ledger :=
  rfl

@[simp]
theorem replay_cons (ledger : Ledger) (event : Event) (events : List Event) :
    ledger.replay (event :: events) = (ledger.apply event).replay events :=
  rfl

/-- The ledger of numbers that fit their types. -/
structure Bounded (ledger : Ledger) : Prop where
  peer : ∀ stream flow, ledger.flows stream = some flow →
    toInt flow.peerWindowSize = flow.peerWindowSize
  control : ledger.peerControlWindowSize < 2 ^ 32

@[simp]
theorem toInt_toInt (value : Int) : toInt (toInt value) = toInt value := by
  unfold toInt
  omega

theorem toUint_lt (value : Int) : toUint value < 2 ^ 32 := by
  unfold toUint
  omega

namespace Bounded

variable {ledger : Ledger}

theorem update (bounded : ledger.Bounded) (concerns : StreamPtr → Bool) {change : Flow → Flow}
    (kept : ∀ flow, toInt flow.peerWindowSize = flow.peerWindowSize →
      toInt (change flow).peerWindowSize = (change flow).peerWindowSize) :
    (ledger.update concerns change).Bounded := by
  refine ⟨fun stream flow present => ?_, bounded.control⟩
  unfold Ledger.update at present
  dsimp only at present
  split at present
  · rcases Option.map_eq_some_iff.mp present with ⟨before, found, rfl⟩
    exact kept before (bounded.peer stream before found)
  · exact bounded.peer stream flow present

theorem put (bounded : ledger.Bounded) (stream : StreamPtr) {flow : Option Flow}
    (kept : ∀ fresh, flow = some fresh → toInt fresh.peerWindowSize = fresh.peerWindowSize) :
    (ledger.put stream flow).Bounded := by
  refine ⟨fun other present found => ?_, bounded.control⟩
  unfold Ledger.put at found
  dsimp only at found
  split at found
  · exact kept present found
  · exact bounded.peer other present found

theorem sends (bounded : ledger.Bounded) (frame : SentFrame) (sender : Option StreamPtr) :
    (ledger.sends frame sender).Bounded := by
  cases sender with
  | none => exact bounded
  | some sender =>
      refine bounded.update _ fun flow fits => ?_
      unfold Flow.sends
      split_ifs <;> exact fits

theorem charge (bounded : ledger.Bounded) (frame : SentFrame) (sender : Option StreamPtr) :
    (ledger.charge frame sender).Bounded := by
  cases sender with
  | none => exact bounded
  | some sender =>
      have charged : (ledger.update (fun pointer => pointer = sender) (Flow.charge frame)).Bounded := by
        refine bounded.update _ fun flow fits => ?_
        unfold Flow.charge
        split
        · simp
        · exact fits
      unfold Ledger.charge
      dsimp only
      split
      · exact ⟨charged.peer, toUint_lt _⟩
      · exact charged

/-- Numbers go on to fit their types. -/
theorem apply (bounded : ledger.Bounded) (event : Event) : (ledger.apply event).Bounded := by
  cases event with
  | sent frame sender => exact (bounded.sends frame sender).charge frame sender
  | unsent frame sender => exact bounded.sends frame sender
  | created stream peerWindowSize localWindowSize =>
      refine bounded.put stream fun fresh isNew => ?_
      cases isNew
      simp [Flow.new]
  | promised stream => exact bounded.update _ fun flow fits => fits
  | erased stream inUse => exact bounded.put stream (by simp)
  | reset stream inUse => exact bounded.put stream (by simp)
  | opened stream => exact bounded.update _ fun flow fits => fits
  | ended stream => exact bounded.update _ fun flow fits => fits
  | settings identifier value payload =>
      simp only [Ledger.apply]
      split_ifs
      · exact ⟨bounded.peer, bounded.control⟩
      · exact ⟨bounded.peer, bounded.control⟩
      · exact bounded
  | windowUpdate streamInd winSize payload =>
      simp only [Ledger.apply]
      split_ifs
      · exact bounded
      · exact ⟨bounded.peer, Nat.mod_lt _ (by decide)⟩
      · exact bounded.update _ fun flow fits => by simp [Flow.grants]
  | data streamInd length =>
      have taken : (ledger.update (fun pointer => pointer.streamInd = streamInd)
          (Flow.takes length)).Bounded := bounded.update _ fun flow fits => fits
      exact ⟨taken.peer, taken.control⟩
  | credited stream increment =>
      cases stream with
      | none => exact ⟨bounded.peer, bounded.control⟩
      | some stream => exact bounded.update _ fun flow fits => fits
  | field header => exact ⟨bounded.peer, bounded.control⟩
  | _ => exact bounded

theorem replay (bounded : ledger.Bounded) (events : List Event) :
    (ledger.replay events).Bounded := by
  induction events generalizing ledger with
  | nil => exact bounded
  | cons event events ih => exact ih (bounded.apply event)

theorem start : Ledger.start.Bounded :=
  ⟨by simp [Ledger.start], by decide⟩

end Bounded

theorem update_id (ledger : Ledger) (concerns : StreamPtr → Bool) :
    ledger.update concerns (fun flow => flow) = ledger := by
  unfold Ledger.update
  simp

theorem update_congr {ledger : Ledger} {concerns : StreamPtr → Bool} {first second : Flow → Flow}
    (same : ∀ stream flow, ledger.flows stream = some flow → concerns stream →
      first flow = second flow) :
    ledger.update concerns first = ledger.update concerns second := by
  unfold Ledger.update
  congr 1
  funext pointer
  split
  · rename_i concerned
    cases present : ledger.flows pointer with
    | none => rfl
    | some flow => simp [same pointer flow present concerned]
  · rfl

theorem charge_of_ne (ledger : Ledger) {frame : SentFrame} (sender : Option StreamPtr)
    (other : frame.type ≠ FrameType.data) : ledger.charge frame sender = ledger := by
  cases sender with
  | none => rfl
  | some sender =>
      have untouched : Flow.charge frame = fun flow => flow := by
        funext flow
        simp [Flow.charge, other]
      simp [charge, other, untouched, update_id]

/-- A frame without data takes nothing from the windows. -/
theorem charge_of_empty {ledger : Ledger} (bounded : ledger.Bounded) {frame : SentFrame}
    (sender : Option StreamPtr) (empty : frame.dataLength = 0) :
    ledger.charge frame sender = ledger := by
  cases sender with
  | none => rfl
  | some sender =>
      have untouched : ledger.update (fun pointer => pointer = sender) (Flow.charge frame) =
          ledger := by
        refine (update_congr fun stream flow present _ => ?_).trans (update_id ledger _)
        simp [Flow.charge, empty, bounded.peer stream flow present]
      have control : toUint (ledger.peerControlWindowSize : Int) = ledger.peerControlWindowSize := by
        have := bounded.control
        unfold toUint
        omega
      simp [charge, untouched, empty, control]

theorem apply_sending {ledger : Ledger} (bounded : ledger.Bounded) {frame : SentFrame}
    {sender : Option StreamPtr} (succeeds : Bool)
    (free : frame.type ≠ FrameType.data ∨ frame.dataLength = 0) :
    ledger.apply (.sending succeeds sender frame) = ledger.sends frame sender := by
  cases succeeds with
  | false => rfl
  | true =>
      rcases free with other | empty
      · exact charge_of_ne _ sender other
      · exact charge_of_empty (bounded.sends frame sender) sender empty

/-- Frames without a sender change nothing. -/
theorem replay_sending_none (ledger : Ledger) (frames : List SentFrame) (succeeds : Bool) :
    ledger.replay (frames.map (Event.sending succeeds none)) = ledger := by
  induction frames with
  | nil => rfl
  | cons frame frames ih => cases succeeds <;> exact ih

theorem sends_of_other (ledger : Ledger) {frame : SentFrame} (sender : Option StreamPtr)
    (other : frame.type = FrameType.windowUpdate ∨
      frame.type = FrameType.data ∧ hasFlag frame.flags Flag.endStream = false) :
    ledger.sends frame sender = ledger := by
  cases sender with
  | none => rfl
  | some sender =>
      have untouched : Flow.sends frame = fun flow => flow := by
        funext flow
        rcases other with isUpdate | ⟨isData, goesOn⟩
        · simp [Flow.sends, isUpdate, FrameType.windowUpdate, FrameType.headers,
            FrameType.pushPromise, FrameType.rstStream, FrameType.data]
        · simp [Flow.sends, isData, goesOn, FrameType.headers, FrameType.pushPromise,
            FrameType.rstStream, FrameType.data]
      simp [sends, untouched, update_id]

end Ledger

/-- What a window update of the server notes.  An asynchronous send does not
fail. -/
inductive Credits (async : Bool) (ledger : Ledger) (streamInd increment : Nat) :
    List Event → Prop
  | finished (stream : StreamPtr) (flow : Flow) (same : stream.streamInd = streamInd)
      (listed : ledger.flows stream = some flow)
      (isFinished : flow.streamState = .halfClosedLocal ∨ flow.streamState = .closed) :
      Credits async ledger streamInd increment []
  | stream (stream : StreamPtr) (flow : Flow) (same : stream.streamInd = streamInd)
      (listed : ledger.flows stream = some flow)
      (unfinished : ¬(flow.streamState = .halfClosedLocal ∨ flow.streamState = .closed))
      (succeeds : Bool) (buffered : async → succeeds) :
      Credits async ledger streamInd increment [.credited (some stream) increment,
        .sending succeeds (some stream)
          (frameOf FrameType.windowUpdate Flag.unset streamInd (hton31 increment))]
  | control (absent : 0 < streamInd → ∀ stream, stream.streamInd = streamInd →
        ledger.flows stream = none) (succeeds : Bool) (buffered : async → succeeds) :
      Credits async ledger streamInd increment [.credited none increment,
        .sending succeeds none
          (frameOf FrameType.windowUpdate Flag.unset streamInd (hton31 increment))]

/-- What may happen at once, in a connection with some ledger; `loose` says that code
that waits has a pointer to what is gone. -/
inductive Happens (async : Bool) (loose : Prop) (ledger : Ledger) : List Event → Prop
  | nothing : Happens async loose ledger []
  | plain (event : Event) (plain : event.IsPlain) : Happens async loose ledger [event]
  | stale (holding : Holding) (isLoose : loose) : Happens async loose ledger [.stale holding]
  | cleared (stream : StreamPtr) (inUse : Bool) : Happens async loose ledger [.cleared stream inUse]
  | control (frames : List SentFrame) (isControl : ∀ frame ∈ frames, frame.IsControl)
      (succeeds : Bool) : Happens async loose ledger (frames.map (Event.sending succeeds none))
  | rstStream (stream : StreamPtr) (listed : (ledger.flows stream).isSome) (succeeds : Bool) :
      Happens async loose ledger [.sending succeeds (some stream)
        (frameOf FrameType.rstStream Flag.unset stream.streamInd (htonl ErrorCode.noError))]
  | exchange (synchronous : async = false) (succeeds : Bool) :
      Happens async loose ledger [.credited none maxWindowSize, .sending succeeds none
        (frameOf FrameType.windowUpdate Flag.unset 0 (hton31 maxWindowSize))]
  | header (stream : StreamPtr) (listed : (ledger.flows stream).isSome) (frameType : UInt8)
      (kind : frameType = FrameType.headers ∨ frameType = FrameType.pushPromise)
      (payload : List UInt8) (head succeeds : Bool) :
      Happens async loose ledger ((frameOf frameType Flag.endHeaders stream.streamInd payload ::
        if head then [frameOf FrameType.data Flag.unset stream.streamInd []] else []).map
          (Event.sending succeeds (some stream)))
  | emptyContent (stream : StreamPtr) (listed : (ledger.flows stream).isSome) (padding : Nat)
      (some_ : 0 < ledger.maxFrameSize)
      (fills : padding = min (ledger.maxFrameSize - 1) dataPaddingLen) (succeeds : Bool) :
      Happens async loose ledger [.sending succeeds (some stream)
        (frameOf FrameType.data (Flag.endStream ||| Flag.padded) stream.streamInd
          (UInt8.ofNat padding :: List.replicate padding 0))]
  | content (stream : StreamPtr) (window : Int) (rest : List UInt8)
      (agrees : ∀ flow, ledger.flows stream = some flow → flow.peerWindowSize = window)
      (listed : (ledger.flows stream).isSome ∨ loose) (succeeds : Bool) :
      Happens async loose ledger [.building stream rest.length ledger.maxFrameSize window,
        .sending succeeds (some stream)
          (contentFrame ledger.maxFrameSize window stream.streamInd rest)]
  | create (stream : StreamPtr) (positive : 0 < stream.streamInd)
      (fresh : ∀ other, other.streamInd = stream.streamInd → ledger.flows other = none) :
      Happens async loose ledger [.created stream ledger.initialPeerWindowSize
        ledger.initialLocalWindowSize]
  | promise (stream : StreamPtr) (positive : 0 < stream.streamInd)
      (fresh : ∀ other, other.streamInd = stream.streamInd → ledger.flows other = none) :
      Happens async loose ledger [.created stream ledger.initialPeerWindowSize
        ledger.initialLocalWindowSize,
        .promised stream]
  | erase (stream : StreamPtr) (inUse : Bool) : Happens async loose ledger [.erased stream inUse]
  | reset (stream : StreamPtr) (inUse : Bool) : Happens async loose ledger [.reset stream inUse]
  | opens (stream : StreamPtr) (listed : (ledger.flows stream).isSome) :
      Happens async loose ledger [.opened stream]
  | ends (stream : StreamPtr) : Happens async loose ledger [.ended stream]
  | setting (setting payload : List UInt8)
      (first : 6 ≤ payload.length → setting = payload.take 6) :
      Happens async loose ledger [.settings (ntoh (setting.take 2)) (ntoh (setting.drop 2)) payload]
  | windowUpdate (streamInd winSize : Nat) (payload : List UInt8)
      (increment : 4 ≤ payload.length → winSize = ntoh31 (payload.take 4) % 2 ^ 31) :
      Happens async loose ledger [.windowUpdate streamInd winSize payload]
  | data (streamInd length : Nat) (extra credits : List Event)
      (emptied : extra = [] ∨
        (∃ stream flow, stream.streamInd = streamInd ∧
          (ledger.apply (.data streamInd length)).flows stream = some flow ∧
          flow.localWindowSize ≤ 0) ∧
        Credits async (ledger.apply (.data streamInd length)) streamInd
          ledger.initialLocalWindowSize extra)
      (returned : Credits async ((ledger.apply (.data streamInd length)).replay extra) streamInd
        length credits) :
      Happens async loose ledger (.data streamInd length :: (extra ++ credits))
  | headersEnd (stream : StreamPtr) (method : HttpMethod) :
      Happens async loose ledger (.headersEnd stream method ::
        if method = .post then [] else [.response stream])
  | pushed (stream : StreamPtr) (contentLength : Int) (stored : Nat) (complete : Bool) :
      Happens async loose ledger (.pushed stream contentLength stored complete ::
        if complete then [.response stream] else [])
  | field (header : Header) : Happens async loose ledger [.field header]

theorem Event.sent_eq_sending {frame frame' : SentFrame} {sender sender' : Option StreamPtr}
    {succeeds : Bool} (same : Event.sent frame sender = .sending succeeds sender' frame') :
    frame = frame' ∧ sender = sender' := by
  cases succeeds with
  | false => cases same
  | true =>
      cases same
      exact ⟨rfl, rfl⟩

theorem Credits.sent {async : Bool} {ledger : Ledger} {streamInd increment : Nat}
    {events : List Event} (credits : Credits async ledger streamInd increment events)
    {frame : SentFrame} {sender : Option StreamPtr} (member : .sent frame sender ∈ events) :
    frame.type = FrameType.windowUpdate := by
  cases credits with
  | finished => cases member
  | stream =>
      simp only [List.mem_cons, reduceCtorEq, false_or, List.not_mem_nil, or_false] at member
      rw [(Event.sent_eq_sending member).1]
      rfl
  | control =>
      simp only [List.mem_cons, reduceCtorEq, false_or, List.not_mem_nil, or_false] at member
      rw [(Event.sent_eq_sending member).1]
      rfl

/-- Where streams come from: their number is new, and they start with the initial
windows. -/
theorem Happens.creates {async : Bool} {loose : Prop} {ledger : Ledger} {events : List Event}
    (happens : Happens async loose ledger events) :
    (∃ stream rest, 0 < stream.streamInd ∧
      (∀ other, other.streamInd = stream.streamInd → ledger.flows other = none) ∧
      events = .created stream ledger.initialPeerWindowSize ledger.initialLocalWindowSize :: rest ∧
        (rest = [] ∨ rest = [.promised stream])) ∨
    ∀ stream peerWindowSize localWindowSize,
      .created stream peerWindowSize localWindowSize ∉ events := by
  have quiet (sender : Option StreamPtr) (succeeds : Bool) (frames : List SentFrame)
      (stream : StreamPtr) (peerWindowSize localWindowSize : Nat) :
      .created stream peerWindowSize localWindowSize ∉
        frames.map (Event.sending succeeds sender) := by
    cases succeeds <;> simp [Event.sending]
  have uncredited {ledger : Ledger} {streamInd increment : Nat} {credits : List Event}
      (credited : Credits async ledger streamInd increment credits) (stream : StreamPtr)
      (peerWindowSize localWindowSize : Nat) :
      .created stream peerWindowSize localWindowSize ∉ credits := by
    cases credited with
    | finished => simp
    | stream _ _ _ _ _ succeeds => cases succeeds <;> simp [Event.sending]
    | control _ succeeds => cases succeeds <;> simp [Event.sending]
  cases happens with
  | create stream positive fresh => exact .inl ⟨stream, [], positive, fresh, rfl, .inl rfl⟩
  | promise stream positive fresh => exact .inl ⟨stream, _, positive, fresh, rfl, .inr rfl⟩
  | control frames => exact .inr (quiet none _ frames)
  | header stream => exact .inr (quiet (some stream) _ _)
  | rstStream stream => exact .inr (quiet (some stream) _ [_])
  | emptyContent stream => exact .inr (quiet (some stream) _ [_])
  | exchange synchronous succeeds => exact .inr (by cases succeeds <;> simp [Event.sending])
  | content stream window rest agrees listed succeeds =>
      exact .inr (by cases succeeds <;> simp [Event.sending])
  | data ind length extra credits emptied returned =>
      refine .inr fun stream peerWindowSize localWindowSize member => ?_
      simp only [List.mem_cons, reduceCtorEq, false_or, List.mem_append] at member
      rcases member with isExtra | isCredit
      · rcases emptied with rfl | ⟨-, credited⟩
        · cases isExtra
        · exact uncredited credited _ _ _ isExtra
      · exact uncredited returned _ _ _ isCredit
  | plain event plain =>
      refine .inr fun stream peerWindowSize localWindowSize member => ?_
      cases List.mem_singleton.mp member
      exact plain.elim
  | headersEnd => exact .inr fun _ _ _ member => by split at member <;> simp at member
  | pushed => exact .inr fun _ _ _ member => by split at member <;> simp at member
  | _ => exact .inr fun _ _ _ member => by simp at member

/-- The traces of a connection. -/
inductive History (async : Bool) : List Event → Prop
  | start : History async []
  | more (trace events : List Event) (history : History async trace) (loose : Prop)
      (happens : Happens async loose (Ledger.start.replay trace) events) :
      History async (trace ++ events)

end Http2

end HeapHttpd
