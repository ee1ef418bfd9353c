import HeapHttpd.Http2.Ledger
import HeapHttpd.Library.Replay
import HeapHttpd.Http2.Runs

/-!
# Histories

Every step of a connection notes what may happen at once, and changes the ledger
as the events say.  The trace of a connection is therefore a history, and its
ledger is what the trace tells.
-/

namespace HeapHttpd

namespace Http2

open General Hpack Http1 Replay

variable {X : Type}

section Effects

variable (env : Env X) (conn : Conn X)

@[simp]
theorem trace_log (event : Event) : (conn.log event).trace = conn.trace ++ [event] :=
  rfl

@[simp]
theorem trace_assign (stream : StreamPtr) (change : Http2Stream X → Http2Stream X) :
    (conn.assign stream change).trace = conn.trace := by
  unfold Conn.assign
  split <;> rfl

@[simp]
theorem peerControlWindowSize_assign (stream : StreamPtr)
    (change : Http2Stream X → Http2Stream X) :
    (conn.assign stream change).peerControlWindowSize = conn.peerControlWindowSize := by
  unfold Conn.assign
  split <;> rfl

@[simp]
theorem trace_modifyStream (streamInd : Nat) (change : Http2Stream X → Http2Stream X) :
    (conn.modifyStream streamInd change).trace = conn.trace :=
  rfl

theorem trace_clearHpack (stream : StreamPtr) :
    ∃ inUse, (conn.clearHpack stream).trace = conn.trace ++ [.cleared stream inUse] := by
  unfold Conn.clearHpack
  rw [trace_log, trace_assign]
  exact ⟨_, rfl⟩

theorem sending_eq (sender : Option StreamPtr) :
    conn.sending env sender =
      Event.sending (decide (env.async ∨ env.sendFails conn.trace.length = false)) sender := by
  funext frame
  simp [Conn.sending, Event.sending]

@[simp]
theorem ledger_log (event : Event) : (conn.log event).ledger = conn.ledger :=
  rfl

@[simp]
theorem ledger_httpSend (frames : List SentFrame) (sender : Option StreamPtr) :
    (conn.httpSend env frames sender).1.ledger = conn.ledger := by
  rw [httpSend_fst]
  rfl

variable {conn}

theorem ledger_assign {stream : StreamPtr} {change : Http2Stream X → Http2Stream X}
    (flowChange : Flow → Flow) (object : ∀ before, (change before).object = before.object)
    (flow : ∀ before, (change before).flow = flowChange before.flow) :
    (conn.assign stream change).ledger =
      conn.ledger.update (fun pointer => pointer = stream) flowChange := by
  ext1
  · funext pointer
    show ((conn.assign stream change).listed pointer).map Http2Stream.flow = _
    rw [listed_assign object]
    by_cases same : pointer = stream
    · simp [Ledger.update, Conn.ledger, same, Function.comp_def, flow]
    · simp [Ledger.update, Conn.ledger, same]
  all_goals
    unfold Conn.assign
    split <;> rfl

theorem ledger_assign_same {stream : StreamPtr} {change : Http2Stream X → Http2Stream X}
    (object : ∀ before, (change before).object = before.object)
    (flow : ∀ before, (change before).flow = before.flow) :
    (conn.assign stream change).ledger = conn.ledger :=
  (ledger_assign (fun flow => flow) object flow).trans (Ledger.update_id _ _)

theorem ledger_modifyStream {streamInd : Nat} {change : Http2Stream X → Http2Stream X}
    (flowChange : Flow → Flow) (object : ∀ before, (change before).object = before.object)
    (flow : ∀ before, (change before).flow = flowChange before.flow) :
    (conn.modifyStream streamInd change).ledger =
      conn.ledger.update (fun pointer => pointer.streamInd = streamInd) flowChange := by
  ext1
  · funext pointer
    show ((conn.modifyStream streamInd change).listed pointer).map Http2Stream.flow = _
    rw [listed_modifyStream object]
    by_cases same : pointer.streamInd = streamInd
    · simp [Ledger.update, Conn.ledger, same, Function.comp_def, flow]
    · simp [Ledger.update, Conn.ledger, same]
  all_goals rfl

/-- Where one pointer is listed under a key, a change of the stream under the key
is a change of the stream the pointer points to. -/
theorem ledger_modifyStream_of_listed {stream : StreamPtr} {change : Http2Stream X → Http2Stream X}
    (flowChange : Flow → Flow) (listed : (conn.listed stream).isSome)
    (object : ∀ before, (change before).object = before.object)
    (flow : ∀ before, (change before).flow = flowChange before.flow) :
    (conn.modifyStream stream.streamInd change).ledger =
      conn.ledger.update (fun pointer => pointer = stream) flowChange := by
  rw [ledger_modifyStream flowChange object flow]
  unfold Ledger.update
  congr 1
  funext pointer
  by_cases same : pointer = stream
  · simp [same]
  · by_cases sameKey : pointer.streamInd = stream.streamInd
    · have absent : conn.listed pointer = none := by
        rcases Option.isSome_iff_exists.mp listed with ⟨present, found⟩
        cases other : conn.listed pointer with
        | none => rfl
        | some otherStream => exact absurd (eq_of_listed other found sameKey) same
      simp [same, sameKey, Conn.ledger, absent]
    · simp [same, sameKey]

theorem SameFlow.flow_eq {before after : Http2Stream X} (same : SameFlow before after) :
    after.flow = before.flow := by
  simp [Http2Stream.flow, same.streamState, same.peerWindowSize, same.localWindowSize]

theorem flows_ledger (conn : Conn X) (stream : StreamPtr) :
    conn.ledger.flows stream = (conn.listed stream).map Http2Stream.flow :=
  rfl

theorem isSome_flows {conn : Conn X} {stream : StreamPtr} :
    (conn.ledger.flows stream).isSome = (conn.listed stream).isSome := by
  simp [flows_ledger]

theorem ledger_createStream {streamInd : Nat} (fresh : conn.streamList[streamInd]? = none) :
    (conn.createStream env streamInd).ledger =
      conn.ledger.apply (.created ⟨streamInd, conn.nextObject⟩ conn.initialPeerWindowSize
        conn.initialLocalWindowSize) := by
  ext1
  · funext pointer
    show ((conn.createStream env streamInd).listed pointer).map Http2Stream.flow = _
    rw [listed_createStream fresh]
    by_cases same : pointer = ⟨streamInd, conn.nextObject⟩
    · simp [Ledger.apply, Ledger.put, same, Conn.newStream, Http2Stream.flow, Flow.new]
    · simp [Ledger.apply, Ledger.put, same, Conn.ledger]
  all_goals rfl

theorem ledger_resetStream {stream : StreamPtr} {reset : Http2Stream X}
    (listed : conn.listed stream = some reset) (inUse : Bool) :
    (conn.resetStream stream).ledger = conn.ledger.apply (.reset stream inUse) := by
  ext1
  · funext pointer
    show ((conn.resetStream stream).listed pointer).map Http2Stream.flow = _
    rw [listed_resetStream]
    by_cases same : pointer = stream
    · simp [Ledger.apply, Ledger.put, same]
    · simp [Ledger.apply, Ledger.put, same, Conn.ledger]
  all_goals
    unfold Conn.resetStream
    rw [listed]
    rfl

theorem ledger_eraseStream {stream : StreamPtr} (listed : (conn.listed stream).isSome)
    (inUse : Bool) : (conn.eraseStream stream).ledger = conn.ledger.apply (.erased stream inUse) := by
  ext1
  · funext pointer
    show ((conn.eraseStream stream).listed pointer).map Http2Stream.flow = _
    rw [listed_eraseStream listed]
    by_cases same : pointer = stream
    · simp [Ledger.apply, Ledger.put, same]
    · simp [Ledger.apply, Ledger.put, same, Conn.ledger]
  all_goals rfl

end Effects

/-- What code that waits has pointers to is still there. -/
def Conn.Owned (conn : Conn X) : Prop :=
  ∀ holding ∈ conn.held, conn.touch holding = conn

/-- What a step notes and what the ledger is behind it. -/
def Notes (env : Env X) (conn conn' : Conn X) : Prop :=
  ∃ events, Happens env.async (¬conn.Owned) conn.ledger events ∧ conn'.trace = conn.trace ++ events ∧
    conn'.ledger = conn.ledger.replay events

section Notes

variable {env : Env X} {conn conn' : Conn X}

theorem notes_quiet (trace : conn'.trace = conn.trace) (ledger : conn'.ledger = conn.ledger) :
    Notes env conn conn' :=
  ⟨[], .nothing, by simp [trace], ledger⟩

theorem notes_log {event : Event} (happens : Happens env.async (¬conn.Owned) conn.ledger [event])
    (silent : conn.ledger.apply event = conn.ledger) : Notes env conn (conn.log event) :=
  ⟨[event], happens, rfl, silent.symm⟩

theorem notes_sendRstStream (stream : StreamPtr) (listed : (conn.listed stream).isSome)
    (bounded : conn.ledger.Bounded) : Notes env conn (conn.sendRstStream env stream) := by
  refine ⟨_, .rstStream stream (isSome_flows.trans listed)
    (decide (env.async ∨ env.sendFails conn.trace.length = false)), ?_, ?_⟩
  · simp [Conn.sendRstStream, httpSend_fst, sending_eq]
  · have closes : conn.ledger.replay [.sending
        (decide (env.async ∨ env.sendFails conn.trace.length = false)) (some stream)
        (frameOf FrameType.rstStream Flag.unset stream.streamInd (htonl ErrorCode.noError))] =
        conn.ledger.update (fun pointer => pointer = stream) fun flow =>
          { flow with streamState := .closed } := by
      rw [Ledger.replay_cons, Ledger.apply_sending bounded _ (.inl (show FrameType.rstStream ≠ FrameType.data by decide))]
      rfl
    rw [closes, ← ledger_httpSend env conn]
    exact ledger_assign _ (fun _ => rfl) fun _ => rfl

/-- What a window update notes, and what it does. -/
theorem notes_sendWindowUpdate (env : Env X) (streamInd increment : Nat) (bounded : conn.ledger.Bounded) :
    ∃ events, Credits env.async conn.ledger streamInd increment events ∧
      (conn.sendWindowUpdate env streamInd increment).trace = conn.trace ++ events ∧
      (conn.sendWindowUpdate env streamInd increment).ledger = conn.ledger.replay events := by
  have sent (credited : Ledger) (fits : credited.Bounded) (sender : Option StreamPtr)
      (succeeds : Bool) : credited.replay [.sending succeeds sender
        (frameOf FrameType.windowUpdate Flag.unset streamInd (hton31 increment))] = credited := by
    rw [Ledger.replay_cons, Ledger.apply_sending fits _ (.inl (show FrameType.windowUpdate ≠ FrameType.data by decide))]
    exact credited.sends_of_other sender (.inl rfl)
  have buffered (isAsync : env.async = true) :
      decide (env.async = true ∨ env.sendFails (conn.trace.length + 1) = false) = true := by
    simp [isAsync]
  unfold Conn.sendWindowUpdate
  dsimp only
  split
  · rename_i stream found
    have listed := listed_of_getStreamInstance found
    have present : conn.ledger.flows ⟨streamInd, stream.object⟩ = some stream.flow := by
      simp [flows_ledger, listed]
    split
    · rename_i isFinished
      exact ⟨[], .finished _ stream.flow rfl present isFinished, by simp, rfl⟩
    · rename_i unfinished
      refine ⟨_, .stream ⟨streamInd, stream.object⟩ stream.flow rfl present unfinished
        (decide (env.async ∨ env.sendFails (conn.trace.length + 1) = false)) buffered, ?_, ?_⟩
      · simp [httpSend_fst, sending_eq]
      · rw [Ledger.replay_cons, sent _ (bounded.apply _)]
        show (Conn.modifyStream _ (StreamPtr.mk streamInd stream.object).streamInd _).ledger = _
        rw [ledger_modifyStream_of_listed (Flow.credits increment) ?_ ?_ fun _ => rfl]
        · simp [Ledger.apply]
        · simp [listed]
        · exact fun _ => rfl
  · rename_i missing
    refine ⟨_, .control (fun positive stream same => ?_)
      (decide (env.async ∨ env.sendFails (conn.trace.length + 1) = false)) buffered, ?_, ?_⟩
    · have absent : conn.streamList[streamInd]? = none := by
        simpa [Conn.getStreamInstance, positive] using missing
      simp [flows_ledger, Conn.listed, same, absent]
    · simp [httpSend_fst, sending_eq]
    · rw [Ledger.replay_cons, sent _ (bounded.apply _), httpSend_fst]
      rfl

theorem preSendLen_le (maxFrameSize : Nat) (window : Int) (remaining : Nat) :
    preSendLen maxFrameSize window remaining ≤ remaining := by
  unfold preSendLen
  exact le_trans (min_le_left _ _) (min_le_left _ _)

theorem dataLength_contentFrame (maxFrameSize : Nat) (window : Int) (streamInd : Nat)
    (rest : List UInt8) :
    (contentFrame maxFrameSize window streamInd rest).dataLength =
      preSendLen maxFrameSize window rest.length := by
  have within := preSendLen_le maxFrameSize window rest.length
  unfold contentFrame
  dsimp only
  split
  · have padding (few : Nat) (small : few < 256) : (UInt8.ofNat few).toNat = few := by
      simpa using small
    have padded : hasFlag Flag.padded Flag.padded = true := by decide
    simp only [SentFrame.dataLength, frameOf, padded, if_true, List.length_append,
      List.length_cons, List.length_replicate, List.length_take, List.headD_cons,
      List.cons_append]
    rw [padding _ (by simp only [dataPaddingLen]; omega)]
    omega
  · have bare : hasFlag Flag.unset Flag.padded = false := by decide
    simp [SentFrame.dataLength, frameOf, bare, within]

/-- What a call of `TransHttp1SendHttp2Header` does. -/
theorem transHttp1SendHttp2Header_eq_ok {streamInd : Nat} {text : List UInt8} {frameType : UInt8}
    {promisedStreamInd : Nat} {ret : Int}
    (sent : conn.transHttp1SendHttp2Header env streamInd text frameType promisedStreamInd =
      .ok (conn', ret)) :
    conn' = conn ∨ ∃ (stream : Http2Stream X) (payload : List UInt8) (head : Bool),
      conn.listed ⟨streamInd, stream.object⟩ = some stream ∧
      conn' = (conn.httpSend env (frameOf frameType Flag.endHeaders streamInd payload ::
        if head then [frameOf FrameType.data Flag.unset streamInd []] else [])
          (some ⟨streamInd, stream.object⟩)).1.modifyStream streamInd fun stream =>
            { stream with streamState := .open } := by
  unfold Conn.transHttp1SendHttp2Header at sent
  split at sent
  · cases sent
    exact .inl rfl
  · rename_i stream found
    split at sent
    · dsimp only at sent
      split at sent
      · cases sent
      · rename_i built _ _
        cases sent
        refine .inr ⟨stream, (if frameType = FrameType.pushPromise then hton31 promisedStreamInd
          else []) ++ built.field, decide (stream.http1.httpMethod = .head),
          listed_of_getStreamInstance found, ?_⟩
        congr 3
        by_cases isHead : stream.http1.httpMethod = .head <;> simp only [isHead] <;> rfl
    · cases sent

theorem notes_sendHeader {streamInd : Nat} {text : List UInt8} {frameType : UInt8}
    {promisedStreamInd : Nat} {ret : Int}
    (kind : frameType = FrameType.headers ∨ frameType = FrameType.pushPromise)
    (sent : conn.transHttp1SendHttp2Header env streamInd text frameType promisedStreamInd =
      .ok (conn', ret)) (bounded : conn.ledger.Bounded) : Notes env conn conn' := by
  rcases transHttp1SendHttp2Header_eq_ok sent with rfl | ⟨stream, payload, head, listed, rfl⟩
  · exact notes_quiet rfl rfl
  · refine ⟨_, .header ⟨streamInd, stream.object⟩ (by simp [flows_ledger, listed]) frameType
      kind payload head (decide (env.async ∨ env.sendFails conn.trace.length = false)), ?_, ?_⟩
    · simp [httpSend_fst, sending_eq]
    · have other : frameType ≠ FrameType.data := by
        rcases kind with rfl | rfl <;> decide
      have opens : Flow.sends (frameOf frameType Flag.endHeaders streamInd payload) =
          fun flow => { flow with streamState := .open } := by
        funext flow
        simp [Flow.sends, frameOf, kind]
      have first (succeeds : Bool) : conn.ledger.apply (.sending succeeds
          (some ⟨streamInd, stream.object⟩)
          (frameOf frameType Flag.endHeaders streamInd payload)) =
          conn.ledger.update (fun pointer => pointer = ⟨streamInd, stream.object⟩)
            fun flow => { flow with streamState := .open } := by
        rw [Ledger.apply_sending bounded _ (.inl other), Ledger.sends, opens]
      have second (succeeds : Bool) (ledger : Ledger) (fits : ledger.Bounded) :
          ledger.apply (.sending succeeds (some ⟨streamInd, stream.object⟩)
            (frameOf FrameType.data Flag.unset streamInd [])) = ledger := by
        rw [Ledger.apply_sending fits _ (.inr (by simp [SentFrame.dataLength, frameOf, hasFlag, Flag.unset, Flag.padded]))]
        exact ledger.sends_of_other _ (.inr ⟨rfl, show hasFlag Flag.unset Flag.endStream = false by decide⟩)
      show (Conn.modifyStream _ (StreamPtr.mk streamInd stream.object).streamInd _).ledger = _
      rw [ledger_modifyStream_of_listed (fun flow => { flow with streamState := .open }) ?_ ?_
        fun _ => rfl]
      · cases head with
        | false => simp [first]
        | true =>
            simp only [if_true, List.map_cons, List.map_nil, Ledger.replay_cons, Ledger.replay_nil,
              first, ledger_httpSend]
            refine (second _ _ ?_).symm
            exact bounded.update _ fun flow fits => fits
      · simp [listed]
      · exact fun _ => rfl

/-- What a call of `SendHttp2EmptyContent` that ends its stream does. -/
theorem sendHttp2EmptyContent_eq_ok {streamInd : Nat} {ret : Int}
    (sent : conn.sendHttp2EmptyContent env streamInd (Flag.endStream ||| Flag.padded) =
      .ok (conn', ret)) :
    conn' = conn ∨ ∃ (stream : Http2Stream X) (padding : Nat),
      conn.listed ⟨streamInd, stream.object⟩ = some stream ∧ 0 < conn.maxFrameSize ∧
      padding = min (conn.maxFrameSize - 1) dataPaddingLen ∧
      conn' = (conn.httpSend env [frameOf FrameType.data (Flag.endStream ||| Flag.padded) streamInd
        (UInt8.ofNat padding :: List.replicate padding 0)]
          (some ⟨streamInd, stream.object⟩)).1.modifyStream streamInd fun stream =>
            { stream with
              streamState :=
                if stream.streamState ≠ .halfClosedRemote then .halfClosedLocal else .closed } := by
  unfold Conn.sendHttp2EmptyContent at sent
  split at sent
  · cases sent
    exact .inl rfl
  · rename_i stream found
    split at sent
    · cases sent
    · rename_i some_
      dsimp only at sent
      rw [if_pos (show hasFlag (Flag.endStream ||| Flag.padded) Flag.endStream = true by decide)]
        at sent
      cases sent
      refine .inr ⟨stream, if conn.maxFrameSize < dataPaddingLen + 1 then conn.maxFrameSize - 1
          else dataPaddingLen, listed_of_getStreamInstance found, Nat.pos_of_ne_zero some_, ?_, rfl⟩
      split <;> simp only [dataPaddingLen] at * <;> omega

theorem notes_sendEmptyContent {streamInd : Nat} {ret : Int}
    (sent : conn.sendHttp2EmptyContent env streamInd (Flag.endStream ||| Flag.padded) =
      .ok (conn', ret)) (bounded : conn.ledger.Bounded) : Notes env conn conn' := by
  rcases sendHttp2EmptyContent_eq_ok sent with rfl | ⟨stream, padding, listed, some_, few, rfl⟩
  · exact notes_quiet rfl rfl
  · refine ⟨_, .emptyContent ⟨streamInd, stream.object⟩ (by simp [flows_ledger, listed]) padding
      some_ few (decide (env.async ∨ env.sendFails conn.trace.length = false)),
      ?_, ?_⟩
    · simp [httpSend_fst, sending_eq]
    · have ends : Flow.sends (frameOf FrameType.data (Flag.endStream ||| Flag.padded) streamInd
          (UInt8.ofNat padding :: List.replicate padding 0)) = fun flow =>
            { flow with
              streamState :=
                if flow.streamState ≠ .halfClosedRemote then .halfClosedLocal else .closed } := by
        have last : hasFlag (Flag.endStream ||| Flag.padded) Flag.endStream = true := by decide
        funext flow
        simp [Flow.sends, frameOf, last, FrameType.data, FrameType.headers,
          FrameType.pushPromise, FrameType.rstStream]
      have empty : (frameOf FrameType.data (Flag.endStream ||| Flag.padded) streamInd
          (UInt8.ofNat padding :: List.replicate padding 0)).dataLength = 0 := by
        have small : padding < 256 := by
          have := min_le_right (conn.maxFrameSize - 1) dataPaddingLen
          simp only [dataPaddingLen] at this few
          omega
        have exactly : (UInt8.ofNat padding).toNat = padding := by simpa using small
        have padded : hasFlag (Flag.endStream ||| Flag.padded) Flag.padded = true := by decide
        simp [SentFrame.dataLength, frameOf, padded, exactly]
      show (Conn.modifyStream _ (StreamPtr.mk streamInd stream.object).streamInd _).ledger = _
      rw [ledger_modifyStream_of_listed (fun flow =>
        { flow with
          streamState :=
            if flow.streamState ≠ .halfClosedRemote then .halfClosedLocal else .closed }) ?_ ?_
        fun _ => rfl]
      · rw [Ledger.replay_cons, Ledger.apply_sending bounded _ (.inr empty), Ledger.sends, ends]
        simp
      · simp [listed]
      · exact fun _ => rfl

theorem httpSend_snd_eq (frames : List SentFrame) (sender : Option StreamPtr) :
    (conn.httpSend env frames sender).2 = -1 ↔
      ¬(env.async ∨ env.sendFails conn.trace.length = false) := by
  unfold Conn.httpSend
  split
  · rename_i async
    simp only [async, true_or, not_true, iff_false]
    have sum : 0 ≤ (frames.map fun frame => (frame.octets.length : Int)).sum := by
      induction frames with
      | nil => simp
      | cons frame frames ih =>
          rw [List.map_cons, List.sum_cons]
          omega
    omega
  · split <;> simp [*]

theorem httpSend_one (frame : SentFrame) (sender : Option StreamPtr) :
    (conn.httpSend env [frame] sender).1 = conn.log
      (.sending (decide (env.async ∨ env.sendFails conn.trace.length = false)) sender frame) := by
  rw [httpSend_fst, sending_eq]
  rfl

/-- What a pass of `TransHttp1SendHttp2Content` does. -/
theorem sendData_eq_ok {stream : StreamPtr} {rest : List UInt8} {ret : Int} {pre : Nat}
    (sent : conn.sendData env stream rest = .ok (conn', (ret, pre))) :
    ∃ sender succeeds, conn.deref stream = some sender ∧
      pre = preSendLen conn.maxFrameSize sender.peerWindowSize rest.length ∧
      (ret = -1 ↔ succeeds = false) ∧
      conn' =
        let sending := (conn.log (.building stream rest.length conn.maxFrameSize
          sender.peerWindowSize)).log (.sending succeeds (some stream)
            (contentFrame conn.maxFrameSize sender.peerWindowSize stream.streamInd rest))
        if succeeds then
          { sending.assign stream fun sender =>
              { sender with peerWindowSize := toInt (sender.peerWindowSize - pre) } with
            peerControlWindowSize := toUint (conn.peerControlWindowSize - pre) }
        else sending := by
  unfold Conn.sendData at sent
  split at sent
  · cases sent
  · rename_i sender found
    dsimp only at sent
    split at sent
    · cases sent
    · refine ⟨sender, decide (env.async ∨ env.sendFails (conn.trace.length + 1) = false), found, ?_⟩
      split at sent
      · rename_i going
        have succeeds : env.async ∨ env.sendFails (conn.trace.length + 1) = false := by
          by_contra fails
          exact going ((httpSend_snd_eq _ _).mpr (by simpa using fails))
        cases sent
        refine ⟨rfl, by simp [going, succeeds], ?_⟩
        simp [httpSend_one, succeeds]
        rfl
      · rename_i failing
        have fails : ¬(env.async ∨ env.sendFails (conn.trace.length + 1) = false) := by
          simpa using (httpSend_snd_eq _ _).mp (not_not.mp failing)
        cases sent
        refine ⟨rfl, by simp [not_not.mp failing, fails], ?_⟩
        simp [httpSend_one, fails]

theorem type_contentFrame (maxFrameSize : Nat) (window : Int) (streamInd : Nat)
    (rest : List UInt8) :
    (contentFrame maxFrameSize window streamInd rest).type = FrameType.data ∧
      hasFlag (contentFrame maxFrameSize window streamInd rest).flags Flag.endStream = false := by
  unfold contentFrame
  dsimp only
  split
  · exact ⟨rfl, show hasFlag Flag.padded Flag.endStream = false by decide⟩
  · exact ⟨rfl, show hasFlag Flag.unset Flag.endStream = false by decide⟩

/-- What a content frame makes of the ledger when it is sent. -/
theorem apply_sent_contentFrame (ledger : Ledger) (stream : StreamPtr) (maxFrameSize : Nat)
    (window : Int) (rest : List UInt8) :
    ledger.apply (.sent (contentFrame maxFrameSize window stream.streamInd rest) (some stream)) =
      { ledger.update (fun pointer => pointer = stream) fun flow =>
          { flow with
            peerWindowSize :=
              toInt (flow.peerWindowSize - preSendLen maxFrameSize window rest.length) } with
        peerControlWindowSize := toUint
          (ledger.peerControlWindowSize - preSendLen maxFrameSize window rest.length) } := by
  rcases type_contentFrame maxFrameSize window stream.streamInd rest with ⟨isData, goesOn⟩
  have charges : Flow.charge (contentFrame maxFrameSize window stream.streamInd rest) = fun flow =>
      { flow with
        peerWindowSize :=
          toInt (flow.peerWindowSize - preSendLen maxFrameSize window rest.length) } := by
    funext flow
    simp [Flow.charge, isData, dataLength_contentFrame]
  have quiet := ledger.sends_of_other (some stream) (.inr ⟨isData, goesOn⟩)
  simp only [Ledger.apply, quiet, Ledger.charge, charges, isData, if_true, dataLength_contentFrame]
  rfl

theorem ledger_charged (stream : StreamPtr) (pre peerControlWindowSize : Nat) :
    ({ conn.assign stream fun sender =>
        { sender with peerWindowSize := toInt (sender.peerWindowSize - pre) } with
      peerControlWindowSize } : Conn X).ledger =
      { conn.ledger.update (fun pointer => pointer = stream) fun flow =>
          { flow with peerWindowSize := toInt (flow.peerWindowSize - pre) } with
        peerControlWindowSize } := by
  have assigned : (conn.assign stream fun sender =>
      { sender with peerWindowSize := toInt (sender.peerWindowSize - pre) }).ledger = _ :=
    ledger_assign (fun flow => { flow with peerWindowSize := toInt (flow.peerWindowSize - pre) })
      (fun _ => rfl) fun _ => rfl
  rw [← assigned]
  rfl

theorem log_ne (event : Event) : conn.log event ≠ conn := by
  intro same
  have longer := congrArg (fun conn => conn.trace.length) same
  simp at longer

/-- A pointer to a stream that is still there is a pointer to a listed stream. -/
theorem isSome_listed_of_touch {stream : StreamPtr} (owned : conn.touch (.stream stream) = conn) :
    (conn.listed stream).isSome := by
  cases found : conn.listed stream with
  | some _ => rfl
  | none =>
      simp only [Conn.touch, Holding.owner, found] at owned
      exact absurd owned (log_ne _)

theorem notes_sendData {stream : StreamPtr} {rest : List UInt8} {ret : Int} {pre : Nat}
    (held : .stream stream ∈ conn.held)
    (sent : conn.sendData env stream rest = .ok (conn', (ret, pre))) : Notes env conn conn' := by
  rcases sendData_eq_ok sent with ⟨sender, succeeds, found, rfl, _, rfl⟩
  refine ⟨_, .content stream sender.peerWindowSize rest ?_ ?_ succeeds, ?_, ?_⟩
  · intro flow present
    rcases Option.map_eq_some_iff.mp present with ⟨listed, isListed, rfl⟩
    rw [Conn.deref, isListed, Option.some_or] at found
    cases found
    rfl
  · by_cases owned : conn.Owned
    · exact .inl (isSome_flows.trans (isSome_listed_of_touch (owned _ held)))
    · exact .inr owned
  · have same : conn.ledger.maxFrameSize = conn.maxFrameSize := rfl
    cases succeeds <;> simp [same]
  · cases succeeds with
    | false =>
        rcases type_contentFrame conn.maxFrameSize sender.peerWindowSize stream.streamInd rest
          with ⟨isData, goesOn⟩
        exact (conn.ledger.sends_of_other (some stream) (.inr ⟨isData, goesOn⟩)).symm
    | true =>
        rw [Ledger.replay_cons, Ledger.replay_cons, Ledger.replay_nil]
        refine Eq.trans ?_ (apply_sent_contentFrame _ stream _ _ rest).symm
        exact ledger_charged stream _ _

theorem flows_absent {streamInd : Nat} (fresh : conn.streamList[streamInd]? = none)
    (other : StreamPtr) (same : other.streamInd = streamInd) : conn.ledger.flows other = none := by
  simp [flows_ledger, Conn.listed, same, fresh]

theorem notes_create (streamInd : Nat) (positive : 0 < streamInd)
    (fresh : conn.streamList[streamInd]? = none) : Notes env conn (conn.createStream env streamInd) :=
  ⟨_, .create ⟨streamInd, conn.nextObject⟩ positive (flows_absent fresh), rfl, ledger_createStream env fresh⟩

theorem notes_promise (streamInd : Nat) (positive : 0 < streamInd)
    (fresh : conn.streamList[streamInd]? = none) :
    Notes env conn ((conn.createStream env streamInd).reserve streamInd) := by
  have listed : (conn.createStream env streamInd).listed ⟨streamInd, conn.nextObject⟩ =
      some (conn.newStream env) := by
    rw [listed_createStream fresh, if_pos rfl]
  have pointer : (conn.createStream env streamInd).pointer streamInd =
      some ⟨streamInd, conn.nextObject⟩ :=
    pointer_eq_some.mpr ⟨positive, rfl, by simp [listed]⟩
  refine ⟨_, .promise ⟨streamInd, conn.nextObject⟩ positive (flows_absent fresh), ?_, ?_⟩
  · unfold Conn.reserve
    rw [pointer]
    simp [Conn.createStream, Conn.ledger]
  · unfold Conn.reserve
    rw [pointer]
    refine (ledger_assign (fun flow => { flow with streamState := .reservedLocal }) ?_ ?_).trans ?_
    · exact fun _ => rfl
    · exact fun _ => rfl
    · rw [ledger_createStream env fresh]
      rfl

theorem notes_reset (stream : StreamPtr) : Notes env conn (conn.resetStream stream) := by
  cases found : conn.listed stream with
  | none =>
      have same : conn.resetStream stream = conn := by simp [Conn.resetStream, found]
      rw [same]
      exact notes_quiet rfl rfl
  | some reset =>
      refine ⟨_, .reset stream (conn.inUse stream), ?_,
        ledger_resetStream found (conn.inUse stream)⟩
      simp [Conn.resetStream, found]

theorem touch_eq_or (conn : Conn X) (holding : Holding) :
    conn.touch holding = conn ∨ conn.touch holding = conn.log (.stale holding) := by
  unfold Conn.touch
  split
  · exact .inl rfl
  · split
    · exact .inl rfl
    · exact .inr rfl
  · exact .inr rfl

theorem notes_touch {holding : Holding} (held : holding ∈ conn.held) :
    Notes env conn (conn.touch holding) := by
  rcases touch_eq_or conn holding with same | stale
  · rw [same]
    exact notes_quiet rfl rfl
  · rw [stale]
    refine notes_log (.stale holding fun owned => ?_) rfl
    exact log_ne _ (stale.symm.trans (owned holding held))

theorem ledger_applySetting (identifier value : Nat) (payload : List UInt8) :
    (conn.applySetting identifier value).ledger =
      conn.ledger.apply (.settings identifier value payload) := by
  unfold Conn.applySetting
  simp only [Ledger.apply]
  by_cases isInitial : identifier = SettingId.initialWindowSize
  · subst isInitial
    rfl
  by_cases isMaximum : identifier = SettingId.maxFrameSize
  · subst isMaximum
    rfl
  · rw [if_neg isInitial, if_neg isInitial, if_neg isMaximum, if_neg isMaximum]
    split_ifs <;> rfl

theorem notes_setting (setting payload : List UInt8)
    (first : 6 ≤ payload.length → setting = payload.take 6) :
    Notes env conn (conn.receiveSetting setting payload) := by
  refine ⟨_, .setting setting payload first, ?_, ledger_applySetting _ _ payload⟩
  unfold Conn.receiveSetting Conn.applySetting
  dsimp only
  split_ifs <;> rfl

theorem notes_windowUpdate (streamInd winSize : Nat) (payload : List UInt8)
    (increment : 4 ≤ payload.length → winSize = ntoh31 (payload.take 4) % 2 ^ 31) :
    Notes env conn (conn.receiveWindowUpdate streamInd winSize payload) := by
  refine ⟨_, .windowUpdate streamInd winSize payload increment, ?_, ?_⟩
  · unfold Conn.receiveWindowUpdate
    dsimp only
    split_ifs <;> rfl
  · unfold Conn.receiveWindowUpdate
    simp only [Ledger.replay_cons, Ledger.replay_nil, Ledger.apply]
    split_ifs
    · rfl
    · rfl
    · refine ledger_modifyStream (Flow.grants winSize) ?_ ?_
      · exact fun _ => rfl
      · exact fun _ => rfl

theorem ledger_takeData (conn : Conn X) (streamInd length : Nat) :
    (conn.takeData streamInd length).ledger = conn.ledger.apply (.data streamInd length) := by
  have modified : (conn.modifyStream streamInd fun stream =>
      { stream with localWindowSize := toInt (stream.localWindowSize - length) }).ledger = _ :=
    ledger_modifyStream (Flow.takes length) (fun _ => rfl) fun _ => rfl
  simp only [Ledger.apply]
  rw [← modified]
  rfl

theorem notes_data (streamInd length : Nat) (bounded : conn.ledger.Bounded) :
    Notes env conn
      ((conn.receiveData env streamInd length).sendWindowUpdate env streamInd length) := by
  have taken := ledger_takeData conn streamInd length
  have takenBounded : (conn.takeData streamInd length).ledger.Bounded := taken ▸ bounded.apply _
  have received : ∃ extra,
      (extra = [] ∨
        (∃ stream flow, stream.streamInd = streamInd ∧
          (conn.ledger.apply (.data streamInd length)).flows stream = some flow ∧
          flow.localWindowSize ≤ 0) ∧
        Credits env.async (conn.ledger.apply (.data streamInd length)) streamInd
          conn.initialLocalWindowSize extra) ∧
      (conn.receiveData env streamInd length).trace =
        conn.trace ++ (.data streamInd length :: extra) ∧
      (conn.receiveData env streamInd length).ledger =
        (conn.ledger.apply (.data streamInd length)).replay extra := by
    unfold Conn.receiveData
    dsimp only
    split
    · rename_i stream found
      split
      · rename_i emptied
        rcases notes_sendWindowUpdate env streamInd
          (conn.takeData streamInd length).initialLocalWindowSize takenBounded with
          ⟨extra, credits, trace, ledger⟩
        rw [taken] at credits ledger
        refine ⟨extra, .inr ⟨⟨⟨streamInd, stream.object⟩, stream.flow, rfl, ?_, emptied⟩,
          credits⟩, ?_, ledger⟩
        · rw [← taken, flows_ledger, listed_of_getStreamInstance found]
          rfl
        · rw [trace, Conn.takeData, trace_log]
          simp
      · exact ⟨[], .inl rfl, rfl, taken⟩
    · exact ⟨[], .inl rfl, rfl, taken⟩
  rcases received with ⟨extra, emptied, trace, ledger⟩
  have receivedBounded : (conn.receiveData env streamInd length).ledger.Bounded :=
    ledger ▸ (bounded.apply _).replay extra
  rcases notes_sendWindowUpdate env streamInd length receivedBounded with
    ⟨credits, returned, trace', ledger'⟩
  rw [ledger] at returned ledger'
  refine ⟨_, .data streamInd length extra credits emptied returned, ?_, ?_⟩
  · simp [trace', trace]
  · simp [ledger']

theorem notes_control (frames : List SentFrame) (isControl : ∀ frame ∈ frames, frame.IsControl) :
    Notes env conn (conn.httpSend env frames none).1 := by
  refine ⟨_, .control frames isControl
    (decide (env.async ∨ env.sendFails conn.trace.length = false)), ?_, ?_⟩
  · simp [httpSend_fst, sending_eq]
  · rw [Ledger.replay_sending_none, ledger_httpSend]

/-- What every step notes, and what it does, the ledger tells. -/
theorem Step.notes (step : Step env conn conn') (bounded : conn.ledger.Bounded) :
    Notes env conn conn' := by
  cases step with
  | note event plain =>
      refine notes_log (.plain event plain) ?_
      cases event <;> first | rfl | exact plain.elim
  | assign stream change same =>
      exact notes_quiet (trace_assign conn stream change)
        (ledger_assign_same (fun before => (same before).object) fun before =>
          (same before).flow_eq)
  | modify streamInd change same =>
      refine notes_quiet rfl ?_
      rw [ledger_modifyStream (fun flow => flow) (fun before => (same before).object) fun before =>
        (same before).flow_eq, Ledger.update_id]
  | members nullEntry pushedRequest pushedResponse => exact notes_quiet rfl rfl
  | parse _ stream field len code parsed =>
      rcases Outcome.bind_eq_ok.mp parsed with ⟨result, _, rest⟩
      cases rest
      refine notes_quiet (trace_assign conn stream _) ?_
      exact ledger_assign_same (fun _ => rfl) fun _ => rfl
  | control frames isControl => exact notes_control frames isControl
  | sendRstStream stream listed => exact notes_sendRstStream stream listed bounded
  | sendHeader _ streamInd text frameType promisedStreamInd ret kind sent =>
      exact notes_sendHeader kind sent bounded
  | sendEmptyContent _ streamInd ret sent => exact notes_sendEmptyContent sent bounded
  | sendData _ stream rest ret pre held sent => exact notes_sendData held sent
  | create streamInd positive fresh => exact notes_create streamInd positive fresh
  | promise streamInd positive fresh => exact notes_promise streamInd positive fresh
  | erase stream listed =>
      exact ⟨_, .erase stream (conn.inUse stream), rfl,
        ledger_eraseStream listed (conn.inUse stream)⟩
  | reset stream => exact notes_reset stream
  | clear stream =>
      rcases trace_clearHpack conn stream with ⟨inUse, trace⟩
      refine ⟨_, .cleared stream inUse, trace, ?_⟩
      exact ledger_assign_same (fun _ => rfl) fun _ => rfl
  | opens stream listed =>
      refine ⟨_, .opens stream (isSome_flows.trans listed), by simp [Conn.openStream], ?_⟩
      exact ledger_assign (fun flow => { flow with streamState := .open }) (fun _ => rfl)
        fun _ => rfl
  | ends stream held =>
      refine ⟨_, .ends stream, by simp [Conn.endStream], ?_⟩
      exact ledger_assign Flow.ends (fun _ => rfl) fun _ => rfl
  | setting setting payload first => exact notes_setting setting payload first
  | windowUpdate streamInd winSize payload increment =>
      exact notes_windowUpdate streamInd winSize payload increment
  | data streamInd payloadLen => exact notes_data streamInd payloadLen bounded
  | headersEnd stream method =>
      refine ⟨_, .headersEnd stream method, ?_, ?_⟩
      · unfold Conn.noteHeadersEnd
        split <;> simp
      · unfold Conn.noteHeadersEnd
        split <;> rfl
  | pushed stream contentLength stored complete =>
      refine ⟨_, .pushed stream contentLength stored complete, ?_, ?_⟩
      · unfold Conn.notePushed
        split <;> simp
      · unfold Conn.notePushed
        split <;> rfl
  | header header => exact ⟨_, .field header, rfl, rfl⟩
  | hold holding owned => exact notes_quiet rfl rfl
  | release => exact notes_quiet rfl rfl
  | touch holding held => exact notes_touch held

end Notes

section Runs

variable {env : Env X} {conn conn' : Conn X}

/-- The trace is a history, and the ledger is what the trace tells. -/
def Told (env : Env X) (conn : Conn X) : Prop :=
  History env.async conn.trace ∧ conn.ledger = Ledger.start.replay conn.trace

theorem Told.bounded (told : Told env conn) : conn.ledger.Bounded := by
  rw [told.2]
  exact Ledger.Bounded.start.replay conn.trace

theorem Told.notes (told : Told env conn) (notes : Notes env conn conn') : Told env conn' := by
  rcases notes with ⟨events, happens, trace, replayed⟩
  rw [told.2] at happens
  refine ⟨?_, ?_⟩
  · rw [trace]
    exact .more conn.trace events told.1 _ happens
  · rw [replayed, trace, Ledger.replay_append, told.2]

theorem told_new (pushPromise : Bool) : Told env (Conn.new pushPromise : Conn X) := by
  refine ⟨.start, ?_⟩
  ext1
  · funext pointer
    simp [Conn.ledger, Conn.new, Conn.listed, Ledger.start]
  all_goals rfl

/-- To announce the initial window is to send a frame. -/
theorem sendInitialWindowSize_same (conn : Conn X) :
    conn.sendInitialWindowSize env conn.initialLocalWindowSize =
      (conn.httpSend env [frameOf FrameType.settings Flag.unset 0
        ([0, UInt8.ofNat SettingId.initialWindowSize] ++
          htonl conn.initialLocalWindowSize)] none).1 := by
  unfold Conn.sendInitialWindowSize
  rw [httpSend_fst]

theorem told_start (env : Env X) (pushPromise : Bool) : Told env (Conn.start env pushPromise) := by
  have preface : Told env ((Conn.new pushPromise).sendServerPreface env).1 :=
    (told_new pushPromise).notes (notes_control _ (by simp [SentFrame.IsControl, frameOf]))
  have windows : Told env (if env.async then ((Conn.new pushPromise).sendServerPreface env).1
      else ((Conn.new pushPromise).sendServerPreface env).1.sendWindowUpdate env 0
        maxWindowSize) := by
    split
    · exact preface
    · rename_i synchronous
      rcases notes_sendWindowUpdate env 0 maxWindowSize preface.bounded with
        ⟨events, credits, trace, ledger⟩
      refine preface.notes ⟨events, ?_, trace, ledger⟩
      cases credits with
      | finished stream flow same listed =>
          rcases Option.map_eq_some_iff.mp listed with ⟨present, found, -⟩
          simp [Conn.sendServerPreface, httpSend_fst, Conn.listed, Conn.new] at found
      | stream stream flow same listed =>
          rcases Option.map_eq_some_iff.mp listed with ⟨present, found, -⟩
          simp [Conn.sendServerPreface, httpSend_fst, Conn.listed, Conn.new] at found
      | control absent succeeds buffered =>
          exact .exchange (by simpa using synchronous) succeeds
  unfold Conn.start
  dsimp only
  rw [sendInitialWindowSize_same]
  exact windows.notes (notes_control _ (by simp [SentFrame.IsControl, frameOf]))

/-- The trace of a connection is a history, and its ledger is what the trace
tells. -/
theorem Run.told (run : Run env conn) : Told env conn := by
  induction run with
  | start pushPromise exchanged => exact told_start env pushPromise
  | step conn conn' _ once ih => exact ih.notes (once.notes ih.bounded)

end Runs

section Traces

variable {σ : Type} {apply : σ → Event → σ} {ledger : σ → Ledger} {start : σ} {async : Bool}

/-- A state that follows the events has the ledger that the events tell. -/
theorem ledger_foldl (isStart : ledger start = Ledger.start)
    (agrees : ∀ state event, ledger (apply state event) = (ledger state).apply event)
    (trace : List Event) : ledger (trace.foldl apply start) = Ledger.start.replay trace := by
  induction trace using List.reverseRecOn with
  | nil => exact isStart
  | append_singleton trace event ih =>
      rw [List.foldl_append, Ledger.replay_append, ← ih]
      exact agrees _ event

/-- What every event of a history has, if it has it in all that may happen at
once. -/
theorem History.throughout {condition property : σ → Event → Prop} {inv : σ → Prop}
    (isStart : ledger start = Ledger.start)
    (agrees : ∀ state event, ledger (apply state event) = (ledger state).apply event)
    (initially : inv start)
    (chunk : ∀ state events loose, inv state → Happens async loose (ledger state) events →
      Throughout apply condition state events →
        Throughout apply property state events ∧ inv (events.foldl apply state))
    {trace : List Event} (history : History async trace)
    (met : Throughout apply condition start trace) :
    Throughout apply property start trace ∧ inv (trace.foldl apply start) := by
  induction history with
  | start => exact ⟨throughout_nil, initially⟩
  | more trace events _ loose happens ih =>
      have parts := throughout_append.mp met
      have before := ih parts.1
      rw [← ledger_foldl isStart agrees trace] at happens
      have behind := chunk _ events loose before.2 happens parts.2
      rw [throughout_append, List.foldl_append]
      exact ⟨⟨before.1, behind.1⟩, behind.2⟩

/-- What holds behind a history, if all that may happen at once keeps it. -/
theorem History.invariant {condition : σ → Event → Prop} {inv : σ → Prop}
    (isStart : ledger start = Ledger.start)
    (agrees : ∀ state event, ledger (apply state event) = (ledger state).apply event)
    (initially : inv start)
    (chunk : ∀ state events loose, inv state → Happens async loose (ledger state) events →
      Throughout apply condition state events → inv (events.foldl apply state))
    {trace : List Event} (history : History async trace)
    (met : Throughout apply condition start trace) : inv (trace.foldl apply start) := by
  have kept : Throughout apply condition start trace ∧ inv (trace.foldl apply start) :=
    history.throughout isStart agrees initially
      (fun state events loose holds happens met =>
        ⟨met, chunk state events loose holds happens met⟩) met
  exact kept.2

end Traces

end Http2

end HeapHttpd
