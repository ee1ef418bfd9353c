import HeapHttpd.Http2.ProtParse
import HeapHttpd.Http2.Streams
import Mathlib.Logic.Relation

/-!
# Steps of a connection

Every change of a connection is one of a few steps.  What the operations of the
connection do is a sequence of steps; what the code does between two waits is
one too, as the next module shows.
-/

namespace HeapHttpd

namespace Http2

open General Hpack Http1 Relation

variable {X : Type}

/-- A change of a stream that its identity, its state, its windows and the
identity of its decoded headers survive. -/
structure SameFlow (before after : Http2Stream X) : Prop where
  object : after.object = before.object
  streamState : after.streamState = before.streamState
  peerWindowSize : after.peerWindowSize = before.peerWindowSize
  localWindowSize : after.localWindowSize = before.localWindowSize
  headers : ∀ hpack, before.hpack = some hpack →
    ∃ hpack', after.hpack = some hpack' ∧ hpack'.object = hpack.object

/-- What happens without a change of the connection. -/
def Event.IsPlain : Event → Prop
  | .received _ _ => True
  | .returned _ => True
  | .line _ _ => True
  | _ => False

/-- Frames about the connection as a whole. -/
def SentFrame.IsControl (frame : SentFrame) : Prop :=
  frame.type = FrameType.settings ∨ frame.type = FrameType.ping ∨
    frame.type = FrameType.goaway

/-- The end of a header block, and the response unless there is a body to come. -/
def Conn.noteHeadersEnd (conn : Conn X) (stream : StreamPtr) (method : HttpMethod) : Conn X :=
  if method = .post then conn.log (.headersEnd stream method)
  else (conn.log (.headersEnd stream method)).log (.response stream)

/-- Data of a body, and the response if the body is complete. -/
def Conn.notePushed (conn : Conn X) (stream : StreamPtr) (contentLength : Int) (stored : Nat)
    (complete : Bool) : Conn X :=
  if complete then
    (conn.log (.pushed stream contentLength stored complete)).log (.response stream)
  else conn.log (.pushed stream contentLength stored complete)

/-- The steps of a connection. -/
inductive Step (env : Env X) : Conn X → Conn X → Prop
  | note (conn : Conn X) (event : Event) (plain : event.IsPlain) : Step env conn (conn.log event)
  | assign (conn : Conn X) (stream : StreamPtr) (change : Http2Stream X → Http2Stream X)
      (same : ∀ before, SameFlow before (change before)) :
      Step env conn (conn.assign stream change)
  | modify (conn : Conn X) (streamInd : Nat) (change : Http2Stream X → Http2Stream X)
      (same : ∀ before, SameFlow before (change before)) :
      Step env conn (conn.modifyStream streamInd change)
  | members (conn : Conn X) (nullEntry pushedRequest pushedResponse : Bool) :
      Step env conn { conn with nullEntry, pushedRequest, pushedResponse }
  | parse (conn conn' : Conn X) (stream : StreamPtr) (field : List UInt8) (len code : Int)
      (parsed : conn.hpackParse stream field len = .ok (conn', code)) : Step env conn conn'
  | control (conn : Conn X) (frames : List SentFrame)
      (isControl : ∀ frame ∈ frames, frame.IsControl) :
      Step env conn (conn.httpSend env frames none).1
  | sendRstStream (conn : Conn X) (stream : StreamPtr) (listed : (conn.listed stream).isSome) :
      Step env conn (conn.sendRstStream env stream)
  | sendHeader (conn conn' : Conn X) (streamInd : Nat) (text : List UInt8) (frameType : UInt8)
      (promisedStreamInd : Nat) (ret : Int)
      (kind : frameType = FrameType.headers ∨ frameType = FrameType.pushPromise)
      (sent : conn.transHttp1SendHttp2Header env streamInd text frameType promisedStreamInd =
        .ok (conn', ret)) : Step env conn conn'
  | sendEmptyContent (conn conn' : Conn X) (streamInd : Nat) (ret : Int)
      (sent : conn.sendHttp2EmptyContent env streamInd (Flag.endStream ||| Flag.padded) =
        .ok (conn', ret)) : Step env conn conn'
  | sendData (conn conn' : Conn X) (stream : StreamPtr) (rest : List UInt8) (ret : Int)
      (pre : Nat) (held : .stream stream ∈ conn.held)
      (sent : conn.sendData env stream rest = .ok (conn', (ret, pre))) : Step env conn conn'
  | create (conn : Conn X) (streamInd : Nat) (positive : 0 < streamInd)
      (fresh : conn.streamList[streamInd]? = none) :
      Step env conn (conn.createStream env streamInd)
  | promise (conn : Conn X) (streamInd : Nat) (positive : 0 < streamInd)
      (fresh : conn.streamList[streamInd]? = none) :
      Step env conn ((conn.createStream env streamInd).reserve streamInd)
  | erase (conn : Conn X) (stream : StreamPtr) (listed : (conn.listed stream).isSome) :
      Step env conn (conn.eraseStream stream)
  | reset (conn : Conn X) (stream : StreamPtr) : Step env conn (conn.resetStream stream)
  | clear (conn : Conn X) (stream : StreamPtr) : Step env conn (conn.clearHpack stream)
  | opens (conn : Conn X) (stream : StreamPtr) (listed : (conn.listed stream).isSome) :
      Step env conn (conn.openStream stream)
  | ends (conn : Conn X) (stream : StreamPtr) (held : .stream stream ∈ conn.held) :
      Step env conn (conn.endStream stream)
  | setting (conn : Conn X) (setting payload : List UInt8)
      (first : 6 ≤ payload.length → setting = payload.take 6) :
      Step env conn (conn.receiveSetting setting payload)
  | windowUpdate (conn : Conn X) (streamInd winSize : Nat) (payload : List UInt8)
      (increment : 4 ≤ payload.length → winSize = ntoh31 (payload.take 4) % 2 ^ 31) :
      Step env conn (conn.receiveWindowUpdate streamInd winSize payload)
  | data (conn : Conn X) (streamInd payloadLen : Nat) :
      Step env conn
        ((conn.receiveData env streamInd payloadLen).sendWindowUpdate env streamInd payloadLen)
  | headersEnd (conn : Conn X) (stream : StreamPtr) (method : HttpMethod) :
      Step env conn (conn.noteHeadersEnd stream method)
  | pushed (conn : Conn X) (stream : StreamPtr) (contentLength : Int) (stored : Nat)
      (complete : Bool) : Step env conn (conn.notePushed stream contentLength stored complete)
  | header (conn : Conn X) (header : Header) : Step env conn (conn.insertHeader header)
  | hold (conn : Conn X) (holding : Holding) (owned : conn.touch holding = conn) :
      Step env conn (conn.hold holding)
  | release (conn : Conn X) : Step env conn conn.release
  | touch (conn : Conn X) (holding : Holding) (held : holding ∈ conn.held) :
      Step env conn (conn.touch holding)

/-- A sequence of steps that takes no pointer without dropping it. -/
def Moves (env : Env X) (conn conn' : Conn X) : Prop :=
  ReflTransGen (Step env) conn conn' ∧ conn'.held = conn.held

namespace Moves

variable {env : Env X} {conn conn' conn'' : Conn X}

theorem refl (conn : Conn X) : Moves env conn conn :=
  ⟨.refl, rfl⟩

theorem step (once : Step env conn conn') (same : conn'.held = conn.held) :
    Moves env conn conn' :=
  ⟨.single once, same⟩

theorem trans (first : Moves env conn conn') (second : Moves env conn' conn'') :
    Moves env conn conn'' :=
  ⟨first.1.trans second.1, second.2.trans first.2⟩

end Moves

/-- What `HttpSend` notes for a frame. -/
def Conn.sending (env : Env X) (conn : Conn X) (sender : Option StreamPtr)
    (frame : SentFrame) : Event :=
  if env.async ∨ env.sendFails conn.trace.length = false then .sent frame sender
  else .unsent frame sender

theorem foldl_log {ι : Type} (event : ι → Event) (conn : Conn X) (items : List ι) :
    items.foldl (fun conn item => conn.log (event item)) conn =
      { conn with trace := conn.trace ++ items.map event } := by
  induction items generalizing conn with
  | nil => simp
  | cons item items ih =>
      rw [List.foldl_cons, ih]
      simp [Conn.log]

theorem httpSend_fst (env : Env X) (conn : Conn X) (frames : List SentFrame)
    (sender : Option StreamPtr) :
    (conn.httpSend env frames sender).1 =
      { conn with trace := conn.trace ++ frames.map (conn.sending env sender) } := by
  unfold Conn.httpSend Conn.sending
  split
  · rw [foldl_log]
    simp [*]
  · split
    · rw [foldl_log]
      simp [*]
    · rw [foldl_log]
      simp [*]

@[simp]
theorem held_log (conn : Conn X) (event : Event) : (conn.log event).held = conn.held :=
  rfl

@[simp]
theorem held_httpSend (env : Env X) (conn : Conn X) (frames : List SentFrame)
    (sender : Option StreamPtr) : (conn.httpSend env frames sender).1.held = conn.held := by
  rw [httpSend_fst]

@[simp]
theorem held_assign (conn : Conn X) (stream : StreamPtr)
    (change : Http2Stream X → Http2Stream X) : (conn.assign stream change).held = conn.held := by
  unfold Conn.assign
  split <;> rfl

@[simp]
theorem held_modifyStream (conn : Conn X) (streamInd : Nat)
    (change : Http2Stream X → Http2Stream X) :
    (conn.modifyStream streamInd change).held = conn.held :=
  rfl

@[simp]
theorem held_touch (conn : Conn X) (holding : Holding) : (conn.touch holding).held = conn.held := by
  unfold Conn.touch
  split
  · rfl
  · split <;> rfl
  · rfl

@[simp]
theorem held_sendWindowUpdate (env : Env X) (conn : Conn X) (streamInd increment : Nat) :
    (conn.sendWindowUpdate env streamInd increment).held = conn.held := by
  unfold Conn.sendWindowUpdate
  split
  · split <;> simp
  · simp

@[simp]
theorem held_createStream (env : Env X) (conn : Conn X) (streamInd : Nat) :
    (conn.createStream env streamInd).held = conn.held :=
  rfl

@[simp]
theorem held_reserve (conn : Conn X) (streamInd : Nat) :
    (conn.reserve streamInd).held = conn.held := by
  unfold Conn.reserve
  split <;> simp

@[simp]
theorem held_resetStream (conn : Conn X) (stream : StreamPtr) :
    (conn.resetStream stream).held = conn.held := by
  unfold Conn.resetStream
  split <;> rfl

@[simp]
theorem held_applySetting (conn : Conn X) (identifier value : Nat) :
    (conn.applySetting identifier value).held = conn.held := by
  unfold Conn.applySetting
  split_ifs <;> rfl

@[simp]
theorem held_receiveWindowUpdate (conn : Conn X) (streamInd winSize : Nat)
    (payload : List UInt8) :
    (conn.receiveWindowUpdate streamInd winSize payload).held = conn.held := by
  unfold Conn.receiveWindowUpdate
  simp only
  split_ifs <;> rfl

@[simp]
theorem held_noteHeadersEnd (conn : Conn X) (stream : StreamPtr) (method : HttpMethod) :
    (conn.noteHeadersEnd stream method).held = conn.held := by
  unfold Conn.noteHeadersEnd
  split <;> rfl

@[simp]
theorem held_notePushed (conn : Conn X) (stream : StreamPtr) (contentLength : Int)
    (stored : Nat) (complete : Bool) :
    (conn.notePushed stream contentLength stored complete).held = conn.held := by
  unfold Conn.notePushed
  split <;> rfl

theorem held_transHttp1SendHttp2Header {env : Env X} {conn conn' : Conn X} {streamInd : Nat}
    {text : List UInt8} {frameType : UInt8} {promisedStreamInd : Nat} {ret : Int}
    (sent : conn.transHttp1SendHttp2Header env streamInd text frameType promisedStreamInd =
      .ok (conn', ret)) : conn'.held = conn.held := by
  unfold Conn.transHttp1SendHttp2Header at sent
  split at sent
  · cases sent
    rfl
  · split at sent
    · dsimp only at sent
      split at sent
      · cases sent
      · cases sent
        simp
    · cases sent

theorem held_sendHttp2EmptyContent {env : Env X} {conn conn' : Conn X} {streamInd : Nat}
    {flags : UInt8} {ret : Int}
    (sent : conn.sendHttp2EmptyContent env streamInd flags = .ok (conn', ret)) :
    conn'.held = conn.held := by
  unfold Conn.sendHttp2EmptyContent at sent
  split at sent
  · cases sent
    rfl
  · split at sent
    · cases sent
    · dsimp only at sent
      split at sent <;>
        · cases sent
          simp

theorem held_sendData {env : Env X} {conn conn' : Conn X} {stream : StreamPtr}
    {rest : List UInt8} {ret : Int} {pre : Nat}
    (sent : conn.sendData env stream rest = .ok (conn', (ret, pre))) :
    conn'.held = conn.held := by
  unfold Conn.sendData at sent
  split at sent
  · cases sent
  · dsimp only at sent
    split at sent
    · cases sent
    · split at sent <;>
        · cases sent
          simp

theorem held_hpackParse {conn conn' : Conn X} {stream : StreamPtr} {field : List UInt8}
    {len code : Int} (parsed : conn.hpackParse stream field len = .ok (conn', code)) :
    conn'.held = conn.held := by
  rcases Outcome.bind_eq_ok.mp parsed with ⟨result, _, rest⟩
  cases rest
  simp

theorem moves_sendGoaway (env : Env X) (conn : Conn X) (lastStreamInd errorCode : Nat) :
    Moves env conn (conn.sendGoaway env lastStreamInd errorCode) :=
  .step (.control conn _ (by simp [SentFrame.IsControl, frameOf])) (held_httpSend env conn _ _)

theorem moves_sendSettingAck (env : Env X) (conn : Conn X) (streamInd : Nat) :
    Moves env conn (conn.sendSettingAck env streamInd) :=
  .step (.control conn _ (by simp [SentFrame.IsControl, frameOf])) (held_httpSend env conn _ _)

theorem moves_sendPingAck (env : Env X) (conn : Conn X) (identifier : Nat)
    (opaqueData : List UInt8) : Moves env conn (conn.sendPingAck env identifier opaqueData) :=
  .step (.control conn _ (by simp [SentFrame.IsControl, frameOf])) (held_httpSend env conn _ _)

theorem moves_modifyStream (env : Env X) (conn : Conn X) (streamInd : Nat)
    (change : Http2Stream X → Http2Stream X) (same : ∀ before, SameFlow before (change before)) :
    Moves env conn (conn.modifyStream streamInd change) :=
  .step (.modify conn streamInd change same) rfl

theorem moves_assign (env : Env X) (conn : Conn X) (stream : StreamPtr)
    (change : Http2Stream X → Http2Stream X) (same : ∀ before, SameFlow before (change before)) :
    Moves env conn (conn.assign stream change) :=
  .step (.assign conn stream change same) (held_assign conn stream change)

theorem moves_refresh (env : Env X) (conn : Conn X) (streamInd : Nat) :
    Moves env conn (conn.refresh env streamInd) :=
  moves_modifyStream env conn streamInd _ fun _ =>
    ⟨rfl, rfl, rfl, rfl, fun hpack present => ⟨hpack, present, rfl⟩⟩

theorem moves_setDependencyStream (env : Env X) (conn : Conn X)
    (streamInd dependencyStream : Nat) :
    Moves env conn (conn.setDependencyStream streamInd dependencyStream) :=
  moves_modifyStream env conn streamInd _ fun _ =>
    ⟨rfl, rfl, rfl, rfl, fun hpack present => ⟨hpack, present, rfl⟩⟩

/-- What each pass of a loop does, the loop does. -/
theorem moves_foldl {ι : Type} {env : Env X} {pass : Conn X → ι → Conn X}
    (passes : ∀ conn item, Moves env conn (pass conn item)) (items : List ι) (conn : Conn X) :
    Moves env conn (items.foldl pass conn) := by
  induction items generalizing conn with
  | nil => exact .refl conn
  | cons item items ih => exact (passes conn item).trans (ih (pass conn item))

theorem moves_foldlM {ι : Type} {env : Env X} {pass : Conn X → ι → Outcome (Conn X)}
    (passes : ∀ conn item conn', pass conn item = .ok conn' → Moves env conn conn')
    (items : List ι) (conn conn' : Conn X) (done : items.foldlM pass conn = .ok conn') :
    Moves env conn conn' := by
  induction items generalizing conn with
  | nil =>
      cases done
      exact .refl _
  | cons item items ih =>
      rw [List.foldlM_cons] at done
      rcases Outcome.bind_eq_ok.mp done with ⟨middle, first, rest⟩
      exact (passes conn item middle first).trans (ih middle rest)

theorem moves_insertDependency (env : Env X) (conn : Conn X) (streamInd depInd : Nat) :
    Moves env conn (conn.insertDependency streamInd depInd) := by
  refine moves_foldl (fun conn entry => ?_) _ conn
  split
  · split
    · exact moves_setDependencyStream env conn entry.1 streamInd
    · exact .refl conn
  · exact .refl conn

theorem moves_setPriority (env : Env X) (conn : Conn X) (streamInd depInd weight : Nat)
    (exclusive : Bool) : Moves env conn (conn.setPriority streamInd depInd weight exclusive) := by
  have weighted (conn : Conn X) : Moves env conn (conn.modifyStream streamInd fun stream =>
      { stream with priorityWeight := weight }) :=
    moves_modifyStream env conn streamInd _ fun _ =>
      ⟨rfl, rfl, rfl, rfl, fun hpack present => ⟨hpack, present, rfl⟩⟩
  have prepared := (moves_setDependencyStream env conn streamInd depInd).trans (weighted _)
  unfold Conn.setPriority
  dsimp only
  split
  · exact prepared.trans (moves_insertDependency env _ streamInd depInd)
  · exact prepared

theorem moves_receiveData (env : Env X) (conn : Conn X) (streamInd payloadLen : Nat) :
    Moves env conn
      ((conn.receiveData env streamInd payloadLen).sendWindowUpdate env streamInd payloadLen) := by
  refine .step (.data conn streamInd payloadLen) ((held_sendWindowUpdate env _ _ _).trans ?_)
  unfold Conn.receiveData
  dsimp only
  split
  · split
    · exact held_sendWindowUpdate env _ _ _
    · rfl
  · rfl

theorem promisedStreamInd_fresh (conn : Conn X) (passes ind : Nat)
    (found : conn.promisedStreamInd passes ind ≠ 0) :
    conn.streamList[conn.promisedStreamInd passes ind]? = none := by
  induction passes generalizing ind with
  | zero => simp [Conn.promisedStreamInd] at found
  | succ passes ih =>
      unfold Conn.promisedStreamInd at found ⊢
      split
      · split
        · rename_i below member
          simp only [below, member, if_true] at found
          exact ih (ind + 2) found
        · simpa using ‹ind ∉ conn.streamList›
      · simp_all

theorem moves_pushPromise (env : Env X) (conn conn' : Conn X) (streamInd : Nat)
    (path : List UInt8) (done : conn.pushPromise env streamInd path = .ok conn') :
    Moves env conn conn' := by
  unfold Conn.pushPromise at done
  split at done
  · cases done
    exact .refl conn
  · split at done
    · cases done
      exact .refl conn
    · rename_i host found
      dsimp only at done
      split at done
      · cases done
        exact Moves.trans (.step (.members conn true conn.pushedRequest conn.pushedResponse) rfl)
          (moves_sendGoaway env _ streamInd _)
      · rename_i promised
        rcases Outcome.bind_eq_ok.mp done with ⟨⟨sent, ret⟩, sends, rest⟩
        cases rest
        have reserved : Step env conn _ := Step.promise conn _ (Nat.pos_of_ne_zero promised)
          (promisedStreamInd_fresh conn _ _ promised)
        have header : Step env _ sent :=
          Step.sendHeader _ sent streamInd _ _ _ ret (.inr rfl) sends
        have heldSent : sent.held = conn.held := by
          simpa using held_transHttp1SendHttp2Header sends
        refine ⟨.tail (.tail (.single reserved) header) (.modify sent _ _ fun _ => ?_), heldSent⟩
        exact ⟨rfl, rfl, rfl, rfl, fun hpack present => ⟨hpack, present, rfl⟩⟩

theorem moves_pushAll (env : Env X) (conn conn' : Conn X) (streamInd : Nat)
    (paths : List (List UInt8)) (done : conn.pushAll env streamInd paths = .ok conn') :
    Moves env conn conn' :=
  moves_foldlM (fun conn path conn' done => moves_pushPromise env conn conn' streamInd path done)
    paths conn conn' done

theorem moves_sendPushPromiseRequest (env : Env X) (conn conn' : Conn X) (streamInd : Nat)
    (done : conn.sendPushPromiseRequest env streamInd = .ok conn') : Moves env conn conn' := by
  rcases Outcome.bind_eq_ok.mp done with ⟨middle, first, rest⟩
  have pushed := moves_pushAll env conn middle streamInd _ first
  split at rest
  · exact pushed.trans (moves_pushAll env middle conn' streamInd _ rest)
  · cases rest
    exact pushed

theorem oldestOne_mem {streams : List (Nat × Http2Stream X)} {oldest : Nat × Http2Stream X}
    (found : oldestOne streams = some oldest) : oldest ∈ streams := by
  cases streams with
  | nil => cases found
  | cons first rest =>
      have folded (items : List (Nat × Http2Stream X)) (init : Nat × Http2Stream X) :
          items.foldl (fun oldest each =>
            if each.2.streamState = .closed ∨ each.2.lastUsedTime < oldest.2.lastUsedTime then each
            else oldest) init ∈ init :: items := by
        induction items generalizing init with
        | nil => simp
        | cons each items ih =>
            have member := ih (if each.2.streamState = .closed ∨
              each.2.lastUsedTime < init.2.lastUsedTime then each else init)
            rw [List.foldl_cons]
            rcases List.mem_cons.mp member with same | later
            · rw [same]
              split <;> simp
            · simp [later]
      have member := folded (first :: rest) first
      simp only [oldestOne, Option.some.injEq] at found
      rw [found] at member
      simpa using member

@[simp]
theorem listed_httpSend (env : Env X) (conn : Conn X) (frames : List SentFrame)
    (sender : Option StreamPtr) (pointer : StreamPtr) :
    (conn.httpSend env frames sender).1.listed pointer = conn.listed pointer :=
  listed_congr (by rw [httpSend_fst]) pointer

theorem listed_sendRstStream (env : Env X) (conn : Conn X) (stream pointer : StreamPtr) :
    (conn.sendRstStream env stream).listed pointer =
      if pointer = stream then
        (conn.listed pointer).map fun reset => { reset with streamState := .closed }
      else conn.listed pointer := by
  unfold Conn.sendRstStream
  rw [listed_assign, listed_httpSend]
  intro reset
  rfl

theorem moves_evict (env : Env X) (conn conn' : Conn X) (done : conn.evict env = .ok conn') :
    Moves env conn conn' := by
  unfold Conn.evict at done
  split at done
  · cases done
  · split at done
    · rename_i streamInd stream found
      cases done
      have present : conn.streamList[streamInd]? = some stream :=
        Std.TreeMap.mem_toList_iff_getElem?_eq_some.mp (oldestOne_mem found)
      have listed : conn.listed ⟨streamInd, stream.object⟩ = some stream :=
        listed_eq_some.mpr ⟨present, rfl⟩
      have closes : Moves env conn (conn.sendRstStream env ⟨streamInd, stream.object⟩) :=
        .step (.sendRstStream conn _ (by simp [listed])) (by simp [Conn.sendRstStream])
      exact closes.trans (.step (.erase _ _ (by simp [listed_sendRstStream, listed])) rfl)
    · cases done

theorem moves_createStream (env : Env X) (conn : Conn X) (streamInd : Nat)
    (positive : 0 < streamInd) (fresh : conn.streamList[streamInd]? = none) :
    Moves env conn (conn.createStream env streamInd) :=
  .step (.create conn streamInd positive fresh) rfl

theorem evict_absent {env : Env X} {conn conn' : Conn X} {streamInd : Nat}
    (done : conn.evict env = .ok conn') (absent : conn.streamList[streamInd]? = none) :
    conn'.streamList[streamInd]? = none := by
  unfold Conn.evict at done
  split at done
  · cases done
  · split at done
    · cases done
      apply absent_eraseStream
      apply absent_assign
      rw [httpSend_fst]
      exact absent
    · cases done

theorem moves_provideStream (env : Env X) (conn conn' : Conn X) (streamInd : Nat)
    (positive : 0 < streamInd) (done : conn.provideStream env streamInd = .ok conn') :
    Moves env conn conn' := by
  unfold Conn.provideStream at done
  split at done
  · cases done
    exact .refl conn
  · rename_i missing
    have absent : conn.streamList[streamInd]? = none := by
      simpa [Conn.getStreamInstance, positive] using missing
    rcases Outcome.bind_eq_ok.mp done with ⟨middle, room, rest⟩
    cases rest
    unfold Conn.makeRoom at room
    split at room
    · exact (moves_evict env conn middle room).trans
        (moves_createStream env middle streamInd positive (evict_absent room absent))
    · cases room
      exact moves_createStream env conn streamInd positive absent

theorem moves_admission (env : Env X) (conn conn' : Conn X) (frame : HTTP2Frame)
    (refused : Option Nat) (done : conn.admit env frame = .ok (conn', refused)) :
    Moves env conn conn' := by
  unfold Conn.admit at done
  split at done
  · cases done
    exact .refl conn
  · rename_i positive
    rcases Outcome.bind_eq_ok.mp done with ⟨middle, provided, rest⟩
    dsimp only at rest
    split at rest
    · cases rest
      exact (moves_provideStream env conn middle _ (Nat.pos_of_ne_zero positive) provided).trans
        (moves_refresh env middle _)
    · cases rest

/-- What is left to do behind the front part is about a listed stream. -/
def Next.IsListed (conn : Conn X) : Next → Prop
  | .report _ => True
  | .headers stream => (conn.listed stream).isSome
  | .data stream _ _ _ => (conn.listed stream).isSome

/-- A part of `ProtParse` moves the connection and leaves something to do about a
listed stream. -/
def Arrives (env : Env X) (conn : Conn X) (part : Outcome (Conn X × Next)) : Prop :=
  ∀ conn' next, part = .ok (conn', next) → Moves env conn conn' ∧ next.IsListed conn'

namespace Arrives

variable {env : Env X} {conn conn' : Conn X}

theorem report (result : Int) (moves : Moves env conn conn') :
    Arrives env conn (.ok (conn', .report result)) := by
  intro final next done
  cases done
  exact ⟨moves, trivial⟩

theorem refuse (streamInd errorCode : Nat) (moves : Moves env conn conn') :
    Arrives env conn (conn'.refuse env streamInd errorCode) :=
  report (-1) (moves.trans (moves_sendGoaway env conn' streamInd errorCode))

theorem fault : Arrives env conn .fault := by
  intro final next done
  cases done

theorem bind {α : Type} {first : Outcome α} {rest : α → Outcome (Conn X × Next)}
    (follows : ∀ value, first = .ok value → Arrives env conn (rest value)) :
    Arrives env conn (first >>= rest) := by
  intro final next done
  rcases Outcome.bind_eq_ok.mp done with ⟨value, found, rest⟩
  exact follows value found final next rest

theorem ite {condition : Prop} [Decidable condition] {first second : Outcome (Conn X × Next)}
    (onTrue : Arrives env conn first) (onFalse : Arrives env conn second) :
    Arrives env conn (if condition then first else second) := by
  split
  · exact onTrue
  · exact onFalse

theorem after {part : Outcome (Conn X × Next)} (moves : Moves env conn conn')
    (arrives : Arrives env conn' part) : Arrives env conn part := by
  intro final next done
  rcases arrives final next done with ⟨later, listed⟩
  exact ⟨moves.trans later, listed⟩

end Arrives

theorem arrives_priorityArm (env : Env X) (conn : Conn X) (frame : HTTP2Frame)
    (memory : List UInt8) : Arrives env conn (conn.priorityArm env frame memory) := by
  unfold Conn.priorityArm
  split
  · exact .refuse _ _ (.refl conn)
  · apply Arrives.bind
    rintro ⟨depInd, exclusive, weight⟩ _
    exact .report _ (moves_setPriority env conn _ depInd weight exclusive)

theorem listed_hpackParse {conn conn' : Conn X} {stream pointer : StreamPtr}
    {field : List UInt8} {len code : Int}
    (parsed : conn.hpackParse stream field len = .ok (conn', code)) :
    (conn'.listed pointer).isSome = (conn.listed pointer).isSome := by
  rcases Outcome.bind_eq_ok.mp parsed with ⟨result, _, rest⟩
  cases rest
  exact isSome_listed_assign rfl fun _ => rfl

theorem arrives_parseFragment (env : Env X) (conn : Conn X) (stream : StreamPtr)
    (fragment : List UInt8) (fragmentLen : Int) (listed : (conn.listed stream).isSome) :
    Arrives env conn (conn.parseFragment env stream fragment fragmentLen) := by
  apply Arrives.bind
  rintro ⟨middle, code⟩ parsed
  have moves : Moves env conn middle :=
    .step (.parse conn middle stream fragment fragmentLen code parsed) (held_hpackParse parsed)
  dsimp only
  split
  · exact .refuse _ _ moves
  · intro final next done
    cases done
    exact ⟨moves, by simpa [Next.IsListed, listed_hpackParse parsed] using listed⟩

theorem moves_renewStream (env : Env X) (conn : Conn X) (streamInd : Nat) :
    Moves env conn (conn.renewStream env streamInd) := by
  unfold Conn.renewStream
  split
  · rename_i stream found
    split
    · have listed := listed_of_getStreamInstance found
      have erased : Moves env conn (conn.eraseStream ⟨streamInd, stream.object⟩) :=
        .step (.erase conn _ (by simp [listed])) rfl
      exact erased.trans (moves_createStream env _ streamInd
        (getStreamInstance_eq_some.mp found).1 (by simp [Conn.eraseStream, Conn.log]))
    · exact .refl conn
  · rename_i missing
    split
    · rename_i positive
      exact moves_createStream env conn streamInd positive
        (by simpa [Conn.getStreamInstance, positive] using missing)
    · exact .refl conn

theorem moves_headersPriority (env : Env X) (conn conn' : Conn X) (frame : HTTP2Frame)
    (memory : List UInt8) (offset offset' : Nat)
    (done : conn.headersPriority frame memory offset = .ok (conn', offset')) :
    Moves env conn conn' := by
  unfold Conn.headersPriority at done
  split at done
  · rcases Outcome.bind_eq_ok.mp done with ⟨⟨depInd, exclusive, weight⟩, _, rest⟩
    dsimp only at rest
    split at rest
    · split at rest
      · cases rest
      · cases rest
        exact moves_setPriority env conn _ depInd weight exclusive
    · cases rest
      exact .refl conn
  · cases done
    exact .refl conn

theorem listed_openStream (conn : Conn X) (stream pointer : StreamPtr) :
    (conn.openStream stream).listed pointer =
      if pointer = stream then
        (conn.listed pointer).map fun opened => { opened with streamState := .open }
      else conn.listed pointer := by
  unfold Conn.openStream
  rw [listed_log, listed_assign]
  intro opened
  rfl

theorem arrives_headersArm (env : Env X) (conn : Conn X) (frame : HTTP2Frame)
    (memory : List UInt8) : Arrives env conn (conn.headersArm env frame memory) := by
  refine .after (moves_renewStream env conn frame.streamInd) (.bind ?_)
  rintro ⟨paddingLen, offset⟩ _
  apply Arrives.bind
  rintro ⟨middle, offset⟩ priority
  refine .after (moves_headersPriority env _ middle frame memory _ offset priority) ?_
  dsimp only
  split
  · rename_i stream found
    have listed := (pointer_eq_some.mp found).2.2
    refine .after (.step (.opens middle stream listed) ?_)
      (arrives_parseFragment env _ stream _ _ ?_)
    · simp [Conn.openStream]
    · simpa [listed_openStream] using listed
  · exact .report _ (.refl middle)

theorem arrives_continuationArm (env : Env X) (conn : Conn X) (frame : HTTP2Frame)
    (memory : List UInt8) : Arrives env conn (conn.continuationArm env frame memory) := by
  unfold Conn.continuationArm
  split
  · rename_i stream found
    exact arrives_parseFragment env conn stream memory _ (pointer_eq_some.mp found).2.2
  · exact .refuse _ _ (.refl conn)

theorem readOctets_eq_ok {memory octets : List UInt8} {offset len : Nat}
    (done : readOctets memory offset len = .ok octets) :
    offset + len ≤ memory.length ∧ octets = (memory.drop offset).take len := by
  unfold readOctets at done
  split at done
  · cases done
    exact ⟨‹_›, rfl⟩
  · cases done

/-- The first octets of a payload are those of the memory behind it. -/
theorem take_payload {memory : List UInt8} {payloadLen len : Nat}
    (enough : len ≤ (memory.take payloadLen).length) :
    (memory.take payloadLen).take len = memory.take len := by
  rw [List.length_take] at enough
  rw [List.take_take, min_eq_left (by omega)]

theorem arrives_settingsArm (env : Env X) (conn : Conn X) (frame : HTTP2Frame)
    (memory : List UInt8) : Arrives env conn (conn.settingsArm env frame memory) := by
  unfold Conn.settingsArm
  split
  · exact .report _ (.refl conn)
  · apply Arrives.bind
    intro setting read
    have received : Moves env conn
        (conn.receiveSetting setting (memory.take frame.length)) := by
      refine .step (.setting conn setting _ fun enough => ?_) (by simp [Conn.receiveSetting])
      rw [take_payload enough]
      simpa using (readOctets_eq_ok read).2
    exact .report _ (received.trans (moves_sendSettingAck env _ _))

theorem arrives_dataArm (env : Env X) (conn : Conn X) (frame : HTTP2Frame)
    (memory : List UInt8) : Arrives env conn (conn.dataArm env frame memory) := by
  refine .after (moves_receiveData env conn frame.streamInd frame.length) ?_
  unfold Conn.dataArm
  dsimp only
  split
  · split
    · exact .refuse _ _ (.refl _)
    · exact .report _ (.refl _)
  · rename_i pushed found
    have listed := listed_of_getStreamInstance found
    split
    · exact .refuse _ _ (.refl _)
    · apply Arrives.bind
      rintro ⟨offset, len⟩ _
      apply Arrives.bind
      intro buf _ final next done
      cases done
      refine ⟨moves_assign env _ _ _ fun _ => ?_, ?_⟩
      · exact ⟨rfl, rfl, rfl, rfl, fun hpack present => ⟨hpack, present, rfl⟩⟩
      · simp [Next.IsListed, listed_assign, listed]

theorem arrives_windowUpdateArm (env : Env X) (conn : Conn X) (frame : HTTP2Frame)
    (memory : List UInt8) : Arrives env conn (conn.windowUpdateArm env frame memory) := by
  apply Arrives.bind
  intro octets read
  have received : Moves env conn (conn.receiveWindowUpdate frame.streamInd
      (ntoh31 octets % 2 ^ 31) (memory.take frame.length)) := by
    refine .step (.windowUpdate conn _ _ _ fun enough => ?_) (by simp)
    rw [take_payload enough, (readOctets_eq_ok read).2]
    rfl
  dsimp only
  split
  · exact .report _ (received.trans (moves_sendGoaway env _ _ _))
  · exact .report _ received

theorem arrives_rstStreamArm (env : Env X) (conn : Conn X) (frame : HTTP2Frame)
    (memory : List UInt8) : Arrives env conn (conn.rstStreamArm env frame memory) := by
  unfold Conn.rstStreamArm
  split
  · split
    · exact .report _ (moves_sendGoaway env conn _ _)
    · rename_i stream _ _
      have resets : Moves env conn (conn.resetStream ⟨frame.streamInd, stream.object⟩) :=
        .step (.reset conn _) (by simp)
      apply Arrives.bind
      intro errorCode _
      split
      · exact .report _ (resets.trans (moves_sendGoaway env _ _ _))
      · exact .report _ resets
  · exact .report _ (moves_sendGoaway env conn _ _)

theorem arrives_pingArm (env : Env X) (conn : Conn X) (frame : HTTP2Frame)
    (memory : List UInt8) : Arrives env conn (conn.pingArm env frame memory) := by
  unfold Conn.pingArm
  split
  · exact .report _ (.refl conn)
  · apply Arrives.bind
    intro opaqueData _
    exact .report _ (moves_sendPingAck env conn _ opaqueData)

theorem arrives_arms (env : Env X) (conn : Conn X) (frame : HTTP2Frame) (memory : List UInt8) :
    Arrives env conn (conn.arms env frame memory) := by
  unfold Conn.arms
  refine .ite ?_ ?_
  · apply Arrives.bind
    intro _ _
    exact .report _ (.refl conn)
  refine .ite (arrives_priorityArm env conn frame memory) ?_
  refine .ite (arrives_headersArm env conn frame memory) ?_
  refine .ite (arrives_continuationArm env conn frame memory) ?_
  refine .ite (.refuse _ _ (.refl conn)) ?_
  refine .ite (arrives_settingsArm env conn frame memory) ?_
  refine .ite (arrives_dataArm env conn frame memory) ?_
  refine .ite (arrives_windowUpdateArm env conn frame memory) ?_
  refine .ite (arrives_rstStreamArm env conn frame memory) ?_
  refine .ite (arrives_pingArm env conn frame memory) ?_
  exact .report _ (.refl conn)

/-- The front part of `ProtParse` is a sequence of steps. -/
theorem arrives_front (env : Env X) (conn : Conn X) (frame : HTTP2Frame) (memory : List UInt8) :
    Arrives env conn (conn.front env frame memory) := by
  apply Arrives.bind
  rintro ⟨admitted, refused⟩ admission
  refine .after (moves_admission env conn admitted frame refused admission) ?_
  cases refused with
  | none => exact arrives_arms env admitted frame memory
  | some errorCode => exact .refuse _ _ (.refl admitted)

end Http2

end HeapHttpd
