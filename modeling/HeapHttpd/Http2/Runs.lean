import HeapHttpd.Http2.Steps

/-!
# Runs of a connection

A connection is a machine: frames are passed to `ProtParse` one after the other,
also while responses wait.  Whatever comes in and whenever, the connection has
got where it is by steps.
-/

namespace HeapHttpd

namespace Http2

open General Hpack Http1 Relation Code

variable {X α β : Type}

/-- A connection reached by steps from the exchange of the prefaces on. -/
inductive Run (env : Env X) : Conn X → Prop
  | start (pushPromise : Bool) (exchanged : env.async ∨ env.sendFails 0 = false) :
      Run env (Conn.start env pushPromise)
  | step (conn conn' : Conn X) (run : Run env conn) (once : Step env conn conn') : Run env conn'

theorem Run.moves {env : Env X} {conn conn' : Conn X} (run : Run env conn)
    (moves : Moves env conn conn') : Run env conn' := by
  have steps := moves.1
  clear moves
  induction steps with
  | refl => exact run
  | tail _ once ih => exact .step _ _ ih once

/-- What comes to a connection: a frame, with the memory its payload lies in, or
something that only changes the receiving side. -/
inductive Input
  | frame (frame : HTTP2Frame) (memory : List UInt8)
  | receiver (flags : UInt8) (incoming : List UInt8)

/-- What a connection does with what comes. -/
def handle (env : Env X) : Input → Code X Int
  | .frame frame memory => protParse env frame memory
  | .receiver flags incoming => fun turn => .done { turn with flags, incoming } 0

/-- The states a connection can be in, with the procedures that wait. -/
def Reachable (env : Env X) : Machine (Turn X) Int → Prop :=
  Machine.Reachable (handle env) fun turn =>
    ∃ pushPromise, turn.conn = Conn.start env pushPromise ∧
      (env.async ∨ env.sendFails 0 = false)

/-- Code keeps to steps, from states in which code that waits has certain
pointers on. -/
def Keeps (env : Env X) (held : List Holding) (code : Code X α) : Prop :=
  Prog.Keeps (fun turn => Run env turn.conn) (fun turn => turn.conn.held) held code

namespace Keeps

variable {env : Env X} {held : List Holding}

theorem pure (result : α) : Keeps env held (Pure.pure result : Code X α) :=
  Prog.Keeps.pure result

theorem bind {code : Code X α} {next : α → Code X β} (kept : Keeps env held code)
    (follows : ∀ result, Keeps env held (next result)) : Keeps env held (code >>= next) :=
  Prog.Keeps.bind kept follows

theorem conn : Keeps env held (Code.conn : Code X (Conn X)) :=
  fun turn run same => .done turn turn.conn run same

theorem change {operation : Conn X → Conn X}
    (moves : ∀ conn, conn.held = held → Moves env conn (operation conn)) :
    Keeps env held (Code.change operation) :=
  fun turn run same =>
    .done _ () (run.moves (moves turn.conn same)) ((moves turn.conn same).2.trans same)

/-- Two changes that are one step together. -/
theorem changes {first second : Conn X → Conn X} {code : Code X α}
    (moves : ∀ conn, Moves env conn (second (first conn))) (follows : Keeps env held code) :
    Keeps env held (do
      Code.change first
      Code.change second
      code) :=
  fun turn run same =>
    follows _ (run.moves (moves turn.conn)) ((moves turn.conn).2.trans same)

theorem attempt {operation : Conn X → Outcome (Conn X × α)}
    (moves : ∀ conn conn' result, conn.held = held → operation conn = .ok (conn', result) →
      Moves env conn conn') : Keeps env held (Code.attempt operation) := by
  intro turn run same
  unfold Code.attempt
  split
  · rename_i conn result done
    have moved := moves turn.conn conn result same done
    exact .done _ result (run.moves moved) (moved.2.trans same)
  · exact .fault turn run

/-- Code between the taking and the dropping of a pointer. -/
theorem holding {holding : Holding} {body : Code X α} {turn : Turn X}
    (kept : Keeps env (holding :: held) body) (run : Run env turn.conn)
    (same : turn.conn.held = held) (owned : turn.conn.touch holding = turn.conn) :
    (Code.holding holding body turn).Guarantees (fun turn => Run env turn.conn)
      (fun turn => turn.conn.held) held := by
  refine (kept _ (.step _ _ run (.hold turn.conn holding owned)) ?_).andThen
    fun turn result run same => ?_
  · simp [Conn.hold, same]
  · exact .done _ result (.step _ _ run (.release turn.conn)) (by simp [Conn.release, same])

theorem withStream {streamInd : Nat} {missing : Code X α} {body : StreamPtr → Code X α}
    (without : Keeps env held missing)
    (within : ∀ stream, Keeps env (.stream stream :: held) (body stream)) :
    Keeps env held (Code.withStream streamInd missing body) := by
  intro turn run same
  unfold Code.withStream
  split
  · rename_i stream found
    refine holding (within stream) run same ?_
    rcases Option.isSome_iff_exists.mp (pointer_eq_some.mp found).2.2 with ⟨present, listed⟩
    simp [Conn.touch, Holding.owner, listed]
  · exact without turn run same

theorem touch {holding : Holding} (member : holding ∈ held) :
    Keeps env held (Code.change fun conn : Conn X => conn.touch holding) :=
  change fun conn same => .step (.touch conn holding (same ▸ member)) (held_touch conn holding)

theorem access {stream : StreamPtr} (member : .stream stream ∈ held) :
    Keeps env held (Code.access stream : Code X (Http2Stream X)) := by
  refine bind (touch member) fun _ => bind conn fun seen => ?_
  split
  · exact pure _
  · exact Prog.Keeps.fault

theorem accessHeaders {stream : StreamPtr} {object : Nat}
    (member : .headers stream object ∈ held) :
    Keeps env held (Code.accessHeaders stream object : Code X (Http2Stream X × HpackObject)) := by
  refine bind (touch member) fun _ => bind conn fun seen => ?_
  split
  · split
    · split
      · exact pure _
      · exact Prog.Keeps.fault
    · exact Prog.Keeps.fault
  · exact Prog.Keeps.fault

theorem assign {stream : StreamPtr} {operation : Http2Stream X → Http2Stream X}
    (same : ∀ before, SameFlow before (operation before)) :
    Keeps env held (Code.change fun conn : Conn X => conn.assign stream operation) :=
  change fun conn _ => moves_assign env conn stream operation same

theorem assignHttp1 (stream : StreamPtr) (http1 : CHttp X) :
    Keeps env held (Code.assignHttp1 stream http1) :=
  assign fun _ => ⟨rfl, rfl, rfl, rfl, fun hpack present => ⟨hpack, present, rfl⟩⟩

theorem note {event : Event} (plain : event.IsPlain) :
    Keeps env held (Code.change fun conn : Conn X => conn.log event) :=
  change fun conn _ => .step (.note conn event plain) rfl

end Keeps

section Responses

variable {env : Env X} {held : List Holding}

theorem keeps_sendContentLoop {stream : StreamPtr} {buf : List UInt8}
    (member : .stream stream ∈ held) (passes sentLen : Nat) :
    Keeps env held (sendContentLoop env stream buf passes sentLen) := by
  induction passes generalizing sentLen with
  | zero => exact Prog.Keeps.spent
  | succ passes ih =>
      refine .bind (.access member) fun _ => .bind (.attempt ?_) ?_
      · rintro conn conn' ⟨ret, pre⟩ same sent
        exact .step (.sendData conn conn' stream _ ret pre (same ▸ member) sent)
          (held_sendData sent)
      · rintro ⟨ret, pre⟩
        dsimp only
        split
        · exact .pure _
        · split
          · exact .pure _
          · refine .bind (.access member) fun sender => ?_
            split
            · exact .bind Prog.Keeps.wait fun _ => ih _
            · exact ih _

theorem keeps_transHttp1SendHttp2Content (streamInd : Nat) (buf : List UInt8) :
    Keeps env held (transHttp1SendHttp2Content env streamInd buf) :=
  .withStream (.pure _) fun _ => keeps_sendContentLoop List.mem_cons_self _ _

theorem keeps_runScript {serve : ServerCall → Code X Int} {stream : StreamPtr}
    (serves : ∀ serverCall, Keeps env held (serve serverCall))
    (member : .stream stream ∈ held) (script : Script X) :
    Keeps env held (runScript serve stream script) := by
  induction script with
  | finish httpState rest =>
      exact .bind (.access member) fun _ => .assignHttp1 stream _
  | call httpState rest serverCall next ih =>
      refine .bind (.access member) fun _ => .bind (.assignHttp1 stream _) fun _ => ?_
      refine .bind (serves serverCall) fun ret => .bind (.access member) fun replying => ?_
      exact ih replying.http1 ret

theorem keeps_respond {serve : ServerCall → Code X Int} {stream : StreamPtr}
    (serves : ∀ serverCall, Keeps env held (serve serverCall))
    (member : .stream stream ∈ held) : Keeps env held (respond env serve stream) :=
  .bind (.access member) fun _ => .bind (.assignHttp1 stream _) fun _ =>
    keeps_runScript serves member _

theorem keeps_dataParse {serve : ServerCall → Code X Int} {stream : StreamPtr}
    (serves : ∀ serverCall, Keeps env held (serve serverCall))
    (member : .stream stream ∈ held) : Keeps env held (dataParse env serve stream) := by
  refine .bind (.access member) fun replying => ?_
  split
  · exact keeps_runScript serves member _
  · refine .bind Prog.Keeps.get fun turn => .bind ?_ fun _ => ?_
    · exact Prog.Keeps.modify (fun turn run _ => run) fun turn same => same
    · exact .bind (.assignHttp1 stream _) fun _ => keeps_runScript serves member _

theorem keeps_http1Parse {serve : ServerCall → Code X Int} {stream : StreamPtr}
    (serves : ∀ serverCall, Keeps env held (serve serverCall))
    (member : .stream stream ∈ held) (text : List UInt8) :
    Keeps env held (http1Parse env serve stream text) := by
  refine .bind (.note trivial) fun _ => .bind (.access member) fun parsing => ?_
  refine .bind (.assignHttp1 stream _) fun _ => ?_
  split
  · exact keeps_dataParse serves member
  · exact .pure _

theorem keeps_sendPushPromiseResponse {parse : StreamPtr → List UInt8 → Code X Unit}
    {stream : StreamPtr} (parses : ∀ text, Keeps env held (parse stream text))
    (member : .stream stream ∈ held) :
    Keeps env held (sendPushPromiseResponse parse stream) := by
  have cleared : Keeps env held (do
      let _ ← access stream
      Code.change fun conn : Conn X => conn.assign stream fun promised =>
        { promised with pushPromiseTriggerHeader := [] }) :=
    .bind (.access member) fun _ =>
      .assign fun _ => ⟨rfl, rfl, rfl, rfl, fun hpack present => ⟨hpack, present, rfl⟩⟩
  refine .bind (.access member) fun promised => ?_
  split
  · exact .bind (parses _) fun _ => cleared
  · exact cleared

theorem keeps_pushPromiseLoop {parse : StreamPtr → List UInt8 → Code X Unit}
    (parses : ∀ held stream text, .stream stream ∈ held → Keeps env held (parse stream text))
    (passes key : Nat) : Keeps env held (pushPromiseLoop parse passes key) := by
  induction passes generalizing key with
  | zero => exact Prog.Keeps.spent
  | succ passes ih =>
      refine .bind .conn fun seen => ?_
      split
      · exact .pure _
      · split
        · refine .bind (.withStream (.pure _) fun stream => ?_) fun _ => ih _
          have member : Holding.stream stream ∈ Holding.stream stream :: held :=
            List.mem_cons_self
          refine .bind (keeps_sendPushPromiseResponse (fun text => parses _ _ text member) member)
            fun _ => .bind (.access member) fun _ => .bind .conn fun seen => ?_
          split
          · exact Prog.Keeps.fault
          · exact .pure _
        · exact ih _

theorem keeps_sendHttp2PushPromiseResponse {parse : StreamPtr → List UInt8 → Code X Unit}
    (parses : ∀ held stream text, .stream stream ∈ held → Keeps env held (parse stream text)) :
    Keeps env held (sendHttp2PushPromiseResponse env parse) := by
  refine .bind .conn fun seen => ?_
  split
  · refine .bind (.change fun conn _ => ?_) fun _ => ?_
    · exact .step (.members conn conn.nullEntry conn.pushedRequest true) rfl
    · split
      · exact .bind Prog.Keeps.fault fun _ => keeps_pushPromiseLoop parses _ _
      · exact keeps_pushPromiseLoop parses _ _
  · exact .pure _

theorem keeps_sendHeader (streamInd : Nat) (text : List UInt8) :
    Keeps env held (attempt fun conn => do
      let (conn, _) ← conn.transHttp1SendHttp2Header env streamInd text FrameType.headers 0
      .ok (conn, (0 : Int))) := by
  refine .attempt fun conn conn' result _ done => ?_
  rcases Outcome.bind_eq_ok.mp done with ⟨⟨sent, ret⟩, sends, rest⟩
  cases rest
  exact .step (.sendHeader conn conn' streamInd text _ 0 ret (.inl rfl) sends)
    (held_transHttp1SendHttp2Header sends)

theorem keeps_sendEmptyContent (streamInd : Nat) :
    Keeps env held (attempt fun conn =>
      conn.sendHttp2EmptyContent env streamInd (Flag.endStream ||| Flag.padded)) :=
  .attempt fun conn conn' ret _ sent =>
    .step (.sendEmptyContent conn conn' streamInd ret sent) (held_sendHttp2EmptyContent sent)

theorem keeps_pushPromise (streamInd : Nat) (path : List UInt8) :
    Keeps env held (attempt fun conn => do
      let conn ← conn.pushPromise env streamInd path
      .ok (conn, (0 : Int))) := by
  refine .attempt fun conn conn' result _ done => ?_
  rcases Outcome.bind_eq_ok.mp done with ⟨pushed, pushes, rest⟩
  cases rest
  exact moves_pushPromise env conn conn' streamInd path pushes

/-- Whatever the response asks the connection for is a sequence of steps. -/
theorem keeps_serve (depth streamInd : Nat) (serverCall : ServerCall) :
    Keeps env held (serve env depth streamInd serverCall) := by
  induction depth generalizing held streamInd serverCall with
  | zero =>
      cases serverCall with
      | sendHeader text => exact keeps_sendHeader streamInd text
      | sendContent buf => exact keeps_transHttp1SendHttp2Content streamInd buf
      | sendEmptyContent => exact keeps_sendEmptyContent streamInd
      | sendPushPromiseResponse => exact Prog.Keeps.spent
      | pushPromise path => exact keeps_pushPromise streamInd path
  | succ depth ih =>
      cases serverCall with
      | sendHeader text => exact keeps_sendHeader streamInd text
      | sendContent buf => exact keeps_transHttp1SendHttp2Content streamInd buf
      | sendEmptyContent => exact keeps_sendEmptyContent streamInd
      | sendPushPromiseResponse =>
          refine .bind (keeps_sendHttp2PushPromiseResponse fun held stream text member => ?_)
            fun _ => .pure _
          exact keeps_http1Parse (fun serverCall => ih _ _) member text
      | pushPromise path => exact keeps_pushPromise streamInd path

end Responses

section Frames

variable {env : Env X} {held : List Holding}

theorem keeps_headerLoop {stream : StreamPtr} {object : Nat}
    (member : .stream stream ∈ held) (headers : .headers stream object ∈ held)
    (passes x : Nat) : Keeps env held (headerLoop env stream object passes x) := by
  induction passes generalizing x with
  | zero => exact Prog.Keeps.spent
  | succ passes ih =>
      refine .bind (.accessHeaders headers) ?_
      rintro ⟨parsing, hpack⟩
      dsimp only
      cases hpack.decodedHeaders[x]? with
      | none => exact .pure _
      | some header =>
          refine .bind .conn fun seen => ?_
          have inserts : Keeps env held (do
              let _ ← Code.accessHeaders stream object
              Code.change fun conn => conn.insertHeader (seen.resolve header)
              headerLoop env stream object passes (x + 1)) :=
            .bind (.accessHeaders headers) fun _ =>
              .bind (.change fun conn _ => .step (.header conn _) rfl) fun _ => ih _
          refine .bind (.assign fun before => ⟨rfl, rfl, rfl, rfl, ?_⟩) fun _ => ?_
          · intro hpack present
            simp [present]
          · split
            · exact .bind (keeps_http1Parse (keeps_serve _ _) member _) fun _ => inserts
            · exact inserts

theorem keeps_headersDone {stream : StreamPtr} (member : .stream stream ∈ held) :
    Keeps env held (headersDone env stream) := by
  have serves (serverCall : ServerCall) :
      Keeps env held (serve env env.patience stream.streamInd serverCall) :=
    keeps_serve env.patience stream.streamInd serverCall
  have ending : Keeps env held (do
      let parsed ← access stream
      Code.change fun conn => conn.log (.headersEnd stream parsed.http1.httpMethod)
      if parsed.http1.httpMethod ≠ .post then
        response env (serve env env.patience stream.streamInd) stream) := by
    refine .bind (.access member) fun parsed => ?_
    have noted (conn : Conn X) :
        Moves env conn (conn.noteHeadersEnd stream parsed.http1.httpMethod) :=
      .step (.headersEnd conn stream _) (by simp)
    unfold Conn.noteHeadersEnd at noted
    split
    · rename_i body
      exact .changes (fun conn => by simpa [body] using noted conn) (keeps_respond serves member)
    · rename_i post
      refine .bind (.change fun conn _ => ?_) fun _ => .pure _
      simpa [not_not.mp post] using noted conn
  refine .bind .conn fun seen => ?_
  split
  · refine .bind (.attempt fun conn conn' result _ done => ?_) fun _ => ending
    rcases Outcome.bind_eq_ok.mp done with ⟨middle, promises, rest⟩
    cases rest
    refine Moves.trans (.step (.members conn conn.nullEntry true conn.pushedResponse) rfl) ?_
    refine (moves_sendPushPromiseRequest env _ middle stream.streamInd promises).trans ?_
    exact .step (.members middle middle.nullEntry middle.pushedRequest false) rfl
  · exact ending

theorem keeps_withHeaders {stream : StreamPtr} {body : HpackObject → Code X Unit}
    (within : ∀ hpack, Keeps env (.headers stream hpack.object :: held) (body hpack)) :
    Keeps env held (withHeaders stream body) := by
  intro turn run same
  unfold withHeaders
  split
  · rename_i hpack found
    rcases Option.bind_eq_some_iff.mp found with ⟨parsed, listed, present⟩
    refine Keeps.holding (within hpack) run same ?_
    simp [Conn.touch, Holding.owner, listed, present]
  · exact .fault turn run

theorem keeps_transHttp2ParseHttp1Header (streamInd : Nat) :
    Keeps env held (transHttp2ParseHttp1Header env streamInd) := by
  refine .withStream (.pure _) fun stream => .bind (keeps_withHeaders fun hpack => ?_) fun _ => ?_
  · exact keeps_headerLoop (List.mem_cons_of_mem _ List.mem_cons_self) List.mem_cons_self _ _
  · exact keeps_headersDone List.mem_cons_self

theorem keeps_finishStream (frame : HTTP2Frame) {stream : StreamPtr}
    (member : .stream stream ∈ held) : Keeps env held (finishStream env frame stream) := by
  have flags : Keeps env held (currentFlags env frame) :=
    fun turn run same => .done turn _ run same
  refine .bind flags fun _ => ?_
  split
  · refine .bind (.access member) fun _ => .change fun conn same => ?_
    exact .step (.ends conn stream (same ▸ member)) (by simp [Conn.endStream])
  · exact .pure _

theorem keeps_finishHeaders (frame : HTTP2Frame) {stream : StreamPtr}
    (member : .stream stream ∈ held) : Keeps env held (finishHeaders env frame stream) := by
  refine .bind ?_ fun _ => ?_
  · unfold finishBlock
    split
    · refine .bind (keeps_transHttp2ParseHttp1Header _) fun _ => ?_
      refine .bind (.access member) fun _ => .change fun conn _ => ?_
      exact .step (.clear conn stream) (by simp [Conn.clearHpack])
    · exact .pure _
  · split
    · exact keeps_finishStream frame member
    · exact .pure _

theorem keeps_finishData (frame : HTTP2Frame) {stream : StreamPtr} (contentLength : Int)
    (stored : Nat) (complete : Bool) (member : .stream stream ∈ held) :
    Keeps env held (finishData env frame stream contentLength stored complete) := by
  have noted (conn : Conn X) :
      Moves env conn (conn.notePushed stream contentLength stored complete) :=
    .step (.pushed conn stream contentLength stored complete) (by simp)
  unfold Conn.notePushed at noted
  cases complete with
  | true =>
      show Keeps env held (do
        Code.change fun conn => conn.log (.pushed stream contentLength stored true)
        Code.change fun conn => conn.log (.response stream)
        respond env (serve env env.patience stream.streamInd) stream
        finishStream env frame stream)
      refine .changes (fun conn => by simpa using noted conn) ?_
      exact .bind (keeps_respond (keeps_serve _ _) member) fun _ => keeps_finishStream frame member
  | false =>
      refine .bind (.change fun conn _ => by simpa using noted conn) fun _ => ?_
      exact .bind (.pure _) fun _ => keeps_finishStream frame member

theorem guarantees_finish (frame : HTTP2Frame) {next : Next} {turn : Turn X}
    (listed : next.IsListed turn.conn) (run : Run env turn.conn)
    (same : turn.conn.held = held) :
    (finish env frame next turn).Guarantees (fun turn => Run env turn.conn)
      (fun turn => turn.conn.held) held := by
  have owned (stream : StreamPtr) (isListed : (turn.conn.listed stream).isSome) :
      turn.conn.touch (.stream stream) = turn.conn := by
    rcases Option.isSome_iff_exists.mp isListed with ⟨present, found⟩
    simp [Conn.touch, Holding.owner, found]
  cases next with
  | report result => exact .done turn result run same
  | headers stream =>
      refine (Keeps.holding (keeps_finishHeaders frame List.mem_cons_self) run same
        (owned stream listed)).andThen fun turn _ run same => ?_
      exact .done turn _ run same
  | data stream contentLength stored complete =>
      refine (Keeps.holding (keeps_finishData frame contentLength stored complete
        List.mem_cons_self) run same (owned stream listed)).andThen fun turn _ run same => ?_
      exact .done turn _ run same

/-- `ProtParse` is a sequence of steps between any two waits. -/
theorem keeps_protParse (frame : HTTP2Frame) (memory : List UInt8) :
    Keeps env held (protParse env frame memory) := by
  refine .bind ?_ fun _ => ?_
  · exact Prog.Keeps.modify (fun turn run _ => .step _ _ run (.note _ _ trivial))
      fun turn same => same
  · intro turn run same
    have front := arrives_front env turn.conn frame memory
    show Proc.Guarantees _ _ _ (Proc.andThen (attempt _ turn) _)
    unfold attempt
    split
    · rename_i conn next done
      rcases front conn next done with ⟨moves, listed⟩
      refine (guarantees_finish frame listed (run.moves moves)
        (moves.2.trans same)).andThen fun turn result run same => ?_
      exact .done _ result (.step _ _ run (.note _ _ trivial)) same
    · exact .fault turn run

end Frames

/-- A reachable connection has got there by steps. -/
theorem Reachable.run {env : Env X} {machine : Machine (Turn X) Int}
    (reachable : Reachable env machine) : Run env machine.state.conn := by
  have initially (turn : Turn X)
      (isFirst : ∃ pushPromise, turn.conn = Conn.start env pushPromise ∧
        (env.async ∨ env.sendFails 0 = false)) : Run env turn.conn := by
    rcases isFirst with ⟨pushPromise, same, exchanged⟩
    rw [same]
    exact .start pushPromise exchanged
  have kept (input : Input) (turn : Turn X) (run : Run env turn.conn) :
      (handle env input turn).Guarantees (fun turn => Run env turn.conn)
        (fun turn => turn.conn.held) turn.conn.held := by
    cases input with
    | frame frame memory => exact keeps_protParse frame memory turn run rfl
    | receiver flags incoming => exact .done _ _ run rfl
  exact (Machine.Reachable.invariant initially kept reachable).1

/-- The machine of a connection after frames, with their memory, and resumptions. -/
def afterFrames (env : Env X) (pushPromise : Bool)
    (inputs : List (Option (HTTP2Frame × List UInt8))) : Machine (Turn X) Int :=
  Machine.after (handle env) ⟨Conn.start env pushPromise, Flag.unset, []⟩
    (inputs.map (Option.map fun input => .frame input.1 input.2))

theorem reachable_afterFrames (env : Env X) (pushPromise : Bool)
    (inputs : List (Option (HTTP2Frame × List UInt8)))
    (exchanged : env.async ∨ env.sendFails 0 = false) :
    Reachable env (afterFrames env pushPromise inputs) :=
  Machine.reachable_after ⟨pushPromise, rfl, exchanged⟩ _

/-- A response of a header, some content and an end. -/
def plainReply (body : List UInt8) (_ : CHttp Unit) : Script Unit :=
  .call .responding () (.sendHeader (octets "HTTP/1.1 200 OK\r\n\r\n")) fun _ _ =>
    .call .responding () (.sendContent body) fun _ _ =>
      .call .respondingDocComplete () .sendEmptyContent fun _ _ => .finish .complete ()

/-- A connection whose responses are all alike. -/
def plainEnv (async : Bool) (body : List UInt8) : Env Unit :=
  { async
    time := id
    sendFails := fun _ => false
    patience := 4
    newRest := ()
    otherLine := fun _ rest => rest
    requestField := fun _ _ => []
    pushPromiseList := fun _ => []
    pushList := []
    responseReply := plainReply body
    lengthRequired := plainReply [] }

/-- A `GET` request. -/
def getRequest (streamInd : Nat) : HTTP2Frame × List UInt8 :=
  (⟨2, FrameType.headers, Flag.endStream ||| Flag.endHeaders, streamInd⟩, [0x82, 0x84])

/-- A short response to a request. -/
theorem trace_short :
    (afterFrames (plainEnv true [1, 2, 3]) true [some (getRequest 1)]).state.conn.trace =
      [.sent ⟨6, 4, 0, 0, [0, 3, 0, 0, 0, 101]⟩ none,
        .sent ⟨6, 4, 0, 0, [0, 4, 127, 255, 255, 255]⟩ none,
        .received ⟨2, 1, 5, 1⟩ [130, 132], .created ⟨1, 0⟩ 65535 2147483647, .opened ⟨1, 0⟩,
        .field ⟨.indexed, 2, [58, 109, 101, 116, 104, 111, 100], [71, 69, 84]⟩,
        .line ⟨1, 0⟩ [71, 69, 84, 32, 47, 32, 72, 84, 84, 80, 47, 49, 46, 49, 13, 10],
        .field ⟨.indexed, 4, [58, 112, 97, 116, 104], [47]⟩,
        .headersEnd ⟨1, 0⟩ .get, .response ⟨1, 0⟩, .sent ⟨1, 1, 4, 1, [136]⟩ (some ⟨1, 0⟩),
        .building ⟨1, 0⟩ 3 16384 65535,
        .sent ⟨9, 0, 8, 1, [5, 1, 2, 3, 0, 0, 0, 0, 0]⟩ (some ⟨1, 0⟩),
        .sent ⟨9, 0, 9, 1, [8, 0, 0, 0, 0, 0, 0, 0, 0]⟩ (some ⟨1, 0⟩),
        .cleared ⟨1, 0⟩ false, .ended ⟨1, 0⟩, .returned 2] := by
  decide +kernel

end Http2

end HeapHttpd
