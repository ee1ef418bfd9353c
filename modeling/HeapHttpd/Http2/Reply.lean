import HeapHttpd.Http2.Send
import HeapHttpd.Library.Resumption

/-!
# Responses

The code that may have to wait for the client to open a window, from
`CHttp2::TransHttp1SendHttp2Content` up to the responses that send with it.
While it waits the connection handles other frames.
-/

namespace HeapHttpd

namespace Http2

open General Http1

/-- What the code of a connection works on: the connection, the flags of the
frame header that `ProtParse` refers to, and the octets a synchronous socket has
yet to give. -/
structure Turn (X : Type) where
  conn : Conn X
  flags : UInt8
  incoming : List UInt8

/-- Code of a connection. -/
abbrev Code (X α : Type) :=
  Prog (Turn X) α

variable {X α : Type}

namespace Code

/-- The connection as it is. -/
def conn : Code X (Conn X) :=
  fun turn => .done turn turn.conn

/-- A change of the connection. -/
def change (operation : Conn X → Conn X) : Code X Unit :=
  Prog.modify fun turn => { turn with conn := operation turn.conn }

/-- An operation on the connection that may go wrong. -/
def attempt (operation : Conn X → Outcome (Conn X × α)) : Code X α :=
  fun turn =>
    match operation turn.conn with
    | .ok (conn, result) => .done { turn with conn } result
    | _ => .fault turn

theorem attempt_of_ok {operation : Conn X → Outcome (Conn X × α)} {turn : Turn X}
    {conn : Conn X} {result : α} (done : operation turn.conn = .ok (conn, result)) :
    attempt operation turn = .done { turn with conn } result := by
  unfold attempt
  rw [done]

theorem attempt_of_fault {operation : Conn X → Outcome (Conn X × α)} {turn : Turn X}
    (failed : ∀ conn result, operation turn.conn ≠ .ok (conn, result)) :
    attempt operation turn = .fault turn := by
  unfold attempt
  split
  · rename_i conn result done
    exact absurd done (failed conn result)
  · rfl

/-- Code that takes a pointer and drops it in the end. -/
def holding (held : Holding) (body : Code X α) : Code X α := do
  Prog.modify fun turn => { turn with conn := turn.conn.hold held }
  let result ← body
  Prog.modify fun turn => { turn with conn := turn.conn.release }
  return result

/-- Code that takes a pointer to a listed stream, or does without. -/
def withStream (streamInd : Nat) (missing : Code X α) (body : StreamPtr → Code X α) :
    Code X α :=
  fun turn =>
    match turn.conn.pointer streamInd with
    | some stream => holding (.stream stream) (body stream) turn
    | none => missing turn

/-- The stream a pointer points to. -/
def access (stream : StreamPtr) : Code X (Http2Stream X) := do
  change fun conn => conn.touch (.stream stream)
  match (← conn).deref stream with
  | some accessed => return accessed
  | none => Prog.fault

/-- The stream and the decoded headers two pointers point to. -/
def accessHeaders (stream : StreamPtr) (object : Nat) :
    Code X (Http2Stream X × HpackObject) := do
  change fun conn => conn.touch (.headers stream object)
  match (← conn).deref stream with
  | some accessed =>
      match accessed.hpack with
      | some hpack => if hpack.object = object then return (accessed, hpack) else Prog.fault
      | none => Prog.fault
  | none => Prog.fault

/-- Change the members of `CHttp` behind a stream. -/
def assignHttp1 (stream : StreamPtr) (http1 : CHttp X) : Code X Unit :=
  change fun conn => conn.assign stream fun assigned => { assigned with http1 }

end Code

open Code

/-- The passes of `CHttp2::TransHttp1SendHttp2Content`, from `sentLen` on. -/
def sendContentLoop (env : Env X) (stream : StreamPtr) (buf : List UInt8) :
    Nat → Nat → Code X Int
  | 0, _ => Prog.spent
  | passes + 1, sentLen => do
      let _ ← access stream
      let (ret, pre) ← attempt fun conn => conn.sendData env stream (buf.drop sentLen)
      if ret = -1 then return ret
      else if sentLen + pre = buf.length then return ret
      else
        let sender ← access stream
        if sender.peerWindowSize = 0 then Prog.wait
        sendContentLoop env stream buf passes (sentLen + pre)

/-- `CHttp2::TransHttp1SendHttp2Content`. -/
def transHttp1SendHttp2Content (env : Env X) (streamInd : Nat) (buf : List UInt8) : Code X Int :=
  withStream streamInd (return -1) fun stream => sendContentLoop env stream buf env.patience 0

/-- What `CHttp::ResponseReply` does, with `serve` for its calls to the
connection. -/
def runScript (serve : ServerCall → Code X Int) (stream : StreamPtr) : Script X → Code X Unit
  | .finish httpState rest => do
      let replying ← access stream
      assignHttp1 stream { replying.http1 with httpState, rest }
  | .call httpState rest serverCall next => do
      let replying ← access stream
      assignHttp1 stream { replying.http1 with httpState, rest }
      let ret ← serve serverCall
      let replying ← access stream
      runScript serve stream (next replying.http1 ret)

/-- The body of `http2_stream::Response`. -/
def respond (env : Env X) (serve : ServerCall → Code X Int) (stream : StreamPtr) :
    Code X Unit := do
  let replying ← access stream
  let http1 := { replying.http1 with httpState := .authentication }
  assignHttp1 stream http1
  runScript serve stream (env.responseReply http1)

/-- `http2_stream::Response`. -/
def response (env : Env X) (serve : ServerCall → Code X Int) (stream : StreamPtr) :
    Code X Unit := do
  change fun conn => conn.log (.response stream)
  respond env serve stream

/-- `CHttp::DataParse` in the synchronous build. -/
def dataParse (env : Env X) (serve : ServerCall → Code X Int) (stream : StreamPtr) :
    Code X Unit := do
  let replying ← access stream
  if replying.http1.contentLength < 0 then
    runScript serve stream (env.lengthRequired replying.http1)
  else
    let turn ← Prog.get
    let (http1, incoming) := recvPostData turn.incoming replying.http1
    Prog.modify fun turn => { turn with incoming }
    assignHttp1 stream http1
    runScript serve stream (env.responseReply http1)

/-- `http2_stream::http1_parse`. -/
def http1Parse (env : Env X) (serve : ServerCall → Code X Int) (stream : StreamPtr)
    (text : List UInt8) : Code X Unit := do
  change fun conn => conn.log (.line stream text)
  let parsing ← access stream
  let (http1, blank) := lineParse env.otherLine text parsing.http1
  assignHttp1 stream http1
  if blank ∧ !env.async then dataParse env serve stream

/-- `http2_stream::SendPushPromiseResponse`. -/
def sendPushPromiseResponse (parse : StreamPtr → List UInt8 → Code X Unit) (stream : StreamPtr) :
    Code X Unit := do
  let promised ← access stream
  if promised.pushPromiseTriggerHeader ≠ [] then
    parse stream promised.pushPromiseTriggerHeader
  let _ ← access stream
  change fun conn => conn.assign stream fun promised =>
    { promised with pushPromiseTriggerHeader := [] }

/-- The loop of `CHttp2::SendHttp2PushPromiseResponse` over the streams behind a
key. -/
def pushPromiseLoop (parse : StreamPtr → List UInt8 → Code X Unit) : Nat → Nat → Code X Unit
  | 0, _ => Prog.spent
  | passes + 1, key => do
      match (← conn).streamList.getKeyGT? key with
      | none => return ()
      | some streamInd =>
          if streamInd % 2 = 0 then
            withStream streamInd (return ()) fun stream => do
              sendPushPromiseResponse parse stream
              let _ ← access stream
              if ((← conn).listed stream).isNone then Prog.fault
          pushPromiseLoop parse passes streamInd

/-- `CHttp2::SendHttp2PushPromiseResponse`. -/
def sendHttp2PushPromiseResponse (env : Env X) (parse : StreamPtr → List UInt8 → Code X Unit) :
    Code X Unit := do
  let seen ← conn
  if seen.enablePush ∧ seen.pushedRequest ∧ !seen.pushedResponse then
    change fun conn => { conn with pushedResponse := true }
    if seen.nullEntry then Prog.fault
    pushPromiseLoop parse env.patience 0

/-- A call of the response to the connection. -/
def serve (env : Env X) : Nat → Nat → ServerCall → Code X Int
  | _, streamInd, .sendHeader text =>
      attempt fun conn => do
        let (conn, _) ← conn.transHttp1SendHttp2Header env streamInd text FrameType.headers 0
        .ok (conn, 0)
  | _, streamInd, .sendContent buf => transHttp1SendHttp2Content env streamInd buf
  | _, streamInd, .sendEmptyContent =>
      attempt fun conn =>
        conn.sendHttp2EmptyContent env streamInd (Flag.endStream ||| Flag.padded)
  | 0, _, .sendPushPromiseResponse => Prog.spent
  | depth + 1, _, .sendPushPromiseResponse => do
      sendHttp2PushPromiseResponse env fun stream text =>
        http1Parse env (serve env depth stream.streamInd) stream text
      return 0
  | _, streamInd, .pushPromise path =>
      attempt fun conn => do
        let conn ← conn.pushPromise env streamInd path
        .ok (conn, 0)

end Http2

end HeapHttpd
