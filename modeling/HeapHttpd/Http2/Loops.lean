import HeapHttpd.Http2.ProtParse

/-!
# Frames out of octets

The loops that cut what arrives into frames and pass them to `ProtParse`: one
that blocks on a socket, and one that is called whenever something has arrived.
Either is entered again while a response waits.
-/

namespace HeapHttpd

namespace Http2

open General

variable {X : Type}

/-- `Http_Connection`, less what these loops do not return. -/
inductive HttpConnection
  | httpContinue
  | httpClose
  deriving DecidableEq, Repr

/-- The payload `CHttp2::ProtRecv` allocates, with the octet it adds. -/
def payloadMemory (payload : List UInt8) : List UInt8 :=
  if payload = [] then [] else payload ++ [0]

/-- `CHttp2::ProtRecv`, with its result.  What waits inside it receives further
frames, to a given depth. -/
def protRecv (env : Env X) : Nat → Turn X → Outcome (Turn X × Int)
  | 0, _ => .err
  | depth + 1, turn =>
      if turn.incoming.length < sizeofFrame then .ok ({ turn with incoming := [] }, -1)
      else
        let frame := HTTP2Frame.ofOctets (turn.incoming.take sizeofFrame)
        let rest := turn.incoming.drop sizeofFrame
        if rest.length < frame.length then .ok ({ turn with incoming := [] }, -1)
        else do
          let proc :=
            protParse env frame (payloadMemory (rest.take frame.length))
              { turn with incoming := rest.drop frame.length }
          let (parsed, _) ← proc.run (fun turn _ => do
            let (turn, _) ← protRecv env depth turn
            .ok (turn, ())) ()
          .ok parsed

/-- The loop of `CHttp2::Processing`. -/
def processing (env : Env X) (depth : Nat) : Nat → Turn X → Outcome (Turn X × HttpConnection)
  | 0, _ => .err
  | passes + 1, turn => do
      let (turn, result) ← protRecv env depth turn
      if result ≤ 0 then .ok (turn, .httpClose) else processing env depth passes turn

/-- `Http2_State`. -/
inductive Http2State
  | http2Prefix
  | http2Header
  | http2Payload
  deriving DecidableEq, Repr

/-- What one call of `CHttp2::AsyncProcessing` receives, and whether the socket
fails behind it. -/
structure Arrival where
  data : List UInt8
  failed : Bool
  deriving DecidableEq, Repr

/-- The members of `CHttp2` that are about receiving, and what is yet to
arrive. -/
structure Receiver where
  http2State : Http2State
  frameHdr : List UInt8
  frameHdrValidLen : Nat
  payload : List UInt8
  payloadValidLen : Nat
  asyncRecvBuf : List UInt8
  arrivals : List Arrival
  deriving DecidableEq, Repr

/-- The members of `CHttp2` that are about receiving, at the start. -/
def Receiver.new (arrivals : List Arrival) : Receiver :=
  { http2State := .http2Prefix
    frameHdr := List.replicate sizeofFrame 0
    frameHdrValidLen := 0
    payload := []
    payloadValidLen := 0
    asyncRecvBuf := []
    arrivals }

/-- The loop over `CHttp2::AsyncRecv`, with what it leaves in `httpConn`. -/
def Receiver.asyncRecv (receiver : Receiver) : Receiver × HttpConnection :=
  match receiver.arrivals with
  | [] => (receiver, .httpContinue)
  | arrival :: arrivals =>
      ({ receiver with asyncRecvBuf := receiver.asyncRecvBuf ++ arrival.data, arrivals },
        if arrival.failed then .httpClose else .httpContinue)

/-- Move what is received behind what is left of the payload. -/
def Receiver.takeReceived (receiver : Receiver) : Receiver :=
  { receiver with
    payload := receiver.payload.take receiver.payloadValidLen ++ receiver.asyncRecvBuf
    payloadValidLen := receiver.payloadValidLen + receiver.asyncRecvBuf.length
    asyncRecvBuf := [] }

/-- Copy octets of the payload to the frame header.  The offset of the copy is
counted in frame headers. -/
def Receiver.takeHeader (receiver : Receiver) : Outcome Receiver :=
  let copyLen := min receiver.payloadValidLen (sizeofFrame - receiver.frameHdrValidLen)
  if 0 < receiver.frameHdrValidLen ∧ 0 < copyLen then .fault
  else
    .ok
      { receiver with
        frameHdr := receiver.payload.take copyLen ++ receiver.frameHdr.drop copyLen
        frameHdrValidLen := receiver.frameHdrValidLen + copyLen
        http2State :=
          if sizeofFrame ≤ receiver.frameHdrValidLen + copyLen then .http2Payload
          else receiver.http2State
        payload :=
          if copyLen < receiver.payloadValidLen then
            (receiver.payload.take receiver.payloadValidLen).drop copyLen
          else receiver.payload
        payloadValidLen := receiver.payloadValidLen - copyLen }

/-- Drop a payload that has been parsed. -/
def Receiver.dropPayload (receiver : Receiver) (payloadLen : Nat) : Outcome Receiver :=
  let receiver := { receiver with http2State := .http2Header, frameHdrValidLen := 0 }
  if payloadLen = 0 then .ok receiver
  else if receiver.payloadValidLen < payloadLen then .fault
  else
    .ok
      { receiver with
        payload := (receiver.payload.take receiver.payloadValidLen).drop payloadLen
        payloadValidLen := receiver.payloadValidLen - payloadLen }

/-- The prefaces in `CHttp2::AsyncProcessing`. -/
def asyncPreface (env : Env X) (turn : Turn X) (receiver : Receiver) :
    (Turn X × Receiver) × HttpConnection :=
  if receiver.asyncRecvBuf.length < prefaceLen then ((turn, receiver), .httpContinue)
  else
    let preface := receiver.asyncRecvBuf.take prefaceLen
    let receiver := { receiver with asyncRecvBuf := receiver.asyncRecvBuf.drop prefaceLen }
    if cString preface = clientPreface then
      let conn := (turn.conn.sendServerPreface env).1
      ((({ turn with conn := conn.sendInitialWindowSize env conn.initialLocalWindowSize } : Turn X),
        { receiver with http2State := .http2Header }), .httpContinue)
    else
      (({ turn with conn := turn.conn.sendGoaway env 0 ErrorCode.protocolError }, receiver),
        .httpClose)

/-- `CHttp2::AsyncProcessing`, to a given depth of calls. -/
def asyncProcessing (env : Env X) :
    Nat → Turn X → Receiver → Outcome ((Turn X × Receiver) × HttpConnection)
  | 0, _, _ => .err
  | depth + 1, turn, receiver => do
      let (receiver, httpConn) := receiver.asyncRecv
      if receiver.http2State = .http2Prefix then .ok (asyncPreface env turn receiver)
      else
        let receiver := receiver.takeReceived
        let receiver ←
          if receiver.http2State = .http2Header then receiver.takeHeader else .ok receiver
        let turn : Turn X := { turn with flags := receiver.frameHdr.getD 4 0 }
        let frame := HTTP2Frame.ofOctets receiver.frameHdr
        if receiver.http2State = .http2Payload ∧ frame.length ≤ receiver.payloadValidLen then
          let ((turn, result), receiver) ←
            (protParse env frame receiver.payload turn).run (fun turn receiver => do
              let (state, _) ← asyncProcessing env depth turn receiver
              .ok state) receiver
          let httpConn := if result = -1 then .httpClose else httpConn
          let receiver ← receiver.dropPayload frame.length
          if sizeofFrame ≤ receiver.payloadValidLen then
            let (state, _) ← asyncProcessing env depth turn receiver
            .ok (state, httpConn)
          else .ok ((turn, receiver), httpConn)
        else .ok ((turn, receiver), httpConn)

/-- The calls of `CHttp2::AsyncProcessing`, one whenever something arrives, until
it closes the connection. -/
def eventLoop (env : Env X) (depth : Nat) :
    Nat → Turn X → Receiver → Outcome ((Turn X × Receiver) × HttpConnection)
  | 0, turn, receiver => .ok ((turn, receiver), .httpContinue)
  | wakeups + 1, turn, receiver =>
      match receiver.arrivals with
      | [] => .ok ((turn, receiver), .httpContinue)
      | _ :: _ => do
          let ((turn, receiver), httpConn) ← asyncProcessing env depth turn receiver
          if httpConn = .httpClose then .ok ((turn, receiver), .httpClose)
          else eventLoop env depth wakeups turn receiver

end Http2

end HeapHttpd
