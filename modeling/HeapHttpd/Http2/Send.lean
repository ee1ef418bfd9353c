import HeapHttpd.Hpack.Build
import HeapHttpd.Http2.Conn

/-!
# What a connection sends

The frames `CHttp2` builds, one function for one of its members, up to the
member that may wait while it sends.
-/

namespace HeapHttpd

namespace Http2

open General Hpack Http1

variable {X : Type}

/-- `CHttp2::HttpSend`.  A synchronous send may fail, an asynchronous one is
buffered. -/
def Conn.httpSend (env : Env X) (conn : Conn X) (frames : List SentFrame)
    (sender : Option StreamPtr) : Conn X × Int :=
  if env.async then
    (frames.foldl (fun conn frame => conn.log (.sent frame sender)) conn,
      (frames.map fun frame => frame.octets.length).sum)
  else if env.sendFails conn.trace.length then
    (frames.foldl (fun conn frame => conn.log (.unsent frame sender)) conn, -1)
  else (frames.foldl (fun conn frame => conn.log (.sent frame sender)) conn, 0)

/-- A frame with a payload of its own length. -/
def frameOf (type flags : UInt8) (identifier : Nat) (payload : List UInt8) : SentFrame :=
  { length := payload.length, type, flags, identifier, payload }

/-- `CHttp2::send_setting_ack`. -/
def Conn.sendSettingAck (env : Env X) (conn : Conn X) (streamInd : Nat) : Conn X :=
  (conn.httpSend env [frameOf FrameType.settings Flag.settingAck streamInd []] none).1

/-- `CHttp2::send_goaway`. -/
def Conn.sendGoaway (env : Env X) (conn : Conn X) (lastStreamInd errorCode : Nat) : Conn X :=
  (conn.httpSend env
    [frameOf FrameType.goaway Flag.unset 0 (hton31 lastStreamInd ++ htonl errorCode)] none).1

/-- The answer to a `PING` frame. -/
def Conn.sendPingAck (env : Env X) (conn : Conn X) (identifier : Nat) (opaqueData : List UInt8) :
    Conn X :=
  (conn.httpSend env [frameOf FrameType.ping Flag.pingAck identifier opaqueData] none).1

/-- `CHttp2::send_rst_stream`. -/
def Conn.sendRstStream (env : Env X) (conn : Conn X) (stream : StreamPtr) : Conn X :=
  (conn.httpSend env
      [frameOf FrameType.rstStream Flag.unset stream.streamInd (htonl ErrorCode.noError)]
      (some stream)).1.assign
    stream fun reset => { reset with streamState := .closed }

/-- `CHttp2::send_window_update`. -/
def Conn.sendWindowUpdate (env : Env X) (conn : Conn X) (streamInd increment : Nat) : Conn X :=
  let frame := frameOf FrameType.windowUpdate Flag.unset streamInd (hton31 increment)
  match conn.getStreamInstance streamInd with
  | some stream =>
      if stream.streamState = .halfClosedLocal ∨ stream.streamState = .closed then conn
      else
        let sender : StreamPtr := ⟨streamInd, stream.object⟩
        let conn := conn.log (.credited (some sender) increment)
        (conn.httpSend env [frame] (some sender)).1.modifyStream streamInd fun stream =>
          { stream with localWindowSize := toInt (stream.localWindowSize + increment) }
  | none =>
      let conn := conn.log (.credited none increment)
      let conn := (conn.httpSend env [frame] none).1
      { conn with localControlWindowSize := (conn.localControlWindowSize + increment) % 2 ^ 32 }

/-- `CHttp2::send_initial_window_size`. -/
def Conn.sendInitialWindowSize (env : Env X) (conn : Conn X) (windowSize : Nat) : Conn X :=
  { (conn.httpSend env
      [frameOf FrameType.settings Flag.unset 0
        ([0, UInt8.ofNat SettingId.initialWindowSize] ++ htonl windowSize)] none).1 with
    initialLocalWindowSize := windowSize }

/-- The settings of the server preface. -/
def Conn.sendServerPreface (env : Env X) (conn : Conn X) : Conn X × Int :=
  conn.httpSend env
    [frameOf FrameType.settings Flag.unset 0
      ([0, UInt8.ofNat SettingId.maxConcurrentStreams] ++ htonl conn.maxConcurrentStreams)] none

/-- The connection once the prefaces are exchanged: at the end of the synchronous
constructor, or when the asynchronous one leaves `http2Prefix`. -/
def Conn.start (env : Env X) (pushPromise : Bool) : Conn X :=
  let conn := ((Conn.new pushPromise).sendServerPreface env).1
  let conn := if env.async then conn else conn.sendWindowUpdate env 0 maxWindowSize
  conn.sendInitialWindowSize env conn.initialLocalWindowSize

/-- What a `DATA` frame takes from the windows of the server. -/
def Conn.takeData (conn : Conn X) (streamInd payloadLen : Nat) : Conn X :=
  { conn with
      localControlWindowSize := toUint (conn.localControlWindowSize - payloadLen)
      streamList := conn.streamList.modify streamInd fun stream =>
        { stream with localWindowSize := toInt (stream.localWindowSize - payloadLen) } }.log
    (.data streamInd payloadLen)

/-- What a `DATA` frame does to the windows of the server, with
`http2_stream::DecreaseLocalWindowSize`. -/
def Conn.receiveData (env : Env X) (conn : Conn X) (streamInd payloadLen : Nat) : Conn X :=
  let conn := conn.takeData streamInd payloadLen
  match conn.getStreamInstance streamInd with
  | some stream =>
      if stream.localWindowSize ≤ 0 then
        conn.sendWindowUpdate env streamInd conn.initialLocalWindowSize
      else conn
  | none => conn

/-- `CHttp2::TransHttp1SendHttp2Header`. -/
def Conn.transHttp1SendHttp2Header (env : Env X) (conn : Conn X) (streamInd : Nat)
    (text : List UInt8) (frameType : UInt8) (promisedStreamInd : Nat) : Outcome (Conn X × Int) :=
  match conn.getStreamInstance streamInd with
  | none => .ok (conn, -1)
  | some stream =>
      match build text headerStaticTable with
      | .ok built =>
          if built.len < 0 then .fault
          else
            let payload :=
              (if frameType = FrameType.pushPromise then hton31 promisedStreamInd else []) ++
                built.field
            let header := frameOf frameType Flag.endHeaders streamInd payload
            let frames :=
              if stream.http1.httpMethod = .head then
                [header, frameOf FrameType.data Flag.unset streamInd []]
              else [header]
            let sender : StreamPtr := ⟨streamInd, stream.object⟩
            let (conn, ret) := conn.httpSend env frames (some sender)
            .ok (conn.modifyStream streamInd fun stream => { stream with streamState := .open }, ret)
      | _ => .fault

/-- `CHttp2::SendHttp2EmptyContent`. -/
def Conn.sendHttp2EmptyContent (env : Env X) (conn : Conn X) (streamInd : Nat) (flags : UInt8) :
    Outcome (Conn X × Int) :=
  match conn.getStreamInstance streamInd with
  | none => .ok (conn, -1)
  | some stream =>
      if conn.maxFrameSize = 0 then .fault
      else
        let currPaddingLen :=
          if conn.maxFrameSize < dataPaddingLen + 1 then conn.maxFrameSize - 1
          else dataPaddingLen
        let frame :=
          frameOf FrameType.data flags streamInd
            (UInt8.ofNat currPaddingLen :: List.replicate currPaddingLen 0)
        let sender : StreamPtr := ⟨streamInd, stream.object⟩
        let (conn, ret) := conn.httpSend env [frame] (some sender)
        if hasFlag flags Flag.endStream then
          .ok (conn.modifyStream streamInd fun stream =>
            { stream with
              streamState :=
                if stream.streamState ≠ .halfClosedRemote then .halfClosedLocal else .closed },
            ret)
        else .ok (conn, ret)

/-- `pre_send_len` of a pass of `CHttp2::TransHttp1SendHttp2Content`, for what
remains of the content. -/
def preSendLen (maxFrameSize : Nat) (peerWindowSize : Int) (remaining : Nat) : Nat :=
  let limit :=
    if dataPaddingLen + 1 < maxFrameSize then maxFrameSize - dataPaddingLen - 1 else maxFrameSize
  min (min remaining limit) (toUint peerWindowSize)

/-- The `DATA` frame of a pass of `CHttp2::TransHttp1SendHttp2Content`. -/
def contentFrame (maxFrameSize : Nat) (peerWindowSize : Int) (streamInd : Nat)
    (rest : List UInt8) : SentFrame :=
  let data := rest.take (preSendLen maxFrameSize peerWindowSize rest.length)
  if dataPaddingLen + 1 < maxFrameSize then
    let currPaddingLen := dataPaddingLen - data.length % dataPaddingLen
    frameOf FrameType.data Flag.padded streamInd
      (UInt8.ofNat currPaddingLen :: data ++ List.replicate currPaddingLen 0)
  else frameOf FrameType.data Flag.unset streamInd data

/-- A pass of `CHttp2::TransHttp1SendHttp2Content` for the rest of the content:
what the send returns, and how much of the content went with it. -/
def Conn.sendData (env : Env X) (conn : Conn X) (stream : StreamPtr) (rest : List UInt8) :
    Outcome (Conn X × (Int × Nat)) :=
  match conn.deref stream with
  | none => .fault
  | some sender =>
      let frame :=
        contentFrame conn.maxFrameSize sender.peerWindowSize stream.streamInd rest
      let pre := preSendLen conn.maxFrameSize sender.peerWindowSize rest.length
      if 2 ^ 31 ≤ sizeofFrame + frame.payload.length then .fault
      else
        let conn :=
          conn.log (.building stream rest.length conn.maxFrameSize sender.peerWindowSize)
        let (conn, ret) := conn.httpSend env [frame] (some stream)
        if ret ≠ -1 then
          let conn := conn.assign stream fun sender =>
            { sender with peerWindowSize := toInt (sender.peerWindowSize - pre) }
          .ok ({ conn with
            peerControlWindowSize := toUint (conn.peerControlWindowSize - pre) }, (ret, pre))
        else .ok (conn, (ret, pre))

/-- The identifier `CHttp2::PushPromise` finds for the promised stream, from an
even number on. -/
def Conn.promisedStreamInd (conn : Conn X) : Nat → Nat → Nat
  | 0, _ => 0
  | passes + 1, ind =>
      if ind < 2 ^ 31 - 1 then
        if ind ∈ conn.streamList then conn.promisedStreamInd passes (ind + 2) else ind
      else 0

/-- A field of a header text, unless it is empty. -/
def optionalField (name value : List UInt8) : List UInt8 :=
  if cString value = [] then [] else name ++ cString value ++ octets "\r\n"

/-- The fields of the request that a promise repeats, under the given names. -/
def repeatedFields (env : Env X) (rest : X) (accept acceptEncoding acceptLanguage userAgent :
    List UInt8) : List UInt8 :=
  optionalField accept (env.requestField (octets "Accept") rest) ++
    optionalField acceptEncoding (env.requestField (octets "Accept-Encoding") rest) ++
    optionalField acceptLanguage (env.requestField (octets "Accept-Language") rest) ++
    optionalField userAgent (env.requestField (octets "User-Agent") rest)

/-- The header text of a `PUSH_PROMISE` frame. -/
def pushPromiseHeader (env : Env X) (host : Http2Stream X) (path : List UInt8) : List UInt8 :=
  octets ":authority: " ++ host.authority ++ octets "\r\n:method: GET\r\n:path: " ++ path ++
    octets "\r\n:scheme: https\r\n" ++
    repeatedFields env host.http1.rest (octets "accept: ") (octets "accept-encoding: ")
      (octets "accept-language: ") (octets "user-agent: ")

/-- `http2_stream::BuildPushPromiseResponse`. -/
def triggerHeader (env : Env X) (host : Http2Stream X) (path : List UInt8) : List UInt8 :=
  octets "GET " ++ path ++ octets " HTTP/1.1\r\n" ++
    repeatedFields env host.http1.rest (octets "Accept: ") (octets "Accept-Encoding: ")
      (octets "Accept-Language: ") (octets "User-Agent: ") ++
    octets "\r\n"

/-- The state of a promised stream. -/
def Conn.reserve (conn : Conn X) (streamInd : Nat) : Conn X :=
  match conn.pointer streamInd with
  | some stream =>
      (conn.assign stream fun reserved => { reserved with streamState := .reservedLocal }).log
        (.promised stream)
  | none => conn

/-- `CHttp2::PushPromise`. -/
def Conn.pushPromise (env : Env X) (conn : Conn X) (streamInd : Nat) (path : List UInt8) :
    Outcome (Conn X) :=
  if !conn.enablePush then .ok conn
  else
    match conn.getStreamInstance streamInd with
    | none => .ok conn
    | some host =>
        let path := cString path
        let promisedInd :=
          conn.promisedStreamInd (conn.streamList.size + 1) (streamInd / 2 * 2 + 2)
        if promisedInd = 0 then
          .ok ({ conn with nullEntry := true }.sendGoaway env streamInd ErrorCode.protocolError)
        else do
          let conn := (conn.createStream env promisedInd).reserve promisedInd
          let (conn, _) ← conn.transHttp1SendHttp2Header env streamInd
            (pushPromiseHeader env host path) FrameType.pushPromise promisedInd
          .ok (conn.modifyStream promisedInd fun promised =>
            { promised with pushPromiseTriggerHeader := triggerHeader env host path })

/-- Promise several resources. -/
def Conn.pushAll (env : Env X) (conn : Conn X) (streamInd : Nat) (paths : List (List UInt8)) :
    Outcome (Conn X) :=
  paths.foldlM (fun conn path => conn.pushPromise env streamInd path) conn

/-- `CHttp2::send_push_promise_request`. -/
def Conn.sendPushPromiseRequest (env : Env X) (conn : Conn X) (streamInd : Nat) :
    Outcome (Conn X) := do
  let conn ← conn.pushAll env streamInd (if 0 < streamInd then env.pushList else [])
  match conn.getStreamInstance streamInd with
  | some stream => conn.pushAll env streamInd (env.pushPromiseList stream.http1.rest)
  | none => .ok conn

end Http2

end HeapHttpd
