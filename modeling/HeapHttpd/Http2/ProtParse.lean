import HeapHttpd.Http2.Reply

/-!
# Frames that arrive

`CHttp2::ProtParse`.  Its front part takes a frame in and cannot wait; what is
left to do is a header to hand on or a request to answer.
-/

namespace HeapHttpd

namespace Http2

open General Hpack Http1 Code

variable {X : Type}

/-- Some octets of a payload. -/
def readOctets (memory : List UInt8) (offset len : Nat) : Outcome (List UInt8) :=
  if offset + len ≤ memory.length then .ok ((memory.drop offset).take len) else .fault

/-- The stream whose entry goes when the list of streams is full. -/
def oldestOne : List (Nat × Http2Stream X) → Option (Nat × Http2Stream X)
  | [] => none
  | first :: rest =>
      some ((first :: rest).foldl (fun oldest each =>
        if each.2.streamState = .closed ∨ each.2.lastUsedTime < oldest.2.lastUsedTime then each
        else oldest) first)

/-- Make room in the list of streams. -/
def Conn.evict (env : Env X) (conn : Conn X) : Outcome (Conn X) :=
  if conn.nullEntry then .fault
  else
    match oldestOne conn.streamList.toList with
    | some (streamInd, stream) =>
        let oldest : StreamPtr := ⟨streamInd, stream.object⟩
        .ok ((conn.sendRstStream env oldest).eraseStream oldest)
    | none => .fault

/-- The error for a frame that the state of its stream does not admit. -/
def refusal (streamState : StreamState) (type : UInt8) : Option Nat :=
  match streamState with
  | .idle =>
      if type ≠ FrameType.headers ∧ type ≠ FrameType.priority then some ErrorCode.protocolError
      else none
  | .reservedLocal | .halfClosedRemote | .closed =>
      if type ≠ FrameType.rstStream ∧ type ≠ FrameType.priority ∧
          type ≠ FrameType.windowUpdate then some ErrorCode.streamClosed
      else none
  | _ => none

/-- Make room in the list of streams, if it is full. -/
def Conn.makeRoom (env : Env X) (conn : Conn X) : Outcome (Conn X) :=
  if 0 < conn.listSize ∧ conn.maxConcurrentStreams ≤ conn.listSize then conn.evict env
  else .ok conn

/-- Have a stream for a frame. -/
def Conn.provideStream (env : Env X) (conn : Conn X) (streamInd : Nat) : Outcome (Conn X) :=
  match conn.getStreamInstance streamInd with
  | some _ => .ok conn
  | none => do
      let conn ← conn.makeRoom env
      .ok (conn.createStream env streamInd)

/-- The admission of a frame, with the error it is refused with. -/
def Conn.admit (env : Env X) (conn : Conn X) (frame : HTTP2Frame) :
    Outcome (Conn X × Option Nat) :=
  if frame.streamInd = 0 then .ok (conn, none)
  else do
    let conn ← conn.provideStream env frame.streamInd
    let conn := conn.refresh env frame.streamInd
    match conn.getStreamInstance frame.streamInd with
    | some stream => .ok (conn, refusal stream.streamState frame.type)
    | none => .fault

/-- What is left to do behind the front part of `ProtParse`.  Behind the data of
a body, `stored` octets of the body are there, and `complete` says that
`PushPostData` has returned `FALSE`. -/
inductive Next
  | report (result : Int)
  | headers (stream : StreamPtr)
  | data (stream : StreamPtr) (contentLength : Int) (stored : Nat) (complete : Bool)
  deriving DecidableEq, Repr

/-- Refuse a frame. -/
def Conn.refuse (env : Env X) (conn : Conn X) (streamInd errorCode : Nat) :
    Outcome (Conn X × Next) :=
  .ok (conn.sendGoaway env streamInd errorCode, .report (-1))

/-- `dependency`, `e` and `weight` of a priority. -/
def readPriority (memory : List UInt8) (offset : Nat) : Outcome (Nat × Bool × Nat) := do
  let octets ← readOctets memory offset 5
  .ok (ntoh31 (octets.take 4) % 2 ^ 31, octets.headD 0 &&& 1 == 1, (octets.getD 4 0).toNat)

/-- A `PRIORITY` frame. -/
def Conn.priorityArm (env : Env X) (conn : Conn X) (frame : HTTP2Frame) (memory : List UInt8) :
    Outcome (Conn X × Next) :=
  if frame.streamInd = 0 then conn.refuse env frame.streamInd ErrorCode.protocolError
  else do
    let (depInd, exclusive, weight) ← readPriority memory 0
    .ok (conn.setPriority frame.streamInd depInd weight exclusive, .report frame.length)

/-- The stream of a `HEADERS` frame, made anew if it is closed. -/
def Conn.renewStream (env : Env X) (conn : Conn X) (streamInd : Nat) : Conn X :=
  match conn.getStreamInstance streamInd with
  | some stream =>
      if stream.streamState = .closed then
        (conn.eraseStream ⟨streamInd, stream.object⟩).createStream env streamInd
      else conn
  | none => if 0 < streamInd then conn.createStream env streamInd else conn

/-- The pad length in front of a header block fragment, and the offset behind
it. -/
def readPadLength (frame : HTTP2Frame) (memory : List UInt8) : Outcome (Nat × Nat) :=
  if hasFlag frame.flags Flag.padded then do
    let octets ← readOctets memory 0 1
    .ok ((octets.headD 0).toNat, 1)
  else .ok (0, 0)

/-- The priority in front of a header block fragment, and the offset behind it. -/
def Conn.headersPriority (conn : Conn X) (frame : HTTP2Frame) (memory : List UInt8)
    (offset : Nat) : Outcome (Conn X × Nat) :=
  if hasFlag frame.flags Flag.priority then do
    let (depInd, exclusive, weight) ← readPriority memory offset
    if (conn.getStreamInstance frame.streamInd).isSome then
      if exclusive ∧ depInd ≠ 0 ∧ conn.nullEntry then .fault
      else .ok (conn.setPriority frame.streamInd depInd weight exclusive, offset + 5)
    else .ok (conn, offset + 5)
  else .ok (conn, offset)

/-- Parse a header block fragment for a stream. -/
def Conn.parseFragment (env : Env X) (conn : Conn X) (stream : StreamPtr)
    (fragment : List UInt8) (fragmentLen : Int) : Outcome (Conn X × Next) := do
  let (conn, code) ← conn.hpackParse stream fragment fragmentLen
  if code < 0 then conn.refuse env stream.streamInd ErrorCode.compressionError
  else .ok (conn, .headers stream)

/-- A `HEADERS` frame. -/
def Conn.headersArm (env : Env X) (conn : Conn X) (frame : HTTP2Frame) (memory : List UInt8) :
    Outcome (Conn X × Next) := do
  let conn := conn.renewStream env frame.streamInd
  let (paddingLen, offset) ← readPadLength frame memory
  let (conn, offset) ← conn.headersPriority frame memory offset
  let fragmentLen := toInt (frame.length - offset - paddingLen)
  match conn.pointer frame.streamInd with
  | some stream =>
      (conn.openStream stream).parseFragment env stream (memory.drop offset) fragmentLen
  | none => .ok (conn, .report frame.length)

/-- A `CONTINUATION` frame. -/
def Conn.continuationArm (env : Env X) (conn : Conn X) (frame : HTTP2Frame)
    (memory : List UInt8) : Outcome (Conn X × Next) :=
  match conn.pointer frame.streamInd with
  | some stream => conn.parseFragment env stream memory frame.length
  | none => conn.refuse env frame.streamInd ErrorCode.protocolError

/-- A `SETTINGS` frame. -/
def Conn.settingsArm (env : Env X) (conn : Conn X) (frame : HTTP2Frame) (memory : List UInt8) :
    Outcome (Conn X × Next) :=
  if hasFlag frame.flags Flag.settingAck then .ok (conn, .report frame.length)
  else do
    let setting ← readOctets memory 0 6
    let conn := conn.receiveSetting setting (memory.take frame.length)
    .ok (conn.sendSettingAck env frame.streamInd, .report frame.length)

/-- The offset and the length of what a `DATA` frame hands to
`http2_stream::PushPostData`. -/
def postDataBounds (frame : HTTP2Frame) (memory : List UInt8) : Outcome (Nat × Int) :=
  if hasFlag frame.flags Flag.padded then do
    let octets ← readOctets memory 0 1
    .ok (1, frame.length - (octets.headD 0).toNat)
  else .ok (0, frame.length)

/-- What `CHttp::PushPostData` reads of its buffer, which is nothing when the
body is too large already. -/
def readPostData {X : Type} (http1 : CHttp X) (memory : List UInt8) (offset : Nat) (len : Int) :
    Outcome (List UInt8) :=
  if http1.contentType = .applicationXWwwFormUrlencoded ∧
      maxApplicationXWwwFormUrlencodedLen < http1.postdata.length then .ok []
  else if len < 0 then .fault
  else readOctets memory offset len.toNat

/-- How much of a body is stored. -/
def storedLength {X : Type} (http1 : CHttp X) : Nat :=
  match http1.contentType with
  | .applicationXWwwFormUrlencoded => http1.postdata.length
  | .multipartFormData => (http1.postdataEx.getD []).length

/-- `http2_stream::PushPostData`. -/
def Conn.pushPostData (conn : Conn X) (stream : StreamPtr) (http1 : CHttp X)
    (buf : List UInt8) : Conn X × Next :=
  let (http1, more) := Http1.pushPostData buf { http1 with httpState := .reqData }
  (conn.assign stream fun pushed => { pushed with http1 },
    .data stream http1.contentLength (storedLength http1) !more)

/-- A `DATA` frame. -/
def Conn.dataArm (env : Env X) (conn : Conn X) (frame : HTTP2Frame) (memory : List UInt8) :
    Outcome (Conn X × Next) :=
  let conn := conn.receiveData env frame.streamInd frame.length
  let conn := conn.sendWindowUpdate env frame.streamInd frame.length
  match conn.getStreamInstance frame.streamInd with
  | none =>
      if frame.streamInd = 0 then conn.refuse env frame.streamInd ErrorCode.streamClosed
      else .ok (conn, .report frame.length)
  | some pushed =>
      if pushed.streamState ≠ .open then conn.refuse env frame.streamInd ErrorCode.streamClosed
      else do
        let (offset, len) ← postDataBounds frame memory
        let buf ← readPostData pushed.http1 memory offset len
        .ok (conn.pushPostData ⟨frame.streamInd, pushed.object⟩ pushed.http1 buf)

/-- A `WINDOW_UPDATE` frame. -/
def Conn.windowUpdateArm (env : Env X) (conn : Conn X) (frame : HTTP2Frame)
    (memory : List UInt8) : Outcome (Conn X × Next) := do
  let octets ← readOctets memory 0 4
  let winSize := ntoh31 octets % 2 ^ 31
  let conn :=
    conn.receiveWindowUpdate frame.streamInd winSize (memory.take frame.length)
  if winSize = 0 then
    .ok (conn.sendGoaway env frame.streamInd ErrorCode.protocolError, .report frame.length)
  else .ok (conn, .report frame.length)

/-- A `RST_STREAM` frame. -/
def Conn.rstStreamArm (env : Env X) (conn : Conn X) (frame : HTTP2Frame) (memory : List UInt8) :
    Outcome (Conn X × Next) :=
  match conn.getStreamInstance frame.streamInd with
  | some stream =>
      if stream.streamState = .idle then
        .ok (conn.sendGoaway env frame.streamInd ErrorCode.protocolError, .report frame.length)
      else do
        let conn := conn.resetStream ⟨frame.streamInd, stream.object⟩
        let errorCode ← readOctets memory 0 4
        if 0 < ntoh errorCode then
          .ok (conn.sendGoaway env frame.streamInd (ntoh errorCode), .report frame.length)
        else .ok (conn, .report frame.length)
  | none =>
      .ok (conn.sendGoaway env frame.streamInd ErrorCode.protocolError, .report frame.length)

/-- A `PING` frame. -/
def Conn.pingArm (env : Env X) (conn : Conn X) (frame : HTTP2Frame) (memory : List UInt8) :
    Outcome (Conn X × Next) :=
  if hasFlag frame.flags Flag.pingAck then .ok (conn, .report frame.length)
  else do
    let opaqueData ← readOctets memory 0 8
    .ok (conn.sendPingAck env frame.identifier opaqueData, .report frame.length)

/-- The arms of `ProtParse`. -/
def Conn.arms (env : Env X) (conn : Conn X) (frame : HTTP2Frame) (memory : List UInt8) :
    Outcome (Conn X × Next) :=
  if frame.type = FrameType.goaway then do
    let _ ← readOctets memory 0 8
    .ok (conn, .report (-1))
  else if frame.type = FrameType.priority then conn.priorityArm env frame memory
  else if frame.type = FrameType.headers then conn.headersArm env frame memory
  else if frame.type = FrameType.continuation then conn.continuationArm env frame memory
  else if frame.type = FrameType.pushPromise then
    conn.refuse env frame.streamInd ErrorCode.protocolError
  else if frame.type = FrameType.settings then conn.settingsArm env frame memory
  else if frame.type = FrameType.data then conn.dataArm env frame memory
  else if frame.type = FrameType.windowUpdate then conn.windowUpdateArm env frame memory
  else if frame.type = FrameType.rstStream then conn.rstStreamArm env frame memory
  else if frame.type = FrameType.ping then conn.pingArm env frame memory
  else .ok (conn, .report frame.length)

/-- The front part of `ProtParse`. -/
def Conn.front (env : Env X) (conn : Conn X) (frame : HTTP2Frame) (memory : List UInt8) :
    Outcome (Conn X × Next) := do
  let (conn, refused) ← conn.admit env frame
  match refused with
  | some errorCode => conn.refuse env frame.streamInd errorCode
  | none => conn.arms env frame memory

/-- The loop of `CHttp2::TransHttp2ParseHttp1Header`, from the header `x` on. -/
def headerLoop (env : Env X) (stream : StreamPtr) (object : Nat) : Nat → Nat → Code X Unit
  | 0, _ => Prog.spent
  | passes + 1, x => do
      let (parsing, hpack) ← accessHeaders stream object
      match hpack.decodedHeaders[x]? with
      | none => return ()
      | some header =>
          let seen ← conn
          let header := seen.resolve header
          let (parsing, line) := seen.fieldLine header parsing
          change fun conn => conn.assign stream fun changed =>
            { changed with
              path := parsing.path
              method := parsing.method
              authority := parsing.authority
              scheme := parsing.scheme
              hpack := changed.hpack.map fun hpack =>
                { hpack with decodedHeaders := hpack.decodedHeaders.set x header } }
          match line with
          | some text => http1Parse env (serve env env.patience stream.streamInd) stream text
          | none => pure ()
          let (_, _) ← accessHeaders stream object
          change fun conn => conn.insertHeader header
          headerLoop env stream object passes (x + 1)

/-- The end of `CHttp2::TransHttp2ParseHttp1Header`: promises, and the response
unless there is a body to come. -/
def headersDone (env : Env X) (stream : StreamPtr) : Code X Unit := do
  let seen ← conn
  if seen.enablePush ∧ !seen.pushedRequest then
    attempt fun conn => do
      let conn ← { conn with pushedRequest := true }.sendPushPromiseRequest env stream.streamInd
      .ok ({ conn with pushedResponse := false }, ())
  let parsed ← access stream
  change fun conn => conn.log (.headersEnd stream parsed.http1.httpMethod)
  if parsed.http1.httpMethod ≠ .post then
    response env (serve env env.patience stream.streamInd) stream

/-- Code that takes a pointer to the decoded headers of a listed stream. -/
def withHeaders (stream : StreamPtr) (body : HpackObject → Code X Unit) : Code X Unit :=
  fun turn =>
    match (turn.conn.listed stream).bind Http2Stream.hpack with
    | some hpack => holding (.headers stream hpack.object) (body hpack) turn
    | none => .fault turn

/-- `CHttp2::TransHttp2ParseHttp1Header`, for the decoded headers of the
stream. -/
def transHttp2ParseHttp1Header (env : Env X) (streamInd : Nat) : Code X Unit :=
  withStream streamInd (return ()) fun stream => do
    withHeaders stream fun hpack =>
      headerLoop env stream hpack.object (hpack.decodedHeaders.length + env.patience + 1) 0
    headersDone env stream

/-- The flags of the frame header, which the asynchronous build shares with the
frames it has received meanwhile. -/
def currentFlags (env : Env X) (frame : HTTP2Frame) : Code X UInt8 :=
  fun turn => .done turn (if env.async then turn.flags else frame.flags)

/-- The end of a stream, if the frame header has it. -/
def finishStream (env : Env X) (frame : HTTP2Frame) (stream : StreamPtr) : Code X Unit := do
  let flags ← currentFlags env frame
  if hasFlag flags Flag.endStream then
    let _ ← access stream
    change fun conn => conn.endStream stream

/-- What `ProtParse` does at the end of a header block. -/
def finishBlock (env : Env X) (frame : HTTP2Frame) (stream : StreamPtr) : Code X Unit :=
  if hasFlag frame.flags Flag.endHeaders then do
    transHttp2ParseHttp1Header env stream.streamInd
    let _ ← access stream
    change fun conn => conn.clearHpack stream
  else return ()

/-- What `ProtParse` does behind a header block fragment. -/
def finishHeaders (env : Env X) (frame : HTTP2Frame) (stream : StreamPtr) : Code X Unit := do
  finishBlock env frame stream
  if frame.type = FrameType.headers then finishStream env frame stream

/-- The response to a complete body. -/
def answer (env : Env X) (stream : StreamPtr) (complete : Bool) : Code X Unit :=
  if complete then response env (serve env env.patience stream.streamInd) stream else return ()

/-- What `ProtParse` does behind the data of a body. -/
def finishData (env : Env X) (frame : HTTP2Frame) (stream : StreamPtr) (contentLength : Int)
    (stored : Nat) (complete : Bool) : Code X Unit := do
  change fun conn => conn.log (.pushed stream contentLength stored complete)
  answer env stream complete
  finishStream env frame stream

/-- `CHttp2::ProtParse` behind its front part, with its result. -/
def finish (env : Env X) (frame : HTTP2Frame) : Next → Code X Int
  | .report result => return result
  | .headers stream => do
      holding (.stream stream) (finishHeaders env frame stream)
      return frame.length
  | .data stream contentLength stored complete => do
      holding (.stream stream) (finishData env frame stream contentLength stored complete)
      return frame.length

/-- `CHttp2::ProtParse`.  The payload is the beginning of `memory`. -/
def protParse (env : Env X) (frame : HTTP2Frame) (memory : List UInt8) : Code X Int := do
  Prog.modify fun turn =>
    { turn with
      conn := turn.conn.log (.received frame (memory.take frame.length))
      flags := frame.flags }
  let next ← attempt fun conn => conn.front env frame memory
  let result ← finish env frame next
  change fun conn => conn.log (.returned result)
  return result

section Front

variable {env : Env X} {frame : HTTP2Frame} {memory : List UInt8} {turn : Turn X}

/-- The connection a frame is passed to, with the note of the frame. -/
def Turn.received (turn : Turn X) (frame : HTTP2Frame) (memory : List UInt8) : Conn X :=
  turn.conn.log (.received frame (memory.take frame.length))

theorem protParse_of_next {conn : Conn X} {next : Next}
    (front : (turn.received frame memory).front env frame memory = .ok (conn, next)) :
    protParse env frame memory turn =
      (finish env frame next { turn with conn, flags := frame.flags }).andThen fun turn result =>
        .done { turn with conn := turn.conn.log (.returned result) } result := by
  show Proc.andThen (attempt _ _) _ = _
  rw [attempt_of_ok front]
  rfl

theorem protParse_of_report {conn : Conn X} {result : Int}
    (front : (turn.received frame memory).front env frame memory = .ok (conn, .report result)) :
    protParse env frame memory turn =
      .done { turn with conn := conn.log (.returned result), flags := frame.flags } result :=
  protParse_of_next front

theorem protParse_of_fault
    (front : ∀ conn next,
      (turn.received frame memory).front env frame memory ≠ .ok (conn, next)) :
    ∃ stuck, protParse env frame memory turn = .fault stuck := by
  refine ⟨{ turn with conn := turn.received frame memory, flags := frame.flags }, ?_⟩
  show Proc.andThen (attempt _ _) _ = _
  rw [attempt_of_fault front]
  rfl

end Front

end Http2

end HeapHttpd
