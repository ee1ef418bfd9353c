import HeapHttpd.Hpack.StaticTable
import HeapHttpd.Http1.CHttp
import HeapHttpd.Http2.Comm

/-!
# Connections and streams

The members of `CHttp2` and `http2_stream` and the operations on them that
neither send nor wait.  A stream is an object of its own, apart from its entry
in `m_stream_list`: code may hold on to the object when the entry is gone.
-/

namespace HeapHttpd

namespace Http2

open General Hpack Http1

/-- `stream_state_e`. -/
inductive StreamState
  | idle
  | reservedLocal
  | reservedRemote
  | «open»
  | halfClosedRemote
  | halfClosedLocal
  | closed
  deriving DecidableEq, Repr

/-- A `hpack` object. -/
structure HpackObject where
  object : Nat
  decodedHeaders : List Header

/-- `http2_stream`, with a number for the object's address. -/
structure Http2Stream (X : Type) where
  object : Nat
  path : List UInt8
  method : List UInt8
  authority : List UInt8
  scheme : List UInt8
  http1 : CHttp X
  hpack : Option HpackObject
  pushPromiseTriggerHeader : List UInt8
  dependencyStream : Nat
  priorityWeight : Nat
  streamState : StreamState
  peerWindowSize : Int
  localWindowSize : Int
  lastUsedTime : Nat

/-- A pointer to a stream. -/
structure StreamPtr where
  streamInd : Nat
  object : Nat
  deriving DecidableEq, Repr

/-- What code that waits may still have a pointer to. -/
inductive Holding
  | stream (stream : StreamPtr)
  | headers (stream : StreamPtr) (object : Nat)
  deriving DecidableEq, Repr

/-- What happens on a connection.  `sent` and `unsent` name the stream on whose
behalf a frame is sent, if there is one; `inUse` says that code that waits has a
pointer to what goes away, and `stale` that code uses such a pointer. -/
inductive Event
  | received (frame : HTTP2Frame) (payload : List UInt8)
  | returned (result : Int)
  | sent (frame : SentFrame) (sender : Option StreamPtr)
  | unsent (frame : SentFrame) (sender : Option StreamPtr)
  | building (stream : StreamPtr) (remaining maxFrameSize : Nat) (window : Int)
  | created (stream : StreamPtr) (peerWindowSize localWindowSize : Nat)
  | promised (stream : StreamPtr)
  | erased (stream : StreamPtr) (inUse : Bool)
  | reset (stream : StreamPtr) (inUse : Bool)
  | cleared (stream : StreamPtr) (inUse : Bool)
  | stale (holding : Holding)
  | opened (stream : StreamPtr)
  | ended (stream : StreamPtr)
  | settings (identifier value : Nat) (payload : List UInt8)
  | windowUpdate (streamInd winSize : Nat) (payload : List UInt8)
  | data (streamInd : Nat) (length : Nat)
  | credited (stream : Option StreamPtr) (increment : Nat)
  | pushed (stream : StreamPtr) (contentLength : Int) (stored : Nat) (complete : Bool)
  | field (header : Header)
  | line (stream : StreamPtr) (text : List UInt8)
  | headersEnd (stream : StreamPtr) (method : HttpMethod)
  | response (stream : StreamPtr)
  deriving DecidableEq, Repr

/-- The members of `CHttp2` that are not about receiving.  `nullEntry` says that
the list of streams has a null pointer under the key 0, `leaked` are the streams
that are neither listed nor deleted, `held` is what code that waits has pointers
to, and `trace` is all that has happened so far. -/
structure Conn (X : Type) where
  streamList : Std.TreeMap Nat (Http2Stream X)
  nullEntry : Bool
  leaked : Std.TreeMap Nat (Http2Stream X)
  nextObject : Nat
  headerDynamicTable : Std.TreeMap Nat (List UInt8 × List UInt8)
  headerTableSize : Nat
  enablePush : Bool
  maxConcurrentStreams : Nat
  initialLocalWindowSize : Nat
  initialPeerWindowSize : Nat
  localControlWindowSize : Nat
  peerControlWindowSize : Nat
  maxFrameSize : Nat
  maxHeaderListSize : Nat
  pushedRequest : Bool
  pushedResponse : Bool
  held : List Holding
  trace : List Event

/-- The calls of the response to its connection. -/
inductive ServerCall
  | sendHeader (text : List UInt8)
  | sendContent (buf : List UInt8)
  | sendEmptyContent
  | sendPushPromiseResponse
  | pushPromise (path : List UInt8)

/-- What `CHttp::ResponseReply` does: it changes members and calls the
connection, and goes on with the members as they are after the call. -/
inductive Script (X : Type)
  | finish (httpState : HttpState) (rest : X)
  | call (httpState : HttpState) (rest : X) (serverCall : ServerCall)
      (next : CHttp X → Int → Script X)

/-- What surrounds a connection: the build, the clock, the socket, and the code
of the response. -/
structure Env (X : Type) where
  async : Bool
  time : Nat → Nat
  sendFails : Nat → Bool
  patience : Nat
  newRest : X
  otherLine : List UInt8 → X → X
  requestField : List UInt8 → X → List UInt8
  pushPromiseList : X → List (List UInt8)
  pushList : List (List UInt8)
  responseReply : CHttp X → Script X
  lengthRequired : CHttp X → Script X

variable {X : Type}

/-- The stream a holding belongs to. -/
def Holding.owner : Holding → StreamPtr
  | .stream owner => owner
  | .headers owner _ => owner

/-- The connection after the constructor, up to what the constructor sends. -/
def Conn.new (pushPromise : Bool) : Conn X :=
  { streamList := ∅
    nullEntry := false
    leaked := ∅
    nextObject := 0
    headerDynamicTable := ∅
    headerTableSize := 4096
    enablePush := pushPromise
    maxConcurrentStreams := 101
    initialLocalWindowSize := maxWindowSize
    initialPeerWindowSize := defaultWindowSize
    localControlWindowSize := defaultWindowSize
    peerControlWindowSize := defaultWindowSize
    maxFrameSize := 16384
    maxHeaderListSize := 0xffffffff
    pushedRequest := false
    pushedResponse := false
    held := []
    trace := [] }

/-- Note that something happens. -/
def Conn.log (conn : Conn X) (event : Event) : Conn X :=
  { conn with trace := conn.trace ++ [event] }

/-- `time(NULL)`. -/
def Conn.now (env : Env X) (conn : Conn X) : Nat :=
  env.time conn.trace.length

/-- Whether code that waits has a pointer to a stream or to its headers. -/
def Conn.inUse (conn : Conn X) (stream : StreamPtr) : Bool :=
  conn.held.any fun holding => holding.owner = stream

/-- `m_stream_list.size()`. -/
def Conn.listSize (conn : Conn X) : Nat :=
  conn.streamList.size + if conn.nullEntry then 1 else 0

/-- `CHttp2::get_stream_instance`. -/
def Conn.getStreamInstance (conn : Conn X) (streamInd : Nat) : Option (Http2Stream X) :=
  if 0 < streamInd then conn.streamList[streamInd]? else none

/-- A pointer to a listed stream. -/
def Conn.pointer (conn : Conn X) (streamInd : Nat) : Option StreamPtr :=
  (conn.getStreamInstance streamInd).map fun stream => ⟨streamInd, stream.object⟩

/-- The stream a pointer points to, if it is listed. -/
def Conn.listed (conn : Conn X) (pointer : StreamPtr) : Option (Http2Stream X) :=
  match conn.streamList[pointer.streamInd]? with
  | some stream => if stream.object = pointer.object then some stream else none
  | none => none

/-- The stream a pointer points to, unless it is deleted. -/
def Conn.deref (conn : Conn X) (pointer : StreamPtr) : Option (Http2Stream X) :=
  (conn.listed pointer).or conn.leaked[pointer.object]?

/-- Change the stream a pointer points to. -/
def Conn.assign (conn : Conn X) (pointer : StreamPtr)
    (change : Http2Stream X → Http2Stream X) : Conn X :=
  if (conn.listed pointer).isSome then
    { conn with streamList := conn.streamList.modify pointer.streamInd change }
  else { conn with leaked := conn.leaked.modify pointer.object change }

/-- Change a listed stream. -/
def Conn.modifyStream (conn : Conn X) (streamInd : Nat)
    (change : Http2Stream X → Http2Stream X) : Conn X :=
  { conn with streamList := conn.streamList.modify streamInd change }

/-- Code that may wait takes a pointer. -/
def Conn.hold (conn : Conn X) (holding : Holding) : Conn X :=
  { conn with held := holding :: conn.held }

/-- Code that may have waited drops the pointer it took last. -/
def Conn.release (conn : Conn X) : Conn X :=
  { conn with held := conn.held.tail }

/-- Note the use of a pointer to what is not the connection's any more. -/
def Conn.touch (conn : Conn X) (holding : Holding) : Conn X :=
  match conn.listed holding.owner, holding with
  | some _, .stream _ => conn
  | some stream, .headers _ object =>
      if stream.hpack.map HpackObject.object = some object then conn
      else conn.log (.stale holding)
  | none, _ => conn.log (.stale holding)

/-- `CHttp2::create_stream_instance`. -/
def Conn.newStream (env : Env X) (conn : Conn X) : Http2Stream X :=
  { object := conn.nextObject
    path := []
    method := []
    authority := []
    scheme := []
    http1 := .new env.newRest
    hpack := none
    pushPromiseTriggerHeader := []
    dependencyStream := 0
    priorityWeight := 16
    streamState := .idle
    peerWindowSize := toInt conn.initialPeerWindowSize
    localWindowSize := toInt conn.initialLocalWindowSize
    lastUsedTime := conn.now env }

/-- The insertion of a new stream. -/
def Conn.createStream (env : Env X) (conn : Conn X) (streamInd : Nat) : Conn X :=
  { conn with
      streamList := conn.streamList.insert streamInd (conn.newStream env)
      nextObject := conn.nextObject + 1 }.log
    (.created ⟨streamInd, conn.nextObject⟩ conn.initialPeerWindowSize
      conn.initialLocalWindowSize)

/-- Delete a stream and its entry in the list. -/
def Conn.eraseStream (conn : Conn X) (stream : StreamPtr) : Conn X :=
  { conn with streamList := conn.streamList.erase stream.streamInd }.log
    (.erased stream (conn.inUse stream))

/-- What a `RST_STREAM` frame does: the entry in the list goes, but the stream is
not deleted. -/
def Conn.resetStream (conn : Conn X) (stream : StreamPtr) : Conn X :=
  match conn.listed stream with
  | some reset =>
      { conn with
          streamList := conn.streamList.erase stream.streamInd
          leaked := conn.leaked.insert stream.object { reset with streamState := .closed } }.log
        (.reset stream (conn.inUse stream))
  | none => conn

/-- `http2_stream::ClearHpack`. -/
def Conn.clearHpack (conn : Conn X) (stream : StreamPtr) : Conn X :=
  (conn.assign stream fun cleared => { cleared with hpack := none }).log
    (.cleared stream (conn.held.any fun holding =>
      match holding with
      | .headers owner _ => owner = stream
      | .stream _ => false))

/-- The client opens a stream. -/
def Conn.openStream (conn : Conn X) (stream : StreamPtr) : Conn X :=
  (conn.assign stream fun opened => { opened with streamState := .open }).log (.opened stream)

/-- The client ends a stream. -/
def Conn.endStream (conn : Conn X) (stream : StreamPtr) : Conn X :=
  (conn.assign stream fun ended =>
    { ended with
      streamState :=
        if ended.streamState ≠ .halfClosedLocal then .halfClosedRemote else .closed }).log
    (.ended stream)

/-- `http2_stream::RefreshLastUsedTime`. -/
def Conn.refresh (env : Env X) (conn : Conn X) (streamInd : Nat) : Conn X :=
  conn.modifyStream streamInd fun stream => { stream with lastUsedTime := conn.now env }

/-- `http2_stream::SetDependencyStream`. -/
def Conn.setDependencyStream (conn : Conn X) (streamInd dependencyStream : Nat) : Conn X :=
  let dependencyStream :=
    if (conn.getStreamInstance dependencyStream).isSome then dependencyStream else 0
  conn.modifyStream streamInd fun stream => { stream with dependencyStream }

/-- The loop over the streams that depend on a stream. -/
def Conn.insertDependency (conn : Conn X) (streamInd depInd : Nat) : Conn X :=
  conn.streamList.toList.foldl (fun conn entry =>
    match conn.streamList[entry.1]? with
    | some stream =>
        if stream.dependencyStream = depInd then conn.setDependencyStream entry.1 streamInd
        else conn
    | none => conn) conn

/-- The priority of a `PRIORITY` frame or of a `HEADERS` frame. -/
def Conn.setPriority (conn : Conn X) (streamInd depInd weight : Nat) (exclusive : Bool) :
    Conn X :=
  let conn := conn.setDependencyStream streamInd depInd
  let conn := conn.modifyStream streamInd fun stream => { stream with priorityWeight := weight }
  if exclusive ∧ depInd ≠ 0 then conn.insertDependency streamInd depInd else conn

/-- The switch over the identifier of a setting. -/
def Conn.applySetting (conn : Conn X) (identifier value : Nat) : Conn X :=
  if identifier = SettingId.headerTableSize then { conn with headerTableSize := value }
  else if identifier = SettingId.enablePush then { conn with enablePush := decide (value ≠ 0) }
  else if identifier = SettingId.maxConcurrentStreams then
    { conn with maxConcurrentStreams := value }
  else if identifier = SettingId.initialWindowSize then
    { conn with initialPeerWindowSize := value }
  else if identifier = SettingId.maxFrameSize then { conn with maxFrameSize := value }
  else if identifier = SettingId.maxHeaderListSize then { conn with maxHeaderListSize := value }
  else conn

/-- A setting of a `SETTINGS` frame. -/
def Conn.receiveSetting (conn : Conn X) (setting payload : List UInt8) : Conn X :=
  let identifier := ntoh (setting.take 2)
  let value := ntoh (setting.drop 2)
  (conn.applySetting identifier value).log (.settings identifier value payload)

/-- The window increment of a `WINDOW_UPDATE` frame, on the connection or a
stream. -/
def Conn.receiveWindowUpdate (conn : Conn X) (streamInd winSize : Nat)
    (payload : List UInt8) : Conn X :=
  let conn := conn.log (.windowUpdate streamInd winSize payload)
  if winSize = 0 then conn
  else if streamInd = 0 then
    { conn with peerControlWindowSize := (conn.peerControlWindowSize + winSize) % 2 ^ 32 }
  else
    conn.modifyStream streamInd fun stream =>
      { stream with peerWindowSize := toInt (stream.peerWindowSize + winSize) }

/-- `http2_stream::hpack_parse`, with its result. -/
def Conn.hpackParse (conn : Conn X) (stream : StreamPtr) (field : List UInt8) (len : Int) :
    Outcome (Conn X × Int) := do
  let parsed ← parse field len.toNat
  .ok ({ conn.assign stream fun changed =>
        let hpack := changed.hpack.getD ⟨conn.nextObject, []⟩
        { changed with
          hpack := some
            { hpack with decodedHeaders := hpack.decodedHeaders ++ parsed.headers } } with
      nextObject := conn.nextObject + 1 }, parsed.code)

/-- A name and a value for an index, from the static or the dynamic table. -/
def Conn.lookup (conn : Conn X) (index : Nat) : Option (List UInt8 × List UInt8) :=
  if index = 0 then none
  else if headerStaticTable.length < index then conn.headerDynamicTable[index]?
  else headerStaticTable.lookup index

/-- A header with the name, and if it is indexed the value, the tables have. -/
def Conn.resolve (conn : Conn X) (header : Header) : Header :=
  match conn.lookup header.index with
  | some entry =>
      { header with
        name := cString entry.1
        value := if header.indexType = .indexed then cString entry.2 else header.value }
  | none => header

/-- The index types of literals with an indexed name. -/
def IndexType.isIndexedName : IndexType → Bool
  | .withIndexingIndexedName => true
  | .withoutIndexingIndexedName => true
  | .neverIndexedIndexedName => true
  | _ => false

/-- The request line, when there is a method and a path. -/
def requestLine (stream : Http2Stream X) : Option (List UInt8) :=
  if stream.method ≠ [] ∧ stream.path ≠ [] then
    some (stream.method ++ octets " " ++ stream.path ++ octets " HTTP/1.1\r\n")
  else none

/-- A header whose index is found: the pseudo-header it sets, and the line it
contributes. -/
def foundField (header : Header) (entry : List UInt8 × List UInt8) (stream : Http2Stream X) :
    Http2Stream X × Option (List UInt8) :=
  let given (old : List UInt8) : List UInt8 :=
    if header.indexType = .indexed then cString entry.2
    else if IndexType.isIndexedName header.indexType then cString header.value
    else old
  if strcasecmp entry.1 (octets ":method") then
    let stream := { stream with method := given stream.method }
    (stream, requestLine stream)
  else if strcasecmp entry.1 (octets ":scheme") then
    ({ stream with scheme := cString header.value }, none)
  else if strcasecmp entry.1 (octets ":path") then
    let stream := { stream with path := given stream.path }
    (stream, requestLine stream)
  else if strcasecmp entry.1 (octets ":authority") then
    ({ stream with authority := given stream.authority }, none)
  else (stream, some (cString entry.1 ++ octets ": " ++ given [] ++ octets "\r\n"))

/-- A header whose index is not found, or that has none. -/
def plainField (header : Header) (stream : Http2Stream X) :
    Http2Stream X × Option (List UInt8) :=
  if strcasecmp header.name (octets ":method") then
    let stream := { stream with method := cString header.value }
    (stream, requestLine stream)
  else if strcasecmp header.name (octets ":scheme") then
    ({ stream with scheme := cString header.value }, none)
  else if strcasecmp header.name (octets ":path") then
    let stream := { stream with path := cString header.value }
    (stream, requestLine stream)
  else if strcasecmp header.name (octets ":authority") then
    ({ stream with authority := cString header.value }, none)
  else if cString header.name ≠ [] ∧ cString header.value ≠ [] then
    (stream,
      some (cString header.name ++ octets ": " ++ cString header.value ++ octets "\r\n"))
  else (stream, none)

/-- One header in the loop of `CHttp2::TransHttp2ParseHttp1Header`, up to the
line it contributes. -/
def Conn.fieldLine (conn : Conn X) (header : Header) (stream : Http2Stream X) :
    Http2Stream X × Option (List UInt8) :=
  match conn.lookup header.index with
  | some entry => foundField (conn.resolve header) entry stream
  | none => plainField header stream

/-- The shifting loop of `CHttp2::TransHttp2ParseHttp1Header`, from `y` down. -/
def shiftTable (table : Std.TreeMap Nat (List UInt8 × List UInt8)) :
    Nat → Std.TreeMap Nat (List UInt8 × List UInt8)
  | 0 => table
  | y + 1 =>
      let table :=
        match table[headerStaticTable.length + (y + 1)]? with
        | some entry => table.insert (headerStaticTable.length + (y + 1) + 1) entry
        | none => table
      shiftTable table y

/-- The insertion at the end of the loop of
`CHttp2::TransHttp2ParseHttp1Header`. -/
def insertField (table : Std.TreeMap Nat (List UInt8 × List UInt8)) (header : Header) :
    Std.TreeMap Nat (List UInt8 × List UInt8) :=
  if header.indexType = .withIndexingIndexedName ∨ header.indexType = .withIndexingNewName then
    if cString header.name ≠ [] then
      (shiftTable table (min table.size 4095)).insert (headerStaticTable.length + 1)
        (header.name, header.value)
    else table
  else table

/-- The end of the processing of one header. -/
def Conn.insertHeader (conn : Conn X) (header : Header) : Conn X :=
  { conn with headerDynamicTable := insertField conn.headerDynamicTable header }.log
    (.field header)

end Http2

end HeapHttpd
