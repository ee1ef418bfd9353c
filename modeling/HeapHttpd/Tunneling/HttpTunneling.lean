import HeapHttpd.Tunneling.TunnelingCache

/-!
# Relaying requests

`http_tunneling` for requests without `CONNECT`: it answers a request of a client
connection from the tunneling cache, or passes it on to a backend and the response back.
One object serves all requests of the connection.
-/

namespace HeapHttpd

namespace Tunneling

open General

/-- `Tunneling_State`.  `TunnlingNew` is `connecting`, `TunnlingSendingReqToBackend` is
`established`, `TunnlingSentReqToBackend` is `relayingData1`, `TunnlingError` is
`complete`; `TunnlingRelayingDataComplete` is left as soon as it is entered. -/
inductive TunnelingState
  | connecting
  | connectingWaiting
  | connected
  | established
  | relayingData1
  | relayingData2
  | relayingData3
  | complete
  deriving DecidableEq

/-- `Http_Method`. -/
inductive HttpMethod
  | options
  | get
  | head
  | post
  | put
  | delete
  | trace
  | connect
  deriving DecidableEq

/-- A backend that a request can go to, and the URL that it has there. -/
structure Target where
  backendAddr : List UInt8
  backendPort : Nat
  httpUrl : List UInt8
  deriving DecidableEq

/-- The configuration, and whether `_WITH_ASYNC_` is defined. -/
structure Server where
  enableHttpTunnelingCache : Bool
  singleTunnelingCacheSize : Nat
  totalTunnelingCacheSize : Nat
  localhostname : List UInt8
  withAsync : Bool

/-- A request, and what its response meets. -/
structure TunnelingRequest where
  method : HttpMethod
  reqHeader : List UInt8
  reqData : List UInt8
  primary : Target
  backup1 : Target
  backup2 : Target
  expiresIn : List UInt8 → Int
  beyond : List UInt8 → List UInt8
  sendFails : Nat → Bool
  chunk : List (List UInt8) → ChunkAnswer

namespace TunnelingRequest

/-- The backends in the order in which they are tried. -/
def targets (request : TunnelingRequest) : List Target :=
  [request.primary, request.backup1, request.backup2]

/-- What the response to a request meets. -/
def setting (server : Server) (request : TunnelingRequest) : Setting :=
  { enableHttpTunnelingCache := server.enableHttpTunnelingCache
    singleTunnelingCacheSize := server.singleTunnelingCacheSize
    localhostname := server.localhostname
    isHead := decide (request.method = .head)
    expiresIn := request.expiresIn
    beyond := request.beyond
    sendFails := request.sendFails
    chunk := request.chunk }

end TunnelingRequest

/-- What a socket reports whose connection is in progress. -/
inductive Report
  | connected
  | refused
  | silent
  deriving DecidableEq, Repr

/-- What `socket` and `connect` come to for an address. -/
inductive ConnectResult
  | noSocket
  | refused
  | connected
  | inProgress (report : Report)
  deriving DecidableEq, Repr

/-- A socket, with its number among those of the object, and where it leads. -/
structure BackendSocket where
  number : Nat
  target : Target
  result : ConnectResult
  deriving DecidableEq

/-- What a request meets when a backend is looked for: the time, the cache, and for
each backend the addresses it has, if any are found. -/
structure Opening where
  now : Int
  memory : MemoryCache
  primary : Option (List ConnectResult)
  backup1 : Option (List ConnectResult)
  backup2 : Option (List ConnectResult)

/-- What `send` to a backend comes to. -/
inductive SendResult
  | sent (count : Nat)
  | wouldBlock
  | failed
  deriving DecidableEq, Repr

/-- What a call of `processing` meets: besides an opening, the date, whether a
connection in progress has reported, TLS is set up, what the calls of `send` come to,
in the synchronous build the octets that arrive from the backend with the sizes in which
they are read, what comes of further calls of `send` and whether the connection to the
backend breaks, and whether `client_flush` leaves nothing. -/
structure Call extends Opening where
  date : List UInt8
  reported : Bool
  secured : Bool
  headerSent : SendResult
  dataSent : SendResult
  arriving : List UInt8
  sizes : List Nat
  furtherSent : List SendResult
  breaks : Bool
  flushed : Bool

/-- An octet from a backend: the number of the socket, and of the request at the time. -/
structure FromBackend where
  socket : Nat
  request : Nat
  octet : UInt8
  deriving DecidableEq

/-- An octet for a backend, with the number of its request. -/
structure ToBackend where
  request : Nat
  octet : UInt8
  deriving DecidableEq

/-- What is done for a request. -/
inductive Effect
  | selected (target : Target)
  | requested (request : Nat) (socket : Option BackendSocket)
  | toBackend (request : Nat) (data : List ToBackend)
  | relayed (request : Nat) (data : List FromBackend)
  | toClient (data : List UInt8)
  | served (key : List UInt8) (entry : TunnelingCache)
  | stored (key : List UInt8) (entry : TunnelingCache)
  deriving DecidableEq

/-- `http_tunneling`, with what it has done.  The pointer to a cache entry is the entry
with its key, as they were found; `request` counts the requests, `sockets` the calls of
`socket`; of these `openSockets` are open, and `m_backend_list` leads from the
`backendList` to the object.  What waits on the socket of the synchronous build is its
`queue`.  `m_type` is `HTTP_Tunneling_Without_CONNECT_SSL` where there is `ssl`. -/
structure HttpTunneling where
  address : List UInt8
  port : Nat
  backendSockfd : Option BackendSocket
  httpTunnelingUrl : List UInt8
  cacheInstance : Option (List UInt8 × TunnelingCache)
  requestNoCache : Bool
  ssl : Bool
  state : TunnelingState
  client : Option HttpClient
  backendSendBuf : List ToBackend
  asyncBackendRecvBuf : List FromBackend
  queue : List UInt8
  request : Nat
  sockets : Nat
  openSockets : List Nat
  backendList : List Nat
  effects : List Effect

/-- A client whose header was too long, which closes the connections. -/
def HttpClient.refused (client : HttpClient) : Bool :=
  decide (64 * 1024 < client.lineText.length)

/-- What is read of the octets that are there, in calls of `recv` for at most 4095 of
them, until `processing` returns `false`. -/
def HttpClient.readResponse (setting : Setting) :
    List Nat → HttpClient → List UInt8 → HttpClient × Bool × List UInt8
  | [], client, unread => (client, true, unread)
  | size :: sizes, client, unread =>
      let size := min size 4095
      let data := unread.take size
      if data = [] then readResponse setting sizes client unread
      else
        let (client, continues) := client.processing setting data
        if continues then readResponse setting sizes client (unread.drop size)
        else (client, false, unread.drop size)

namespace HttpTunneling

def new (requestNoCache ssl : Bool) : HttpTunneling :=
  { address := []
    port := 0
    backendSockfd := none
    httpTunnelingUrl := []
    cacheInstance := none
    requestNoCache
    ssl
    state := .connecting
    client := none
    backendSendBuf := []
    asyncBackendRecvBuf := []
    queue := []
    request := 0
    sockets := 0
    openSockets := []
    backendList := []
    effects := [] }

def note (effects : List Effect) (object : HttpTunneling) : HttpTunneling :=
  { object with effects := object.effects ++ effects }

/-! ## The backend -/

/-- `socket`, which leaves the socket before alone. -/
def openSocket (target : Target) (result : ConnectResult) (object : HttpTunneling) :
    HttpTunneling :=
  { object with
    backendSockfd := some ⟨object.sockets, target, result⟩
    sockets := object.sockets + 1
    openSockets := object.sockets :: object.openSockets
    queue := [] }

/-- `append_backend_session`. -/
def appendBackendSession (object : HttpTunneling) : HttpTunneling :=
  match object.backendSockfd with
  | none => object
  | some socket => { object with backendList := socket.number :: object.backendList }

/-- `backend_close`. -/
def backendClose (object : HttpTunneling) : HttpTunneling :=
  match object.backendSockfd with
  | none => object
  | some socket =>
      { object with
        backendSockfd := none
        openSockets := object.openSockets.filter (· ≠ socket.number)
        backendList := object.backendList.filter (· ≠ socket.number)
        queue := [] }

/-- The loop of `connect_backend` over the addresses of a backend. -/
def connectAddresses (server : Server) (target : Target) :
    List ConnectResult → HttpTunneling → HttpTunneling × Bool
  | [], object => (object.backendClose, false)
  | .noSocket :: results, object =>
      connectAddresses server target results { object with backendSockfd := none }
  | .refused :: results, object =>
      connectAddresses server target results (object.openSocket target .refused).backendClose
  | result :: results, object =>
      let opened := object.openSocket target result
      let selected (object : HttpTunneling) : HttpTunneling := { object with
        address := target.backendAddr
        port := target.backendPort
        httpTunnelingUrl := target.httpUrl }
      if server.withAsync then
        ({ selected opened.appendBackendSession with state := .connectingWaiting }, true)
      else if result = .inProgress .silent then
        connectAddresses server target results opened.backendClose
      else ({ selected opened with state := .connected }, true)

/-- Whether a URL is looked up. -/
def looksUp (server : Server) (httpUrl : List UInt8) (object : HttpTunneling) : Bool :=
  server.enableHttpTunnelingCache && !object.requestNoCache && decide (httpUrl ≠ [])

/-- `connect_backend` for one backend with its addresses, behind the lookup. -/
def connectTarget (server : Server) (target : Target) (addresses : Option (List ConnectResult))
    (object : HttpTunneling) : HttpTunneling × Bool :=
  if object.address = target.backendAddr ∧ object.port = target.backendPort ∧
      object.backendSockfd.isSome = true then
    ({ object with state := .connected }, true)
  else if target.backendAddr = [] ∨ target.backendPort = 0 then (object, false)
  else
    match addresses with
    | none => (object, false)
    | some results => object.connectAddresses server target results

/-- `connect_backend` for one backend. -/
def connectBackend (server : Server) (opening : Opening) (target : Target)
    (addresses : Option (List ConnectResult)) (object : HttpTunneling) : HttpTunneling × Bool :=
  let looksUp := object.looksUp server target.httpUrl
  let object :=
    if looksUp then
      { object with
        cacheInstance := (opening.memory.findTunneling opening.now target.httpUrl).map
          fun entry => (target.httpUrl, entry) }
    else object
  if looksUp && object.cacheInstance.isSome then ({ object with state := .connected }, true)
  else object.connectTarget server target addresses

/-- The backends of a request, in the order in which they are tried. -/
def attempts (request : TunnelingRequest) (opening : Opening) :
    List (Target × Option (List ConnectResult)) :=
  [(request.primary, opening.primary), (request.backup1, opening.backup1),
    (request.backup2, opening.backup2)]

/-- The backends are tried in turn. -/
def connecting (server : Server) (opening : Opening) :
    List (Target × Option (List ConnectResult)) → HttpTunneling → HttpTunneling
  | [], object => { object with state := .complete }
  | (target, addresses) :: attempts, object =>
      let (object, connected) := object.connectBackend server opening target addresses
      if connected then object.note [.selected target]
      else connecting server opening attempts object

/-- Whether `select` finds a socket ready to be read or written. -/
def ready (call : Call) (object : HttpTunneling) : Bool :=
  match object.backendSockfd with
  | none => false
  | some socket =>
      match socket.result with
      | .inProgress .silent => false
      | .inProgress _ => call.reported
      | _ => true

/-- Whether TLS is set up where it is wanted. -/
def secured (call : Call) (object : HttpTunneling) : Bool :=
  !object.ssl || (call.secured && object.backendSockfd.isSome)

/-- `processing` up to `TunnlingEstablished`.  Where TLS is not set up, it returns. -/
def establish (server : Server) (request : TunnelingRequest) (call : Call)
    (object : HttpTunneling) : HttpTunneling :=
  let object :=
    if object.state = .connecting then
      connecting server call.toOpening (attempts request call.toOpening) object
    else object
  let object :=
    if object.state = .connectingWaiting ∧ object.ready call = true then
      { object with state := .connected }
    else object
  if object.state = .connected then
    if object.secured call then { object with state := .established } else object.backendClose
  else object

/-! ## The request -/

/-- `_Send_` closes a socket to which it cannot send. -/
def closeDescriptor (object : HttpTunneling) : HttpTunneling :=
  { object with
    openSockets :=
      object.openSockets.filter fun number =>
        object.backendSockfd.map BackendSocket.number ≠ some number
    backendSendBuf := [] }

/-- `backend_send`, and whether it returns no error.  From 4096 octets on, the
synchronous build waits until all are sent. -/
def backendSend (server : Server) (data : List UInt8) (result : SendResult)
    (object : HttpTunneling) : HttpTunneling × Bool :=
  let buffer := object.backendSendBuf ++ data.map fun octet => ⟨object.request, octet⟩
  let whole := !server.withAsync && decide (4096 ≤ buffer.length)
  match result with
  | .sent count =>
      let count := if whole then buffer.length else count
      ({ object.note [.toBackend object.request (buffer.take count)] with
          backendSendBuf := buffer.drop count }, true)
  | .wouldBlock =>
      if whole then (object.closeDescriptor, false)
      else ({ object with backendSendBuf := buffer }, false)
  | .failed =>
      (if whole then object.closeDescriptor else { object with backendSendBuf := [] }, false)

/-- `backend_flush`. -/
def backendFlush (result : SendResult) (object : HttpTunneling) : HttpTunneling :=
  if object.backendSendBuf = [] then object
  else
    match result with
    | .sent 0 | .failed => { object with backendSendBuf := [] }
    | .sent count =>
        { object.note [.toBackend object.request (object.backendSendBuf.take count)] with
          backendSendBuf := object.backendSendBuf.drop count }
    | .wouldBlock => object

/-- `send_request_to_backend`. -/
def sendRequestToBackend (server : Server) (request : TunnelingRequest) (call : Call)
    (object : HttpTunneling) : HttpTunneling :=
  if object.cacheInstance.isSome then { object with state := .relayingData1 }
  else
    let object := object.note [.requested object.request object.backendSockfd]
    let (object, headerSent) :=
      if request.reqHeader = [] then (object, true)
      else object.backendSend server request.reqHeader call.headerSent
    if headerSent then
      let (object, dataSent) :=
        if request.reqData = [] then (object, true)
        else object.backendSend server request.reqData call.dataSent
      { object with state := if dataSent then .relayingData1 else .complete }
    else { object with state := .complete }

/-! ## The response -/

/-- `backend_async_recv`. -/
def backendAsyncRecv (data : List UInt8) (object : HttpTunneling) : HttpTunneling :=
  match object.backendSockfd with
  | none => object
  | some socket =>
      { object with
        asyncBackendRecvBuf := object.asyncBackendRecvBuf ++
          (data.take 1024).map fun octet => ⟨socket.number, object.request, octet⟩ }

/-- `acquire_cache_relay_to_client`. -/
def acquireCacheRelayToClient (server : Server) (request : TunnelingRequest) (call : Call)
    (key : List UInt8) (entry : TunnelingCache) (object : HttpTunneling) : HttpTunneling :=
  let object :=
    if object.state = .relayingData1 then
      let (sent, ok) := sendCache (request.setting server) call.date entry.cacheData []
      { object.note (.served key entry :: sent.map .toClient) with
        state := if ok then .relayingData2 else .complete }
    else object
  let object :=
    if object.state = .relayingData2 ∧ call.flushed = true then
      { object with state := .relayingData3 }
    else object
  if object.state = .relayingData3 ∧ (server.withAsync = true → call.flushed = true) then
    { object with state := .complete }
  else object

/-- What there is to read of a response: the buffer of the asynchronous build, or what
has come on the socket. -/
def incoming (server : Server) (call : Call) (object : HttpTunneling) : List FromBackend :=
  if server.withAsync then object.asyncBackendRecvBuf
  else
    match object.backendSockfd with
    | none => []
    | some socket =>
        (object.queue ++ call.arriving).map fun octet => ⟨socket.number, object.request, octet⟩

/-- `recv_response_from_backend_relay_to_client`.  The asynchronous build reads its
buffer to the end. -/
def recvResponseFromBackendRelayToClient (server : Server) (request : TunnelingRequest)
    (call : Call) (object : HttpTunneling) : HttpTunneling :=
  if object.state = .relayingData1 then
    let incoming := object.incoming server call
    let client := object.client.getD (.new object.httpTunnelingUrl)
    let sizes := if server.withAsync then incoming.map fun _ => 4095 else call.sizes
    let (reader, continues, unread) :=
      client.readResponse (request.setting server) sizes (incoming.map FromBackend.octet)
    let used := incoming.length - unread.length
    let relayed := object.note (.relayed object.request (incoming.take used) ::
      (reader.sent.drop client.sent.length).map .toClient)
    let read :=
      if server.withAsync then { relayed with asyncBackendRecvBuf := incoming.drop used }
      else
        let flushed := call.furtherSent.foldl (fun object result => object.backendFlush result)
          { relayed with queue := unread }
        if call.breaks then { flushed.backendClose with backendSendBuf := [] } else flushed
    let closed := if reader.refused then read.backendClose else read
    { closed with
      client := some reader
      state := if server.withAsync && continues then .relayingData1 else .complete }
  else object

/-- The relaying part of `processing`. -/
def relaying (server : Server) (request : TunnelingRequest) (call : Call)
    (object : HttpTunneling) : HttpTunneling :=
  let object :=
    if object.state = .established then object.sendRequestToBackend server request call
    else object
  if object.state = .relayingData1 ∨ object.state = .relayingData2 ∨
      object.state = .relayingData3 then
    match object.cacheInstance with
    | some (key, entry) => object.acquireCacheRelayToClient server request call key entry
    | none => object.recvResponseFromBackendRelayToClient server request call
  else object

/-- The end of `processing`: with the request, its `http_client` is destroyed. -/
def finish (server : Server) (request : TunnelingRequest) (call : Call)
    (object : HttpTunneling) : HttpTunneling × MemoryCache :=
  match object.client with
  | some client =>
      if object.state = .complete then
        ({ object.note (if client.stores (request.setting server) then
              [.stored client.httpTunnelingUrl (client.entry call.now)] else []) with
            client := none },
          client.destroy (request.setting server) server.totalTunnelingCacheSize call.now
            call.memory)
      else (object, call.memory)
  | none => (object, call.memory)

/-- `processing`. -/
def processing (server : Server) (request : TunnelingRequest) (call : Call)
    (object : HttpTunneling) : HttpTunneling × MemoryCache :=
  let established := object.establish server request call
  if established.state = .connected then (established, call.memory)
  else (established.relaying server request call).finish server request call

/-- What happens to an object while it serves a request. -/
inductive Wakeup
  | processing (call : Call)
  | backendAsyncRecv (data : List UInt8)
  | backendAsyncFlush (result : SendResult)

def wake (server : Server) (request : TunnelingRequest) (object : HttpTunneling) :
    Wakeup → HttpTunneling
  | .processing call => (object.processing server request call).1
  | .backendAsyncRecv data => object.backendAsyncRecv data
  | .backendAsyncFlush result => object.backendFlush result

/-- A request that comes to the object, when the one before is complete: with that the
state has been set back. -/
def begin (object : HttpTunneling) : HttpTunneling :=
  { object with request := object.request + 1, state := .connecting }

/-- A request that begins, or what happens to the object while it serves one. -/
def happen (server : Server) (object : HttpTunneling) :
    TunnelingRequest × Option Wakeup → HttpTunneling
  | (_, none) => object.begin
  | (request, some wakeup) => object.wake server request wakeup

/-- `CHttp::Tunneling` for a request, with what happens until the next one. -/
def history (exchange : TunnelingRequest × List Wakeup) : List (TunnelingRequest × Option Wakeup) :=
  (exchange.1, none) :: exchange.2.map fun wakeup => (exchange.1, some wakeup)

end HttpTunneling

end Tunneling

end HeapHttpd
