import HeapHttpd.Http1.PostData
import HeapHttpd.Http1.RequestStream

/-!
# Answering a request

`CHttp::ResponseReply` with the two procedures it leads to, from `http.cpp`, and
what calls it: `LineParse` of the synchronous build, `AsyncProcessing`, and the
streams of HTTP/2, which set the state themselves.
-/

namespace HeapHttpd

namespace Http1

/-- `Http_Connection`. -/
inductive HttpConnection
  | httpKeepAlive
  | httpClose
  | httpContinue
  deriving DecidableEq, Repr

/-- The number of a state in `Http_State`. -/
def HttpState.number : HttpState → Nat
  | .reqHeader => 0
  | .reqData => 1
  | .authentication => 2
  | .response => 3
  | .responding => 4
  | .respondingExtensionComplete1 => 5
  | .respondingExtensionComplete2 => 6
  | .respondingDocComplete => 7
  | .responseComplete => 8
  | .tunnling => 9
  | .tunnlingExtensionComplete => 10
  | .tunnlingComplete => 11
  | .complete => 12

/-- Whether a state is one of a response or of a tunnel. -/
def HttpState.Replying (state : HttpState) : Prop :=
  HttpState.number .response ≤ state.number ∧ state.number ≤ HttpState.number .tunnlingComplete

instance (state : HttpState) : Decidable state.Replying :=
  inferInstanceAs (Decidable (_ ∧ _))

/-- The functions that an extension may export. -/
inductive Hook
  | extRequest
  | extResponse
  | extFinish
  | extTunneling
  deriving DecidableEq, Repr

/-- A call of a function outside `CHttp`, or an answer that `CHttp` makes itself:
its status, with the field and the scheme of a challenge. -/
inductive Event
  | wwwAuth (call : AuthCall)
  | extension (hook : Hook) (index : Nat)
  | document
  | tunneling
  | relaying
  | answer (status : Nat) (challenge : Option (String × AuthScheme))
  deriving DecidableEq

/-- The configuration of the server.  Of an extension it has what it exports. -/
structure Server extends Site where
  wwwAuthScheme : AuthScheme
  proxyAuthScheme : AuthScheme
  enableHttpTunneling : Bool
  enabledKeepAlive : Bool
  extList : List (Hook → Bool)

/-- What the calls of `CHttp` come back with: which extensions skip a session or do
not let a tunnel continue, whether the tunnel is complete, and whether everything
is sent. -/
structure Outside where
  skipAction : Nat → Bool
  stops : Nat → Bool
  tunnlingComplete : Bool
  flushed : Bool

/-- Whether a scheme asks for credentials. -/
def AuthScheme.Asks (scheme : AuthScheme) : Prop :=
  scheme = .basic ∨ scheme = .digest

instance (scheme : AuthScheme) : Decidable scheme.Asks :=
  inferInstanceAs (Decidable (_ ∨ _))

/-- The extensions that export a function. -/
def Server.exporting (server : Server) (hook : Hook) : List Nat :=
  (List.range server.extList.length).filter fun index =>
    (server.extList[index]?.map fun exports => exports hook).getD false

/-- The calls of a function in all extensions. -/
def Server.hooks (server : Server) (hook : Hook) : List Event :=
  (server.exporting hook).map (Event.extension hook)

/-- A request with the events of its answer. -/
abbrev Answering := CHttp RequestHeader × List Event

/-- What is done in one state, and the next one. -/
def stage (state next : HttpState) (events : List Event) (current : Answering) : Answering :=
  if current.1.httpState = state then
    ({ current.1 with httpState := next }, current.2 ++ events)
  else current

/-- The request is complete with an answer. -/
def refuse (status : Nat) (challenge : Option (String × AuthScheme)) (current : Answering) :
    Answering :=
  ({ current.1 with httpState := .complete }, current.2 ++ [.answer status challenge])

namespace CHttp

variable (server : Server) (outside : Outside) (http1 : CHttp RequestHeader)

/-- `CHttp::Tunneling`. -/
def tunneling : Answering :=
  let called :=
    stage .tunnling .tunnlingExtensionComplete (server.hooks .extTunneling)
      (http1, [.tunneling])
  if http1.httpState = .tunnling ∧ (server.exporting .extTunneling).any outside.stops then
    refuse 405 none called
  else if HttpState.number .tunnlingExtensionComplete ≤ called.1.httpState.number then
    ({ called.1 with
        httpState := if outside.tunnlingComplete then .complete else called.1.httpState },
      called.2 ++ [.relaying])
  else called

/-- `CHttp::Response`, and whether it succeeds.  A document is complete once it has
responded. -/
def response : Answering × Bool :=
  let begun := stage .response .responding [] (http1, [])
  let requested :=
    stage .responding .respondingExtensionComplete1 (server.hooks .extRequest) begun
  if begun.1.httpState = .responding ∧ (server.exporting .extRequest).any outside.skipAction then
    (requested, false)
  else
    let responded :=
      stage .respondingExtensionComplete1 .respondingExtensionComplete2
        (server.hooks .extResponse) requested
    let documented :=
      stage .respondingExtensionComplete2 .respondingDocComplete [.document] responded
    (stage .respondingDocComplete .responseComplete (server.hooks .extFinish) documented, true)

/-- What `ResponseReply` returns in the end. -/
def connection : HttpConnection :=
  if http1.httpState ≠ .complete then .httpContinue
  else if http1.rest.keepAlive && server.enabledKeepAlive then .httpKeepAlive
  else .httpClose

/-- `CHttp::ResponseReply` up to the authentication, and whether that is all. -/
def authenticate : Answering × Bool :=
  if http1.httpState = .authentication then
    if http1.rest.tunnelingConnection = .none then
      if server.wwwAuthScheme.Asks ∧ http1.rest.passedWwwauth = false then
        (refuse 401 (some ("WWW-Authenticate", server.wwwAuthScheme)) (http1, []), true)
      else (({ http1 with httpState := .response }, []), false)
    else
      if server.proxyAuthScheme.Asks ∧ http1.rest.passedProxyauth = false then
        (refuse 407 (some ("Proxy-Authenticate", server.proxyAuthScheme)) (http1, []), true)
      else (({ http1 with httpState := .tunnling }, []), false)
  else ((http1, []), false)

/-- `CHttp::ResponseReply` behind the authentication.  What else the kind of a tunnel
could be is none. -/
def goAhead : Answering × HttpConnection :=
  if http1.httpState.Replying then
    if http1.rest.tunnelingConnection = .none then
      if http1.httpMethod = .put ∨ http1.httpMethod = .delete then
        (refuse 405 none (http1, []), .httpClose)
      else
        let (responded, success) := http1.response server outside
        if success = false then (refuse 500 none responded, .httpClose)
        else if responded.1.httpState.number < HttpState.number .responseComplete then
          (responded, .httpContinue)
        else
          let completed := stage .responseComplete .complete [] responded
          (completed, completed.1.connection server)
    else if server.enableHttpTunneling = false then
      let refused :=
        refuse (if http1.rest.tunnelingConnection = .withConnect then 405 else 404) none
          (http1, [])
      (refused, refused.1.connection server)
    else
      let tunneled := http1.tunneling server outside
      (tunneled, tunneled.1.connection server)
  else ((http1, []), http1.connection server)

/-- `CHttp::ResponseReply`. -/
def responseReply : Answering × HttpConnection :=
  let (authenticated, refused) := http1.authenticate server
  if refused then (authenticated, .httpContinue)
  else authenticated.1.goAhead server outside

/-- The calls of `WWW_Auth` between two headers. -/
def calls (http1' : CHttp RequestHeader) : List Event :=
  (http1'.rest.authCalls.drop http1.rest.authCalls.length).map .wwwAuth

end CHttp

/-- What a `CHttp` is driven with.  `LineParse` goes on to the body and the response in
the synchronous build only, and there reads the body from a socket. -/
inductive Operation
  | lineParse (text : List UInt8) (sock : LineSock) (outside : Outside)
  | asyncLineParse (text : List UInt8)
  | wakeup (segment : List UInt8) (outside : Outside)
  | pushPostData (buf : List UInt8)
  | response (outside : Outside)

/-- A `CHttp` with its `m_async_recv_buf`. -/
abbrev Current := CHttp RequestHeader × List UInt8

/-- `CHttp::LineParse` of the synchronous build.  It does not come back while it waits
for a body. -/
def CHttp.syncLineParse (server : Server) (outside : Outside) (text : List UInt8)
    (sock : LineSock) (http1 : CHttp RequestHeader) :
    List Event × Option ((CHttp RequestHeader × LineSock) × HttpConnection) :=
  let (parsed, blank) := http1.lineParse server.toSite text
  let called := http1.calls parsed
  if blank then
    if parsed.contentLength < 0 then
      (called ++ [.answer 411 none], some ((parsed, sock), .httpClose))
    else
      match parsed.dataParse sock with
      | none => (called, none)
      | some (ready, left) =>
          let ((replied, log), connection) := ready.responseReply server outside
          (called ++ log, some ((replied, left), connection))
  else (called, some ((parsed, sock), .httpContinue))

/-- `CHttp::AsyncProcessing`. -/
def CHttp.asyncProcessing (server : Server) (outside : Outside) (current : Current) :
    (Current × List Event) × HttpConnection :=
  let (parsed, unparsed) :=
    current.1.asyncReqHeader server.toSite (current.2.length + 1) current.2
  let (ready, left) := parsed.asyncReqData unparsed
  let called := current.1.calls parsed
  let ((replied, log), connection) :=
    if ready.httpState = .authentication ∨ ready.httpState.Replying then
      ready.responseReply server outside
    else ((ready, []), .httpContinue)
  (((replied, left), called ++ log),
    if replied.httpState = .complete then
      if outside.flushed then replied.connection server else .httpContinue
    else connection)

/-- The events of an operation, and what it leaves. -/
def operate (server : Server) (current : Current) : Operation → List Event × Option Current
  | .lineParse text sock outside =>
      let (log, parsed) := current.1.syncLineParse server outside text sock
      (log, parsed.map fun parsed => (parsed.1.1, current.2))
  | .asyncLineParse text =>
      let parsed := (current.1.lineParse server.toSite text).1
      (current.1.calls parsed, some (parsed, current.2))
  | .wakeup segment outside =>
      let processed :=
        (CHttp.asyncProcessing server outside (current.1, current.2 ++ segment)).1
      (processed.2, some processed.1)
  | .pushPostData buf =>
      ([], some ((pushPostData buf { current.1 with httpState := .reqData }).1, current.2))
  | .response outside =>
      let (replied, log) :=
        (CHttp.responseReply server outside
          { current.1 with httpState := .authentication }).1
      (log, some (replied, current.2))

/-- The events of a run, up to an operation that does not come back. -/
def trace (server : Server) : Current → List Operation → List Event
  | _, [] => []
  | current, operation :: operations =>
      let (log, left) := operate server current operation
      match left with
      | none => log
      | some next => log ++ trace server next operations

end Http1

end HeapHttpd
