import HeapHttpd.Http1.ResponseReply
import HeapHttpd.Library.Replay
import Mathlib.Logic.Function.Basic

/-!
# The session group of a worker

`Session_Group::Processing` with the sessions and the `http_tunneling` objects it calls,
as far as they create, delete, open and close: which descriptors are open, which objects
still exist, and what the two lists of the group and the objects themselves refer to.
Objects are numbered in the order of their creation.
-/

namespace HeapHttpd

namespace Sessions

open Http1 (HttpConnection)

/-- `CHttpBase::m_connection_keep_alive_max` and
`CHttpBase::m_connection_keep_alive_timeout`. -/
structure KeepAliveSetting where
  max : Nat
  timeout : Int

/-- `Session`: its descriptor, its `m_http_protocol_instance` with the
`GetHttpTunneling` of that, its own `m_http_tunneling`, and what permits a further
request. -/
structure ClientSession where
  sockfd : Nat
  protocol : Option (Option Nat)
  httpTunneling : Option Nat
  tickets : Nat
  firstRequestTime : Int
  deleted : Bool

/-- `http_tunneling`: its descriptors, whether the protocol object it was given last
still exists, and the session that it belongs to. -/
structure Tunneling where
  session : Nat
  clientSockfd : Option Nat
  backendSockfd : Option Nat
  attached : Bool
  deleted : Bool

/-- `Session_Group` with all objects and descriptors, and what must not happen: that a
descriptor is closed that is not open, and that a deleted object is used. -/
structure Group where
  sessionList : Nat → Option Nat
  backendList : Nat → Option Nat
  sessions : Nat → ClientSession
  tunnelings : Nat → Tunneling
  sessionCount : Nat
  tunnelingCount : Nat
  isOpen : Nat → Bool
  closedTwice : Bool
  usedDeleted : Bool

/-- What a call of `http_tunneling::processing` does to descriptors: it connects, and
has the socket registered unless `epoll_ctl` fails; `backend_close`;
`force_tunneling_close`. -/
inductive TunnelingAct
  | connect (sockfd : Nat) (registered : Bool)
  | backendClose
  | forceClose
  deriving DecidableEq

/-- What a protocol object does in a call of `AsyncProcessing`: what its tunneling
does, if the request goes through one, and the result. -/
structure ProtocolWork where
  tunneling : Option (List TunnelingAct)
  result : HttpConnection
  deriving DecidableEq

/-- One of the handlers for an event of `epoll_wait`, or a new client.  A socket that is
ready for writing or for reading is flushed or read, which may fail, and then processed. -/
inductive GroupStep
  | append (sockfd : Nat) (now : Int)
  | ready (input : Bool) (sockfd : Nat) (failed : Bool) (work : ProtocolWork) (now : Int)
  | hangup (sockfd : Nat)
  deriving DecidableEq

def GroupStep.sockfd : GroupStep → Nat
  | .append sockfd _ | .ready _ sockfd _ _ _ | .hangup sockfd => sockfd

/-- An event: its descriptor and its mask, and for `EPOLLOUT` and `EPOLLIN` whether the
call fails and what is done otherwise. -/
structure EpollEvent where
  sockfd : Nat
  epollout : Option (Bool × ProtocolWork)
  epollin : Option (Bool × ProtocolWork)
  epollhup : Bool
  epollerr : Bool
  now : Int

/-- The handlers that `Processing` runs for an event, in their order. -/
def EpollEvent.steps (event : EpollEvent) : List GroupStep :=
  (event.epollout.toList.map fun (failed, work) =>
      .ready false event.sockfd failed work event.now) ++
    (event.epollin.toList.map fun (failed, work) =>
      .ready true event.sockfd failed work event.now) ++
    (if event.epollhup || event.epollerr then [.hangup event.sockfd] else [])

/-- What a group meets: new clients, and what `epoll_wait` returns. -/
inductive GroupEvent
  | append (sockfd : Nat) (now : Int)
  | processing (events : List EpollEvent)

def GroupEvent.steps : GroupEvent → List GroupStep
  | .append sockfd now => [.append sockfd now]
  | .processing events => events.flatMap EpollEvent.steps

/-- An object before its creation. -/
def ClientSession.none : ClientSession :=
  { sockfd := 0, protocol := .none, httpTunneling := .none, tickets := 0, firstRequestTime := 0,
    deleted := false }

def Tunneling.none : Tunneling :=
  { session := 0, clientSockfd := .none, backendSockfd := .none, attached := false,
    deleted := false }

/-- The constructor. -/
def Group.new : Group :=
  { sessionList := fun _ => none
    backendList := fun _ => none
    sessions := fun _ => .none
    tunnelings := fun _ => .none
    sessionCount := 0
    tunnelingCount := 0
    isOpen := fun _ => false
    closedTwice := false
    usedDeleted := false }

namespace Group

/-- `close`. -/
def closeFd (sockfd : Nat) (group : Group) : Group :=
  if group.isOpen sockfd then
    { group with isOpen := Function.update group.isOpen sockfd false }
  else { group with closedTwice := true }

def setSession (index : Nat) (session : ClientSession) (group : Group) : Group :=
  { group with sessions := Function.update group.sessions index session }

def setTunneling (index : Nat) (tunneling : Tunneling) (group : Group) : Group :=
  { group with tunnelings := Function.update group.tunnelings index tunneling }

/-- A pointer to a session or to a tunneling is followed. -/
def useSession (index : Nat) (group : Group) : Group :=
  if (group.sessions index).deleted then { group with usedDeleted := true } else group

def useTunneling (index : Nat) (group : Group) : Group :=
  if (group.tunnelings index).deleted then { group with usedDeleted := true } else group

/-! ## http_tunneling -/

/-- `append_backend_session` for a socket that `connect_backend` has opened. -/
def connectBackend (index sockfd : Nat) (registered : Bool) (group : Group) : Group :=
  if group.isOpen sockfd then group
  else
    let group := { group with isOpen := Function.update group.isOpen sockfd true }
    let group :=
      group.setTunneling index
        { group.tunnelings index with backendSockfd := some sockfd }
    if registered ∧ group.backendList sockfd = none then
      { group with backendList := Function.update group.backendList sockfd (some index) }
    else group

/-- `remove_backend_session`. -/
def removeBackendSession (index : Nat) (group : Group) : Group :=
  match (group.tunnelings index).backendSockfd with
  | none => group
  | some sockfd => { group with backendList := Function.update group.backendList sockfd none }

/-- `close` of a descriptor that an object may have. -/
def closeSome (sockfd : Option Nat) (group : Group) : Group :=
  match sockfd with
  | none => group
  | some sockfd => group.closeFd sockfd

/-- `backend_close`. -/
def backendClose (index : Nat) (group : Group) : Group :=
  let tunneling := group.tunnelings index
  ((group.removeBackendSession index).closeSome tunneling.backendSockfd).setTunneling index
    { tunneling with backendSockfd := none }

/-- `force_tunneling_close`. -/
def forceTunnelingClose (index : Nat) (group : Group) : Group :=
  let tunneling := group.tunnelings index
  (((group.removeBackendSession index).closeSome tunneling.clientSockfd).closeSome
    tunneling.backendSockfd).setTunneling index
      { tunneling with clientSockfd := none, backendSockfd := none }

def act (index : Nat) (group : Group) : TunnelingAct → Group
  | .connect sockfd registered => group.connectBackend index sockfd registered
  | .backendClose => group.backendClose index
  | .forceClose => group.forceTunnelingClose index

/-- The destructor of `http_tunneling`. -/
def deleteTunneling (index : Nat) (group : Group) : Group :=
  let group := (group.useTunneling index).backendClose index
  group.setTunneling index { group.tunnelings index with deleted := true }

/-- A protocol object is deleted, and with it what a tunneling was given by it. -/
def detach (tunneling : Option Nat) (group : Group) : Group :=
  match tunneling with
  | none => group
  | some index =>
      group.setTunneling index { group.tunnelings index with attached := false }

/-! ## Session -/

/-- The constructor of `Session`, and `CreateProtocol` in it, and `Append`.  The descriptor of a
new client is one that was not open. -/
def append (setting : KeepAliveSetting) (sockfd : Nat) (now : Int) (group : Group) : Group :=
  if group.isOpen sockfd then group
  else
    { group with
      isOpen := Function.update group.isOpen sockfd true
      sessionList := Function.update group.sessionList sockfd (some group.sessionCount)
      sessions := Function.update group.sessions group.sessionCount
        { sockfd, protocol := some none, httpTunneling := none, tickets := setting.max,
          firstRequestTime := now, deleted := false }
      sessionCount := group.sessionCount + 1 }

/-- The destructor of `Session`. -/
def deleteSession (index : Nat) (group : Group) : Group :=
  let session := group.sessions index
  let group := group.detach session.protocol.join
  let group :=
    match session.httpTunneling with
    | none => group
    | some tunneling => group.deleteTunneling tunneling
  group.setSession index
    { session with protocol := none, httpTunneling := none, deleted := true }

/-- `CreateProtocol`. -/
def createProtocol (index : Nat) (group : Group) : Group :=
  let session := group.sessions index
  match session.protocol with
  | some _ => group
  | none => group.setSession index { session with protocol := some session.httpTunneling }

/-- The tunneling of the protocol object of a session, which it creates for its first
use. -/
def tunnelingOf (index : Nat) (group : Group) : Nat × Group :=
  let session := group.sessions index
  match session.protocol.join with
  | some tunneling => (tunneling, group)
  | none =>
      let tunneling := group.tunnelingCount
      (tunneling,
        ({ group with tunnelingCount := tunneling + 1 }.setTunneling tunneling
          { session := index, clientSockfd := some session.sockfd, backendSockfd := none,
            attached := true, deleted := false }).setSession index
              { session with protocol := some (some tunneling) })

/-- `AsyncProcessing` of the protocol object. -/
def protocolProcessing (index : Nat) (work : ProtocolWork) (group : Group) : Group :=
  match work.tunneling with
  | none => group
  | some acts =>
      let (tunneling, group) := group.tunnelingOf index
      let group := group.useTunneling tunneling
      let group :=
        group.setTunneling tunneling { group.tunnelings tunneling with attached := true }
      acts.foldl (act tunneling) group

/-- A session behind a request: the protocol object is deleted, and the session keeps
its tunneling. -/
def complete (setting : KeepAliveSetting) (index : Nat) (result : HttpConnection) (now : Int)
    (group : Group) : Group × HttpConnection :=
  let session := group.sessions index
  let tunneling := session.protocol.join
  let tickets := session.tickets - 1
  ((group.detach tunneling).setSession index
      { session with protocol := none, httpTunneling := tunneling, tickets },
    if tickets = 0 ∨ setting.timeout < now - session.firstRequestTime then .httpClose else result)

/-- `Session::AsyncProcessing`. -/
def asyncProcessing (setting : KeepAliveSetting) (index : Nat) (work : ProtocolWork) (now : Int)
    (group : Group) : Group × HttpConnection :=
  let group := (group.useSession index).createProtocol index
  let group := group.protocolProcessing index work
  if work.result = .httpContinue then (group, .httpContinue)
  else group.complete setting index work.result now

/-- `Session::AsyncRecv` and `Session::AsyncSend` fail without a protocol object. -/
def asyncFails (index : Nat) (failed : Bool) (group : Group) : Bool :=
  (group.sessions index).protocol.isNone || failed

/-! ## Session_Group -/

/-- `Remove` closes the backend of a request that is not complete. -/
def closeProtocolBackend (index : Nat) (group : Group) : Group :=
  match (group.sessions index).protocol.join with
  | none => group
  | some tunneling =>
      let group := group.useTunneling tunneling
      match (group.tunnelings tunneling).backendSockfd with
      | none => group
      | some backend =>
          ({ group with
            backendList := Function.update group.backendList backend none }).closeFd backend

/-- `Remove`. -/
def remove (sockfd : Nat) (group : Group) : Group :=
  match group.sessionList sockfd with
  | none => group
  | some index =>
      let group := (group.useSession index).closeProtocolBackend index
      let group := group.deleteSession index
      { group with sessionList := Function.update group.sessionList sockfd none }

/-- The handler for `EPOLLOUT` and the one for `EPOLLIN`. -/
def ready (setting : KeepAliveSetting) (sockfd : Nat) (failed : Bool) (work : ProtocolWork)
    (now : Int) (group : Group) : Group :=
  match group.sessionList sockfd with
  | some index =>
      let group := group.useSession index
      if group.asyncFails index failed then (group.remove sockfd).closeFd sockfd
      else (group.asyncProcessing setting index work now).1
  | none =>
      match group.backendList sockfd with
      | none => group
      | some index =>
          let group := group.useTunneling index
          if failed then group.closeFd sockfd
          else
            let group :=
              if (group.tunnelings index).attached then group
              else { group with usedDeleted := true }
            (work.tunneling.getD []).foldl (act index) group

/-- The handler for `EPOLLHUP` and `EPOLLERR`. -/
def hangup (sockfd : Nat) (group : Group) : Group :=
  let group := group.closeFd sockfd
  match group.sessionList sockfd with
  | some _ => group.remove sockfd
  | none => { group with backendList := Function.update group.backendList sockfd none }

def step (setting : KeepAliveSetting) (group : Group) : GroupStep → Group
  | .append sockfd now => group.append setting sockfd now
  | .ready _ sockfd failed work now => group.ready setting sockfd failed work now
  | .hangup sockfd => group.hangup sockfd

/-- A group behind what it has met. -/
def run (setting : KeepAliveSetting) (events : List GroupEvent) : Group :=
  (events.flatMap GroupEvent.steps).foldl (step setting) .new

end Group

/-! ## Safety -/

/-- No descriptor is closed again and no deleted object is used, and nothing refers to a
descriptor that is closed. -/
structure Safe (group : Group) : Prop where
  closes : group.closedTwice = false
  uses : group.usedDeleted = false
  sessions : ∀ sockfd index, group.sessionList sockfd = some index → group.isOpen sockfd = true
  backends : ∀ sockfd index, group.backendList sockfd = some index → group.isOpen sockfd = true
  tunnelings : ∀ index, (group.tunnelings index).deleted = false →
    ∀ sockfd, (group.tunnelings index).backendSockfd = some sockfd → group.isOpen sockfd = true

/-- A tunneling connects only while it has no backend, and does not force its
descriptors to be closed. -/
def Connects : Bool → List TunnelingAct → Prop
  | _, [] => True
  | connected, .connect _ _ :: acts => connected = false ∧ Connects true acts
  | _, .backendClose :: acts => Connects false acts
  | _, .forceClose :: _ => False

/-- The descriptor of the backend of a protocol object. -/
def Group.protocolBackend (index : Nat) (group : Group) : Option Nat :=
  (group.sessions index).protocol.join.bind fun tunneling =>
    (group.tunnelings tunneling).backendSockfd

/-- A step at which nothing goes wrong: a client that fails or hangs up has no request
on its way to a backend, and a backend neither fails nor hangs up nor is heard of when
its request is complete. -/
def Orderly (group : Group) : GroupStep → Prop
  | .append _ _ => True
  | .ready _ sockfd failed work _ =>
      match group.sessionList sockfd with
      | some index =>
          if group.asyncFails index failed then group.protocolBackend index = none
          else Connects (group.protocolBackend index).isSome (work.tunneling.getD [])
      | none =>
          match group.backendList sockfd with
          | none => True
          | some index =>
              failed = false ∧ (group.tunnelings index).attached = true ∧
                Connects (group.tunnelings index).backendSockfd.isSome (work.tunneling.getD [])
  | .hangup sockfd =>
      match group.sessionList sockfd with
      | some index => group.protocolBackend index = none
      | none => False

/-! ## What leaves the sessions alone -/

namespace Group

/-- The sessions and their list. -/
def clients (group : Group) : (Nat → Option Nat) × (Nat → ClientSession) × Nat :=
  (group.sessionList, group.sessions, group.sessionCount)

section Clients

variable {group other : Group}

theorem sessionList_of_clients (same : other.clients = group.clients) :
    other.sessionList = group.sessionList :=
  congrArg Prod.fst same

theorem sessions_of_clients (same : other.clients = group.clients) :
    other.sessions = group.sessions :=
  congrArg (fun clients => clients.2.1) same

theorem sessionCount_of_clients (same : other.clients = group.clients) :
    other.sessionCount = group.sessionCount :=
  congrArg (fun clients => clients.2.2) same

variable (index sockfd : Nat) (group : Group)

@[simp]
theorem closeFd_clients : (group.closeFd sockfd).clients = group.clients := by
  unfold closeFd
  split <;> rfl

@[simp]
theorem closeSome_clients (sockfd : Option Nat) :
    (group.closeSome sockfd).clients = group.clients := by
  cases sockfd with
  | none => rfl
  | some sockfd => exact closeFd_clients sockfd group

@[simp]
theorem setTunneling_clients (tunneling : Tunneling) :
    (group.setTunneling index tunneling).clients = group.clients :=
  rfl

@[simp]
theorem useSession_clients : (group.useSession index).clients = group.clients := by
  unfold useSession
  split <;> rfl

@[simp]
theorem useTunneling_clients : (group.useTunneling index).clients = group.clients := by
  unfold useTunneling
  split <;> rfl

@[simp]
theorem removeBackendSession_clients :
    (group.removeBackendSession index).clients = group.clients := by
  unfold removeBackendSession
  split <;> rfl

@[simp]
theorem backendClose_clients : (group.backendClose index).clients = group.clients := by
  simp [backendClose]

@[simp]
theorem forceTunnelingClose_clients :
    (group.forceTunnelingClose index).clients = group.clients := by
  simp [forceTunnelingClose]

@[simp]
theorem connectBackend_clients (registered : Bool) :
    (group.connectBackend index sockfd registered).clients = group.clients := by
  simp only [connectBackend]
  split
  · rfl
  · split <;> rfl

@[simp]
theorem act_clients (act : TunnelingAct) : (group.act index act).clients = group.clients := by
  cases act <;> simp [Group.act]

@[simp]
theorem acts_clients (acts : List TunnelingAct) :
    (acts.foldl (act index) group).clients = group.clients := by
  induction acts generalizing group with
  | nil => rfl
  | cons first acts ih =>
      rw [List.foldl_cons, ih]
      exact act_clients index group first

@[simp]
theorem deleteTunneling_clients : (group.deleteTunneling index).clients = group.clients := by
  simp [deleteTunneling]

@[simp]
theorem detach_clients (tunneling : Option Nat) :
    (group.detach tunneling).clients = group.clients := by
  cases tunneling <;> rfl

@[simp]
theorem closeProtocolBackend_clients :
    (group.closeProtocolBackend index).clients = group.clients := by
  simp only [closeProtocolBackend]
  split
  · rfl
  · split
    · exact useTunneling_clients _ group
    · exact (closeFd_clients _ _).trans (useTunneling_clients _ group)

end Clients

/-- A step that concerns one session. -/
structure OnlySession (index : Nat) (group next : Group) : Prop where
  list : next.sessionList = group.sessionList
  count : next.sessionCount = group.sessionCount
  others : ∀ other, other ≠ index → next.sessions other = group.sessions other
  sockfd : (next.sessions index).sockfd = (group.sessions index).sockfd

section OnlySession

variable {index : Nat} {group next last : Group}

theorem onlySession_of_clients (index : Nat) (same : next.clients = group.clients) :
    OnlySession index group next :=
  { list := sessionList_of_clients same
    count := sessionCount_of_clients same
    others := fun _ _ => by rw [sessions_of_clients same]
    sockfd := by rw [sessions_of_clients same] }

theorem OnlySession.trans (first : OnlySession index group next)
    (second : OnlySession index next last) : OnlySession index group last :=
  { list := second.list.trans first.list
    count := second.count.trans first.count
    others := fun other differs =>
      (second.others other differs).trans (first.others other differs)
    sockfd := second.sockfd.trans first.sockfd }

theorem setSession_only {session : ClientSession}
    (sockfd : session.sockfd = (group.sessions index).sockfd) :
    OnlySession index group (group.setSession index session) :=
  { list := rfl
    count := rfl
    others := fun _ differs => Function.update_of_ne differs _ _
    sockfd := by
      show (Function.update group.sessions index session index).sockfd = _
      rw [Function.update_self, sockfd] }

theorem createProtocol_only : OnlySession index group (group.createProtocol index) := by
  simp only [createProtocol]
  split
  · exact onlySession_of_clients index rfl
  · exact setSession_only rfl

theorem tunnelingOf_only : OnlySession index group (group.tunnelingOf index).2 := by
  simp only [tunnelingOf]
  split
  · exact onlySession_of_clients index rfl
  · exact
      { list := rfl
        count := rfl
        others := fun _ differs => Function.update_of_ne differs _ _
        sockfd := by
          show (Function.update group.sessions index _ index).sockfd = _
          rw [Function.update_self] }

theorem protocolProcessing_only {work : ProtocolWork} :
    OnlySession index group (group.protocolProcessing index work) := by
  simp only [protocolProcessing]
  split
  · exact onlySession_of_clients index rfl
  · refine tunnelingOf_only.trans (onlySession_of_clients index ?_)
    simp

theorem complete_only {setting : KeepAliveSetting} {result : HttpConnection} {now : Int} :
    OnlySession index group (group.complete setting index result now).1 := by
  have detached := onlySession_of_clients index
    (detach_clients group (group.sessions index).protocol.join)
  exact detached.trans (setSession_only (by rw [detached.sockfd]))

theorem asyncProcessing_only {setting : KeepAliveSetting} {work : ProtocolWork} {now : Int} :
    OnlySession index group (group.asyncProcessing setting index work now).1 := by
  have processed : OnlySession index group
      (((group.useSession index).createProtocol index).protocolProcessing index work) :=
    ((onlySession_of_clients index (useSession_clients index group)).trans
      createProtocol_only).trans protocolProcessing_only
  simp only [asyncProcessing]
  split
  · exact processed
  · exact processed.trans complete_only

theorem deleteSession_only : OnlySession index group (group.deleteSession index) := by
  simp only [deleteSession]
  split
  · exact (onlySession_of_clients index (detach_clients group _)).trans
      (setSession_only (by rw [sessions_of_clients (detach_clients group _)]))
  · refine (onlySession_of_clients index ?_).trans (setSession_only ?_)
    · simp
    · rw [sessions_of_clients (deleteTunneling_clients _ _),
        sessions_of_clients (detach_clients group _)]

end OnlySession

end Group

end Sessions

end HeapHttpd
