import HeapHttpd.Library.Replay
import HeapHttpd.Tunneling.Connecting

/-!
# Octets of one request and one socket

What `http_tunneling` relays as the response to a request has come on the socket that the
request was sent on, and no socket from before stays open or listed, as long as a socket is
not replaced and both buffers are empty when a request begins.
-/

namespace HeapHttpd

namespace Tunneling

open Replay (Throughout)

/-- Whether the request is not sent yet. -/
def TunnelingState.Unsent : TunnelingState → Prop
  | .connecting | .connectingWaiting | .connected | .established => True
  | _ => False

namespace HttpTunneling

/-- The socket that the object has. -/
def Holds (object : HttpTunneling) (number : Nat) : Prop :=
  object.backendSockfd.map BackendSocket.number = some number

/-- What is relayed for a request was received while it was served, on the one socket that
it was sent on; what is sent for a request is its own; and only the socket that the object
has is open and listed. -/
structure Separate (object : HttpTunneling) : Prop where
  relayed : ∀ request data, .relayed request data ∈ object.effects → ∀ octet ∈ data,
    octet.request = request ∧
      ∃ socket, .requested request (some socket) ∈ object.effects ∧ octet.socket = socket.number
  once : ∀ request first second, .requested request first ∈ object.effects →
    .requested request second ∈ object.effects → first = second
  toBackend : ∀ request data, .toBackend request data ∈ object.effects → ∀ octet ∈ data,
    octet.request = request
  opened : ∀ number ∈ object.openSockets, object.Holds number
  listed : ∀ number ∈ object.backendList, object.Holds number

/-- Whether the response to a target is found in the cache. -/
def Finds (server : Server) (opening : Opening) (object : HttpTunneling) (target : Target) :
    Prop :=
  object.looksUp server target.httpUrl = true ∧
    (opening.memory.findTunneling opening.now target.httpUrl).isSome = true

/-- No socket is opened by an object that has one: the first backend that is not passed
over is the one that the socket leads to, or its response is in the cache. -/
def KeepsSocket (server : Server) (opening : Opening) (object : HttpTunneling) :
    List (Target × Option (List ConnectResult)) → Prop
  | [] => True
  | (target, addresses) :: attempts =>
      Finds server opening object target ∨
        (object.address = target.backendAddr ∧ object.port = target.backendPort) ∨
        ((target.backendAddr = [] ∨ target.backendPort = 0 ∨ addresses = none) ∧
          KeepsSocket server opening object attempts)

/-- A request begins with empty buffers, and a socket is not replaced. -/
def Undisturbed (server : Server) (object : HttpTunneling) :
    TunnelingRequest × Option Wakeup → Prop
  | (_, none) => object.asyncBackendRecvBuf = [] ∧ object.backendSendBuf = []
  | (request, some (.processing call)) =>
      object.state = .connecting → object.backendSockfd = none ∨
        KeepsSocket server call.toOpening object (attempts request call.toOpening)
  | (_, some _) => True

instance (server : Server) (opening : Opening) (object : HttpTunneling) (target : Target) :
    Decidable (Finds server opening object target) :=
  inferInstanceAs (Decidable (_ ∧ _))

instance instDecidableKeepsSocket (server : Server) (opening : Opening) (object : HttpTunneling) :
    ∀ attempts, Decidable (KeepsSocket server opening object attempts)
  | [] => isTrue trivial
  | (_, addresses) :: attempts =>
      have : Decidable (KeepsSocket server opening object attempts) :=
        instDecidableKeepsSocket server opening object attempts
      have : Decidable (addresses = none) := decidable_of_iff _ Option.isNone_iff_eq_none
      inferInstanceAs (Decidable (_ ∨ _ ∨ _))

instance (server : Server) (object : HttpTunneling) :
    ∀ event, Decidable (Undisturbed server object event)
  | (_, none) => inferInstanceAs (Decidable (_ ∧ _))
  | (request, some (.processing call)) =>
      inferInstanceAs (Decidable (object.state = .connecting → object.backendSockfd = none ∨
        KeepsSocket server call.toOpening object (attempts request call.toOpening)))
  | (_, some (.backendAsyncRecv _)) => isTrue trivial
  | (_, some (.backendAsyncFlush _)) => isTrue trivial

/-! ## What is kept -/

/-- The octets in the buffers are those of the request. -/
structure Owned (object : HttpTunneling) : Prop extends Separate object where
  past : ∀ request socket, .requested request socket ∈ object.effects →
    request ≤ object.request
  sendBuf : ∀ octet ∈ object.backendSendBuf, octet.request = object.request
  recvBuf : ∀ octet ∈ object.asyncBackendRecvBuf, octet.request = object.request

/-- The octets to be read are those of the socket that the request was sent on. -/
def Sending (object : HttpTunneling) : Prop :=
  object.backendSockfd = none ∧ object.asyncBackendRecvBuf = [] ∨
    ∃ socket, .requested object.request (some socket) ∈ object.effects ∧
      (object.backendSockfd = some socket ∨ object.backendSockfd = none) ∧
      ∀ octet ∈ object.asyncBackendRecvBuf, octet.socket = socket.number

/-- Before the request is sent, the octets to be read are those of the socket that there
is, unless TLS could not be set up; after that, of the socket that it was sent on. -/
structure Kept (object : HttpTunneling) : Prop extends Owned object where
  unsent : object.state.Unsent → ∀ socket, .requested object.request socket ∉ object.effects
  pending : object.state.Unsent →
    (∀ octet ∈ object.asyncBackendRecvBuf, object.Holds octet.socket) ∨
      object.state = .connected ∧ object.ssl = true ∧ object.backendSockfd = none
  sending : object.state = .relayingData1 → object.cacheInstance = none → Sending object

/-- An effect that may be added. -/
def Fits (object : HttpTunneling) : Effect → Prop
  | .requested _ _ => False
  | .toBackend request data => ∀ octet ∈ data, octet.request = request
  | .relayed request data => ∀ octet ∈ data,
      octet.request = request ∧
        ∃ socket, .requested request (some socket) ∈ object.effects ∧
          octet.socket = socket.number
  | _ => True

section Kept

variable {object : HttpTunneling}

theorem kept_new (requestNoCache ssl : Bool) : Kept (.new requestNoCache ssl) where
  relayed _ _ absent := (List.not_mem_nil absent).elim
  once _ _ _ absent _ := (List.not_mem_nil absent).elim
  toBackend _ _ absent := (List.not_mem_nil absent).elim
  opened _ absent := (List.not_mem_nil absent).elim
  listed _ absent := (List.not_mem_nil absent).elim
  past _ _ absent := (List.not_mem_nil absent).elim
  sendBuf _ absent := (List.not_mem_nil absent).elim
  recvBuf _ absent := (List.not_mem_nil absent).elim
  unsent _ _ := List.not_mem_nil
  pending _ := .inl fun _ absent => (List.not_mem_nil absent).elim
  sending impossible := by cases impossible

/-- Without a socket nothing is open, and nothing is listed. -/
theorem Separate.lists_of_none (separate : Separate object)
    (noSocket : object.backendSockfd = none) :
    object.openSockets = [] ∧ object.backendList = [] := by
  have noneHeld (number : Nat) : ¬ object.Holds number := by
    rw [Holds, noSocket]
    exact fun impossible => by cases impossible
  constructor
  · exact List.eq_nil_iff_forall_not_mem.mpr fun number member =>
      noneHeld number (separate.opened number member)
  · exact List.eq_nil_iff_forall_not_mem.mpr fun number member =>
      noneHeld number (separate.listed number member)

theorem requested_of_note {effects : List Effect} (fits : ∀ effect ∈ effects, object.Fits effect)
    {request : Nat} {socket : Option BackendSocket}
    (member : .requested request socket ∈ (object.note effects).effects) :
    .requested request socket ∈ object.effects := by
  rcases List.mem_append.mp member with before | added
  · exact before
  · exact (fits _ added).elim

theorem Owned.note (owned : Owned object) {effects : List Effect}
    (fits : ∀ effect ∈ effects, object.Fits effect) : Owned (object.note effects) where
  relayed := by
    intro request data member octet inside
    have known : octet.request = request ∧ ∃ socket,
        .requested request (some socket) ∈ object.effects ∧ octet.socket = socket.number := by
      rcases List.mem_append.mp member with before | added
      · exact owned.relayed request data before octet inside
      · exact fits _ added octet inside
    obtain ⟨own, socket, sent, same⟩ := known
    exact ⟨own, socket, List.mem_append_left _ sent, same⟩
  once request first second ofFirst ofSecond :=
    owned.once request first second (requested_of_note fits ofFirst)
      (requested_of_note fits ofSecond)
  toBackend := by
    intro request data member
    rcases List.mem_append.mp member with before | added
    · exact owned.toBackend request data before
    · exact fits _ added
  opened := owned.opened
  listed := owned.listed
  past request socket member := owned.past request socket (requested_of_note fits member)
  sendBuf := owned.sendBuf
  recvBuf := owned.recvBuf

/-- More is done, octets are taken from the buffer, or the socket is closed. -/
theorem Sending.mono {object' : HttpTunneling} (sending : Sending object)
    (request : object'.request = object.request)
    (effects : ∀ effect ∈ object.effects, effect ∈ object'.effects)
    (socket : object'.backendSockfd = object.backendSockfd ∨ object'.backendSockfd = none)
    (recvBuf : ∀ octet ∈ object'.asyncBackendRecvBuf, octet ∈ object.asyncBackendRecvBuf) :
    Sending object' := by
  rcases sending with ⟨noSocket, empty⟩ | ⟨sentOn, sent, held, buffer⟩
  · refine .inl ⟨?_, ?_⟩
    · rcases socket with same | closed
      · rw [same, noSocket]
      · exact closed
    · rw [empty] at recvBuf
      exact List.eq_nil_iff_forall_not_mem.mpr fun octet member =>
        List.not_mem_nil (recvBuf octet member)
  · refine .inr ⟨sentOn, ?_, ?_, fun octet member => buffer octet (recvBuf octet member)⟩
    · rw [request]
      exact effects _ sent
    · rcases socket with same | closed
      · rwa [same]
      · exact .inr closed

theorem Kept.note (kept : Kept object) {effects : List Effect}
    (fits : ∀ effect ∈ effects, object.Fits effect) : Kept (object.note effects) where
  toOwned := kept.toOwned.note fits
  unsent unsent socket member := kept.unsent unsent socket (requested_of_note fits member)
  pending := kept.pending
  sending relaying noCache :=
    (kept.sending relaying noCache).mono rfl (fun _ member => List.mem_append_left _ member)
      (.inl rfl) fun _ member => member

end Kept

/-! ## A backend is looked for -/

/-- What looking for a backend leaves alone. -/
structure Meanwhile (object object' : HttpTunneling) : Prop where
  effects : object'.effects = object.effects
  sendBuf : object'.backendSendBuf = object.backendSendBuf
  recvBuf : object'.asyncBackendRecvBuf = object.asyncBackendRecvBuf
  request : object'.request = object.request
  ssl : object'.ssl = object.ssl

theorem Meanwhile.refl (object : HttpTunneling) : Meanwhile object object :=
  ⟨rfl, rfl, rfl, rfl, rfl⟩

theorem Meanwhile.trans {object object' object'' : HttpTunneling}
    (first : Meanwhile object object') (second : Meanwhile object' object'') :
    Meanwhile object object'' :=
  { effects := second.effects.trans first.effects
    sendBuf := second.sendBuf.trans first.sendBuf
    recvBuf := second.recvBuf.trans first.recvBuf
    request := second.request.trans first.request
    ssl := second.ssl.trans first.ssl }

/-- No socket is there. -/
structure Idle (object : HttpTunneling) : Prop where
  socket : object.backendSockfd = none
  opened : object.openSockets = []
  listed : object.backendList = []

/-- The one socket that is open and listed is the one that the object has. -/
structure Single (object : HttpTunneling) : Prop where
  opened : ∀ number ∈ object.openSockets, object.Holds number
  listed : ∀ number ∈ object.backendList, object.Holds number

theorem Idle.single {object : HttpTunneling} (idle : Idle object) : Single object := by
  refine ⟨?_, ?_⟩
  · rw [idle.opened]
    exact fun _ absent => (List.not_mem_nil absent).elim
  · rw [idle.listed]
    exact fun _ absent => (List.not_mem_nil absent).elim

/-- A backend has been found, or another one is tried. -/
def Looked (object : HttpTunneling) (looked : HttpTunneling × Bool) : Prop :=
  Meanwhile object looked.1 ∧
    (looked.2 = true ∧ Single looked.1 ∧
        (looked.1.state = .connected ∨ looked.1.state = .connectingWaiting) ∨
      looked.2 = false ∧ Idle looked.1 ∧ looked.1.state = object.state)

theorem Looked.behind {object object' : HttpTunneling} {looked : HttpTunneling × Bool}
    (found : Looked object' looked) (meanwhile : Meanwhile object object')
    (state : object'.state = object.state) : Looked object looked := by
  refine ⟨meanwhile.trans found.1, ?_⟩
  rw [← state]
  exact found.2

section Looking

variable {server : Server} {target : Target} {object : HttpTunneling}

theorem idle_backendClose (idle : Idle object) (result : ConnectResult) :
    Idle (object.openSocket target result).backendClose := by
  refine ⟨rfl, ?_, ?_⟩
  · show (object.sockets :: object.openSockets).filter (· ≠ object.sockets) = []
    rw [idle.opened]
    simp
  · show object.backendList.filter (· ≠ object.sockets) = []
    rw [idle.listed]
    rfl

/-- A new socket is the only one. -/
theorem single_openSocket (idle : Idle object) (result : ConnectResult) :
    Single (object.openSocket target result) ∧
      Single (object.openSocket target result).appendBackendSession := by
  have opened : ∀ number ∈ object.sockets :: object.openSockets,
      some object.sockets = some number := by
    rw [idle.opened]
    intro number member
    rw [List.mem_singleton.mp member]
  have listed : ∀ number ∈ object.sockets :: object.backendList,
      some object.sockets = some number := by
    rw [idle.listed]
    intro number member
    rw [List.mem_singleton.mp member]
  exact ⟨⟨opened, fun number member => listed number (List.mem_cons_of_mem _ member)⟩,
    ⟨opened, listed⟩⟩

theorem looked_connectAddresses (idle : Idle object) (results : List ConnectResult) :
    Looked object (object.connectAddresses server target results) := by
  induction results generalizing object with
  | nil =>
      have closed : object.backendClose = object := by
        rw [backendClose, idle.socket]
      rw [connectAddresses, closed]
      exact ⟨.refl object, .inr ⟨rfl, idle, rfl⟩⟩
  | cons result results ih =>
      have passed (result : ConnectResult) :
          Looked object (connectAddresses server target results
            (object.openSocket target result).backendClose) :=
        (ih (@idle_backendClose target object idle result)).behind ⟨rfl, rfl, rfl, rfl, rfl⟩ rfl
      have kept (hasSocket : result ≠ .noSocket) (notRefused : result ≠ .refused) :
          Looked object (object.connectAddresses server target (result :: results)) := by
        rw [connectAddresses.eq_4 _ _ _ _ _ hasSocket notRefused]
        dsimp only
        obtain ⟨opened, appended⟩ := @single_openSocket target object idle result
        split
        · exact ⟨⟨rfl, rfl, rfl, rfl, rfl⟩, .inl ⟨rfl, ⟨appended.1, appended.2⟩, .inr rfl⟩⟩
        · split
          · exact passed result
          · exact ⟨⟨rfl, rfl, rfl, rfl, rfl⟩, .inl ⟨rfl, ⟨opened.1, opened.2⟩, .inl rfl⟩⟩
      cases result with
      | noSocket =>
          have same : Idle { object with backendSockfd := none } :=
            ⟨rfl, idle.opened, idle.listed⟩
          rw [connectAddresses]
          exact (ih same).behind ⟨rfl, rfl, rfl, rfl, rfl⟩ rfl
      | refused =>
          rw [connectAddresses]
          exact passed .refused
      | connected => exact kept (by decide) (by decide)
      | inProgress report =>
          exact kept (fun impossible => by cases impossible) fun impossible => by cases impossible

theorem looked_connectTarget (idle : Idle object) (addresses : Option (List ConnectResult)) :
    Looked object (object.connectTarget server target addresses) := by
  have another : ¬ (object.address = target.backendAddr ∧ object.port = target.backendPort ∧
      object.backendSockfd.isSome = true) := by
    rintro ⟨-, -, hasSocket⟩
    rw [idle.socket] at hasSocket
    cases hasSocket
  unfold connectTarget
  rw [if_neg another]
  split
  · exact ⟨.refl object, .inr ⟨rfl, idle, rfl⟩⟩
  · cases addresses with
    | none => exact ⟨.refl object, .inr ⟨rfl, idle, rfl⟩⟩
    | some results => exact looked_connectAddresses idle results

theorem looked_connectBackend (idle : Idle object) (opening : Opening)
    (addresses : Option (List ConnectResult)) :
    Looked object (object.connectBackend server opening target addresses) := by
  have set (cacheInstance : Option (List UInt8 × TunnelingCache)) :
      Idle { object with cacheInstance := cacheInstance } :=
    ⟨idle.socket, idle.opened, idle.listed⟩
  have behind (cacheInstance : Option (List UInt8 × TunnelingCache)) :
      Looked object ({ object with cacheInstance := cacheInstance }.connectTarget server target
        addresses) :=
    (looked_connectTarget (set cacheInstance) addresses).behind ⟨rfl, rfl, rfl, rfl, rfl⟩ rfl
  rw [connectBackend]
  cases looks : object.looksUp server target.httpUrl with
  | false => exact behind object.cacheInstance
  | true =>
      cases found : opening.memory.findTunneling opening.now target.httpUrl with
      | none => exact behind none
      | some entry =>
          have single := (set (some (target.httpUrl, entry))).single
          exact ⟨⟨rfl, rfl, rfl, rfl, rfl⟩,
            .inl ⟨rfl, ⟨single.opened, single.listed⟩, .inl rfl⟩⟩

end Looking

/-- A backend that is looked for keeps everything else. -/
theorem Kept.looked {object looked : HttpTunneling} (kept : Kept object)
    (state : object.state = .connecting) (meanwhile : Meanwhile object looked)
    (single : Single looked) (notRelaying : looked.state ≠ .relayingData1)
    (held : ∀ octet ∈ object.asyncBackendRecvBuf, looked.Holds octet.socket) : Kept looked where
  relayed := by
    rw [meanwhile.effects]
    exact kept.relayed
  once := by
    rw [meanwhile.effects]
    exact kept.once
  toBackend := by
    rw [meanwhile.effects]
    exact kept.toBackend
  opened := single.opened
  listed := single.listed
  past := by
    rw [meanwhile.effects, meanwhile.request]
    exact kept.past
  sendBuf := by
    rw [meanwhile.sendBuf, meanwhile.request]
    exact kept.sendBuf
  recvBuf := by
    rw [meanwhile.recvBuf, meanwhile.request]
    exact kept.recvBuf
  unsent _ := by
    rw [meanwhile.effects, meanwhile.request]
    exact kept.unsent (by rw [state]; trivial)
  pending _ := by
    rw [meanwhile.recvBuf]
    exact .inl held
  sending relaying := (notRelaying relaying).elim

section Connecting

variable {server : Server} {opening : Opening} {object : HttpTunneling}

/-- What is there to be read has come on the socket. -/
theorem Kept.held (kept : Kept object) (state : object.state = .connecting) :
    ∀ octet ∈ object.asyncBackendRecvBuf, object.Holds octet.socket := by
  rcases kept.pending (by rw [state]; trivial) with held | ⟨connected, -⟩
  · exact held
  · rw [state] at connected
    cases connected

theorem kept_complete (kept : Kept object) (state : object.state = .connecting) :
    Kept { object with state := .complete } :=
  kept.looked state ⟨rfl, rfl, rfl, rfl, rfl⟩ ⟨kept.opened, kept.listed⟩
    (fun impossible => by cases impossible) (kept.held state)

/-- An object without a socket may open one. -/
theorem kept_connecting_idle (attempts : List (Target × Option (List ConnectResult)))
    (kept : Kept object) (state : object.state = .connecting)
    (noSocket : object.backendSockfd = none) : Kept (connecting server opening attempts object) := by
  induction attempts generalizing object with
  | nil => exact kept_complete kept state
  | cons attempt attempts ih =>
      obtain ⟨target, addresses⟩ := attempt
      have empty : object.asyncBackendRecvBuf = [] := by
        refine List.eq_nil_iff_forall_not_mem.mpr fun octet member => ?_
        have held := kept.held state octet member
        rw [Holds, noSocket] at held
        cases held
      obtain ⟨opened, listed⟩ := kept.lists_of_none noSocket
      have idle : Idle object := ⟨noSocket, opened, listed⟩
      obtain ⟨meanwhile, found⟩ :=
        @looked_connectBackend server target object idle opening addresses
      rw [connecting]
      cases looked : connectBackend server opening target addresses object with | mk next connected
      rw [looked] at meanwhile found
      have held (octet : FromBackend) (member : octet ∈ object.asyncBackendRecvBuf) :
          next.Holds octet.socket := by
        rw [empty] at member
        exact (List.not_mem_nil member).elim
      rcases found with ⟨rfl, single, reached⟩ | ⟨rfl, idle, unchanged⟩
      · have notRelaying : next.state ≠ .relayingData1 := by
          rcases reached with reached | reached <;> rw [reached] <;> decide
        exact (kept.looked state meanwhile single notRelaying held).note fun effect member => by
          rw [List.mem_singleton.mp member]
          trivial
      · have notRelaying : next.state ≠ .relayingData1 := by
          rw [unchanged, state]
          decide
        exact ih (kept.looked state meanwhile idle.single notRelaying held)
          (unchanged.trans state) idle.socket

theorem keepsSocket_cacheInstance (cacheInstance : Option (List UInt8 × TunnelingCache))
    (attempts : List (Target × Option (List ConnectResult)))
    (keeps : KeepsSocket server opening object attempts) :
    KeepsSocket server opening { object with cacheInstance := cacheInstance } attempts := by
  induction attempts with
  | nil => trivial
  | cons attempt attempts ih =>
      rcases keeps with finds | same | ⟨passed, keeps⟩
      · exact .inl finds
      · exact .inr (.inl same)
      · exact .inr (.inr ⟨passed, ih keeps⟩)

theorem connectTarget_of_keeps {target : Target} {addresses : Option (List ConnectResult)}
    (hasSocket : object.backendSockfd.isSome = true) {others : Prop}
    (keeps : (object.address = target.backendAddr ∧ object.port = target.backendPort) ∨
      ((target.backendAddr = [] ∨ target.backendPort = 0 ∨ addresses = none) ∧ others)) :
    object.connectTarget server target addresses = ({ object with state := .connected }, true) ∨
      object.connectTarget server target addresses = (object, false) ∧ others := by
  unfold connectTarget
  split
  · exact .inl rfl
  · next another =>
      rcases keeps with ⟨address, port⟩ | ⟨passed, keeps⟩
      · exact (another ⟨address, port, hasSocket⟩).elim
      · refine .inr ⟨?_, keeps⟩
        rcases passed with noAddress | noPort | unknown
        · rw [if_pos (.inl noAddress)]
        · rw [if_pos (.inr noPort)]
        · rw [unknown]
          split <;> rfl

/-- An object that keeps its socket goes on with it, or tries the next backend. -/
theorem connectBackend_of_keeps {target : Target} {addresses : Option (List ConnectResult)}
    {attempts : List (Target × Option (List ConnectResult))}
    (hasSocket : object.backendSockfd.isSome = true)
    (keeps : KeepsSocket server opening object ((target, addresses) :: attempts)) :
    ∃ cacheInstance, object.connectBackend server opening target addresses =
        ({ object with cacheInstance := cacheInstance, state := .connected }, true) ∨
      object.connectBackend server opening target addresses =
          ({ object with cacheInstance := cacheInstance }, false) ∧
        KeepsSocket server opening object attempts := by
  unfold connectBackend
  cases looks : object.looksUp server target.httpUrl with
  | false =>
      refine ⟨object.cacheInstance, connectTarget_of_keeps hasSocket (keeps.resolve_left ?_)⟩
      rintro ⟨impossible, -⟩
      rw [looks] at impossible
      cases impossible
  | true =>
      cases found : opening.memory.findTunneling opening.now target.httpUrl with
      | none =>
          have notFound : ¬Finds server opening object target := by
            rintro ⟨-, impossible⟩
            rw [found] at impossible
            cases impossible
          exact ⟨none, @connectTarget_of_keeps server { object with cacheInstance := none } target
            addresses hasSocket _ (keeps.resolve_left notFound)⟩
      | some entry => exact ⟨some (target.httpUrl, entry), .inl rfl⟩

/-- An object may keep the socket that it has. -/
theorem kept_connecting_keeps (attempts : List (Target × Option (List ConnectResult)))
    (kept : Kept object) (state : object.state = .connecting)
    (hasSocket : object.backendSockfd.isSome = true)
    (keeps : KeepsSocket server opening object attempts) :
    Kept (connecting server opening attempts object) := by
  induction attempts generalizing object with
  | nil => exact kept_complete kept state
  | cons attempt attempts ih =>
      obtain ⟨target, addresses⟩ := attempt
      have held := kept.held state
      rw [connecting]
      obtain ⟨cacheInstance, connected | ⟨passed, keeps⟩⟩ := connectBackend_of_keeps hasSocket keeps
      · rw [connected]
        have kept : Kept { object with cacheInstance := cacheInstance, state := .connected } :=
          kept.looked state ⟨rfl, rfl, rfl, rfl, rfl⟩ ⟨kept.opened, kept.listed⟩
            (fun impossible => by cases impossible) held
        exact kept.note fun effect member => by
          rw [List.mem_singleton.mp member]
          trivial
      · rw [passed]
        have notRelaying : object.state ≠ .relayingData1 := by
          rw [state]
          decide
        have kept : Kept { object with cacheInstance := cacheInstance } :=
          kept.looked state ⟨rfl, rfl, rfl, rfl, rfl⟩ ⟨kept.opened, kept.listed⟩ notRelaying held
        exact ih kept state hasSocket (keepsSocket_cacheInstance cacheInstance attempts keeps)

end Connecting

/-! ## The connection is set up -/

section Establishing

variable {object : HttpTunneling}

theorem meanwhile_backendClose (object : HttpTunneling) :
    Meanwhile object object.backendClose ∧ object.backendClose.state = object.state := by
  unfold backendClose
  cases object.backendSockfd <;> exact ⟨⟨rfl, rfl, rfl, rfl, rfl⟩, rfl⟩

/-- The one socket that was open and listed is closed. -/
theorem owned_backendClose (owned : Owned object) : Owned object.backendClose := by
  unfold backendClose
  cases socket : object.backendSockfd with
  | none => exact owned
  | some socket' =>
      have gone {numbers : List Nat} (all : ∀ number ∈ numbers, object.Holds number) :
          ∀ number ∈ numbers.filter (· ≠ socket'.number), (none : Option Nat) = some number := by
        intro number member
        obtain ⟨inside, other⟩ := List.mem_filter.mp member
        have held := all number inside
        rw [Holds, socket] at held
        exact (of_decide_eq_true other (Option.some.inj held).symm).elim
      exact { owned with opened := gone owned.opened, listed := gone owned.listed }

theorem Sending.backendClose (sending : Sending object) : Sending object.backendClose := by
  obtain ⟨meanwhile, -⟩ := meanwhile_backendClose object
  refine sending.mono meanwhile.request ?_ (.inr (backendClose_socket object)) ?_
  · rw [meanwhile.effects]
    exact fun _ member => member
  · rw [meanwhile.recvBuf]
    exact fun _ member => member

/-- A connection that was awaited may be there. -/
theorem kept_ready (kept : Kept object) (call : Call) :
    Kept (if object.state = .connectingWaiting ∧ object.ready call = true then
      { object with state := .connected } else object) := by
  split
  · next ready =>
      have unsent : object.state.Unsent := by
        rw [ready.1]
        trivial
      have held : ∀ octet ∈ object.asyncBackendRecvBuf, object.Holds octet.socket := by
        rcases kept.pending unsent with held | ⟨connected, -⟩
        · exact held
        · rw [ready.1] at connected
          cases connected
      exact
        { kept with
          unsent := fun _ => kept.unsent unsent
          pending := fun _ => .inl held
          sending := fun impossible => by cases impossible }
  · exact kept

/-- Where TLS is not set up, the socket is closed, and the object stays as it is. -/
theorem kept_secured (kept : Kept object) (call : Call) :
    Kept (if object.state = .connected then
      if object.secured call then { object with state := .established } else object.backendClose
      else object) := by
  by_cases state : object.state = .connected
  case neg => rwa [if_neg state]
  rw [if_pos state]
  have unsent : object.state.Unsent := by
    rw [state]
    trivial
  split
  · next secured =>
      have held : ∀ octet ∈ object.asyncBackendRecvBuf, object.Holds octet.socket := by
        rcases kept.pending unsent with held | ⟨-, ssl, noSocket⟩
        · exact held
        · rw [HttpTunneling.secured, ssl, noSocket] at secured
          simp at secured
      exact
        { kept with
          unsent := fun _ => kept.unsent unsent
          pending := fun _ => .inl held
          sending := fun impossible => by cases impossible }
  · next notSecured =>
      have ssl : object.ssl = true := by
        rw [HttpTunneling.secured] at notSecured
        cases ssl : object.ssl with
        | false => simp [ssl] at notSecured
        | true => rfl
      obtain ⟨meanwhile, same⟩ := meanwhile_backendClose object
      exact
        { owned_backendClose kept.toOwned with
          unsent := fun _ => by
            rw [meanwhile.effects, meanwhile.request]
            exact kept.unsent unsent
          pending := fun _ =>
            .inr ⟨same.trans state, meanwhile.ssl.trans ssl, backendClose_socket object⟩
          sending := fun relaying => by
            rw [same, state] at relaying
            cases relaying }

theorem kept_establish {server : Server} {request : TunnelingRequest} {call : Call}
    (kept : Kept object)
    (undisturbed : Undisturbed server object (request, some (.processing call))) :
    Kept (object.establish server request call) := by
  have sought : Kept (if object.state = .connecting then
      connecting server call.toOpening (attempts request call.toOpening) object else object) := by
    split
    · next state =>
        cases socket : object.backendSockfd with
        | none => exact kept_connecting_idle _ kept state socket
        | some socket' =>
            refine kept_connecting_keeps _ kept state (by rw [socket]; rfl) ?_
            refine (undisturbed state).resolve_left fun noSocket => ?_
            rw [socket] at noSocket
            cases noSocket
    · exact kept
  exact kept_secured (kept_ready sought call) call

end Establishing

/-! ## The request and its response -/

/-- A request that was sent. -/
structure Sent (object : HttpTunneling) : Prop extends Owned object where
  sending : Sending object

section Relaying

variable {server : Server} {request : TunnelingRequest} {call : Call} {object : HttpTunneling}

theorem Sent.kept (sent : Sent object) {state : TunnelingState} (behind : ¬state.Unsent)
    (client : Option HttpClient) : Kept { object with client := client, state := state } :=
  { sent with
    unsent := fun unsent => (behind unsent).elim
    pending := fun unsent => (behind unsent).elim
    sending := fun _ _ => sent.sending }

theorem Sent.note (sent : Sent object) {effects : List Effect}
    (fits : ∀ effect ∈ effects, object.Fits effect) : Sent (object.note effects) where
  toOwned := sent.toOwned.note fits
  sending := sent.sending.mono rfl (fun _ member => List.mem_append_left _ member) (.inl rfl)
    fun _ member => member

theorem Sent.backendSendBuf (sent : Sent object) {buffer : List ToBackend}
    (own : ∀ octet ∈ buffer, octet.request = object.request) :
    Sent { object with backendSendBuf := buffer } :=
  { sent with sendBuf := own }

theorem sent_closeDescriptor (sent : Sent object) : Sent object.closeDescriptor :=
  { sent with
    opened := fun number member => sent.opened number (List.mem_filter.mp member).1
    sendBuf := fun _ absent => (List.not_mem_nil absent).elim }

theorem sent_backendClose (sent : Sent object) : Sent object.backendClose where
  toOwned := owned_backendClose sent.toOwned
  sending := sent.sending.backendClose

/-- What goes to the backend is what the buffer holds, and the request. -/
theorem sent_backendSend (sent : Sent object) (data : List UInt8) (result : SendResult) :
    Sent (object.backendSend server data result).1 := by
  have own : ∀ octet ∈ object.backendSendBuf ++
      data.map fun octet => (⟨object.request, octet⟩ : ToBackend),
      octet.request = object.request := by
    intro octet member
    rcases List.mem_append.mp member with before | added
    · exact sent.sendBuf octet before
    · obtain ⟨_, -, rfl⟩ := List.mem_map.mp added
      rfl
  have closed := sent_closeDescriptor sent
  unfold backendSend
  cases result with
  | sent count =>
      refine (sent.note fun effect member => ?_).backendSendBuf fun octet member =>
        own octet (List.mem_of_mem_drop member)
      rw [List.mem_singleton.mp member]
      exact fun octet member => own octet (List.mem_of_mem_take member)
  | wouldBlock =>
      dsimp only
      split
      · exact closed
      · exact sent.backendSendBuf own
  | failed =>
      dsimp only
      split
      · exact closed
      · exact sent.backendSendBuf fun _ absent => (List.not_mem_nil absent).elim

/-- With the socket that it is sent on, a request gets its place among the effects. -/
theorem Kept.requested (kept : Kept object) (state : object.state = .established) :
    Sent (object.note [.requested object.request object.backendSockfd]) := by
  have unsent : object.state.Unsent := by
    rw [state]
    trivial
  have held : ∀ octet ∈ object.asyncBackendRecvBuf, object.Holds octet.socket := by
    rcases kept.pending unsent with held | ⟨connected, -⟩
    · exact held
    · rw [state] at connected
      cases connected
  have older {effect : Effect}
      (member : effect ∈ object.effects ++ [.requested object.request object.backendSockfd]) :
      effect ∈ object.effects ∨ effect = .requested object.request object.backendSockfd :=
    (List.mem_append.mp member).imp_right List.mem_singleton.mp
  have newer {effect : Effect} (member : effect ∈ object.effects) :
      effect ∈ object.effects ++ [.requested object.request object.backendSockfd] :=
    List.mem_append_left _ member
  exact
    { opened := kept.opened
      listed := kept.listed
      sendBuf := kept.sendBuf
      recvBuf := kept.recvBuf
      relayed := by
        intro request data member octet inside
        rcases older member with before | added
        · obtain ⟨own, socket, sent, same⟩ := kept.relayed request data before octet inside
          exact ⟨own, socket, newer sent, same⟩
        · cases added
      once := by
        intro request first second ofFirst ofSecond
        rcases older ofFirst with before | added <;> rcases older ofSecond with before' | added'
        · exact kept.once request first second before before'
        · cases added'
          exact (kept.unsent unsent first before).elim
        · cases added
          exact (kept.unsent unsent second before').elim
        · cases added
          cases added'
          rfl
      toBackend := by
        intro request data member
        rcases older member with before | added
        · exact kept.toBackend request data before
        · cases added
      past := by
        intro request socket member
        rcases older member with before | added
        · exact kept.past request socket before
        · cases added
          exact le_refl object.request
      sending := by
        cases socket : object.backendSockfd with
        | none =>
            refine .inl ⟨socket, List.eq_nil_iff_forall_not_mem.mpr fun octet member => ?_⟩
            have held := held octet member
            rw [Holds, socket] at held
            cases held
        | some held' =>
            refine .inr ⟨held', List.mem_append_right _ (List.mem_singleton.mpr rfl),
              .inl socket, fun octet member => ?_⟩
            have held := held octet member
            rw [Holds, socket] at held
            exact (Option.some.inj held).symm }

theorem kept_sendRequestToBackend (kept : Kept object) (state : object.state = .established) :
    Kept (object.sendRequestToBackend server request call) := by
  have step {object : HttpTunneling} (sent : Sent object) (data : List UInt8)
      (result : SendResult) : ∃ object' ok,
      (if data = [] then (object, true) else object.backendSend server data result) =
        (object', ok) ∧ Sent object' := by
    split
    · exact ⟨object, true, rfl, sent⟩
    · exact ⟨_, _, rfl, sent_backendSend sent data result⟩
  obtain ⟨header, headerSent, sendsHeader, headed⟩ :=
    step (kept.requested state) request.reqHeader call.headerSent
  obtain ⟨body, bodySent, sendsBody, whole⟩ := step headed request.reqData call.dataSent
  unfold sendRequestToBackend
  split
  · next served =>
      exact
        { kept with
          unsent := fun unsent => unsent.elim
          pending := fun unsent => unsent.elim
          sending := fun _ noCache => by
            rw [show object.cacheInstance = none from noCache] at served
            cases served }
  · simp only [sendsHeader, sendsBody]
    split
    · refine whole.kept ?_ body.client
      split <;> exact fun unsent => unsent
    · have behind : ¬TunnelingState.Unsent .complete := fun unsent => unsent
      exact headed.kept behind header.client

/-- A request is sent from the state that `establish` leads to. -/
theorem kept_send (kept : Kept object) :
    Kept (if object.state = .established then object.sendRequestToBackend server request call
      else object) := by
  split
  · next state => exact kept_sendRequestToBackend kept state
  · exact kept

/-- `backend_flush` sends what is in the buffer, or gives it up. -/
theorem backendFlush_sends (owned : Owned object) (result : SendResult) :
    ∃ effects buffer, object.backendFlush result =
        { object.note effects with backendSendBuf := buffer } ∧
      (∀ effect ∈ effects, object.Fits effect) ∧
      ∀ octet ∈ buffer, octet ∈ object.backendSendBuf := by
  have unchanged (buffer : List ToBackend) : { object with backendSendBuf := buffer } =
      { object.note [] with backendSendBuf := buffer } := by
    rw [HttpTunneling.note, List.append_nil]
  have nothing {effect : Effect} (absent : effect ∈ []) : object.Fits effect :=
    (List.not_mem_nil absent).elim
  unfold backendFlush
  split
  · exact ⟨[], object.backendSendBuf, unchanged _, fun _ => nothing, fun _ member => member⟩
  · split
    · exact ⟨[], [], unchanged _, fun _ => nothing, fun _ absent => (List.not_mem_nil absent).elim⟩
    · exact ⟨[], [], unchanged _, fun _ => nothing, fun _ absent => (List.not_mem_nil absent).elim⟩
    · next count _ =>
        refine ⟨_, _, rfl, fun effect member => ?_, fun _ member => List.mem_of_mem_drop member⟩
        rw [List.mem_singleton.mp member]
        exact fun octet member => owned.sendBuf octet (List.mem_of_mem_take member)
    · exact ⟨[], object.backendSendBuf, unchanged _, fun _ => nothing, fun _ member => member⟩

theorem sent_backendFlush (sent : Sent object) (result : SendResult) :
    Sent (object.backendFlush result) := by
  obtain ⟨effects, buffer, flushed, fits, rest⟩ := backendFlush_sends sent.toOwned result
  rw [flushed]
  exact (sent.note fits).backendSendBuf fun octet member => sent.sendBuf octet (rest octet member)

theorem kept_backendFlush (kept : Kept object) (result : SendResult) :
    Kept (object.backendFlush result) := by
  obtain ⟨effects, buffer, flushed, fits, rest⟩ := backendFlush_sends kept.toOwned result
  rw [flushed]
  exact { kept.note fits with
    sendBuf := fun octet member => kept.sendBuf octet (rest octet member) }

theorem kept_backendAsyncRecv (kept : Kept object) (data : List UInt8) :
    Kept (object.backendAsyncRecv data) := by
  unfold backendAsyncRecv
  split
  · exact kept
  · next held socket =>
      have parts {octet : FromBackend}
          (member : octet ∈ object.asyncBackendRecvBuf ++
            (data.take 1024).map fun octet => ⟨held.number, object.request, octet⟩) :
          octet ∈ object.asyncBackendRecvBuf ∨
            octet.socket = held.number ∧ octet.request = object.request := by
        refine (List.mem_append.mp member).imp_right fun added => ?_
        obtain ⟨_, -, rfl⟩ := List.mem_map.mp added
        exact ⟨rfl, rfl⟩
      have holds : object.Holds held.number := by
        rw [Holds, socket]
        rfl
      exact
        { kept with
          recvBuf := by
            intro octet member
            rcases parts member with before | ⟨-, own⟩
            · exact kept.recvBuf octet before
            · exact own
          pending := by
            intro unsent
            rcases kept.pending unsent with before | ⟨-, -, noSocket⟩
            · refine .inl fun octet member => ?_
              rcases parts member with earlier | ⟨same, -⟩
              · exact before octet earlier
              · rw [same]
                exact holds
            · rw [socket] at noSocket
              cases noSocket
          sending := by
            intro relaying noCache
            rcases kept.sending relaying noCache with ⟨noSocket, -⟩ | ⟨sentOn, sent, there, before⟩
            · rw [socket] at noSocket
              cases noSocket
            · have sameSocket : held = sentOn := by
                rcases there with there | gone
                · exact Option.some.inj (socket.symm.trans there)
                · rw [socket] at gone
                  cases gone
              refine .inr ⟨sentOn, sent, there, fun octet member => ?_⟩
              rcases parts member with earlier | ⟨same, -⟩
              · exact before octet earlier
              · rw [same, sameSocket] }

/-- What there is to read is the request's, and has come on its socket. -/
theorem incoming_owned (sent : Sent object) : ∀ octet ∈ object.incoming server call,
    octet.request = object.request ∧
      ∃ socket, .requested object.request (some socket) ∈ object.effects ∧
        octet.socket = socket.number := by
  intro octet member
  unfold incoming at member
  split at member
  · rcases sent.sending with ⟨-, empty⟩ | ⟨socket, sentOn, -, buffer⟩
    · rw [empty] at member
      exact (List.not_mem_nil member).elim
    · exact ⟨sent.recvBuf octet member, socket, sentOn, buffer octet member⟩
  · split at member
    · exact (List.not_mem_nil member).elim
    · next held there =>
        obtain ⟨_, -, rfl⟩ := List.mem_map.mp member
        rcases sent.sending with ⟨noSocket, -⟩ | ⟨socket, sentOn, same | closed, -⟩
        · rw [there] at noSocket
          cases noSocket
        · rw [there] at same
          exact ⟨rfl, socket, sentOn, congrArg BackendSocket.number (Option.some.inj same)⟩
        · rw [there] at closed
          cases closed

/-- The octets of the response are taken from the buffer or from the socket. -/
theorem sent_read (sent : Sent object) (used : Nat) (unread : List UInt8)
    (toClient : List (List UInt8)) :
    let relayed := object.note
      (.relayed object.request ((object.incoming server call).take used) ::
        toClient.map .toClient)
    Sent (
      if server.withAsync then
        { relayed with asyncBackendRecvBuf := (object.incoming server call).drop used }
      else
        let flushed := call.furtherSent.foldl (fun object result => object.backendFlush result)
          { relayed with queue := unread }
        if call.breaks then { flushed.backendClose with backendSendBuf := [] } else flushed) := by
  have relayed : Sent (object.note
      (.relayed object.request ((object.incoming server call).take used) ::
        toClient.map .toClient)) := by
    refine sent.note fun effect member => ?_
    rcases List.mem_cons.mp member with rfl | ofClient
    · exact fun octet inside => incoming_owned sent octet (List.mem_of_mem_take inside)
    · obtain ⟨_, -, rfl⟩ := List.mem_map.mp ofClient
      trivial
  dsimp only
  split
  · next async =>
      have rest (octet : FromBackend) (member : octet ∈ (object.incoming server call).drop used) :
          octet ∈ object.asyncBackendRecvBuf := by
        have inside := List.mem_of_mem_drop member
        rwa [incoming, if_pos async] at inside
      exact
        { relayed with
          recvBuf := fun octet member => sent.recvBuf octet (rest octet member)
          sending := relayed.sending.mono rfl (fun _ member => member) (.inl rfl) rest }
  · have flushed (results : List SendResult) {object : HttpTunneling} (sent : Sent object) :
        Sent (results.foldl (fun object result => object.backendFlush result) object) := by
      induction results generalizing object with
      | nil => exact sent
      | cons result results ih => exact ih (sent_backendFlush sent result)
    have queued := @flushed call.furtherSent
      { object.note (.relayed object.request ((object.incoming server call).take used) ::
          toClient.map .toClient) with queue := unread } { relayed with }
    split
    · exact (sent_backendClose queued).backendSendBuf fun _ absent =>
        (List.not_mem_nil absent).elim
    · exact queued

theorem kept_recvResponse (kept : Kept object) (noCache : object.cacheInstance = none) :
    Kept (object.recvResponseFromBackendRelayToClient server request call) := by
  unfold recvResponseFromBackendRelayToClient
  split
  · next state =>
      have sent : Sent object := ⟨kept.toOwned, kept.sending state noCache⟩
      dsimp only
      rcases (object.client.getD (.new object.httpTunnelingUrl)).readResponse
        (request.setting server)
        (if server.withAsync then (object.incoming server call).map fun _ => 4095 else call.sizes)
        ((object.incoming server call).map FromBackend.octet) with ⟨reader, continues, unread⟩
      have read := @sent_read server call object sent
        ((object.incoming server call).length - unread.length) unread
        (reader.sent.drop (object.client.getD (.new object.httpTunnelingUrl)).sent.length)
      have closed {object : HttpTunneling} (sent : Sent object) :
          Sent (if reader.refused then object.backendClose else object) := by
        split
        · exact sent_backendClose sent
        · exact sent
      refine (closed read).kept ?_ (some reader)
      split <;> exact fun unsent => unsent
  · exact kept

theorem kept_acquireCache (kept : Kept object) (key : List UInt8) (entry : TunnelingCache) :
    Kept (object.acquireCacheRelayToClient server request call key entry) := by
  have moved {object : HttpTunneling} (kept : Kept object) {state : TunnelingState}
      (behind : ¬state.Unsent) (notRelaying : state ≠ .relayingData1) :
      Kept { object with state := state } :=
    { kept with
      unsent := fun unsent => (behind unsent).elim
      pending := fun unsent => (behind unsent).elim
      sending := fun relaying => (notRelaying relaying).elim }
  have sent : Kept (if object.state = .relayingData1 then
      let sending := sendCache (request.setting server) call.date entry.cacheData []
      { object.note (.served key entry :: sending.1.map .toClient) with
        state := if sending.2 then .relayingData2 else .complete }
    else object) := by
    split
    · rcases sendCache (request.setting server) call.date entry.cacheData [] with ⟨sent, ok⟩
      have noted : Kept (object.note (.served key entry :: sent.map .toClient)) := by
        refine kept.note fun effect member => ?_
        rcases List.mem_cons.mp member with rfl | ofClient
        · trivial
        · obtain ⟨_, -, rfl⟩ := List.mem_map.mp ofClient
          trivial
      cases ok
      · exact moved noted (fun unsent => unsent) (fun impossible => by cases impossible)
      · exact moved noted (fun unsent => unsent) (fun impossible => by cases impossible)
    · exact kept
  have flushed {object : HttpTunneling} (kept : Kept object) :
      Kept (if object.state = .relayingData2 ∧ call.flushed = true then
        { object with state := .relayingData3 } else object) := by
    split
    · exact moved kept (fun unsent => unsent) (fun impossible => by cases impossible)
    · exact kept
  have finished {object : HttpTunneling} (kept : Kept object) :
      Kept (if object.state = .relayingData3 ∧ (server.withAsync = true → call.flushed = true) then
        { object with state := .complete } else object) := by
    split
    · exact moved kept (fun unsent => unsent) (fun impossible => by cases impossible)
    · exact kept
  exact finished (flushed sent)

/-- What is relayed comes from the cache or from the backend. -/
theorem kept_relay (kept : Kept object) :
    Kept (if object.state = .relayingData1 ∨ object.state = .relayingData2 ∨
        object.state = .relayingData3 then
      match object.cacheInstance with
      | some (key, entry) => object.acquireCacheRelayToClient server request call key entry
      | none => object.recvResponseFromBackendRelayToClient server request call
    else object) := by
  split
  · split
    · exact kept_acquireCache kept _ _
    · next noCache => exact kept_recvResponse kept noCache
  · exact kept

theorem kept_relaying (kept : Kept object) : Kept (object.relaying server request call) := by
  unfold relaying
  exact kept_relay (kept_send kept)

theorem kept_finish (kept : Kept object) : Kept (object.finish server request call).1 := by
  unfold finish
  split
  · split
    · have noted (effects : List Effect) (fits : ∀ effect ∈ effects, object.Fits effect) :
          Kept { object.note effects with client := none } := { kept.note fits with }
      refine noted _ fun effect member => ?_
      split at member
      · rw [List.mem_singleton.mp member]
        trivial
      · exact (List.not_mem_nil member).elim
    · exact kept
  · exact kept

end Relaying

/-! ## A connection -/

section Running

variable {server : Server} {object : HttpTunneling}

theorem kept_begin (kept : Kept object) (recvBuf : object.asyncBackendRecvBuf = [])
    (sendBuf : object.backendSendBuf = []) : Kept object.begin :=
  { kept with
    past := fun request socket member => (kept.past request socket member).step
    sendBuf := by
      rw [show object.begin.backendSendBuf = [] from sendBuf]
      exact fun _ absent => (List.not_mem_nil absent).elim
    recvBuf := by
      rw [show object.begin.asyncBackendRecvBuf = [] from recvBuf]
      exact fun _ absent => (List.not_mem_nil absent).elim
    unsent := fun _ socket member =>
      absurd (kept.past (object.request + 1) socket member) (Nat.not_succ_le_self _)
    pending := fun _ => by
      rw [show object.begin.asyncBackendRecvBuf = [] from recvBuf]
      exact .inl fun _ absent => (List.not_mem_nil absent).elim
    sending := fun impossible => by cases impossible }

theorem kept_happen (kept : Kept object) (event : TunnelingRequest × Option Wakeup)
    (undisturbed : Undisturbed server object event) : Kept (object.happen server event) := by
  obtain ⟨request, wakeup⟩ := event
  cases wakeup with
  | none => exact kept_begin kept undisturbed.1 undisturbed.2
  | some wakeup =>
      cases wakeup with
      | processing call =>
          have established := kept_establish kept undisturbed
          show Kept (object.processing server request call).1
          unfold processing
          dsimp only
          split
          · exact established
          · exact kept_finish (kept_relaying established)
      | backendAsyncRecv data => exact kept_backendAsyncRecv kept data
      | backendAsyncFlush result => exact kept_backendFlush kept result

end Running

open General
open TunnelingRequest

/-- A response without a body. -/
def noContent : List UInt8 :=
  octets "HTTP/1.1 204 No Content\r\nContent-Length: 0\r\n\r\n"

/-- A call in which the primary backend is connected to. -/
def connectingCall : Call :=
  call (some [.connected]) none none true

/-- Two requests to one backend. -/
def again : List (TunnelingRequest × List Wakeup) :=
  [(get, [.processing connectingCall, .backendAsyncRecv noContent, .processing connectingCall]),
    (get, [.processing connectingCall])]

/-- A request to one backend, whose response an octet follows, and one to another. -/
def replacing : List (TunnelingRequest × List Wakeup) :=
  [(get, [.processing connectingCall, .backendAsyncRecv noContent, .processing connectingCall,
      .backendAsyncRecv [0x78]]),
    ({ get with primary := get.backup1 }, [.processing connectingCall])]

/-- The octet is relayed in the response to the second request, and both sockets stay. -/
theorem replacing_relays :
    .relayed 2 [⟨0, 1, 0x78⟩] ∈
        ((replacing.flatMap history).foldl (happen (server true)) (new false false)).effects ∧
      ((replacing.flatMap history).foldl (happen (server true)) (new false false)).openSockets =
        [1, 0] ∧
      ((replacing.flatMap history).foldl (happen (server true)) (new false false)).backendList =
        [1, 0] := by
  decide +kernel

end HttpTunneling

end Tunneling

end HeapHttpd
