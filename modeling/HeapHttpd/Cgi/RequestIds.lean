import HeapHttpd.Library.Replay
import Mathlib.Data.UInt

/-!
# Request ids

A `fastcgi` object over any number of requests: `Connect` with the `cgi_base::Connect` that it
calls, and the id that `BeginRequest` puts into its header.
-/

namespace HeapHttpd

namespace Cgi

open Replay (Throughout)

/-- What `m_sockfd` is: -1, a socket that is no connection, or a connection that was made and
has not been closed since. -/
inductive Sockfd
  | none
  | unconnected
  | connected
  deriving DecidableEq, Repr

/-- What the calls of a `Connect` come back with: whether the peer has not closed the
connection, then whether there are sockets, whether the name is resolved, whether a socket for
an address is made, whether it is bound, whether `select` returns 1, and whether there is an
error of the socket. -/
structure Surroundings where
  alive : Bool
  socket : Bool
  resolves : Bool
  addressSocket : Bool
  bound : Bool
  selected : Bool
  soError : Bool
  deriving DecidableEq, Repr

/-- `cgi_base::Connect`, for `INET_SOCK` or `UNIX_SOCK`.  `getaddrinfo` without a result
makes it return `FALSE`. -/
def cgiBaseConnect (inet : Bool) (around : Surroundings) : Int × Sockfd :=
  if !around.socket then (-1, .none)
  else if inet && !around.resolves then (0, .unconnected)
  else if inet && !around.addressSocket then (-1, .none)
  else if !inet && !around.bound then (-1, .unconnected)
  else if !around.selected then (-1, .none)
  else if around.soError then (-1, .none)
  else (0, .connected)

/-- `fastcgi`, with the kind of its socket. -/
structure FastcgiObject where
  inet : Bool
  requestId : UInt16
  isConnected : Bool
  sockfd : Sockfd
  deriving DecidableEq, Repr

/-- The constructors.  The one for a Unix socket leaves the id and the flag as they are in
memory. -/
inductive FastcgiConstructor
  | ipaddr
  | sockFile (requestId : UInt16) (isConnected : Bool)
  deriving DecidableEq, Repr

def FastcgiConstructor.new : FastcgiConstructor → FastcgiObject
  | .ipaddr => { inet := true, requestId := 0, isConnected := false, sockfd := .none }
  | .sockFile requestId isConnected => { inet := false, requestId, isConnected, sockfd := .none }

namespace FastcgiObject

/-- Whether `recv` of `Connect` finds a connection that is not closed: without a connection
it fails, and not with `EAGAIN`. -/
def reuses (around : Surroundings) (object : FastcgiObject) : Bool :=
  object.isConnected && object.sockfd = .connected && around.alive

/-- `fastcgi::Connect`. -/
def connect (around : Surroundings) (object : FastcgiObject) : Int × FastcgiObject :=
  let object := { object with requestId := object.requestId + 1 }
  if object.reuses around then (0, object)
  else
    let made := cgiBaseConnect object.inet around
    (made.1, { object with isConnected := made.1 = 0, sockfd := made.2 })

/-- The id in the header of `BeginRequest`, from its two octets. -/
def beginRequest (object : FastcgiObject) : Nat :=
  let requestIdB0 := (object.requestId &&& 0x00ff).toNat
  let requestIdB1 := ((object.requestId &&& 0xff00) >>> 8).toNat
  requestIdB1 * 256 + requestIdB0

theorem beginRequest_eq (object : FastcgiObject) : object.beginRequest = object.requestId.toNat := by
  have bound := object.requestId.toNat_lt
  have low : object.requestId.toNat &&& 255 = object.requestId.toNat % 256 :=
    Nat.and_two_pow_sub_one_eq_mod _ 8
  have high : (object.requestId.toNat &&& 65280) >>> 8 = object.requestId.toNat / 256 := by
    rw [Nat.shiftRight_and_distrib, Nat.shiftRight_eq_div_pow]
    have whole : object.requestId.toNat / 2 ^ 8 < 2 ^ 8 := by omega
    rw [show (65280 : Nat) >>> 8 = 2 ^ 8 - 1 by decide, Nat.and_two_pow_sub_one_eq_mod,
      Nat.mod_eq_of_lt whole]
    rfl
  simp only [beginRequest, UInt16.toNat_and, UInt16.toNat_shiftRight]
  show (object.requestId.toNat &&& 65280) >>> 8 * 256 + (object.requestId.toNat &&& 255) = _
  rw [low, high]
  omega

/-- Whether `cgi_base::Connect` makes a connection. -/
def Opens (inet : Bool) (around : Surroundings) : Prop :=
  around.socket = true ∧ (inet = true → around.resolves = true ∧ around.addressSocket = true) ∧
    (inet = false → around.bound = true) ∧ around.selected = true ∧ around.soError = false

/-- Whether `getaddrinfo` is called and fails. -/
def Unresolved (inet : Bool) (around : Surroundings) : Prop :=
  around.socket = true ∧ inet = true ∧ around.resolves = false

theorem cgiBaseConnect_cases (inet : Bool) (around : Surroundings) :
    Opens inet around ∧ ¬Unresolved inet around ∧ cgiBaseConnect inet around = (0, .connected) ∨
      ¬Opens inet around ∧ Unresolved inet around ∧
        cgiBaseConnect inet around = (0, .unconnected) ∨
      ¬Opens inet around ∧ ¬Unresolved inet around ∧ (cgiBaseConnect inet around).1 = -1 := by
  obtain ⟨alive, socket, resolves, addressSocket, bound, selected, soError⟩ := around
  revert alive socket resolves addressSocket bound selected soError inet
  unfold Opens Unresolved
  decide

end FastcgiObject

/-- The requests of an object, with the id of the last one that was begun on its
connection. -/
structure Requests where
  object : FastcgiObject
  previous : Option Nat
  deriving DecidableEq, Repr

namespace Requests

def new (constructor : FastcgiConstructor) : Requests :=
  { object := constructor.new, previous := none }

/-- `Connect`, and `BeginRequest` if that returns 0. -/
def request (requests : Requests) (around : Surroundings) : Requests :=
  let connected := requests.object.connect around
  { object := connected.2
    previous := if connected.1 = 0 then some connected.2.beginRequest else none }

/-- What is asked of a request that is begun: its id is not that of management records, nor that
of the last request on the connection if it is the same, and there is a connection. -/
structure Proper (requests : Requests) (around : Surroundings) : Prop where
  notManagement : (requests.object.connect around).1 = 0 →
    (requests.object.connect around).2.beginRequest ≠ 0
  differs : (requests.object.connect around).1 = 0 → requests.object.reuses around = true →
    requests.previous ≠ some (requests.object.connect around).2.beginRequest
  connected : (requests.object.connect around).1 = 0 →
    (requests.object.connect around).2.sockfd = .connected

/-- The last id is not 0xffff, or the request fails, and the name is resolved if the
connection is not the one from before. -/
structure WellMet (requests : Requests) (around : Surroundings) : Prop where
  lowId : requests.object.requestId = 0xffff →
    requests.object.reuses around = false ∧ ¬FastcgiObject.Opens requests.object.inet around
  resolved : requests.object.reuses around = false →
    ¬FastcgiObject.Unresolved requests.object.inet around

/-- The last id on the connection is the one that is counted up. -/
def Counted (requests : Requests) : Prop :=
  ∀ id, requests.previous = some id → id = requests.object.requestId.toNat

variable {requests : Requests} {around : Surroundings}

theorem counted_request : (requests.request around).Counted := by
  intro id isLast
  simp only [request] at isLast ⊢
  split at isLast
  · rw [FastcgiObject.beginRequest_eq] at isLast
    exact (Option.some.inj isLast).symm
  · cases isLast

theorem requestId_connect :
    (requests.object.connect around).2.requestId = requests.object.requestId + 1 := by
  rw [FastcgiObject.connect]
  dsimp only
  split <;> rfl

/-- The id wraps to 0. -/
theorem beginRequest_connect_eq_zero_iff :
    (requests.object.connect around).2.beginRequest = 0 ↔
      requests.object.requestId = 0xffff := by
  rw [FastcgiObject.beginRequest_eq, requestId_connect, UInt16.toNat_add]
  have bound := requests.object.requestId.toNat_lt
  rw [← UInt16.toNat_inj]
  show (requests.object.requestId.toNat + 1) % 2 ^ 16 = 0 ↔ requests.object.requestId.toNat = 65535
  omega

/-- What a call of `Connect` comes to. -/
theorem connect_cases (requests : Requests) (around : Surroundings) :
    requests.object.reuses around = true ∧ (requests.object.connect around).1 = 0 ∧
        (requests.object.connect around).2.sockfd = .connected ∨
      requests.object.reuses around = false ∧ (requests.object.connect around).1 =
        (cgiBaseConnect requests.object.inet around).1 ∧
        (requests.object.connect around).2.sockfd =
          (cgiBaseConnect requests.object.inet around).2 := by
  have same : ({ requests.object with requestId := requests.object.requestId + 1 } :
      FastcgiObject).reuses around = requests.object.reuses around := rfl
  rw [FastcgiObject.connect]
  dsimp only
  rw [same]
  by_cases reuses : requests.object.reuses around = true
  · rw [if_pos reuses]
    refine .inl ⟨reuses, rfl, ?_⟩
    simp only [FastcgiObject.reuses, Bool.and_eq_true, decide_eq_true_eq] at reuses
    exact reuses.1.2
  · rw [if_neg reuses]
    exact .inr ⟨Bool.eq_false_iff.mpr reuses, rfl, rfl⟩

/-- For one request. -/
theorem proper_iff_wellMet (counted : requests.Counted) :
    requests.Proper around ↔ requests.WellMet around := by
  have wraps := @beginRequest_connect_eq_zero_iff requests around
  constructor
  · intro proper
    rcases connect_cases requests around with ⟨reuses, zero, -⟩ | ⟨fresh, result, socket⟩
    · exact ⟨fun last => (proper.notManagement zero (wraps.mpr last)).elim,
        fun fresh => by rw [reuses] at fresh; cases fresh⟩
    · rcases FastcgiObject.cgiBaseConnect_cases requests.object.inet around with
        ⟨opens, resolved, made⟩ | ⟨closed, unresolved, made⟩ | ⟨closed, resolved, made⟩
      · rw [made] at result
        exact ⟨fun last => (proper.notManagement result (wraps.mpr last)).elim,
          fun _ => resolved⟩
      · rw [made] at result socket
        have connected := proper.connected result
        rw [socket] at connected
        cases connected
      · exact ⟨fun _ => ⟨fresh, closed⟩, fun _ => resolved⟩
  · intro wellMet
    have nonzero (zero : (requests.object.connect around).1 = 0) :
        requests.object.requestId ≠ 0xffff := by
      intro last
      obtain ⟨fresh, closed⟩ := wellMet.lowId last
      rcases connect_cases requests around with ⟨reuses, -⟩ | ⟨-, result, -⟩
      · rw [fresh] at reuses
        cases reuses
      · rcases FastcgiObject.cgiBaseConnect_cases requests.object.inet around with
          ⟨opens, -⟩ | ⟨-, unresolved, -⟩ | ⟨-, -, made⟩
        · exact closed opens
        · exact wellMet.resolved fresh unresolved
        · rw [zero, made] at result
          cases result
    refine ⟨fun zero isZero => nonzero zero (wraps.mp isZero), fun zero _ isLast => ?_,
      fun zero => ?_⟩
    · have same := counted _ isLast
      rw [FastcgiObject.beginRequest_eq, requestId_connect] at same
      have differ : requests.object.requestId + 1 ≠ requests.object.requestId := by simp
      exact differ (UInt16.toNat_inj.mp same)
    · rcases connect_cases requests around with ⟨-, -, connected⟩ | ⟨fresh, result, socket⟩
      · exact connected
      · rcases FastcgiObject.cgiBaseConnect_cases requests.object.inet around with
          ⟨-, -, made⟩ | ⟨-, unresolved, -⟩ | ⟨-, -, made⟩
        · rw [socket, made]
        · exact (wellMet.resolved fresh unresolved).elim
        · rw [zero, made] at result
          cases result

theorem requestId_run (requests : Requests) (run : List Surroundings) :
    (run.foldl request requests).object.requestId =
      requests.object.requestId + UInt16.ofNat run.length := by
  induction run generalizing requests with
  | nil => simp
  | cons around run ih =>
      have first : (requests.request around).object.requestId = requests.object.requestId + 1 :=
        requestId_connect
      rw [List.foldl_cons, ih, first, List.length_cons, UInt16.ofNat_add, UInt16.add_assoc,
        UInt16.add_comm 1]
      rfl

/-- Everything goes well, and the peer keeps the connection. -/
def undisturbed : Surroundings :=
  ⟨true, true, true, true, true, true, false⟩

end Requests

end Cgi

end HeapHttpd
