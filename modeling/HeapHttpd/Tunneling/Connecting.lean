import HeapHttpd.Tunneling.HttpTunneling

/-!
# Looking for a backend

A request tries its backends in turn, and each at its addresses.  The first attempt
that a build does not pass over decides where the request goes, whatever comes of it
later.
-/

namespace HeapHttpd

namespace Tunneling

/-- Whether an attempt leads to a connection. -/
def ConnectResult.connects : ConnectResult → Bool
  | .connected | .inProgress .connected => true
  | _ => false

/-- Whether a build goes on to the next address behind an attempt. -/
def ConnectResult.passedOver (server : Server) : ConnectResult → Bool
  | .noSocket | .refused => true
  | .inProgress .silent => !server.withAsync
  | _ => false

/-- The attempts that there are, one behind the other. -/
def candidates (attempts : List (Target × Option (List ConnectResult))) :
    List (Target × ConnectResult) :=
  attempts.flatMap fun attempt =>
    if attempt.1.backendAddr = [] ∨ attempt.1.backendPort = 0 then []
    else (attempt.2.getD []).map fun result => (attempt.1, result)

/-- Whether there are addresses to connect to, where that is attempted. -/
def tried (attempt : Target × Option (List ConnectResult)) : Bool :=
  !decide (attempt.1.backendAddr = [] ∨ attempt.1.backendPort = 0) && attempt.2.isSome

/-- The attempt with which a build ends its search. -/
def decisive (server : Server) (attempts : List (Target × Option (List ConnectResult))) :
    Option (Target × ConnectResult) :=
  (candidates attempts).find? fun candidate => !candidate.2.passedOver server

/-- Whether `select` finds a socket ready, which in the synchronous build is awaited. -/
def ConnectResult.settles (server : Server) (call : Call) : ConnectResult → Bool
  | .inProgress .silent => !server.withAsync
  | .inProgress _ => !server.withAsync || call.reported
  | _ => true

/-- Whether the socket gets ready and TLS is then set up where it is wanted. -/
def ConnectResult.setUp (server : Server) (ssl : Bool) (calls : List Call)
    (result : ConnectResult) : Bool :=
  ((calls.find? fun call => result.settles server call).map fun call =>
    !ssl || call.secured).getD false

namespace HttpTunneling

/-- Calls of `processing` until a connection does not have to be waited for any more. -/
def reach (server : Server) (request : TunnelingRequest) : List Call → HttpTunneling → HttpTunneling
  | [], object => object
  | call :: calls, object =>
      let object := object.establish server request call
      if object.state = .connectingWaiting then reach server request calls object else object

/-- A connection is established to the first backend of which an attempt connects, and
where none does, none is. -/
def ReachesFirst (attempts : List (Target × Option (List ConnectResult)))
    (object : HttpTunneling) : Prop :=
  match (candidates attempts).find? fun candidate => candidate.2.connects with
  | none => object.state ≠ .established
  | some (target, result) =>
      object.state = .established ∧
        ∃ number, object.backendSockfd = some ⟨number, target, result⟩

/-- Whether the attempt that ends the search is one that connects, unless none does. -/
def Decisively (server : Server) (ssl : Bool)
    (attempts : List (Target × Option (List ConnectResult))) (calls : List Call) : Prop :=
  match decisive server attempts with
  | none => True
  | some (_, result) =>
      if result.connects then result.setUp server ssl calls = true
      else (∀ candidate ∈ candidates attempts, candidate.2.connects = false) ∧
        result.setUp server ssl calls = false

/-- A backend whose turn comes is not in the cache, and not connected already: with the
first one that is tried, the socket from before is gone. -/
structure Attempted (server : Server) (opening : Opening)
    (attempts : List (Target × Option (List ConnectResult))) (object : HttpTunneling) :
    Prop where
  notCached : ∀ attempt ∈ attempts, object.looksUp server attempt.1.httpUrl = true →
    opening.memory.findTunneling opening.now attempt.1.httpUrl = none
  notHeld : ∀ before attempt behind, attempts = before ++ attempt :: behind →
    (∀ other ∈ before, tried other = false) → object.address = attempt.1.backendAddr →
      object.port = attempt.1.backendPort → object.backendSockfd = none

/-- Where a build ends its search with an attempt. -/
structure Opened (server : Server) (ssl : Bool) (target : Target) (result : ConnectResult)
    (object : HttpTunneling) : Prop where
  ssl : object.ssl = ssl
  state : object.state = if server.withAsync then .connectingWaiting else .connected
  socket : ∃ number, object.backendSockfd = some ⟨number, target, result⟩

/-- Where a build goes on behind a backend: what says whether another is attempted is
as before. -/
structure PassedOver (object object' : HttpTunneling) : Prop where
  address : object'.address = object.address
  port : object'.port = object.port
  requestNoCache : object'.requestNoCache = object.requestNoCache
  ssl : object'.ssl = object.ssl

theorem PassedOver.trans {object object' object'' : HttpTunneling}
    (first : PassedOver object object') (second : PassedOver object' object'') :
    PassedOver object object'' :=
  ⟨second.address.trans first.address, second.port.trans first.port,
    second.requestNoCache.trans first.requestNoCache, second.ssl.trans first.ssl⟩

/-- The backends behind one that is passed over. -/
theorem Attempted.behind {server : Server} {opening : Opening}
    {attempt : Target × Option (List ConnectResult)}
    {attempts : List (Target × Option (List ConnectResult))} {object object' : HttpTunneling}
    (attempted : Attempted server opening (attempt :: attempts) object)
    (passed : PassedOver object object')
    (socket : object'.backendSockfd = if tried attempt then none else object.backendSockfd) :
    Attempted server opening attempts object' := by
  refine ⟨fun other member => ?_, fun before other behind split skipped address port => ?_⟩
  · rw [looksUp, passed.requestNoCache]
    exact attempted.notCached other (List.mem_cons_of_mem _ member)
  · rw [passed.address] at address
    rw [passed.port] at port
    rw [socket]
    cases tried : tried attempt with
    | true => rfl
    | false =>
        refine attempted.notHeld (attempt :: before) other behind (by rw [split]; rfl) ?_
          address port
        intro skipped' member
        cases member with
        | head => exact tried
        | tail _ member => exact skipped skipped' member

theorem backendClose_socket (object : HttpTunneling) :
    object.backendClose.backendSockfd = none := by
  unfold backendClose
  cases socket : object.backendSockfd with
  | none => exact socket
  | some socket => rfl

theorem passedOver_backendClose (object : HttpTunneling) :
    PassedOver object object.backendClose := by
  unfold backendClose
  cases object.backendSockfd <;> exact ⟨rfl, rfl, rfl, rfl⟩

/-- How the search at a backend ends, and the socket with which it goes on. -/
def Ends (server : Server) (target : Target) (object : HttpTunneling)
    (socket : Option BackendSocket) (decision : Option ConnectResult)
    (ended : HttpTunneling × Bool) : Prop :=
  match decision with
  | none => ended.2 = false ∧ PassedOver object ended.1 ∧ ended.1.backendSockfd = socket
  | some result => ended.2 = true ∧ Opened server object.ssl target result ended.1

theorem Ends.behind {server : Server} {target : Target} {object object' : HttpTunneling}
    {socket : Option BackendSocket} {decision : Option ConnectResult}
    {ended : HttpTunneling × Bool} (passed : PassedOver object object')
    (ends : Ends server target object' socket decision ended) :
    Ends server target object socket decision ended := by
  cases decision with
  | none => exact ⟨ends.1, passed.trans ends.2.1, ends.2.2⟩
  | some result =>
      rw [Ends, passed.ssl] at ends
      exact ends

/-- A socket that is kept. -/
theorem opened_keep (server : Server) (target : Target) {result : ConnectResult}
    (results : List ConnectResult) (object : HttpTunneling)
    (decides : result.passedOver server = false) :
    (object.connectAddresses server target (result :: results)).2 = true ∧
      Opened server object.ssl target result
        (object.connectAddresses server target (result :: results)).1 := by
  have kept (async : server.withAsync = true ∨ result ≠ .inProgress .silent)
      (hasSocket : result ≠ .noSocket) (notRefused : result ≠ .refused) :
      (object.connectAddresses server target (result :: results)).2 = true ∧
        Opened server object.ssl target result
          (object.connectAddresses server target (result :: results)).1 := by
    rw [connectAddresses.eq_4 _ _ _ _ _ hasSocket notRefused]
    by_cases withAsync : server.withAsync = true
    · simp only [withAsync, if_true]
      exact ⟨trivial, rfl, by simp [withAsync], _, rfl⟩
    · have notSilent := async.resolve_left withAsync
      simp only [withAsync, notSilent, if_false, Bool.false_eq_true]
      exact ⟨trivial, rfl, by simp [withAsync], _, rfl⟩
  cases result with
  | noSocket | refused => cases decides
  | connected => exact kept (.inr (by decide)) (by decide) (by decide)
  | inProgress report =>
      cases report with
      | connected | refused => exact kept (.inr (by decide)) (by decide) (by decide)
      | silent =>
          refine kept (.inl ?_) (by decide) (by decide)
          simpa [ConnectResult.passedOver] using decides

/-- The addresses of a backend. -/
theorem ends_connectAddresses (server : Server) (target : Target)
    (results : List ConnectResult) (object : HttpTunneling) :
    Ends server target object none (results.find? fun result => !result.passedOver server)
      (object.connectAddresses server target results) := by
  induction results generalizing object with
  | nil => exact ⟨rfl, passedOver_backendClose object, backendClose_socket object⟩
  | cons result results ih =>
      have closed (result : ConnectResult) :
          PassedOver object (object.openSocket target result).backendClose :=
        ⟨rfl, rfl, rfl, rfl⟩
      cases passes : result.passedOver server with
      | false =>
          rw [List.find?_cons_of_pos (by simp [passes])]
          exact opened_keep server target results object passes
      | true =>
          rw [List.find?_cons_of_neg (by simp [passes])]
          cases result with
          | noSocket =>
              have passed : PassedOver object { object with backendSockfd := none } :=
                ⟨rfl, rfl, rfl, rfl⟩
              exact (ih _).behind passed
          | refused => exact (ih _).behind (closed .refused)
          | connected => cases passes
          | inProgress report =>
              cases report with
              | connected | refused => cases passes
              | silent =>
                  have sync : ¬server.withAsync = true := by
                    simpa [ConnectResult.passedOver] using passes
                  rw [connectAddresses.eq_4 _ _ _ _ _ (by decide) (by decide)]
                  simp only [sync, if_false, if_true, Bool.false_eq_true]
                  exact (ih _).behind (closed _)

/-- The decision of a backend. -/
def decisionOf (server : Server) (attempt : Target × Option (List ConnectResult)) :
    Option ConnectResult :=
  if attempt.1.backendAddr = [] ∨ attempt.1.backendPort = 0 then none
  else (attempt.2.getD []).find? fun result => !result.passedOver server

/-- A backend that is not connected already. -/
theorem ends_connectTarget {server : Server} {target : Target}
    {addresses : Option (List ConnectResult)} {object : HttpTunneling}
    (notHeld : object.address = target.backendAddr → object.port = target.backendPort →
      object.backendSockfd = none) :
    Ends server target object
      (if tried (target, addresses) then none else object.backendSockfd)
      (decisionOf server (target, addresses)) (object.connectTarget server target addresses) := by
  have notHeld : ¬(object.address = target.backendAddr ∧ object.port = target.backendPort ∧
      object.backendSockfd.isSome = true) := by
    rintro ⟨address, port, isSome⟩
    rw [notHeld address port] at isSome
    cases isSome
  have same : PassedOver object object := ⟨rfl, rfl, rfl, rfl⟩
  unfold connectTarget decisionOf tried
  rw [if_neg notHeld]
  by_cases nowhere : target.backendAddr = [] ∨ target.backendPort = 0
  · rw [if_pos nowhere, if_pos nowhere, decide_eq_true nowhere]
    exact ⟨rfl, same, rfl⟩
  · rw [if_neg nowhere, if_neg nowhere, decide_eq_false nowhere]
    cases addresses with
    | none => exact ⟨rfl, same, rfl⟩
    | some results => exact ends_connectAddresses server target results object

/-- A backend that is attempted. -/
theorem ends_connectBackend {server : Server} {opening : Opening} {target : Target}
    {addresses : Option (List ConnectResult)}
    {attempts : List (Target × Option (List ConnectResult))} {object : HttpTunneling}
    (attempted : Attempted server opening ((target, addresses) :: attempts) object) :
    Ends server target object
      (if tried (target, addresses) then none else object.backendSockfd)
      (decisionOf server (target, addresses))
      (object.connectBackend server opening target addresses) := by
  have notHeld := attempted.notHeld [] (target, addresses) attempts rfl (by simp)
  unfold connectBackend
  cases looksUp : object.looksUp server target.httpUrl with
  | false => exact ends_connectTarget notHeld
  | true =>
      have passed : PassedOver object { object with cacheInstance := none } :=
        ⟨rfl, rfl, rfl, rfl⟩
      have notCached := attempted.notCached (target, addresses) List.mem_cons_self looksUp
      simp only [notCached, if_true, Option.map_none, Option.isSome_none, Bool.and_false,
        Bool.false_eq_true, if_false]
      exact (@ends_connectTarget server target addresses
        { object with cacheInstance := none } notHeld).behind passed

/-- How the search at all backends ends. -/
def Decides (server : Server) (ssl : Bool) (decision : Option (Target × ConnectResult))
    (object : HttpTunneling) : Prop :=
  match decision with
  | none => object.state = .complete
  | some (target, result) => Opened server ssl target result object

theorem decisive_cons (server : Server) (attempt : Target × Option (List ConnectResult))
    (attempts : List (Target × Option (List ConnectResult))) :
    decisive server (attempt :: attempts) =
      ((decisionOf server attempt).map fun result => (attempt.1, result)).or
        (decisive server attempts) := by
  unfold decisive candidates decisionOf
  rw [List.flatMap_cons, List.find?_append]
  split
  · rfl
  · rw [List.find?_map]
    rfl

theorem decides_connecting {server : Server} {opening : Opening}
    {attempts : List (Target × Option (List ConnectResult))} {object : HttpTunneling}
    (attempted : Attempted server opening attempts object) :
    Decides server object.ssl (decisive server attempts)
      (connecting server opening attempts object) := by
  induction attempts generalizing object with
  | nil => rfl
  | cons attempt attempts ih =>
      obtain ⟨target, addresses⟩ := attempt
      have ends := ends_connectBackend attempted
      rw [decisive_cons, connecting]
      cases decision : decisionOf server (target, addresses) with
      | none =>
          rw [decision] at ends
          obtain ⟨failed, passed, socket⟩ := ends
          simp only [failed, Bool.false_eq_true, if_false]
          rw [← passed.ssl]
          exact ih (attempted.behind passed socket)
      | some result =>
          rw [decision] at ends
          simp only [ends.1, if_true]
          exact ⟨ends.2.ssl, ends.2.state, ends.2.socket⟩

theorem establish_opened {server : Server} {ssl : Bool} {target : Target} {result : ConnectResult}
    {object : HttpTunneling} (request : TunnelingRequest) (call : Call)
    (opened : Opened server ssl target result object) :
    object.establish server request call =
      if result.settles server call then
        if !ssl || call.secured then { object with state := .established }
        else HttpTunneling.backendClose { object with state := .connected }
      else object := by
  obtain ⟨number, socket⟩ := opened.socket
  have state := opened.state
  have secured : object.secured call = (!ssl || call.secured) := by
    simp [HttpTunneling.secured, opened.ssl, socket]
  cases withAsync : server.withAsync with
  | false =>
      have settles : result.settles server call = true := by
        unfold ConnectResult.settles
        split <;> simp [withAsync]
      have connected : object.state = .connected := by simpa [withAsync] using state
      have same : { object with state := .connected } = object := by
        rw [← connected]
      simp [establish, connected, settles, same, secured]
  | true =>
      have waiting : object.state = .connectingWaiting := by simpa [withAsync] using state
      have ready : object.ready call = result.settles server call := by
        unfold HttpTunneling.ready ConnectResult.settles
        rw [socket, withAsync]
        rfl
      cases settles : result.settles server call with
      | false => simp [establish, waiting, ready, settles]
      | true =>
          have secured' : HttpTunneling.secured call { object with state := .connected } =
              (!ssl || call.secured) :=
            secured
          simp [establish, waiting, ready, settles, secured']

/-- How the wait for a connection ends. -/
def Settled (server : Server) (ssl : Bool) (calls : List Call) (target : Target)
    (result : ConnectResult) (object : HttpTunneling) : Prop :=
  if result.setUp server ssl calls then
    object.state = .established ∧ ∃ number, object.backendSockfd = some ⟨number, target, result⟩
  else object.state ≠ .established

theorem settled_reach {server : Server} {ssl : Bool} {request : TunnelingRequest} {target : Target}
    {result : ConnectResult} {object : HttpTunneling} (calls : List Call)
    (opened : Opened server ssl target result object) :
    Settled server ssl calls target result (reach server request calls object) := by
  induction calls with
  | nil =>
      have state : object.state ≠ .established := by
        rw [opened.state]
        split <;> decide
      simpa [Settled, ConnectResult.setUp, reach] using state
  | cons call calls ih =>
      have found : result.setUp server ssl (call :: calls) =
          if result.settles server call then !ssl || call.secured
          else result.setUp server ssl calls := by
        unfold ConnectResult.setUp
        rw [List.find?_cons]
        cases result.settles server call <;> rfl
      rw [Settled, found, reach, establish_opened request call opened]
      cases settles : result.settles server call with
      | true =>
          cases secured : (!ssl || call.secured) with
          | true =>
              exact ⟨rfl, opened.socket⟩
          | false =>
              have state : (backendClose { object with state := .connected }).state =
                  .connected := by
                unfold backendClose
                cases object.backendSockfd <;> rfl
              simp [state]
      | false =>
          have waiting : object.state = .connectingWaiting := by
            have state := opened.state
            cases withAsync : server.withAsync with
            | true => simpa [withAsync] using state
            | false =>
                exfalso
                unfold ConnectResult.settles at settles
                split at settles <;> simp [withAsync] at settles
          simpa [waiting, Settled] using ih

end HttpTunneling

theorem ConnectResult.connects_of_passedOver {server : Server} {result : ConnectResult}
    (passes : result.passedOver server = true) : result.connects = false := by
  cases result with
  | noSocket | refused => rfl
  | connected => cases passes
  | inProgress report =>
      cases report with
      | connected => cases passes
      | refused | silent => rfl

namespace HttpTunneling

/-- The search is part of the first call. -/
theorem reach_connecting {server : Server} {request : TunnelingRequest} {call : Call}
    {object searched : HttpTunneling} (calls : List Call)
    (starts : object.state = .connecting)
    (search : connecting server call.toOpening (attempts request call.toOpening) object =
      searched)
    (ended : searched.state ≠ .connecting) :
    reach server request (call :: calls) object = reach server request (call :: calls) searched := by
  have same : object.establish server request call = searched.establish server request call := by
    unfold establish
    rw [if_pos starts, if_neg ended, search]
  rw [reach, reach, same]

/-- The attempts before the one that ends the search do not connect. -/
theorem find?_connects {server : Server} {attempts : List (Target × Option (List ConnectResult))}
    {target : Target} {result : ConnectResult}
    (decides : decisive server attempts = some (target, result))
    (connects : result.connects = true) :
    ((candidates attempts).find? fun candidate => candidate.2.connects) =
      some (target, result) := by
  obtain ⟨-, before, behind, split, skipped⟩ := List.find?_eq_some_iff_append.1 decides
  refine List.find?_eq_some_iff_append.2 ⟨connects, before, behind, split, ?_⟩
  intro candidate member
  have passes : candidate.2.passedOver server = true := by
    simpa using skipped candidate member
  simp [ConnectResult.connects_of_passedOver passes]

/-- A search that ends with the first attempt that connects. -/
theorem Settled.reachesFirst {server : Server} {ssl : Bool} {calls : List Call}
    {attempts : List (Target × Option (List ConnectResult))} {target : Target}
    {result : ConnectResult} {object : HttpTunneling}
    (settled : Settled server ssl calls target result object)
    (first : ((candidates attempts).find? fun candidate => candidate.2.connects) =
      some (target, result)) :
    ReachesFirst attempts object ↔ result.setUp server ssl calls = true := by
  unfold Settled at settled
  unfold ReachesFirst
  rw [first]
  cases setUp : result.setUp server ssl calls with
  | true =>
      rw [setUp, if_pos rfl] at settled
      exact ⟨fun _ => rfl, fun _ => settled⟩
  | false =>
      rw [setUp, if_neg (by decide)] at settled
      exact ⟨fun reached => absurd reached.1 settled, fun setUp => by cases setUp⟩

/-- A search that ends with an attempt that does not connect. -/
theorem Settled.reachesFirst_of_fails {server : Server} {ssl : Bool} {calls : List Call}
    {attempts : List (Target × Option (List ConnectResult))} {target : Target}
    {result : ConnectResult} {object : HttpTunneling}
    (settled : Settled server ssl calls target result object) (fails : result.connects = false) :
    ReachesFirst attempts object ↔
      (∀ candidate ∈ candidates attempts, candidate.2.connects = false) ∧
        result.setUp server ssl calls = false := by
  unfold Settled at settled
  unfold ReachesFirst
  cases first : (candidates attempts).find? fun candidate => candidate.2.connects with
  | none =>
      have none_connects : ∀ candidate ∈ candidates attempts,
          candidate.2.connects = false := by
        simpa using List.find?_eq_none.1 first
      cases setUp : result.setUp server ssl calls with
      | true =>
          rw [setUp, if_pos rfl] at settled
          exact ⟨fun notReached => absurd settled.1 notReached,
            fun holds => by cases holds.2⟩
      | false =>
          rw [setUp, if_neg (by decide)] at settled
          exact ⟨fun _ => ⟨none_connects, rfl⟩, fun _ => settled⟩
  | some other =>
      have connects : other.2.connects = true := by
        simpa using List.find?_some first
      constructor
      · rintro ⟨established, number', socket'⟩
        cases setUp : result.setUp server ssl calls with
        | true =>
            rw [setUp, if_pos rfl] at settled
            obtain ⟨-, number, socket⟩ := settled
            rw [socket] at socket'
            cases socket'
            rw [fails] at connects
            cases connects
        | false =>
            rw [setUp, if_neg (by decide)] at settled
            exact absurd established settled
      · intro holds
        rw [holds.1 other (List.mem_of_find?_eq_some first)] at connects
        cases connects

/-- For any outcomes of the attempts, a request reaches the first backend that connects
exactly if it is the one with which the search ends. -/
theorem reachesFirst_iff {server : Server} {request : TunnelingRequest} {call : Call}
    (calls : List Call) {object : HttpTunneling} (starts : object.state = .connecting)
    (attempted : Attempted server call.toOpening (attempts request call.toOpening) object) :
    ReachesFirst (attempts request call.toOpening)
        (reach server request (call :: calls) object) ↔
      Decisively server object.ssl (attempts request call.toOpening) (call :: calls) := by
  have decides := decides_connecting attempted
  unfold Decisively
  cases decision : decisive server (attempts request call.toOpening) with
  | none =>
      rw [decision] at decides
      have complete : (connecting server call.toOpening (attempts request call.toOpening)
          object).state = .complete := decides
      have none_connects : ((candidates (attempts request call.toOpening)).find? fun candidate =>
          candidate.2.connects) = none := by
        refine List.find?_eq_none.2 fun candidate member => ?_
        have passes : candidate.2.passedOver server = true := by
          simpa using List.find?_eq_none.1 decision candidate member
        simp [ConnectResult.connects_of_passedOver passes]
      rw [reach_connecting calls starts rfl (by rw [complete]; decide)]
      simp [ReachesFirst, none_connects, reach, establish, complete]
  | some decided =>
      obtain ⟨target, result⟩ := decided
      rw [decision] at decides
      have opened : Opened server object.ssl target result
          (connecting server call.toOpening (attempts request call.toOpening) object) := decides
      have ended : (connecting server call.toOpening (attempts request call.toOpening)
          object).state ≠ .connecting := by
        rw [opened.state]
        split <;> decide
      rw [reach_connecting calls starts rfl ended]
      have settled := @settled_reach server object.ssl request _ _ _ (call :: calls) opened
      cases connects : result.connects with
      | true => simpa [connects] using settled.reachesFirst (find?_connects decision connects)
      | false => simpa [connects] using settled.reachesFirst_of_fails connects

end HttpTunneling

open General

namespace TunnelingRequest

/-- A request with two backup backends. -/
def get : TunnelingRequest where
  method := .get
  reqHeader := octets "GET / HTTP/1.1\r\n\r\n"
  reqData := []
  primary := ⟨octets "a", 80, octets "http://a/"⟩
  backup1 := ⟨octets "b", 80, octets "http://b/"⟩
  backup2 := ⟨octets "c", 80, octets "http://c/"⟩
  expiresIn := fun _ => 0
  beyond := fun _ => []
  sendFails := fun _ => false
  chunk := fun _ => ⟨[], [], false⟩

/-- A server without a cache. -/
def server (withAsync : Bool) : Server :=
  ⟨false, 0, 0, octets "localhost", withAsync⟩

/-- A call in which a backend is looked for. -/
def call (primary backup1 backup2 : Option (List ConnectResult)) (reported : Bool) : Call where
  now := 0
  memory := ⟨[], 0⟩
  primary := primary
  backup1 := backup1
  backup2 := backup2
  date := []
  reported := reported
  secured := true
  headerSent := .sent 18
  dataSent := .sent 0
  arriving := []
  sizes := []
  furtherSent := []
  breaks := false
  flushed := true

end TunnelingRequest

namespace HttpTunneling

open TunnelingRequest

theorem reachesFirst_backup :
    let searching := call none (some [.refused, .inProgress .connected]) (some [.connected]) false
    let waiting := call none none none true
    ReachesFirst (attempts get searching.toOpening)
      (reach (server true) get [searching, waiting] (new false false)) := by
  refine (reachesFirst_iff [call none none none true] rfl ⟨?_, ?_⟩).2 rfl
  · intro attempt _ looksUp
    cases looksUp
  · intro before attempt behind _ _ _ _
    rfl

/-- A search in which the primary backend refuses the connection after it is in
progress, and a backup would connect. -/
def refusing : Call :=
  call (some [.inProgress .refused]) (some [.connected]) none true

/-- Both builds take it for connected and never try the backup. -/
theorem reach_refusing (withAsync : Bool) :
    (reach (server withAsync) get [refusing] (new false false)).state = .established ∧
      (reach (server withAsync) get [refusing] (new false false)).backendSockfd =
        some ⟨0, get.primary, .inProgress .refused⟩ := by
  cases withAsync <;> decide

theorem not_reachesFirst :
    ¬ReachesFirst (attempts get refusing.toOpening)
        (reach (server false) get [refusing] (new false false)) ∧
      ¬ReachesFirst (attempts get refusing.toOpening)
        (reach (server true) get [refusing] (new false false)) := by
  have fails (withAsync : Bool) : ¬ReachesFirst (attempts get refusing.toOpening)
      (reach (server withAsync) get [refusing] (new false false)) := by
    rintro ⟨-, number, reached⟩
    rw [(reach_refusing withAsync).2] at reached
    injection reached with reached
    injection reached with _ _ results
    cases results
  exact ⟨fails false, fails true⟩

end HttpTunneling

end Tunneling

end HeapHttpd
