import HeapHttpd.Library.Journal
import HeapHttpd.Tunneling.HttpTunneling
import HeapHttpd.Tunneling.Lifetime

/-!
# Connections that share the cache

Any number of `http_tunneling` objects that use one `memory_cache`, in the asynchronous build, whose
calls do not wait.  However their calls are mixed, what is served from the cache is what was stored
last under its URL, and it is not served for longer than the response may be kept.
-/

namespace HeapHttpd

namespace Tunneling

open General
open Http2 (toInt)

/-- Something that a connection did, with the time and the number of its request. -/
structure Note where
  now : Int
  connection : Nat
  request : Nat
  effect : Effect
  deriving DecidableEq

/-- The time, the cache, the connections that are not closed, and what all of them did. -/
structure Proxy where
  now : Int
  memory : MemoryCache
  connections : List (Option HttpTunneling)
  journal : List Note

/-- What happens. -/
inductive ProxyEvent
  | tick (seconds : Nat)
  | accept (requestNoCache ssl : Bool)
  | begin (connection : Nat)
  | wake (connection : Nat) (request : TunnelingRequest) (wakeup : HttpTunneling.Wakeup)
  | close (connection : Nat) (request : TunnelingRequest) (call : Call)

/-- A request whose response is read at a time. -/
def TunnelingRequest.readAt (undated : List UInt8 → Int) (now : Int)
    (request : TunnelingRequest) : TunnelingRequest :=
  { request with expiresIn := fun value => expiryTime undated value - now }

namespace Proxy

/-- A proxy without connections, whose cache is empty. -/
def start (now : Int) : Proxy where
  now
  memory := ⟨[], 0⟩
  connections := []
  journal := []

/-- What comes of a call, which is written down. -/
def perform (connection : Nat) (object next : HttpTunneling) (memory : MemoryCache)
    (proxy : Proxy) : Proxy :=
  { proxy with
    memory
    connections := proxy.connections.set connection (some next)
    journal := proxy.journal ++
      (next.effects.drop object.effects.length).map
        (Note.mk proxy.now connection object.request) }

/-- One event.  A connection that is closed has its `http_client` destroyed, like one whose request
is complete. -/
def happen (undated : List UInt8 → Int) (server : Server) (proxy : Proxy) : ProxyEvent → Proxy
  | .tick seconds => { proxy with now := proxy.now + seconds }
  | .accept requestNoCache ssl =>
      { proxy with connections := proxy.connections ++ [some (.new requestNoCache ssl)] }
  | .begin connection =>
      match (proxy.connections[connection]?).join with
      | none => proxy
      | some object => proxy.perform connection object object.begin proxy.memory
  | .wake connection request wakeup =>
      match (proxy.connections[connection]?).join with
      | none => proxy
      | some object =>
          match wakeup with
          | .processing call =>
              let (next, memory) := object.processing server (request.readAt undated proxy.now)
                { call with now := proxy.now, memory := proxy.memory }
              proxy.perform connection object next memory
          | wakeup =>
              proxy.perform connection object (object.wake server request wakeup) proxy.memory
  | .close connection request call =>
      match (proxy.connections[connection]?).join with
      | none => proxy
      | some object =>
          let (next, memory) := HttpTunneling.finish server request
            { call with now := proxy.now, memory := proxy.memory }
            { object with state := .complete }
          let proxy := proxy.perform connection object next memory
          { proxy with connections := proxy.connections.set connection none }

/-- A run. -/
def run (undated : List UInt8 → Int) (server : Server) (proxy : Proxy)
    (events : List ProxyEvent) : Proxy :=
  events.foldl (happen undated server) proxy

end Proxy

/-! ## What may be served -/

/-- A note that a connection has read octets of a response. -/
def Note.Reads (connection : Nat) (note : Note) : Prop :=
  note.connection = connection ∧ ∃ request data, note.effect = .relayed request data

/-- A note that something was stored under a URL. -/
def Note.StoresUnder (key : List UInt8) (note : Note) : Prop :=
  ∃ entry, note.effect = .stored key entry

/-- How long an entry is kept from the time of a note on: no longer than five minutes and than its
`max-age` says, and no longer than there was until the time of its `Expires` when the header was
read. -/
structure Lifetime (undated : List UInt8 → Int) (front : List Note) (note : Note)
    (entry : TunnelingCache) (age : Int) : Prop where
  maxTime : entry.cacheMaxTime = note.now + age
  positive : 0 < age
  fiveMinutes : age ≤ 300
  maxAge : ∀ seconds ∈ maxAgeOf entry.cacheData.cache, age ≤ seconds
  expires : entry.cacheData.expires ≠ [] → ∃ read ∈ front, read.Reads note.connection ∧
    age ≤ toInt (expiryTime undated entry.cacheData.expires - read.now)

/-- An entry was stored last under a URL, and is kept for a time. -/
def Newest (undated : List UInt8 → Int) (key : List UInt8) (entry : TunnelingCache) :
    List Note → Prop :=
  Journal.Latest (Note.StoresUnder key) fun front note =>
    note.effect = .stored key entry ∧ ∃ age, Lifetime undated front note entry age

/-- A note that for a request a backend was looked for with a URL, under which an entry was the
newest one and could still be served. -/
structure Found (undated : List UInt8 → Int) (connection request : Nat) (key : List UInt8)
    (entry : TunnelingCache) (front : List Note) (note : Note) : Prop where
  connection : note.connection = connection
  request : note.request = request
  selected : ∃ target, note.effect = .selected target ∧ target.httpUrl = key
  inTime : note.now ≤ entry.cacheMaxTime
  newest : Newest undated key entry front

/-- What is served from the cache was found in it for the same request. -/
def ServesFound (undated : List UInt8 → Int) : List Note → Prop :=
  Journal.Always fun front note => ∀ key entry, note.effect = .served key entry →
    Journal.Once (Found undated note.connection note.request key entry) front

/-! ## What calls do to one connection -/

namespace HttpTunneling

/-- An effect that has to do with the cache. -/
def AboutCache : Effect → Prop
  | .served _ _ => True
  | .stored _ _ => True
  | _ => False

/-- Whether a request is on its way. -/
def Active (object : HttpTunneling) : Prop :=
  object.state ≠ .connecting ∧ object.state ≠ .complete

/-- What is the same behind code that only has to do with sockets, which may note its effects. -/
structure Transport (object next : HttpTunneling) : Prop where
  request : next.request = object.request
  requestNoCache : next.requestNoCache = object.requestNoCache
  cacheInstance : next.cacheInstance = object.cacheInstance
  client : next.client = object.client
  effects : ∃ new, next.effects = object.effects ++ new ∧ ∀ effect ∈ new, ¬AboutCache effect

variable {object next last : HttpTunneling} {server : Server} {target : Target}

/-- Code that notes nothing. -/
theorem Transport.silent (request : next.request = object.request)
    (requestNoCache : next.requestNoCache = object.requestNoCache)
    (cacheInstance : next.cacheInstance = object.cacheInstance)
    (client : next.client = object.client) (effects : next.effects = object.effects) :
    Transport object next :=
  ⟨request, requestNoCache, cacheInstance, client, [],
    by rw [effects, List.append_nil], nofun⟩

theorem Transport.refl (object : HttpTunneling) : Transport object object :=
  .silent rfl rfl rfl rfl rfl

theorem Transport.trans (first : Transport object next) (second : Transport next last) :
    Transport object last := by
  obtain ⟨new, effects, quiet⟩ := first.effects
  obtain ⟨more, effects', quiet'⟩ := second.effects
  refine ⟨second.request.trans first.request, second.requestNoCache.trans first.requestNoCache,
    second.cacheInstance.trans first.cacheInstance, second.client.trans first.client, new ++ more,
    by rw [effects', effects, List.append_assoc], List.forall_mem_append.mpr ⟨quiet, quiet'⟩⟩

theorem transport_note {effects : List Effect} (quiet : ∀ effect ∈ effects, ¬AboutCache effect)
    (object : HttpTunneling) : Transport object (object.note effects) :=
  ⟨rfl, rfl, rfl, rfl, effects, rfl, quiet⟩

/-- What the client gets has nothing to do with the cache. -/
theorem quiet_toClient (sent : List (List UInt8)) :
    ∀ effect ∈ sent.map Effect.toClient, ¬AboutCache effect :=
  List.forall_mem_map.mpr fun _ _ => id

theorem transport_backendClose (object : HttpTunneling) :
    Transport object object.backendClose := by
  rw [backendClose]
  split
  · exact .refl object
  · exact .silent rfl rfl rfl rfl rfl

/-- An address is tried without a word; one that is taken makes the connection wait or work. -/
theorem transport_connectAddresses (results : List ConnectResult) (object : HttpTunneling) :
    Transport object (object.connectAddresses server target results).1 ∧
      ((object.connectAddresses server target results).2 = true →
        (object.connectAddresses server target results).1.state ≠ .connecting) := by
  induction results generalizing object with
  | nil => exact ⟨transport_backendClose object, nofun⟩
  | cons result results ih =>
      have passed (result : ConnectResult) :
          Transport object (connectAddresses server target results
              (object.openSocket target result).backendClose).1 ∧
            ((connectAddresses server target results
              (object.openSocket target result).backendClose).2 = true →
            (connectAddresses server target results
              (object.openSocket target result).backendClose).1.state ≠ .connecting) := by
        have opened : Transport object (object.openSocket target result) :=
          .silent rfl rfl rfl rfl rfl
        exact ⟨(opened.trans (transport_backendClose _)).trans (ih _).1, (ih _).2⟩
      have kept (hasSocket : result ≠ .noSocket) (notRefused : result ≠ .refused) :
          Transport object (object.connectAddresses server target (result :: results)).1 ∧
            ((object.connectAddresses server target (result :: results)).2 = true →
              (object.connectAddresses server target (result :: results)).1.state ≠
                .connecting) := by
        rw [connectAddresses.eq_4 _ _ _ _ _ hasSocket notRefused]
        dsimp only
        split
        · exact ⟨.silent rfl rfl rfl rfl rfl, fun _ => nofun⟩
        · split
          · exact passed result
          · exact ⟨.silent rfl rfl rfl rfl rfl, fun _ => nofun⟩
      cases result with
      | noSocket =>
          rw [connectAddresses]
          have closed : Transport object { object with backendSockfd := none } :=
            .silent rfl rfl rfl rfl rfl
          exact ⟨closed.trans (ih _).1, (ih _).2⟩
      | refused =>
          rw [connectAddresses]
          exact passed .refused
      | connected => exact kept (by decide) (by decide)
      | inProgress report =>
          exact kept (fun impossible => by cases impossible) fun impossible => by cases impossible

theorem transport_connectTarget (addresses : Option (List ConnectResult))
    (object : HttpTunneling) :
    Transport object (object.connectTarget server target addresses).1 ∧
      ((object.connectTarget server target addresses).2 = true →
        (object.connectTarget server target addresses).1.state ≠ .connecting) := by
  unfold connectTarget
  split
  · exact ⟨.silent rfl rfl rfl rfl rfl, fun _ => nofun⟩
  · split
    · exact ⟨.refl object, nofun⟩
    · split
      · exact ⟨.refl object, nofun⟩
      · exact transport_connectAddresses _ object

/-- Behind a lookup nothing is left of an earlier one. -/
theorem connectBackend_spec (opening : Opening) (addresses : Option (List ConnectResult))
    (object : HttpTunneling)
    (fresh : object.cacheInstance = none ∨ object.looksUp server target.httpUrl = true) :
    let out := object.connectBackend server opening target addresses
    Transport { object with cacheInstance := out.1.cacheInstance } out.1 ∧
      (out.2 = true → out.1.state ≠ .connecting) ∧
      (out.2 = false → out.1.cacheInstance = none) ∧
      ∀ key entry, out.1.cacheInstance = some (key, entry) →
        target.httpUrl = key ∧ opening.memory.findTunneling opening.now key = some entry ∧
          object.looksUp server target.httpUrl = true := by
  intro out
  -- Where nothing is found, a backend is connected to.
  have behind (cleared : HttpTunneling) (none' : cleared.cacheInstance = none)
      (isOut : out = cleared.connectTarget server target addresses)
      (same : Transport { object with cacheInstance := none } cleared) :
      Transport { object with cacheInstance := out.1.cacheInstance } out.1 ∧
        (out.2 = true → out.1.state ≠ .connecting) ∧
        (out.2 = false → out.1.cacheInstance = none) ∧
        ∀ key entry, out.1.cacheInstance = some (key, entry) →
          target.httpUrl = key ∧ opening.memory.findTunneling opening.now key = some entry ∧
            object.looksUp server target.httpUrl = true := by
    obtain ⟨transport, state⟩ := @transport_connectTarget server target addresses cleared
    rw [← isOut] at transport state
    have isNone : out.1.cacheInstance = none := transport.cacheInstance.trans none'
    rw [isNone]
    exact ⟨same.trans transport, state, fun _ => rfl, nofun⟩
  have isOut : out = object.connectBackend server opening target addresses := rfl
  rw [connectBackend] at isOut
  cases looks : object.looksUp server target.httpUrl with
  | false =>
      rw [looks] at isOut fresh
      have none' : object.cacheInstance = none := fresh.resolve_right Bool.false_ne_true
      refine looks ▸ behind object none' isOut ?_
      rw [← none']
      exact .refl object
  | true =>
      rw [looks] at isOut
      cases found : opening.memory.findTunneling opening.now target.httpUrl with
      | none =>
          rw [found] at isOut
          exact looks ▸ behind { object with cacheInstance := none } rfl isOut (.refl _)
      | some entry =>
          rw [found] at isOut
          have isFound : out = ({ object with
              cacheInstance := some (target.httpUrl, entry)
              state := .connected }, true) := isOut
          rw [isFound]
          refine ⟨.silent rfl rfl rfl rfl rfl, fun _ => nofun, nofun, ?_⟩
          rintro key entry' ⟨⟩
          exact ⟨rfl, found, rfl⟩

/-- What the search for a backend comes to. -/
structure Searched (opening : Opening) (server : Server) (object next : HttpTunneling)
    (new : List Effect) : Prop where
  request : next.request = object.request
  requestNoCache : next.requestNoCache = object.requestNoCache
  client : next.client = object.client
  effects : next.effects = object.effects ++ new
  quiet : ∀ effect ∈ new, ¬AboutCache effect
  state : next.state ≠ .connecting
  found : ∀ key entry, next.cacheInstance = some (key, entry) → next.state ≠ .complete →
    (∃ target, .selected target ∈ new ∧ target.httpUrl = key) ∧
      opening.memory.findTunneling opening.now key = some entry
  caching : next.cacheInstance ≠ none → object.cacheInstance ≠ none ∨
    server.enableHttpTunnelingCache = true ∧ object.requestNoCache = false

/-- Whether a URL is looked up depends on the configuration and the connection. -/
theorem caching_of_looksUp {httpUrl : List UInt8}
    (looks : object.looksUp server httpUrl = true) :
    server.enableHttpTunnelingCache = true ∧ object.requestNoCache = false := by
  rw [looksUp, Bool.and_eq_true, Bool.and_eq_true, Bool.not_eq_true'] at looks
  exact looks.1

theorem exists_searched (opening : Opening)
    (remaining : List (Target × Option (List ConnectResult))) (object : HttpTunneling)
    (fresh : object.cacheInstance = none ∨
      ∀ attempt ∈ remaining.head?, object.looksUp server attempt.1.httpUrl = true) :
    ∃ new, Searched opening server object (connecting server opening remaining object) new := by
  induction remaining generalizing object with
  | nil =>
      refine ⟨[], rfl, rfl, rfl, (List.append_nil _).symm, nofun, nofun, ?_, .inl⟩
      intro key entry _ working
      exact absurd rfl working
  | cons attempt remaining ih =>
      obtain ⟨target, addresses⟩ := attempt
      have first : object.cacheInstance = none ∨
          object.looksUp server target.httpUrl = true :=
        fresh.imp_right fun all => all (target, addresses) rfl
      obtain ⟨transport, state, cleared, found⟩ :=
        @connectBackend_spec server target opening addresses object first
      obtain ⟨new, effects, quiet⟩ := transport.effects
      rw [connecting]
      dsimp only
      split
      case isTrue connected =>
        refine ⟨new ++ [.selected target], transport.request, transport.requestNoCache,
          transport.client, ?_, ?_, state connected, ?_, ?_⟩
        · rw [note, effects, List.append_assoc]
        · exact List.forall_mem_append.mpr ⟨quiet, List.forall_mem_singleton.mpr id⟩
        · intro key entry isSome _
          obtain ⟨isKey, isEntry, -⟩ := found key entry isSome
          exact ⟨⟨target, List.mem_append_right _ (List.mem_singleton_self _), isKey⟩, isEntry⟩
        · intro isSome
          obtain ⟨⟨key, entry⟩, isSome⟩ := Option.ne_none_iff_exists'.mp isSome
          exact .inr (caching_of_looksUp (found key entry isSome).2.2)
      case isFalse failed =>
        have none' := cleared (Bool.not_eq_true _ ▸ failed)
        obtain ⟨more, searched⟩ := ih
          (object.connectBackend server opening target addresses).1 (.inl none')
        refine ⟨new ++ more, searched.request.trans transport.request,
          searched.requestNoCache.trans transport.requestNoCache,
          searched.client.trans transport.client, ?_, ?_, searched.state, ?_, ?_⟩
        · rw [searched.effects, effects, List.append_assoc]
        · exact List.forall_mem_append.mpr ⟨quiet, searched.quiet⟩
        · intro key entry isSome working
          obtain ⟨⟨target', member, isKey⟩, isEntry⟩ := searched.found key entry isSome working
          exact ⟨⟨target', List.mem_append_right _ member, isKey⟩, isEntry⟩
        · intro isSome
          rcases searched.caching isSome with old | caching
          · exact absurd none' old
          · rw [transport.requestNoCache] at caching
            exact .inr caching

/-- Code behind the search: it has to do with sockets, and neither begins a request anew nor takes
up one that is complete. -/
structure Onward (object next : HttpTunneling) : Prop extends Transport object next where
  begun : object.state ≠ .connecting → next.state ≠ .connecting
  working : next.state ≠ .complete → object.state ≠ .complete

theorem Onward.refl (object : HttpTunneling) : Onward object object :=
  ⟨.refl object, id, id⟩

theorem Onward.trans (first : Onward object next) (second : Onward next last) :
    Onward object last :=
  ⟨first.toTransport.trans second.toTransport, fun begun => second.begun (first.begun begun),
    fun working => first.working (second.working working)⟩

theorem onward_backendClose (object : HttpTunneling) : Onward object object.backendClose := by
  have same : object.backendClose.state = object.state := by
    rw [backendClose]
    split <;> rfl
  exact ⟨transport_backendClose object, by rw [same]; exact id, by rw [same]; exact id⟩

/-- What has been found is found, or was there before. -/
theorem exists_established (server : Server) (request : TunnelingRequest) (call : Call)
    (object : HttpTunneling)
    (fresh : object.cacheInstance = none ∨
      object.looksUp server request.primary.httpUrl = true) :
    let next := object.establish server request call
    ∃ new, next.request = object.request ∧ next.requestNoCache = object.requestNoCache ∧
      next.client = object.client ∧ next.effects = object.effects ++ new ∧
      (∀ effect ∈ new, ¬AboutCache effect) ∧ next.state ≠ .connecting ∧
      (∀ key entry, next.cacheInstance = some (key, entry) → next.state ≠ .complete →
        (object.Active ∧ object.cacheInstance = some (key, entry)) ∨
          (∃ target, .selected target ∈ new ∧ target.httpUrl = key) ∧
            call.memory.findTunneling call.now key = some entry) ∧
      (next.cacheInstance ≠ none → object.cacheInstance ≠ none ∨
        server.enableHttpTunnelingCache = true ∧ object.requestNoCache = false) := by
  intro next
  obtain ⟨searched, isSearched⟩ : ∃ searched, (if object.state = .connecting then
      connecting server call.toOpening (attempts request call.toOpening) object
    else object) = searched := ⟨_, rfl⟩
  -- The states behind the search do not touch what it has found.
  have behind : Onward searched next := by
    have isNext : next = object.establish server request call := rfl
    rw [establish, isSearched] at isNext
    rw [isNext]
    have waited : Onward searched
        (if searched.state = .connectingWaiting ∧ searched.ready call = true then
          { searched with state := .connected } else searched) := by
      split
      case isTrue waiting =>
        refine ⟨.silent rfl rfl rfl rfl rfl, fun _ => nofun, fun _ => ?_⟩
        rw [waiting.1]
        nofun
      case isFalse => exact .refl searched
    refine waited.trans ?_
    generalize (if searched.state = .connectingWaiting ∧ searched.ready call = true then
      { searched with state := .connected } else searched) = object
    split
    case isTrue connected =>
      split
      · refine ⟨.silent rfl rfl rfl rfl rfl, fun _ => nofun, fun _ => ?_⟩
        rw [connected]
        nofun
      · exact onward_backendClose object
    case isFalse => exact .refl object
  obtain ⟨more, effects, quiet⟩ := behind.effects
  by_cases begins : object.state = .connecting
  · rw [if_pos begins] at isSearched
    have fresh' : object.cacheInstance = none ∨
        ∀ attempt ∈ (attempts request call.toOpening).head?,
          object.looksUp server attempt.1.httpUrl = true := by
      refine fresh.imp_right fun looks attempt isHead => ?_
      rw [← Option.some.inj isHead]
      exact looks
    obtain ⟨new, found⟩ :=
      exists_searched call.toOpening (attempts request call.toOpening) object fresh'
    rw [isSearched] at found
    refine ⟨new ++ more, behind.request.trans found.request,
      behind.requestNoCache.trans found.requestNoCache, behind.client.trans found.client, ?_, ?_,
      behind.begun found.state, ?_, ?_⟩
    · rw [effects, found.effects, List.append_assoc]
    · exact List.forall_mem_append.mpr ⟨found.quiet, quiet⟩
    · intro key entry isSome working
      rw [behind.cacheInstance] at isSome
      obtain ⟨⟨target, member, isKey⟩, isEntry⟩ :=
        found.found key entry isSome (behind.working working)
      exact .inr ⟨⟨target, List.mem_append_left _ member, isKey⟩, isEntry⟩
    · rw [behind.cacheInstance]
      exact found.caching
  · rw [if_neg begins] at isSearched
    subst isSearched
    refine ⟨more, behind.request, behind.requestNoCache, behind.client, effects, quiet,
      behind.begun begins, ?_, ?_⟩
    · intro key entry isSome working
      rw [behind.cacheInstance] at isSome
      exact .inl ⟨⟨begins, behind.working working⟩, isSome⟩
    · rw [behind.cacheInstance]
      exact .inl

/-! ## The request and the response -/

theorem transport_closeDescriptor (object : HttpTunneling) :
    Transport object object.closeDescriptor :=
  .silent rfl rfl rfl rfl rfl

theorem transport_backendSend (data : List UInt8) (result : SendResult)
    (object : HttpTunneling) :
    Transport object (object.backendSend server data result).1 := by
  have noted (buffer : List ToBackend) (left : List ToBackend) : Transport object
      { object.note [.toBackend object.request buffer] with backendSendBuf := left } := by
    exact (transport_note (List.forall_mem_singleton.mpr id) object).trans
      (.silent rfl rfl rfl rfl rfl)
  unfold backendSend
  dsimp only
  cases result with
  | sent count => exact noted _ _
  | wouldBlock =>
      dsimp only
      split
      · exact transport_closeDescriptor object
      · exact .silent rfl rfl rfl rfl rfl
  | failed =>
      dsimp only
      split
      · exact transport_closeDescriptor object
      · exact .silent rfl rfl rfl rfl rfl

theorem state_backendFlush (result : SendResult) (object : HttpTunneling) :
    (object.backendFlush result).state = object.state := by
  unfold backendFlush
  split
  · rfl
  · split <;> rfl

theorem onward_backendFlush (result : SendResult) (object : HttpTunneling) :
    Onward object (object.backendFlush result) := by
  unfold backendFlush
  split
  · exact .refl object
  · split
    · exact ⟨.silent rfl rfl rfl rfl rfl, id, id⟩
    · exact ⟨.silent rfl rfl rfl rfl rfl, id, id⟩
    · exact ⟨(transport_note (List.forall_mem_singleton.mpr id) object).trans
        (.silent rfl rfl rfl rfl rfl), id, id⟩
    · exact .refl object

theorem onward_foldl_backendFlush (results : List SendResult) (object : HttpTunneling) :
    Onward object (results.foldl (fun object result => object.backendFlush result) object) := by
  induction results generalizing object with
  | nil => exact .refl object
  | cons result results ih => exact (onward_backendFlush result object).trans (ih _)

theorem state_backendAsyncRecv (data : List UInt8) (object : HttpTunneling) :
    (object.backendAsyncRecv data).state = object.state := by
  rw [backendAsyncRecv]
  split <;> rfl

theorem onward_backendAsyncRecv (data : List UInt8) (object : HttpTunneling) :
    Onward object (object.backendAsyncRecv data) := by
  rw [backendAsyncRecv]
  split
  · exact .refl object
  · exact ⟨.silent rfl rfl rfl rfl rfl, id, id⟩

theorem onward_sendRequestToBackend (request : TunnelingRequest) (call : Call)
    (state : object.state = .established) :
    Onward object (object.sendRequestToBackend server request call) := by
  have begins : object.state ≠ .complete := by
    rw [state]
    nofun
  have ends {sent : HttpTunneling} (transport : Transport object sent) {after : TunnelingState}
      (begun : after ≠ .connecting) : Onward object { sent with state := after } :=
    ⟨transport.trans (.silent rfl rfl rfl rfl rfl), fun _ => begun, fun _ => begins⟩
  have requested : Transport object
      (object.note [.requested object.request object.backendSockfd]) :=
    transport_note (List.forall_mem_singleton.mpr id) object
  have sends (data : List UInt8) (result : SendResult) (object : HttpTunneling) :
      Transport object (if data = [] then (object, true)
        else object.backendSend server data result).1 := by
    split
    · exact .refl object
    · exact transport_backendSend data result object
  rw [sendRequestToBackend]
  split
  · exact ends (.refl object) nofun
  · have header := requested.trans (sends request.reqHeader call.headerSent _)
    dsimp only
    generalize (if request.reqHeader = [] then _ else _) = first at header ⊢
    split
    · have data := header.trans (sends request.reqData call.dataSent _)
      generalize (if request.reqData = [] then _ else _) = second at data ⊢
      refine ends data ?_
      split <;> nofun
    · exact ends header nofun

/-- What is read of a response is noted, and its client has read it. -/
theorem exists_received (server : Server) (request : TunnelingRequest) (call : Call)
    (relaying : object.state = .relayingData1) :
    ∃ data sizes unread new,
      let next := object.recvResponseFromBackendRelayToClient server request call
      next.request = object.request ∧ next.requestNoCache = object.requestNoCache ∧
        next.cacheInstance = object.cacheInstance ∧
        next.client = some ((object.client.getD (.new object.httpTunnelingUrl)).readResponse
          (request.setting server) sizes unread).1 ∧
        next.effects = object.effects ++ .relayed object.request data :: new ∧
        (∀ effect ∈ Effect.relayed object.request data :: new, ¬AboutCache effect) := by
  rw [recvResponseFromBackendRelayToClient, if_pos relaying]
  dsimp only
  generalize object.incoming server call = incoming
  generalize object.client.getD (.new object.httpTunnelingUrl) = client
  obtain ⟨sizes, isSizes⟩ : ∃ sizes, (if server.withAsync = true then
    incoming.map fun _ => 4095 else call.sizes) = sizes := ⟨_, rfl⟩
  rw [isSizes]
  obtain ⟨⟨reader, continues, unread⟩, isRead⟩ : ∃ read, client.readResponse
    (request.setting server) sizes (incoming.map FromBackend.octet) = read := ⟨_, rfl⟩
  have isReader : reader = (client.readResponse (request.setting server) sizes
    (incoming.map FromBackend.octet)).1 := by rw [isRead]
  rw [isRead]
  dsimp only
  generalize incoming.length - unread.length = used
  obtain ⟨noted, isNoted⟩ : ∃ noted, Effect.relayed object.request (incoming.take used) ::
    (reader.sent.drop client.sent.length).map .toClient = noted := ⟨_, rfl⟩
  rw [isNoted]
  have relayed : Transport object (object.note noted) := by
    refine transport_note ?_ object
    rw [← isNoted]
    exact List.forall_mem_cons.mpr ⟨id, quiet_toClient _⟩
  -- What is left of what arrived is kept, and in the synchronous build more is sent meanwhile.
  have behind : Transport (object.note noted) (if server.withAsync = true then
        { object.note noted with asyncBackendRecvBuf := incoming.drop used }
      else if call.breaks = true then
        { (call.furtherSent.foldl
          (fun (object : HttpTunneling) result => object.backendFlush result)
          { object.note noted with queue := unread }).backendClose with backendSendBuf := [] }
      else call.furtherSent.foldl
        (fun (object : HttpTunneling) result => object.backendFlush result)
        { object.note noted with queue := unread }) := by
    have queued : Transport (object.note noted) { object.note noted with queue := unread } :=
      .silent rfl rfl rfl rfl rfl
    have flushed := queued.trans (onward_foldl_backendFlush call.furtherSent _).toTransport
    split
    · exact .silent rfl rfl rfl rfl rfl
    · split
      · exact (flushed.trans (transport_backendClose _)).trans (.silent rfl rfl rfl rfl rfl)
      · exact flushed
  generalize (if server.withAsync = true then _ else _ : HttpTunneling) = received at behind ⊢
  have all : Transport (object.note noted)
      (if reader.refused = true then received.backendClose else received) := by
    split
    · exact behind.trans (transport_backendClose received)
    · exact behind
  generalize (if reader.refused = true then _ else _ : HttpTunneling) = closed at all ⊢
  obtain ⟨more, effects, quiet⟩ := all.effects
  obtain ⟨noted', effects', quiet'⟩ := relayed.effects
  obtain rfl : noted = noted' := List.append_cancel_left effects'
  refine ⟨incoming.take used, sizes, incoming.map FromBackend.octet,
    (reader.sent.drop client.sent.length).map .toClient ++ more, all.request, all.requestNoCache,
    all.cacheInstance, congrArg some isReader, ?_, ?_⟩
  · rw [← List.cons_append, isNoted, ← List.append_assoc]
    exact effects
  · rw [← List.cons_append, isNoted]
    exact List.forall_mem_append.mpr ⟨quiet', quiet⟩

end HttpTunneling

/-! ## What every part of a call keeps -/

open HttpTunneling (AboutCache Transport Onward)

/-- How many seconds were left until a date when a connection read octets of a response. -/
def leftAt (undated : List UInt8 → Int) (journal : List Note) (connection : Nat)
    (value : List UInt8) (seconds : Int) : Prop :=
  ∃ read ∈ journal, read.Reads connection ∧
    seconds = toInt (expiryTime undated value - read.now)

/-- The ages of its response fit, and what it is about to serve was found for its request. -/
structure Serves (undated : List UInt8 → Int) (server : Server) (connection : Nat)
    (journal : List Note) (object : HttpTunneling) : Prop where
  timed : ∀ client, object.client = some client →
    client.info.Timed (leftAt undated journal connection)
  looked : object.Active → ∀ key entry, object.cacheInstance = some (key, entry) →
    Journal.Once (Found undated connection object.request key entry) journal
  caching : object.cacheInstance ≠ none →
    server.enableHttpTunnelingCache = true ∧ object.requestNoCache = false

/-- Each entry of the cache was stored last under its URL. -/
def Stocked (undated : List UInt8 → Int) (memory : MemoryCache) (journal : List Note) : Prop :=
  ∀ key entry, OrderedMap.find key memory.tunnelingCache = some entry →
    Newest undated key entry journal

/-- A connection, the cache and the journal. -/
structure Sound (undated : List UInt8 → Int) (server : Server) (connection : Nat)
    (memory : MemoryCache) (journal : List Note) (object : HttpTunneling) : Prop extends
    Serves undated server connection journal object where
  stocked : Stocked undated memory journal
  served : ServesFound undated journal

/-- Effects as they are written down. -/
def notes (now : Int) (connection request : Nat) (effects : List Effect) : List Note :=
  effects.map (Note.mk now connection request)

/-- A part of a call, whose effects are written down, leaves everything sound. -/
def Keeps (undated : List UInt8 → Int) (server : Server) (now : Int) (connection : Nat)
    (journal : List Note) (object : HttpTunneling) (memory : MemoryCache)
    (next : HttpTunneling) : Prop :=
  ∃ new, next.effects = object.effects ++ new ∧ next.request = object.request ∧
    Sound undated server connection memory
      (journal ++ notes now connection object.request new) next

section Growing

variable {undated : List UInt8 → Int} {server : Server} {now : Int} {connection : Nat}
  {memory : MemoryCache} {journal more : List Note} {object next last : HttpTunneling}

theorem leftAt_append {value : List UInt8} {seconds : Int}
    (isLeft : leftAt undated journal connection value seconds) (more : List Note) :
    leftAt undated (journal ++ more) connection value seconds := by
  obtain ⟨read, member, reads, same⟩ := isLeft
  exact ⟨read, List.mem_append_left _ member, reads, same⟩

theorem Serves.append (serves : Serves undated server connection journal object)
    (more : List Note) : Serves undated server connection (journal ++ more) object where
  timed client isClient :=
    (serves.timed client isClient).mono fun _ _ isLeft => leftAt_append isLeft more
  looked active key entry isSome := (serves.looked active key entry isSome).append more
  caching := serves.caching

theorem Stocked.append (stocked : Stocked undated memory journal)
    (others : ∀ note ∈ more, ∀ key, ¬note.StoresUnder key) :
    Stocked undated memory (journal ++ more) :=
  fun key entry found => (stocked key entry found).append fun note member => others note member key

theorem not_storesUnder_of_quiet (quiet : ∀ note ∈ more, ¬AboutCache note.effect) :
    ∀ note ∈ more, ∀ key, ¬note.StoresUnder key := by
  rintro note member key ⟨entry, isStored⟩
  apply quiet note member
  rw [isStored]
  trivial

theorem quiet_notes {effects : List Effect} (quiet : ∀ effect ∈ effects, ¬AboutCache effect)
    (now : Int) (connection request : Nat) :
    ∀ note ∈ notes now connection request effects, ¬AboutCache note.effect :=
  List.forall_mem_map.mpr quiet

/-- Where nothing has to do with the cache, only the connection has to be looked at. -/
theorem Sound.quiet (sound : Sound undated server connection memory journal object)
    {request : Nat} {effects : List Effect} (quiet : ∀ effect ∈ effects, ¬AboutCache effect)
    (serves : Serves undated server connection
      (journal ++ notes now connection request effects) next) :
    Sound undated server connection memory
      (journal ++ notes now connection request effects) next where
  toServes := serves
  stocked := sound.stocked.append
    (not_storesUnder_of_quiet (quiet_notes quiet now connection request))
  served := by
    refine sound.served.append ?_
    intro note member front key entry isServed
    refine absurd ?_ (quiet_notes quiet now connection request note member)
    rw [isServed]
    trivial

/-- What has been found may be served. -/
theorem Sound.serve (sound : Sound undated server connection memory journal object)
    {request : Nat} {key : List UInt8} {entry : TunnelingCache}
    (looked : Journal.Once (Found undated connection request key entry) journal) :
    Sound undated server connection memory
      (journal ++ [⟨now, connection, request, .served key entry⟩]) object where
  toServes := sound.toServes.append _
  stocked := by
    refine sound.stocked.append (List.forall_mem_singleton.mpr ?_)
    rintro other ⟨entry', isStored⟩
    cases isStored
  served := by
    refine Journal.always_concat.mpr ⟨sound.served, ?_⟩
    intro key' entry' isServed
    cases isServed
    exact looked

theorem Keeps.refl (sound : Sound undated server connection memory journal object) :
    Keeps undated server now connection journal object memory object :=
  ⟨[], (List.append_nil _).symm, rfl, by rwa [notes, List.map_nil, List.append_nil]⟩

theorem Keeps.trans {memory' : MemoryCache}
    (first : Keeps undated server now connection journal object memory next)
    (second : ∀ journal', Sound undated server connection memory journal' next →
      Keeps undated server now connection journal' next memory' last) :
    Keeps undated server now connection journal object memory' last := by
  obtain ⟨new, effects, request, sound⟩ := first
  obtain ⟨more, effects', request', sound'⟩ := second _ sound
  refine ⟨new ++ more, by rw [effects', effects, List.append_assoc], request'.trans request, ?_⟩
  rw [notes, List.map_append, ← List.append_assoc]
  rw [request] at sound'
  exact sound'

/-- A new object has nothing to serve. -/
theorem serves_new (undated : List UInt8 → Int) (server : Server) (connection : Nat)
    (journal : List Note) (requestNoCache ssl : Bool) :
    Serves undated server connection journal (.new requestNoCache ssl) where
  timed client isClient := by cases isClient
  looked active := absurd rfl active.1
  caching isSome := absurd rfl isSome

/-- Code that only has to do with sockets. -/
theorem keeps_onward (sound : Sound undated server connection memory journal object)
    (onward : Onward object next) (begun : next.Active → object.state ≠ .connecting) :
    Keeps undated server now connection journal object memory next := by
  obtain ⟨new, effects, quiet⟩ := onward.effects
  have serves := sound.toServes.append (notes now connection object.request new)
  refine ⟨new, effects, onward.request, sound.quiet quiet ⟨?_, ?_, ?_⟩⟩
  · rw [onward.client]
    exact serves.timed
  · rw [onward.cacheInstance, onward.request]
    exact fun active => serves.looked ⟨begun active, onward.working active.2⟩
  · rw [onward.cacheInstance, onward.requestNoCache]
    exact serves.caching

end Growing

/-! ## A call -/

section Calls

variable {undated : List UInt8 → Int} {server : Server} {now : Int} {connection : Nat}
  {memory : MemoryCache} {journal : List Note} {object : HttpTunneling} {call : Call}
  {request : TunnelingRequest}

theorem find_of_findTunneling {key : List UInt8} {entry : TunnelingCache}
    (found : memory.findTunneling now key = some entry) :
    OrderedMap.find key memory.tunnelingCache = some entry ∧ now ≤ entry.cacheMaxTime := by
  rw [MemoryCache.findTunneling] at found
  split at found
  · cases found
  · split at found
    case isTrue fresh =>
      cases found
      rw [TunnelingCache.fresh, Bool.not_eq_true', decide_eq_false_iff_not] at fresh
      exact ⟨by assumption, Int.not_lt.mp fresh⟩
    case isFalse => cases found

/-- What a lookup finds was stored last, and is written down with the target. -/
theorem once_found (stocked : Stocked undated memory journal) {target : Target}
    {entry : TunnelingCache} {new : List Effect} (quiet : ∀ effect ∈ new, ¬AboutCache effect)
    (member : .selected target ∈ new)
    (found : memory.findTunneling now target.httpUrl = some entry) (requests : Nat) :
    Journal.Once (Found undated connection requests target.httpUrl entry)
      (journal ++ notes now connection requests new) := by
  obtain ⟨isEntry, inTime⟩ := find_of_findTunneling found
  obtain ⟨front, back, rfl⟩ := List.append_of_mem member
  have quiet' := quiet_notes (fun effect inFront => quiet effect (List.mem_append_left _ inFront))
    now connection requests
  refine ⟨journal ++ notes now connection requests front,
    ⟨now, connection, requests, .selected target⟩, notes now connection requests back, ?_, ?_⟩
  · rw [notes, notes, notes, List.map_append, List.map_cons, List.append_assoc]
  · exact ⟨rfl, rfl, ⟨target, rfl, rfl⟩, inTime,
      stocked.append (not_storesUnder_of_quiet quiet') _ _ isEntry⟩

theorem keeps_establish (sound : Sound undated server connection memory journal object)
    (hasUrl : request.primary.httpUrl ≠ []) (isNow : call.now = now)
    (isMemory : call.memory = memory) :
    Keeps undated server now connection journal object memory
      (object.establish server request call) ∧
        (object.establish server request call).state ≠ .connecting := by
  have fresh : object.cacheInstance = none ∨
      object.looksUp server request.primary.httpUrl = true := by
    by_cases none' : object.cacheInstance = none
    · exact .inl none'
    · obtain ⟨enabled, caching⟩ := sound.caching none'
      rw [HttpTunneling.looksUp, enabled, caching, decide_eq_true hasUrl]
      exact .inr rfl
  obtain ⟨new, same, sameFlag, client, effects, quiet, begun, found, caching⟩ :=
    HttpTunneling.exists_established server request call object fresh
  rw [isNow, isMemory] at found
  have serves := sound.toServes.append (notes now connection object.request new)
  refine ⟨⟨new, effects, same, sound.quiet quiet ⟨?_, ?_, ?_⟩⟩, begun⟩
  · rw [client]
    exact serves.timed
  · intro active key entry isSome
    rw [same]
    rcases found key entry isSome active.2 with ⟨wasActive, wasSome⟩ |
      ⟨⟨target, member, rfl⟩, isEntry⟩
    · exact serves.looked wasActive key entry wasSome
    · exact once_found sound.stocked quiet member isEntry object.request
  · intro isSome
    rw [sameFlag]
    exact (caching isSome).elim sound.caching id

/-- What every line and the blank line keep is kept by all reads together. -/
theorem HttpClient.info_readResponse {setting : Setting} {property : HeaderInfo → Prop}
    (field : ∀ info strtext, property info → property (info.parseField setting strtext))
    (settle : ∀ info, property info → property info.settled) (sizes : List Nat)
    {client : HttpClient} (unread : List UInt8) (holds : property client.info) :
    property (client.readResponse setting sizes unread).1.info := by
  induction sizes generalizing client unread with
  | nil => exact holds
  | cons size sizes ih =>
      have called := info_processing field settle (unread.take (min size 4095)) holds
      simp only [readResponse]
      split
      · exact ih _ holds
      · split
        · exact ih _ called
        · exact called

theorem keeps_acquire (sound : Sound undated server connection memory journal object)
    {key : List UInt8} {entry : TunnelingCache} (isSome : object.cacheInstance = some (key, entry))
    (begun : object.state ≠ .connecting) :
    Keeps undated server now connection journal object memory
      (object.acquireCacheRelayToClient server request call key entry) := by
  unfold HttpTunneling.acquireCacheRelayToClient
  have serving : ∃ served : HttpTunneling, (if object.state = .relayingData1 then
      { object.note (.served key entry ::
          (sendCache (request.setting server) call.date entry.cacheData []).1.map .toClient) with
        state := if (sendCache (request.setting server) call.date entry.cacheData []).2 = true
          then .relayingData2 else .complete }
      else object) = served ∧ served.state ≠ .connecting ∧
        Keeps undated server now connection journal object memory served := by
    split
    case isTrue relaying =>
      have active : object.Active := by
        constructor <;> rw [relaying] <;> nofun
      have looked := sound.looked active key entry isSome
      refine ⟨_, rfl, by dsimp only; split <;> nofun, _, rfl, rfl, ?_⟩
      rw [notes, List.map_cons, List.append_cons]
      have noted : Sound undated server connection memory
          (journal ++ [⟨now, connection, object.request, .served key entry⟩]) object :=
        sound.serve looked
      refine noted.quiet (HttpTunneling.quiet_toClient _) ⟨?_, ?_, ?_⟩
      · exact (noted.toServes.append _).timed
      · exact fun _ => (noted.toServes.append _).looked active
      · exact sound.caching
    case isFalse => exact ⟨object, rfl, begun, .refl sound⟩
  dsimp only
  obtain ⟨served, isServed, begun, keeps⟩ := serving
  rw [isServed]
  have flushed : Onward served (if served.state = .relayingData2 ∧ call.flushed = true then
      { served with state := .relayingData3 } else served) := by
    split
    case isTrue sent =>
      refine ⟨.silent rfl rfl rfl rfl rfl, fun _ => nofun, fun _ => ?_⟩
      rw [sent.1]
      nofun
    case isFalse => exact .refl served
  refine keeps.trans fun journal' sound' => keeps_onward sound' (flushed.trans ?_) fun _ => begun
  generalize (if served.state = .relayingData2 ∧ call.flushed = true then _ else _) = object
  split
  · exact ⟨.silent rfl rfl rfl rfl rfl, fun _ => nofun, fun working => absurd rfl working⟩
  · exact .refl object

theorem keeps_recvResponse (sound : Sound undated server connection memory journal object)
    (begun : object.state ≠ .connecting)
    (dated : ∀ value, request.expiresIn value = expiryTime undated value - now) :
    Keeps undated server now connection journal object memory
      (object.recvResponseFromBackendRelayToClient server request call) := by
  by_cases relaying : object.state = .relayingData1
  case neg =>
    rw [HttpTunneling.recvResponseFromBackendRelayToClient, if_neg relaying]
    exact .refl sound
  case pos =>
    have working : object.state ≠ .complete := by
      rw [relaying]
      nofun
    obtain ⟨data, sizes, unread, new, same, sameFlag, sameEntry, client, effects, quiet⟩ :=
      HttpTunneling.exists_received server request call relaying
    generalize object.recvResponseFromBackendRelayToClient server request call = next at *
    have serves := sound.toServes.append
      (notes now connection object.request (.relayed object.request data :: new))
    refine ⟨.relayed object.request data :: new, effects, same, sound.quiet quiet ⟨?_, ?_, ?_⟩⟩
    · intro reader isReader
      rw [client] at isReader
      obtain rfl := Option.some.inj isReader
      refine HttpClient.info_readResponse (fun info strtext timed => ?_)
        (fun info timed => HeaderInfo.timed_settled timed) sizes _ ?_
      · refine HeaderInfo.timed_parseField timed (fun value => ?_) strtext
        refine ⟨⟨now, connection, object.request, .relayed object.request data⟩,
          List.mem_append_right _ List.mem_cons_self, ⟨rfl, _, _, rfl⟩, ?_⟩
        exact congrArg toInt (dated value)
      · cases isClient : object.client with
        | none => exact HeaderInfo.timed_new
        | some client => exact serves.timed client isClient
    · rw [sameEntry, same]
      exact fun _ => serves.looked ⟨begun, working⟩
    · rw [sameEntry, sameFlag]
      exact serves.caching

theorem keeps_relaying (sound : Sound undated server connection memory journal object)
    (begun : object.state ≠ .connecting)
    (dated : ∀ value, request.expiresIn value = expiryTime undated value - now) :
    Keeps undated server now connection journal object memory
      (object.relaying server request call) := by
  unfold HttpTunneling.relaying
  have requested : Onward object (if object.state = .established then
      object.sendRequestToBackend server request call else object) := by
    split
    case isTrue established =>
      exact HttpTunneling.onward_sendRequestToBackend request call established
    case isFalse => exact .refl object
  refine (keeps_onward sound requested fun _ => begun).trans fun journal' sound' => ?_
  have begun' := requested.begun begun
  generalize (if object.state = .established then _ else _ : HttpTunneling) = object at *
  dsimp only
  split
  · split
    · exact keeps_acquire sound' (by assumption) begun'
    · exact keeps_recvResponse sound' begun' dated
  · exact .refl sound'

/-- What is found behind the destructor is what it has stored, or was there before. -/
theorem HttpClient.of_find_destroy {setting : Setting} {client : HttpClient}
    (stores : client.stores setting = true) {total : Nat} {key : List UInt8}
    {entry : TunnelingCache}
    (found : OrderedMap.find key (client.destroy setting total now memory).tunnelingCache =
      some entry) :
    client.httpTunnelingUrl = key ∧ client.entry now = entry ∨
      client.httpTunnelingUrl ≠ key ∧ OrderedMap.find key memory.tunnelingCache = some entry := by
  by_cases own : client.httpTunnelingUrl = key
  · rw [← own, find_destroy stores] at found
    exact .inl ⟨own, Option.some.inj found⟩
  · refine .inr ⟨own, ?_⟩
    rw [destroy, if_pos stores] at found
    simp only [MemoryCache.pushTunneling] at found
    split at found
    · rwa [OrderedMap.find_set, if_neg own] at found
    · rw [OrderedMap.find_set, if_neg own] at found
      split at found
      · exact found
      · split at found
        · exact found
        · rw [OrderedMap.find_erase] at found
          split at found
          · cases found
          · exact found

/-- An entry is kept for the age that the header has left. -/
theorem HttpClient.lifetime_entry {client : HttpClient}
    (timed : client.info.Timed (leftAt undated journal connection))
    (used : client.info.useCache = true) (request : Nat) (effect : Effect) :
    Lifetime undated journal ⟨now, connection, request, effect⟩ (client.entry now)
      client.info.cacheMaxAge where
  maxTime := by
    change now + ((if 0 < client.info.cacheSharedMaxAge then _ else _ : Int).toNat : Int) = _
    rw [if_neg (Int.not_lt.mpr timed.shared), Int.toNat_of_nonneg timed.nonneg]
  positive := timed.positive used
  fiveMinutes := timed.fiveMinutes
  maxAge seconds isAge := by
    have bound := timed.maxAge seconds isAge
    have positive := timed.positive used
    omega
  expires given := by
    obtain ⟨seconds, ⟨read, member, reads, rfl⟩, bound⟩ := timed.expires given
    have positive := timed.positive used
    exact ⟨read, member, reads, by dsimp only [HttpClient.entry, TunnelingCache.new]; omega⟩

theorem keeps_finish (sound : Sound undated server connection memory journal object)
    (isNow : call.now = now) (isMemory : call.memory = memory) :
    Keeps undated server now connection journal object
      (object.finish server request call).2 (object.finish server request call).1 := by
  rw [HttpTunneling.finish]
  split
  case h_2 =>
    rw [isMemory]
    exact .refl sound
  case h_1 client isClient =>
    split
    case isFalse =>
      rw [isMemory]
      exact .refl sound
    case isTrue complete =>
      rw [isNow, isMemory]
      have inactive {property : Prop} (active : object.Active) : property :=
        absurd complete active.2
      cases stores : client.stores (request.setting server) with
      | false =>
          rw [HttpClient.destroy, if_neg (Bool.eq_false_iff.mp stores)]
          refine ⟨[], rfl, rfl, sound.quiet (fun _ member => absurd member List.not_mem_nil)
            ⟨fun _ isSome => ?_, inactive, ?_⟩⟩
          · cases isSome
          · exact sound.caching
      | true =>
          have used : client.info.useCache = true := by
            simp only [HttpClient.stores, Bool.and_eq_true] at stores
            exact stores.1.1.1.1.2
          refine ⟨[.stored client.httpTunnelingUrl (client.entry now)], rfl, rfl,
            ⟨fun _ isSome => ?_, inactive, sound.caching⟩, ?_, ?_⟩
          · cases isSome
          · intro key entry found
            rcases HttpClient.of_find_destroy stores found with ⟨rfl, rfl⟩ | ⟨other, before⟩
            · refine Journal.latest_concat ⟨_, rfl⟩ ⟨rfl, client.info.cacheMaxAge, ?_⟩
              exact HttpClient.lifetime_entry (sound.timed client isClient) used _ _
            · refine (sound.stocked key entry before).append ?_
              rintro note member ⟨entry', isStored⟩
              rw [List.mem_singleton.mp member] at isStored
              exact other (Effect.stored.inj isStored).1
          · refine Journal.always_concat.mpr ⟨sound.served, fun key entry isServed => ?_⟩
            cases isServed

/-- A call of `processing`. -/
theorem keeps_processing (sound : Sound undated server connection memory journal object)
    (hasUrl : request.primary.httpUrl ≠ []) (isNow : call.now = now)
    (isMemory : call.memory = memory)
    (dated : ∀ value, request.expiresIn value = expiryTime undated value - now) :
    Keeps undated server now connection journal object
      (object.processing server request call).2 (object.processing server request call).1 := by
  obtain ⟨established, begun⟩ := keeps_establish sound hasUrl isNow isMemory
  rw [HttpTunneling.processing]
  split
  · rw [isMemory]
    exact established
  · have relayed : Keeps undated server now connection journal object memory
        ((object.establish server request call).relaying server request call) :=
      established.trans fun journal' sound' => keeps_relaying sound' begun dated
    exact relayed.trans fun journal' sound' => keeps_finish sound' isNow isMemory

end Calls

/-! ## Runs -/

/-- A request whose first backend has a URL. -/
def ProxyEvent.HasUrl : ProxyEvent → Prop
  | .wake _ request _ => request.primary.httpUrl ≠ []
  | _ => True

instance : (event : ProxyEvent) → Decidable event.HasUrl
  | .wake _ request _ => inferInstanceAs (Decidable (request.primary.httpUrl ≠ []))
  | .tick _ | .accept _ _ | .begin _ | .close _ _ _ => isTrue trivial

namespace Proxy

/-- What is so of a proxy and its journal all the time. -/
structure Sound (undated : List UInt8 → Int) (server : Server) (proxy : Proxy) : Prop where
  serves : ∀ connection object, (proxy.connections[connection]?).join = some object →
    Serves undated server connection proxy.journal object
  stocked : Stocked undated proxy.memory proxy.journal
  served : ServesFound undated proxy.journal

variable {undated : List UInt8 → Int} {server : Server} {proxy : Proxy} {connection : Nat}
  {memory : MemoryCache} {object next : HttpTunneling}

theorem sound_start (now : Int) : (start now).Sound undated server where
  serves connection object isSome := by cases isSome
  stocked key entry found := by cases found
  served := Journal.always_nil

theorem Sound.at (sound : proxy.Sound undated server)
    (isSome : (proxy.connections[connection]?).join = some object) :
    Tunneling.Sound undated server connection proxy.memory proxy.journal object :=
  ⟨sound.serves connection object isSome, sound.stocked, sound.served⟩

/-- What a call keeps sound for its connection is sound for the others as well. -/
theorem sound_perform (sound : proxy.Sound undated server) {new : List Effect}
    (effects : next.effects = object.effects ++ new)
    (kept : Tunneling.Sound undated server connection memory
      (proxy.journal ++ notes proxy.now connection object.request new) next) :
    (proxy.perform connection object next memory).Sound undated server := by
  have isJournal : (proxy.perform connection object next memory).journal =
      proxy.journal ++ notes proxy.now connection object.request new := by
    rw [perform, effects, List.drop_left]
    rfl
  constructor
  case serves =>
    intro other object' isOther
    rw [isJournal]
    rw [perform, List.getElem?_set] at isOther
    split at isOther
    case isTrue same =>
      split at isOther
      · rw [← same, ← Option.some.inj isOther]
        exact kept.toServes
      · cases isOther
    case isFalse => exact (sound.serves other object' isOther).append _
  case stocked =>
    rw [isJournal]
    exact kept.stocked
  case served =>
    rw [isJournal]
    exact kept.served

theorem Sound.keeps (sound : proxy.Sound undated server)
    (keeps : Keeps undated server proxy.now connection proxy.journal object memory next) :
    (proxy.perform connection object next memory).Sound undated server := by
  obtain ⟨new, effects, -, kept⟩ := keeps
  exact sound_perform sound effects kept

/-- A connection that is closed serves nothing. -/
theorem Sound.closed (sound : proxy.Sound undated server) (connection : Nat) :
    ({ proxy with connections := proxy.connections.set connection none } : Proxy).Sound undated
      server := by
  refine ⟨?_, sound.stocked, sound.served⟩
  intro other object isOther
  rw [List.getElem?_set] at isOther
  split at isOther
  · split at isOther <;> cases isOther
  · exact sound.serves other object isOther

/-- Each event keeps a proxy sound. -/
theorem sound_happen (sound : proxy.Sound undated server) (event : ProxyEvent)
    (hasUrl : event.HasUrl) : (proxy.happen undated server event).Sound undated server := by
  cases event with
  | tick seconds => exact ⟨sound.serves, sound.stocked, sound.served⟩
  | accept requestNoCache ssl =>
      refine ⟨?_, sound.stocked, sound.served⟩
      intro connection object isSome
      rw [happen, List.getElem?_append] at isSome
      split at isSome
      · exact sound.serves connection object isSome
      · rw [List.getElem?_singleton] at isSome
        split at isSome
        · rw [Option.join_some, Option.some.injEq] at isSome
          rw [← isSome]
          exact serves_new undated server connection proxy.journal requestNoCache ssl
        · cases isSome
  | begin connection =>
      rw [happen]
      split
      case h_1 => exact sound
      case h_2 object isSome =>
        have kept := sound.at isSome
        refine @sound_perform _ _ _ _ _ _ _ sound [] (List.append_nil _).symm ?_
        rw [notes, List.map_nil, List.append_nil]
        exact ⟨⟨kept.timed, fun active => absurd rfl active.1, kept.caching⟩, kept.stocked,
          kept.served⟩
  | wake connection request wakeup =>
      rw [happen]
      split
      case h_1 => exact sound
      case h_2 object isSome =>
        have kept := sound.at isSome
        cases wakeup with
        | processing call =>
            exact sound.keeps (keeps_processing kept hasUrl rfl rfl fun _ => rfl)
        | backendAsyncRecv data =>
            refine sound.keeps (keeps_onward kept
              (HttpTunneling.onward_backendAsyncRecv data object) fun active => ?_)
            rw [← HttpTunneling.state_backendAsyncRecv data object]
            exact active.1
        | backendAsyncFlush result =>
            refine sound.keeps (keeps_onward kept (HttpTunneling.onward_backendFlush result object)
              fun active => ?_)
            rw [← HttpTunneling.state_backendFlush result object]
            exact active.1
  | close connection request call =>
      rw [happen]
      split
      case h_1 => exact sound
      case h_2 object isSome =>
        have kept := sound.at isSome
        have ended : Tunneling.Sound undated server connection proxy.memory proxy.journal
            { object with state := .complete } :=
          ⟨⟨kept.timed, fun active => absurd rfl active.2, kept.caching⟩, kept.stocked,
            kept.served⟩
        obtain ⟨new, effects, -, finished⟩ := @keeps_finish undated server proxy.now connection
          proxy.memory proxy.journal _ { call with now := proxy.now, memory := proxy.memory }
          request ended rfl rfl
        exact (@sound_perform _ _ _ _ _ object _ sound _ effects finished).closed connection

theorem sound_run (sound : proxy.Sound undated server) {events : List ProxyEvent}
    (hasUrl : ∀ event ∈ events, event.HasUrl) : (proxy.run undated server events).Sound undated
      server := by
  induction events generalizing proxy with
  | nil => exact sound
  | cons event events ih =>
      exact ih (sound_happen sound event (hasUrl event List.mem_cons_self))
        fun event member => hasUrl event (List.mem_cons_of_mem _ member)

/-- A request that goes to one backend. -/
def oneRequest : TunnelingRequest where
  method := .get
  reqHeader := octets "GET /x HTTP/1.1\x0d\n\x0d\n"
  reqData := []
  primary := ⟨octets "192.0.2.1", 80, octets "http://a/x"⟩
  backup1 := ⟨[], 0, []⟩
  backup2 := ⟨[], 0, []⟩
  expiresIn _ := 0
  beyond _ := []
  sendFails _ := false
  chunk _ := ⟨[], [], false⟩

/-- A call that nothing delays. -/
def oneCall : Call where
  now := 0
  memory := ⟨[], 0⟩
  primary := some [.connected]
  backup1 := none
  backup2 := none
  date := []
  reported := true
  secured := true
  headerSent := .sent 19
  dataSent := .sent 0
  arriving := []
  sizes := []
  furtherSent := []
  breaks := false
  flushed := true

/-- A response that may be kept for a minute. -/
def minuteResponse : List UInt8 :=
  octets "HTTP/1.1 200 OK\x0d\nContent-Length: 1\x0d\n" ++
    octets "Cache-Control: must-revalidate, max-age=60\x0d\n" ++
    octets "Expires: Thu, 01 Jan 1970 00:01:00 GMT\x0d\n\x0d\nx"

/-- One connection stores the response, and ten seconds later another one is served with it. -/
def sharedEvents : List ProxyEvent :=
  [.accept false false, .begin 0, .wake 0 oneRequest (.processing oneCall),
    .wake 0 oneRequest (.backendAsyncRecv minuteResponse),
    .wake 0 oneRequest (.processing oneCall), .tick 10, .accept false false, .begin 1,
    .wake 1 oneRequest (.processing oneCall)]

/-- When and by which connection something is served from the cache, and until when it is kept. -/
def hits (journal : List Note) : List (Int × Nat × Int) :=
  journal.filterMap fun note =>
    match note.effect with
    | .served _ entry => some (note.now, note.connection, entry.cacheMaxTime)
    | _ => none

end Proxy

end Tunneling

end HeapHttpd
