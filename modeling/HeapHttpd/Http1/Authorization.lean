import HeapHttpd.Http1.ResponseReply
import HeapHttpd.Library.Precedence

/-!
# Nothing is answered without an authorization

The state of a `CHttp` has one way into a response and one into a tunnel, and each
asks for an authorization of its own.  Between two operations a request may be in a
tunnel, but never in a response.
-/

namespace HeapHttpd

namespace Http1

open Precedence

/-! ## What the lines of a header authorize -/

namespace RequestHeader

variable {site : Site} {header header' header'' : RequestHeader}

/-- A header behind further lines: a call of `WWW_Auth` that succeeds authorizes its
own kind of request, nothing takes an authorization back, and a request for a tunnel
stays one. -/
structure Later (header header' : RequestHeader) (calls : List AuthCall) : Prop where
  authCalls : header'.authCalls = header.authCalls ++ calls
  passedWwwauth :
    header'.passedWwwauth = (header.passedWwwauth || decide (⟨false, true⟩ ∈ calls))
  passedProxyauth :
    header'.passedProxyauth = (header.passedProxyauth || decide (⟨true, true⟩ ∈ calls))
  tunnelingConnection :
    header.tunnelingConnection ≠ .none → header'.tunnelingConnection ≠ .none

theorem Later.trans {calls calls' : List AuthCall} (first : Later header header' calls)
    (second : Later header' header'' calls') : Later header header'' (calls ++ calls') where
  authCalls := by rw [second.authCalls, first.authCalls, List.append_assoc]
  passedWwwauth := by
    rw [second.passedWwwauth, first.passedWwwauth]
    simp [Bool.or_assoc]
  passedProxyauth := by
    rw [second.passedProxyauth, first.passedProxyauth]
    simp [Bool.or_assoc]
  tunnelingConnection tunnels := second.tunnelingConnection (first.tunnelingConnection tunnels)

/-- A line that leads to no call. -/
theorem Later.of_eq (authCalls : header'.authCalls = header.authCalls)
    (passedWwwauth : header'.passedWwwauth = header.passedWwwauth)
    (passedProxyauth : header'.passedProxyauth = header.passedProxyauth)
    (tunnelingConnection : header'.tunnelingConnection = header.tunnelingConnection ∨
      header'.tunnelingConnection ≠ .none) : Later header header' [] where
  authCalls := by rw [authCalls, List.append_nil]
  passedWwwauth := by simp [passedWwwauth]
  passedProxyauth := by simp [passedProxyauth]
  tunnelingConnection tunnels := by
    rcases tunnelingConnection with same | tunnels'
    · rwa [same]
    · exact tunnels'

theorem later_refl (header : RequestHeader) : Later header header [] :=
  .of_eq rfl rfl rfl (.inl rfl)

theorem Later.headerContent {calls : List AuthCall} (later : Later header header' calls)
    (headerContent : List UInt8) : Later header { header' with headerContent } calls :=
  ⟨later.authCalls, later.passedWwwauth, later.passedProxyauth, later.tunnelingConnection⟩

theorem later_reverseProxyUrl (ssl : Bool) (behind : List UInt8) :
    Later header (header.reverseProxyUrl ssl behind).1 [] := by
  unfold reverseProxyUrl
  simp only
  split
  · split
    · exact .of_eq rfl rfl rfl (.inl rfl)
    · exact .of_eq rfl rfl rfl (.inl rfl)
  · exact .of_eq rfl rfl rfl (.inl rfl)

theorem later_parseMethod (strtext : List UInt8) :
    Later header (header.parseMethod site strtext).1 [] := by
  unfold parseMethod
  simp only
  generalize (if site.enableHttpReverseProxy then reverseDelivery site.reverseExtList strtext
    else strtext) = strtext'
  split
  · exact .of_eq rfl rfl rfl (.inr (by simp))
  · split
    · generalize decide ((strtext'.drop _)[4]? = some 0x73) = ssl
      have tunnels : Later header { header with
          tunnelingConnection := if ssl then .withoutConnectSsl else .withoutConnect } [] :=
        .of_eq rfl rfl rfl (.inr (by cases ssl <;> simp))
      split
      · exact tunnels.trans (later_reverseProxyUrl _ _)
      · exact tunnels.trans (.of_eq rfl rfl rfl (.inl rfl))
    · exact .of_eq rfl rfl rfl (.inl rfl)

theorem later_storeField (strtext : List UInt8) : Later header (header.storeField strtext) [] := by
  unfold storeField
  simp only
  split
  · exact .of_eq rfl rfl rfl (.inl rfl)
  · exact .of_eq rfl rfl rfl (.inl rfl)

theorem later_readConnection (value : List UInt8) :
    Later header (header.readConnection value) [] := by
  unfold readConnection
  simp only
  split
  · exact .of_eq rfl rfl rfl (.inl rfl)
  · exact .of_eq rfl rfl rfl (.inl rfl)

theorem later_readUpgrade (value : List UInt8) : Later header (header.readUpgrade value) [] := by
  unfold readUpgrade
  split
  · exact .of_eq rfl rfl rfl (.inl rfl)
  · exact later_refl header

theorem later_readContentType (strtext : List UInt8) :
    Later header (header.readContentType strtext) [] := by
  unfold readContentType
  simp only
  split
  · exact .of_eq rfl rfl rfl (.inl rfl)
  · split
    · exact .of_eq rfl rfl rfl (.inl rfl)
    · exact .of_eq rfl rfl rfl (.inl rfl)

theorem succeeds_mem_singleton (proxy proxy' passed : Bool) :
    decide ((⟨proxy, true⟩ : AuthCall) ∈ [⟨proxy', passed⟩]) =
      (decide (proxy = proxy') && passed) := by
  cases passed <;> simp

/-- The calls that the branch of a line leads to. -/
theorem later_readField (strtext : List UInt8) (kind : FieldKind) :
    ∃ calls, Later header (header.readField site strtext kind) calls := by
  cases kind with
  | connection => exact ⟨[], later_readConnection _⟩
  | upgrade => exact ⟨[], later_readUpgrade _⟩
  | contentType => exact ⟨[], later_readContentType _⟩
  | authorization scheme =>
      refine ⟨[⟨false, _⟩], rfl, ?_, ?_, id⟩
      · rw [succeeds_mem_singleton]
        rfl
      · rw [succeeds_mem_singleton]
        simp [readField, readAuthorization]
  | proxyAuthorization scheme =>
      refine ⟨[⟨true, _⟩], rfl, ?_, ?_, id⟩
      · rw [succeeds_mem_singleton]
        simp [readField, readProxyAuthorization]
      · rw [succeeds_mem_singleton]
        rfl
  | contentLength | other => exact ⟨[], later_refl header⟩
  | cookie | host | cacheControl | pragma => exact ⟨[], .of_eq rfl rfl rfl (.inl rfl)⟩

theorem later_readLine (strtext : List UInt8) :
    ∃ calls, Later header (header.readLine site strtext) calls := by
  unfold readLine
  cases methodOf strtext with
  | some method =>
      set named : RequestHeader := { header with
        requestMethod := method
        metaVars := header.metaVars.set (General.octets "REQUEST_METHOD") (methodName method) }
      have later : Later header named [] := .of_eq rfl rfl rfl (.inl rfl)
      have parsed : Later named (named.parseMethod site strtext).1 [] := later_parseMethod strtext
      exact ⟨[], (later.trans parsed).headerContent _⟩
  | none =>
      obtain ⟨calls, later⟩ :=
        @later_readField site (header.storeField strtext) strtext (fieldKind strtext)
      exact ⟨[] ++ calls, (later_storeField strtext).trans later⟩

end RequestHeader

section Lines

open RequestHeader

variable {site : Site} {http1 : CHttp RequestHeader}

theorem rest_parseLine {X : Type} {otherLine : List UInt8 → X → X} (line : List UInt8)
    (http1 : CHttp X) : (parseLine otherLine line http1).rest = otherLine line http1.rest := by
  unfold parseLine parseFieldLine
  cases methodOf line with
  | some method => rfl
  | none =>
      simp only
      split
      · rfl
      · split
        · rfl
        · rfl

theorem later_readLines (lines : List (List UInt8)) :
    ∃ calls, Later http1.rest (readLines (RequestHeader.readLine site) lines http1).rest
      calls := by
  unfold readLines
  induction lines.filter fun line => !line.isEmpty generalizing http1 with
  | nil => exact ⟨[], later_refl _⟩
  | cons line lines ih =>
      obtain ⟨calls, first⟩ := @later_readLine site http1.rest line
      rw [← @rest_parseLine _ (RequestHeader.readLine site) line http1] at first
      obtain ⟨calls', second⟩ := @ih (parseLine (RequestHeader.readLine site) line http1)
      exact ⟨calls ++ calls', first.trans second⟩

theorem CHttp.later_lineParse (text : List UInt8) :
    ∃ calls, Later http1.rest (http1.lineParse site text).1.rest calls := by
  obtain ⟨calls, later⟩ := @later_readLines site http1 (linesOf (http1.lineText ++ text)).1
  refine ⟨calls, ?_⟩
  rw [CHttp.lineParse, lineParse_eq]
  simp only
  split
  · rename_i blank
    simpa only [blank, if_true] using later.headerContent _
  · rename_i blank
    simpa only [blank, if_false, Bool.false_eq_true] using later

theorem CHttp.later_asyncReqHeader (passes : Nat) (asyncRecvBuf : List UInt8) :
    ∃ calls, Later http1.rest (http1.asyncReqHeader site passes asyncRecvBuf).1.rest calls := by
  induction passes generalizing http1 asyncRecvBuf with
  | zero => exact ⟨[], later_refl _⟩
  | succ passes ih =>
      rw [asyncReqHeader]
      split
      · simp only
        split
        · exact ⟨[], later_refl _⟩
        · obtain ⟨calls, first⟩ := @later_lineParse site http1
            (General.cString (asyncProtRecv 4095 asyncRecvBuf).1)
          obtain ⟨calls', second⟩ := @ih
            (http1.lineParse site (General.cString (asyncProtRecv 4095 asyncRecvBuf).1)).1
            (asyncProtRecv 4095 asyncRecvBuf).2
          exact ⟨calls ++ calls', first.trans second⟩
      · exact ⟨[], later_refl _⟩

theorem CHttp.httpState_asyncReqHeader (passes : Nat) (asyncRecvBuf : List UInt8) :
    (http1.asyncReqHeader site passes asyncRecvBuf).1.httpState = http1.httpState ∨
      (http1.asyncReqHeader site passes asyncRecvBuf).1.httpState = .reqData := by
  induction passes generalizing http1 asyncRecvBuf with
  | zero => exact .inl rfl
  | succ passes ih =>
      rw [asyncReqHeader]
      split
      · rename_i reading
        simp only
        split
        · exact .inl rfl
        · have state := @httpState_lineParse site http1
            (General.cString (asyncProtRecv 4095 asyncRecvBuf).1)
          rcases @ih (http1.lineParse site (General.cString (asyncProtRecv 4095 asyncRecvBuf).1)).1
            (asyncProtRecv 4095 asyncRecvBuf).2 with same | ended
          · rw [same, state]
            split
            · exact .inr rfl
            · exact .inl rfl
          · exact .inr ended
      · exact .inl rfl

end Lines

/-! ## What the body leaves alone -/

section Body

variable {X : Type} {http1 : CHttp X}

/-- A request with its body, or with a part of it. -/
structure CHttp.SameHeader (http1 http1' : CHttp X) : Prop where
  rest : http1'.rest = http1.rest
  httpState : http1'.httpState = http1.httpState ∨ http1'.httpState = .authentication

theorem CHttp.sameHeader_asyncReqData (asyncRecvBuf : List UInt8) :
    http1.SameHeader (http1.asyncReqData asyncRecvBuf).1 := by
  unfold asyncReqData asyncRecvPostData
  simp only
  repeat' split
  all_goals first
    | exact ⟨rfl, .inl rfl⟩
    | exact ⟨rfl, .inr rfl⟩

theorem CHttp.sameHeader_dataParse {sock : LineSock} {read : CHttp X × LineSock}
    (comes : http1.dataParse sock = some read) : http1.SameHeader read.1 := by
  unfold dataParse CHttp.recvPostData at comes
  simp only at comes
  repeat' split at comes
  all_goals cases comes
  all_goals first
    | exact ⟨rfl, .inl rfl⟩
    | exact ⟨rfl, .inr rfl⟩

end Body

/-! ## The way into a response and into a tunnel -/

section Reply

variable {server : Server} {outside : Outside} {http1 : CHttp RequestHeader}

/-- Whether an event belongs to `Response`. -/
def Event.OfResponse : Event → Prop
  | .extension hook _ => hook ≠ .extTunneling
  | .document => True
  | _ => False

/-- Whether an event belongs to `Tunneling`. -/
def Event.OfTunneling : Event → Prop
  | .extension hook _ => hook = .extTunneling
  | .tunneling | .relaying => True
  | _ => False

/-- A response is permitted to a header. -/
def MayRespond (server : Server) (header : RequestHeader) : Prop :=
  server.wwwAuthScheme.Asks → header.passedWwwauth = true

/-- A tunnel is permitted to a header. -/
def MayTunnel (server : Server) (header : RequestHeader) : Prop :=
  server.proxyAuthScheme.Asks → header.passedProxyauth = true

/-- The states of a request between two operations. -/
def Resting (server : Server) (header : RequestHeader) : HttpState → Prop
  | .reqHeader | .reqData | .authentication | .complete => True
  | .tunnling | .tunnlingExtensionComplete | .tunnlingComplete =>
      header.tunnelingConnection ≠ .none ∧ MayTunnel server header
  | _ => False

/-- An event is permitted to a header. -/
def Permitted (server : Server) (header : RequestHeader) (event : Event) : Prop :=
  (event.OfResponse → MayRespond server header) ∧ (event.OfTunneling → MayTunnel server header)

/-- An answer leaves the header alone and consists of permitted events. -/
structure Permissible (server : Server) (header : RequestHeader) (replied : Answering) :
    Prop where
  rest : replied.1.rest = header
  events : ∀ event ∈ replied.2, Permitted server header event

theorem permitted_answer (server : Server) (header : RequestHeader) (status : Nat)
    (challenge : Option (String × AuthScheme)) :
    Permitted server header (.answer status challenge) :=
  ⟨False.elim, False.elim⟩

theorem permissible_nil (http1 : CHttp RequestHeader) :
    Permissible server http1.rest (http1, []) :=
  ⟨rfl, by simp⟩

theorem Permissible.refuse {header : RequestHeader} {replied : Answering}
    (permissible : Permissible server header replied) (status : Nat)
    (challenge : Option (String × AuthScheme)) :
    Permissible server header (refuse status challenge replied) := by
  refine ⟨permissible.rest, fun event member => ?_⟩
  rcases List.mem_append.mp member with earlier | last
  · exact permissible.events event earlier
  · rw [List.mem_singleton.mp last]
    exact permitted_answer server header status challenge

theorem Permissible.stage {header : RequestHeader} {replied : Answering} {state next : HttpState}
    {events : List Event} (permissible : Permissible server header replied)
    (permitted : ∀ event ∈ events, Permitted server header event) :
    Permissible server header (stage state next events replied) := by
  unfold Http1.stage
  split
  · refine ⟨permissible.rest, fun event member => ?_⟩
    rcases List.mem_append.mp member with earlier | last
    · exact permissible.events event earlier
    · exact permitted event last
  · exact permissible

theorem permitted_hooks_response {header : RequestHeader} (may : MayRespond server header)
    {hook : Hook} (isResponse : hook ≠ .extTunneling) :
    ∀ event ∈ server.hooks hook, Permitted server header event := by
  intro event member
  obtain ⟨index, -, rfl⟩ := List.mem_map.mp member
  exact ⟨fun _ => may, fun ofTunneling => absurd ofTunneling isResponse⟩

theorem permitted_hooks_tunneling {header : RequestHeader} (may : MayTunnel server header) :
    ∀ event ∈ server.hooks .extTunneling, Permitted server header event := by
  intro event member
  obtain ⟨index, -, rfl⟩ := List.mem_map.mp member
  exact ⟨fun ofResponse => absurd rfl ofResponse, fun _ => may⟩

theorem permissible_response (may : MayRespond server http1.rest) :
    Permissible server http1.rest (http1.response server outside).1 := by
  have begun : Permissible server http1.rest (stage .response .responding [] (http1, [])) :=
    (permissible_nil http1).stage (by simp)
  have requested : Permissible server http1.rest
      (stage .responding .respondingExtensionComplete1 (server.hooks .extRequest)
        (stage .response .responding [] (http1, []))) :=
    begun.stage (permitted_hooks_response may (by decide))
  unfold CHttp.response
  simp only
  split
  · exact requested
  · refine ((requested.stage ?_).stage ?_).stage ?_
    · exact permitted_hooks_response may (by decide)
    · intro event member
      rw [List.mem_singleton.mp member]
      exact ⟨fun _ => may, False.elim⟩
    · exact permitted_hooks_response may (by decide)

theorem permissible_tunneling (may : MayTunnel server http1.rest) :
    Permissible server http1.rest (http1.tunneling server outside) := by
  have called : Permissible server http1.rest (http1, [.tunneling]) := by
    refine ⟨rfl, fun event member => ?_⟩
    rw [List.mem_singleton.mp member]
    exact ⟨False.elim, fun _ => may⟩
  have extended : Permissible server http1.rest
      (stage .tunnling .tunnlingExtensionComplete (server.hooks .extTunneling)
        (http1, [.tunneling])) :=
    called.stage (permitted_hooks_tunneling may)
  unfold CHttp.tunneling
  simp only
  split
  · exact extended.refuse 405 none
  · split
    · refine ⟨extended.rest, fun event member => ?_⟩
      rcases List.mem_append.mp member with earlier | last
      · exact extended.events event earlier
      · rw [List.mem_singleton.mp last]
        exact ⟨False.elim, fun _ => may⟩
    · exact extended

/-- A response begins and ends in one call. -/
theorem httpState_response (begins : http1.httpState = .response)
    (success : (http1.response server outside).2 = true) :
    (http1.response server outside).1.1.httpState = .responseComplete := by
  unfold CHttp.response at success ⊢
  simp only [stage, begins, if_true, true_and] at success ⊢
  split at success
  · cases success
  · rename_i goesOn
    simp only [goesOn, Bool.false_eq_true, if_false]

theorem resting_tunneling (tunnels : http1.rest.tunnelingConnection ≠ .none)
    (may : MayTunnel server http1.rest)
    (state : Resting server http1.rest http1.httpState) :
    Resting server http1.rest (http1.tunneling server outside).1.httpState := by
  unfold CHttp.tunneling
  simp only
  split
  · trivial
  · have called : Resting server http1.rest
        (stage .tunnling .tunnlingExtensionComplete (server.hooks .extTunneling)
          (http1, [.tunneling])).1.httpState := by
      unfold stage
      split
      · exact ⟨tunnels, may⟩
      · exact state
    split
    · simp only
      split
      · trivial
      · exact called
    · exact called

theorem tunnels_of_resting {header : RequestHeader} {state : HttpState}
    (resting : Resting server header state) (replying : state.Replying) :
    header.tunnelingConnection ≠ .none ∧ MayTunnel server header := by
  cases state with
  | reqHeader | reqData | authentication | complete =>
      exact absurd replying (by decide)
  | tunnling | tunnlingExtensionComplete | tunnlingComplete => exact resting
  | response | responding | respondingExtensionComplete1 | respondingExtensionComplete2
  | respondingDocComplete | responseComplete => exact resting.elim

/-- A reply leaves a request complete or in a tunnel that may be. -/
structure Replied (server : Server) (header : RequestHeader) (replied : Answering) : Prop
    extends Permissible server header replied where
  resting : Resting server header replied.1.httpState

theorem Permissible.replied_refuse {header : RequestHeader} {current : Answering}
    (permissible : Permissible server header current) (status : Nat)
    (challenge : Option (String × AuthScheme)) :
    Replied server header (Http1.refuse status challenge current) :=
  ⟨permissible.refuse status challenge, trivial⟩

/-- Behind an authentication that has led to a response. -/
theorem replied_goAhead_response (begins : http1.httpState = .response)
    (noTunnel : http1.rest.tunnelingConnection = .none) (may : MayRespond server http1.rest) :
    Replied server http1.rest (http1.goAhead server outside).1 := by
  have responded : Permissible server http1.rest (http1.response server outside).1 :=
    permissible_response may
  have replying : http1.httpState.Replying := by
    rw [begins]
    decide
  unfold CHttp.goAhead
  rw [if_pos replying, if_pos noTunnel]
  split
  · exact (permissible_nil http1).replied_refuse 405 none
  · simp only
    cases success : (http1.response server outside).2 with
    | false => exact responded.replied_refuse 500 none
    | true =>
        have state := httpState_response begins success
        have finished : ¬ HttpState.number (http1.response server outside).1.1.httpState <
            HttpState.number .responseComplete := by
          rw [state]
          exact Nat.lt_irrefl _
        rw [if_neg (by simp), if_neg finished]
        refine ⟨responded.stage (by simp), ?_⟩
        simp only [stage, state, if_true]
        trivial

/-- Where no response is under way. -/
theorem replied_goAhead (resting : Resting server http1.rest http1.httpState) :
    Replied server http1.rest (http1.goAhead server outside).1 := by
  unfold CHttp.goAhead
  by_cases replying : http1.httpState.Replying
  · obtain ⟨tunnels, may⟩ := tunnels_of_resting resting replying
    rw [if_pos replying, if_neg tunnels]
    split
    · exact (permissible_nil http1).replied_refuse _ none
    · exact ⟨permissible_tunneling may, resting_tunneling tunnels may resting⟩
  · rw [if_neg replying]
    exact ⟨permissible_nil http1, resting⟩

/-- An answer to a request permits itself nothing that its header does not. -/
theorem replied_responseReply (resting : Resting server http1.rest http1.httpState) :
    Replied server http1.rest (http1.responseReply server outside).1 := by
  unfold CHttp.responseReply CHttp.authenticate
  by_cases authentication : http1.httpState = .authentication
  · rw [if_pos authentication]
    by_cases noTunnel : http1.rest.tunnelingConnection = .none
    · rw [if_pos noTunnel]
      by_cases unauthorized : server.wwwAuthScheme.Asks ∧ http1.rest.passedWwwauth = false
      · rw [if_pos unauthorized]
        exact (permissible_nil http1).replied_refuse 401 _
      · rw [if_neg unauthorized]
        have may : MayRespond server http1.rest := by
          intro asks
          simpa [asks] using unauthorized
        exact @replied_goAhead_response server outside { http1 with httpState := .response } rfl
          noTunnel may
    · rw [if_neg noTunnel]
      by_cases unauthorized : server.proxyAuthScheme.Asks ∧ http1.rest.passedProxyauth = false
      · rw [if_pos unauthorized]
        exact (permissible_nil http1).replied_refuse 407 _
      · rw [if_neg unauthorized]
        have may : MayTunnel server http1.rest := by
          intro asks
          simpa [asks] using unauthorized
        exact @replied_goAhead server outside { http1 with httpState := .tunnling }
          ⟨noTunnel, may⟩
  · rw [if_neg authentication]
    exact replied_goAhead resting

end Reply

/-! ## Runs -/

section Runs

open RequestHeader

variable {server : Server} {http1 http1' : CHttp RequestHeader} {log : List Event}

/-- Where a scheme asks for credentials, nothing of its kind happens before `WWW_Auth`
has accepted some of its own. -/
structure Gated (server : Server) (log : List Event) : Prop where
  response : server.wwwAuthScheme.Asks →
    Caused (fun event => event = .wwwAuth ⟨false, true⟩) Event.OfResponse log
  tunneling : server.proxyAuthScheme.Asks →
    Caused (fun event => event = .wwwAuth ⟨true, true⟩) Event.OfTunneling log

/-- What a request is known to have is in the log of its events. -/
structure Authorized (server : Server) (http1 : CHttp RequestHeader) (log : List Event) :
    Prop where
  gated : Gated server log
  passedWwwauth : http1.rest.passedWwwauth = true → Event.wwwAuth ⟨false, true⟩ ∈ log
  passedProxyauth : http1.rest.passedProxyauth = true → Event.wwwAuth ⟨true, true⟩ ∈ log
  resting : Resting server http1.rest http1.httpState

theorem CHttp.calls_eq {calls : List AuthCall} (later : Later http1.rest http1'.rest calls) :
    http1.calls http1' = calls.map .wwwAuth := by
  rw [CHttp.calls, later.authCalls, List.drop_left]

theorem Gated.calls (gated : Gated server log) (calls : List AuthCall) :
    Gated server (log ++ calls.map .wwwAuth) := by
  refine ⟨fun asks => (gated.response asks).append (.inr ?_),
    fun asks => (gated.tunneling asks).append (.inr ?_)⟩
  · intro event member ofResponse
    obtain ⟨call, -, rfl⟩ := List.mem_map.mp member
    exact ofResponse
  · intro event member ofTunneling
    obtain ⟨call, -, rfl⟩ := List.mem_map.mp member
    exact ofTunneling

theorem Resting.later {calls : List AuthCall} {header header' : RequestHeader}
    {state : HttpState} (resting : Resting server header state)
    (later : Later header header' calls) : Resting server header' state := by
  have tunnels (tunneled : header.tunnelingConnection ≠ .none ∧ MayTunnel server header) :
      header'.tunnelingConnection ≠ .none ∧ MayTunnel server header' := by
    refine ⟨later.tunnelingConnection tunneled.1, fun asks => ?_⟩
    rw [later.passedProxyauth, tunneled.2 asks, Bool.true_or]
  cases state with
  | reqHeader | reqData | authentication | complete => trivial
  | tunnling | tunnlingExtensionComplete | tunnlingComplete => exact tunnels resting
  | response | responding | respondingExtensionComplete1 | respondingExtensionComplete2
  | respondingDocComplete | responseComplete => exact resting.elim

namespace Authorized

/-- Lines of a header. -/
theorem later (authorized : Authorized server http1 log) {calls : List AuthCall}
    (later : Later http1.rest http1'.rest calls)
    (state : http1'.httpState = http1.httpState ∨ http1'.httpState = .reqData) :
    Authorized server http1' (log ++ http1.calls http1') := by
  rw [CHttp.calls_eq later]
  refine ⟨authorized.gated.calls calls, fun passed => ?_, fun passed => ?_, ?_⟩
  · rw [later.passedWwwauth, Bool.or_eq_true, decide_eq_true_eq] at passed
    rcases passed with earlier | now
    · exact List.mem_append_left _ (authorized.passedWwwauth earlier)
    · exact List.mem_append_right _ (List.mem_map_of_mem now)
  · rw [later.passedProxyauth, Bool.or_eq_true, decide_eq_true_eq] at passed
    rcases passed with earlier | now
    · exact List.mem_append_left _ (authorized.passedProxyauth earlier)
    · exact List.mem_append_right _ (List.mem_map_of_mem now)
  · rcases state with same | ended
    · rw [same]
      exact authorized.resting.later later
    · rw [ended]
      trivial

/-- Octets of a body. -/
theorem sameHeader (authorized : Authorized server http1 log)
    (same : http1.SameHeader http1') : Authorized server http1' log := by
  refine ⟨authorized.gated, ?_, ?_, ?_⟩
  · rw [same.rest]
    exact authorized.passedWwwauth
  · rw [same.rest]
    exact authorized.passedProxyauth
  · rcases same.httpState with state | state
    · rw [same.rest, state]
      exact authorized.resting
    · rw [state]
      trivial

/-- An answer. -/
theorem replied {replied : Answering} (authorized : Authorized server http1 log)
    (spec : Replied server http1.rest replied) :
    Authorized server replied.1 (log ++ replied.2) := by
  refine ⟨⟨fun asks => ?_, fun asks => ?_⟩, fun passed => ?_, fun passed => ?_, ?_⟩
  · refine (authorized.gated.response asks).append ?_
    by_cases passed : http1.rest.passedWwwauth = true
    · exact .inl ⟨_, authorized.passedWwwauth passed, rfl⟩
    · exact .inr fun event member ofResponse =>
        passed ((spec.events event member).1 ofResponse asks)
  · refine (authorized.gated.tunneling asks).append ?_
    by_cases passed : http1.rest.passedProxyauth = true
    · exact .inl ⟨_, authorized.passedProxyauth passed, rfl⟩
    · exact .inr fun event member ofTunneling =>
        passed ((spec.events event member).2 ofTunneling asks)
  · rw [spec.rest] at passed
    exact List.mem_append_left _ (authorized.passedWwwauth passed)
  · rw [spec.rest] at passed
    exact List.mem_append_left _ (authorized.passedProxyauth passed)
  · rw [spec.rest]
    exact spec.resting

/-- `ResponseReply`, from wherever it is called. -/
theorem responseReply (authorized : Authorized server http1 log) (outside : Outside) :
    Authorized server (http1.responseReply server outside).1.1
      (log ++ (http1.responseReply server outside).1.2) :=
  authorized.replied (replied_responseReply authorized.resting)

/-- Calls of `SetHttpStatus`. -/
theorem setHttpStatus (authorized : Authorized server http1 log) {state : HttpState}
    (fresh : state = .reqData ∨ state = .authentication) :
    Authorized server { http1 with httpState := state } log := by
  refine ⟨authorized.gated, authorized.passedWwwauth, authorized.passedProxyauth, ?_⟩
  rcases fresh with isReqData | isAuthentication
  · rw [isReqData]
    trivial
  · rw [isAuthentication]
    trivial

theorem pushPostData (authorized : Authorized server http1 log) (buf : List UInt8) :
    Authorized server (Http1.pushPostData buf http1).1 log := by
  have same : http1.SameHeader (Http1.pushPostData buf http1).1 := by
    unfold Http1.pushPostData
    cases http1.contentType with
    | applicationXWwwFormUrlencoded =>
        simp only
        split
        · exact ⟨rfl, .inl rfl⟩
        · exact ⟨rfl, .inl rfl⟩
    | multipartFormData => exact ⟨rfl, .inl rfl⟩
  exact authorized.sameHeader same

end Authorized

theorem authorized_new (server : Server) (rest : RequestHeader)
    (unauthorized : rest.passedWwwauth = false ∧ rest.passedProxyauth = false) :
    Authorized server (CHttp.new rest) [] :=
  ⟨⟨fun _ => caused_nil, fun _ => caused_nil⟩,
    fun passed => by simp [CHttp.new, unauthorized] at passed,
    fun passed => by simp [CHttp.new, unauthorized] at passed, trivial⟩

/-- What an operation does to a log, whether it comes back or not. -/
structure Keeps (server : Server) (log : List Event)
    (left : List Event × Option (CHttp RequestHeader)) : Prop where
  gated : Gated server (log ++ left.1)
  authorized : ∀ next ∈ left.2, Authorized server next (log ++ left.1)

theorem Authorized.keeps {events : List Event}
    (authorized : Authorized server http1 (log ++ events)) :
    Keeps server log (events, some http1) := by
  refine ⟨authorized.gated, fun next isNext => ?_⟩
  cases isNext
  exact authorized

theorem Authorized.lineParse {site : Site} (authorized : Authorized server http1 log)
    (text : List UInt8) :
    Authorized server (http1.lineParse site text).1
      (log ++ http1.calls (http1.lineParse site text).1) := by
  obtain ⟨calls, later⟩ := @CHttp.later_lineParse site http1 text
  refine authorized.later later ?_
  rw [CHttp.httpState_lineParse]
  split
  · exact .inr rfl
  · exact .inl rfl

theorem keeps_syncLineParse (authorized : Authorized server http1 log) (outside : Outside)
    (text : List UInt8) (sock : LineSock) :
    Keeps server log ((http1.syncLineParse server outside text sock).1,
      (http1.syncLineParse server outside text sock).2.map fun parsed => parsed.1.1) := by
  have parsed := @Authorized.lineParse _ _ _ server.toSite authorized text
  unfold CHttp.syncLineParse
  simp only
  split
  · split
    · have refused : Replied server (http1.lineParse server.toSite text).1.rest
          ((http1.lineParse server.toSite text).1, [.answer 411 none]) := by
        refine ⟨⟨rfl, fun event member => ?_⟩, parsed.resting⟩
        rw [List.mem_singleton.mp member]
        exact permitted_answer _ _ _ _
      have answered := parsed.replied refused
      rw [List.append_assoc] at answered
      exact answered.keeps
    · cases comes : (http1.lineParse server.toSite text).1.dataParse sock with
      | none => exact ⟨parsed.gated, by simp⟩
      | some read =>
          have replied :=
            (parsed.sameHeader (CHttp.sameHeader_dataParse comes)).responseReply outside
          rw [List.append_assoc] at replied
          exact replied.keeps
  · exact parsed.keeps

theorem keeps_asyncProcessing {current : Current} (authorized : Authorized server current.1 log)
    (outside : Outside) :
    Keeps server log ((CHttp.asyncProcessing server outside current).1.2,
      some (CHttp.asyncProcessing server outside current).1.1.1) := by
  obtain ⟨calls, later⟩ :=
    @CHttp.later_asyncReqHeader server.toSite current.1 (current.2.length + 1) current.2
  have parsed := authorized.later later (CHttp.httpState_asyncReqHeader _ _)
  have ready := parsed.sameHeader (CHttp.sameHeader_asyncReqData
    (current.1.asyncReqHeader server.toSite (current.2.length + 1) current.2).2)
  unfold CHttp.asyncProcessing
  simp only
  split
  · have replied := ready.responseReply outside
    rw [List.append_assoc] at replied
    exact replied.keeps
  · rw [List.append_nil]
    exact ready.keeps

/-- One operation. -/
theorem keeps_operate {current : Current} (authorized : Authorized server current.1 log)
    (operation : Operation) :
    Keeps server log ((operate server current operation).1,
      (operate server current operation).2.map Prod.fst) := by
  cases operation with
  | lineParse text sock outside =>
      have kept := keeps_syncLineParse authorized outside text sock
      simpa only [operate, Option.map_map, Function.comp_def] using kept
  | asyncLineParse text => exact (authorized.lineParse text).keeps
  | wakeup segment outside =>
      exact @keeps_asyncProcessing _ _ (current.1, current.2 ++ segment) authorized outside
  | pushPostData buf =>
      have pushed := (authorized.setHttpStatus (.inl rfl)).pushPostData buf
      rw [← List.append_nil log] at pushed
      exact pushed.keeps
  | response outside =>
      exact ((authorized.setHttpStatus (.inr rfl)).responseReply outside).keeps

/-- A run. -/
theorem gated_trace {current : Current} (authorized : Authorized server current.1 log)
    (operations : List Operation) : Gated server (log ++ trace server current operations) := by
  induction operations generalizing current log with
  | nil =>
      rw [trace, List.append_nil]
      exact authorized.gated
  | cons operation operations ih =>
      have kept := keeps_operate authorized operation
      rw [trace]
      cases left : operate server current operation with | mk events next
      rw [left] at kept
      cases next with
      | none => exact kept.gated
      | some next =>
          have authorized' := kept.authorized next.1 rfl
          simpa only [List.append_assoc] using ih authorized'

/-- However a request is driven, nothing of a response happens before `WWW_Auth` has
accepted an `Authorization` where the site asks for one, and nothing of a tunnel
before it has accepted a `Proxy-Authorization` where the proxy does. -/
theorem gated_run (server : Server) (keepAlive : Bool) (metaVars : StringMap)
    (operations : List Operation) :
    Gated server (trace server (CHttp.new (.new keepAlive metaVars), []) operations) := by
  have new : Authorized server (CHttp.new (.new keepAlive metaVars)) [] :=
    authorized_new server _ ⟨rfl, rfl⟩
  exact @gated_trace server [] (CHttp.new (.new keepAlive metaVars), []) new operations

/-- A document behind credentials, and none without them. -/
example :
    let server : Server :=
      ⟨⟨false, [], fun _ _ _ _ => ⟨true, [], []⟩⟩, .basic, .basic, true, true, []⟩
    let outside : Outside := ⟨fun _ => false, fun _ => false, true, true⟩
    let run (lines : List UInt8) : List Event :=
      trace server (CHttp.new (.new true []), []) [.asyncLineParse lines, .response outside]
    run (General.octets "Authorization: Basic a\n\n") =
        [.wwwAuth ⟨false, true⟩, .document] ∧
      run (General.octets "Proxy-Authorization: Basic a\n\n") =
        [.wwwAuth ⟨true, true⟩, .answer 401 (some ("WWW-Authenticate", .basic))] := by
  decide +kernel

end Runs

end Http1

end HeapHttpd
