import HeapHttpd.Sessions.KeepAlive

/-!
# Events that close once

What links the lists of a session group to its objects and descriptors, and that orderly
events keep these links: then no descriptor is closed twice, no deleted object is used,
and nothing refers to a closed descriptor.
-/

namespace HeapHttpd

namespace Sessions

open Http1 (HttpConnection)
open Replay (Throughout)

/-- A tunneling that exists has a backend. -/
def Tunneling.Holds (tunneling : Tunneling) (sockfd : Nat) : Prop :=
  tunneling.deleted = false ∧ tunneling.backendSockfd = some sockfd

/-- A session has a tunneling, itself or by its protocol object. -/
def ClientSession.Refers (session : ClientSession) (tunneling : Nat) : Prop :=
  session.protocol.join = some tunneling ∨ session.httpTunneling = some tunneling

/-- The links between sessions, their list and their tunnelings. -/
structure Owning (group : Group) : Prop where
  filed : group.Filed
  listed : ∀ sockfd index, group.sessionList sockfd = some index →
    (group.sessions index).deleted = false
  fresh : ∀ index, group.sessionCount ≤ index → ∀ tunneling,
    ¬ (group.sessions index).Refers tunneling
  exist : ∀ index tunneling, (group.sessions index).Refers tunneling →
    tunneling < group.tunnelingCount ∧ (group.tunnelings tunneling).deleted = false
  owned : ∀ index tunneling, (group.sessions index).Refers tunneling →
    (group.tunnelings tunneling).session = index
  agree : ∀ index protocol, (group.sessions index).protocol = some protocol →
    (group.sessions index).httpTunneling = none ∨
      (group.sessions index).httpTunneling = protocol

/-- The links between lists, objects and descriptors. -/
structure Linked (group : Group) : Prop extends Owning group where
  closes : group.closedTwice = false
  uses : group.usedDeleted = false
  registered : ∀ sockfd index, group.backendList sockfd = some index →
    (group.tunnelings index).Holds sockfd
  isOpen : ∀ index sockfd, (group.tunnelings index).Holds sockfd → group.isOpen sockfd = true
  unlisted : ∀ index sockfd, (group.tunnelings index).Holds sockfd →
    group.sessionList sockfd = none
  apart : ∀ first second sockfd, (group.tunnelings first).Holds sockfd →
    (group.tunnelings second).Holds sockfd → first = second
  created : ∀ index sockfd, (group.tunnelings index).Holds sockfd →
    index < group.tunnelingCount

/-- The descriptors of listed sessions are open. -/
def Opened (group : Group) : Prop :=
  ∀ sockfd index, group.sessionList sockfd = some index → group.isOpen sockfd = true

theorem linked_new : Linked .new := by
  have nothing (index sockfd : Nat) : ¬ (Group.new.tunnelings index).Holds sockfd := by
    rintro ⟨-, backend⟩
    cases backend
  have noReference (index tunneling : Nat) : ¬ (Group.new.sessions index).Refers tunneling := by
    rintro (protocol | own)
    · cases protocol
    · cases own
  exact
    { closes := rfl
      uses := rfl
      filed := filed_new
      listed := fun _ _ absent => by cases absent
      registered := fun _ _ absent => by cases absent
      isOpen := fun index sockfd holds => (nothing index sockfd holds).elim
      unlisted := fun _ _ _ => rfl
      apart := fun first _ sockfd holds _ => (nothing first sockfd holds).elim
      created := fun index sockfd holds => (nothing index sockfd holds).elim
      fresh := fun index _ => noReference index
      exist := fun index tunneling refers => (noReference index tunneling refers).elim
      owned := fun index tunneling refers => (noReference index tunneling refers).elim
      agree := fun _ _ absent => by cases absent }

theorem safe_of_linked {group : Group} (linked : Linked group) (opened : Opened group) :
    Safe group :=
  { closes := linked.closes
    uses := linked.uses
    sessions := opened
    backends := fun sockfd index registered =>
      linked.isOpen index sockfd (linked.registered sockfd index registered)
    tunnelings := fun index there sockfd backend =>
      linked.isOpen index sockfd ⟨there, backend⟩ }

namespace Group

/-- What changes of tunnelings leaves the sessions what they own. -/
theorem owning_of_clients {group next : Group} (owning : Owning group)
    (clients : next.clients = group.clients)
    (count : next.tunnelingCount = group.tunnelingCount)
    (deleted : ∀ session tunneling, (group.sessions session).Refers tunneling →
      (next.tunnelings tunneling).deleted = false)
    (session : ∀ tunneling,
      (next.tunnelings tunneling).session = (group.tunnelings tunneling).session) :
    Owning next := by
  have sameSessions := sessions_of_clients clients
  exact
    { filed := filed_of_clients owning.filed clients
      listed := by
        rw [sessionList_of_clients clients, sameSessions]
        exact owning.listed
      fresh := by
        rw [sameSessions, sessionCount_of_clients clients]
        exact owning.fresh
      exist := by
        intro index tunneling refers
        rw [sameSessions] at refers
        rw [count]
        exact ⟨(owning.exist index tunneling refers).1, deleted index tunneling refers⟩
      owned := by
        intro index tunneling refers
        rw [sameSessions] at refers
        rw [session]
        exact owning.owned index tunneling refers
      agree := by
        rw [sameSessions]
        exact owning.agree }

/-! ## The backend of a tunneling is closed -/

/-- What closing the backend of a tunneling changes. -/
structure Unlinks (index : Nat) (group next : Group) : Prop where
  clients : next.clients = group.clients
  count : next.tunnelingCount = group.tunnelingCount
  closes : next.closedTwice = group.closedTwice
  uses : next.usedDeleted = group.usedDeleted
  others : ∀ other, other ≠ index → next.tunnelings other = group.tunnelings other
  backend : (next.tunnelings index).backendSockfd = none
  session : (next.tunnelings index).session = (group.tunnelings index).session
  held : ∀ sockfd, (group.tunnelings index).backendSockfd = some sockfd →
    next.backendList sockfd = none
  isOpen : ∀ sockfd, (group.tunnelings index).backendSockfd ≠ some sockfd →
    next.isOpen sockfd = group.isOpen sockfd
  backendList : ∀ sockfd, (group.tunnelings index).backendSockfd ≠ some sockfd →
    next.backendList sockfd = group.backendList sockfd

section Unlinks

variable {group next : Group} {index : Nat}

/-- A backend that another tunneling has is not the one that is closed. -/
theorem Unlinks.holds (unlinks : Unlinks index group next) {other sockfd : Nat}
    (holds : (next.tunnelings other).Holds sockfd) :
    other ≠ index ∧ (group.tunnelings other).Holds sockfd := by
  have differs : other ≠ index := by
    rintro rfl
    have absent := unlinks.backend.symm.trans holds.2
    cases absent
  rw [unlinks.others other differs] at holds
  exact ⟨differs, holds⟩

theorem Unlinks.opened (unlinks : Unlinks index group next) (linked : Linked group)
    (there : (group.tunnelings index).deleted = false) (opened : Opened group) :
    Opened next := by
  intro sockfd here listed
  rw [sessionList_of_clients unlinks.clients] at listed
  rw [unlinks.isOpen sockfd]
  · exact opened sockfd here listed
  · intro backend
    have absent := linked.unlisted index sockfd ⟨there, backend⟩
    exact Option.some_ne_none here (listed.symm.trans absent)

theorem linked_of_unlinks (linked : Linked group) (unlinks : Unlinks index group next)
    (there : (group.tunnelings index).deleted = false)
    (kept : ∀ session, (group.sessions session).Refers index →
      (next.tunnelings index).deleted = false) : Linked next := by
  have sameList := sessionList_of_clients unlinks.clients
  have elsewhere {other sockfd : Nat} (holds : (group.tunnelings other).Holds sockfd)
      (differs : other ≠ index) : (group.tunnelings index).backendSockfd ≠ some sockfd :=
    fun backend => differs (linked.apart other index sockfd holds ⟨there, backend⟩)
  have session (other : Nat) :
      (next.tunnelings other).session = (group.tunnelings other).session := by
    by_cases same : other = index
    · subst same
      exact unlinks.session
    · rw [unlinks.others other same]
  have owning : Owning next := owning_of_clients linked.toOwning unlinks.clients unlinks.count
    (by
      intro owner other refers
      by_cases same : other = index
      · subst same
        exact kept owner refers
      · rw [unlinks.others other same]
        exact (linked.exist owner other refers).2) session
  exact
    { owning with
      closes := unlinks.closes.trans linked.closes
      uses := unlinks.uses.trans linked.uses
      registered := by
        intro sockfd other registered
        have notHeld : (group.tunnelings index).backendSockfd ≠ some sockfd := by
          intro backend
          rw [unlinks.held sockfd backend] at registered
          cases registered
        rw [unlinks.backendList sockfd notHeld] at registered
        have holds := linked.registered sockfd other registered
        have differs : other ≠ index := by
          rintro rfl
          exact notHeld holds.2
        rw [unlinks.others other differs]
        exact holds
      isOpen := by
        intro other sockfd holds
        obtain ⟨differs, before⟩ := unlinks.holds holds
        rw [unlinks.isOpen sockfd (elsewhere before differs)]
        exact linked.isOpen other sockfd before
      unlisted := by
        intro other sockfd holds
        rw [sameList]
        exact linked.unlisted other sockfd (unlinks.holds holds).2
      apart := fun first second sockfd ofFirst ofSecond =>
        linked.apart first second sockfd (unlinks.holds ofFirst).2 (unlinks.holds ofSecond).2
      created := by
        intro other sockfd holds
        rw [unlinks.count]
        exact linked.created other sockfd (unlinks.holds holds).2 }

theorem backendClose_none (backend : (group.tunnelings index).backendSockfd = none) :
    group.backendClose index =
      group.setTunneling index { group.tunnelings index with backendSockfd := none } := by
  simp [backendClose, removeBackendSession, closeSome, backend]

theorem backendClose_some {sockfd : Nat}
    (backend : (group.tunnelings index).backendSockfd = some sockfd)
    (isOpen : group.isOpen sockfd = true) :
    group.backendClose index =
      { group with
        backendList := Function.update group.backendList sockfd none
        isOpen := Function.update group.isOpen sockfd false
        tunnelings := Function.update group.tunnelings index
          { group.tunnelings index with backendSockfd := none } } := by
  simp [backendClose, removeBackendSession, closeSome, closeFd, setTunneling, backend, isOpen]

theorem backendClose_unlinks (linked : Linked group)
    (there : (group.tunnelings index).deleted = false) :
    Unlinks index group (group.backendClose index) ∧
      ((group.backendClose index).tunnelings index).deleted = false := by
  cases backend : (group.tunnelings index).backendSockfd with
  | none =>
      rw [backendClose_none backend]
      have self : ((group.setTunneling index
          { group.tunnelings index with backendSockfd := none }).tunnelings index) =
          { group.tunnelings index with backendSockfd := none } :=
        Function.update_self _ _ _
      refine ⟨?_, by rw [self]; exact there⟩
      exact
        { clients := rfl
          count := rfl
          closes := rfl
          uses := rfl
          others := fun _ differs => Function.update_of_ne differs _ _
          backend := by rw [self]
          session := by rw [self]
          held := fun sockfd held => by rw [backend] at held; cases held
          isOpen := fun _ _ => rfl
          backendList := fun _ _ => rfl }
  | some sockfd =>
      rw [backendClose_some backend (linked.isOpen index sockfd ⟨there, backend⟩)]
      have other {here : Nat}
          (differs : (group.tunnelings index).backendSockfd ≠ some here) : here ≠ sockfd := by
        rintro rfl
        exact differs backend
      refine ⟨?_, by simp [there]⟩
      exact
        { clients := rfl
          count := rfl
          closes := rfl
          uses := rfl
          others := fun _ differs => Function.update_of_ne differs _ _
          backend := by simp
          session := by simp
          held := fun here held => by
            obtain rfl : sockfd = here := Option.some.inj (backend.symm.trans held)
            exact Function.update_self _ _ _
          isOpen := fun _ differs => Function.update_of_ne (other differs) _ _
          backendList := fun _ differs => Function.update_of_ne (other differs) _ _ }

/-- A tunneling of which only the marks change. -/
theorem Unlinks.setTunneling (unlinks : Unlinks index group next) {tunneling : Tunneling}
    (backend : tunneling.backendSockfd = none)
    (session : tunneling.session = (next.tunnelings index).session) :
    Unlinks index group (next.setTunneling index tunneling) := by
  have self : (next.setTunneling index tunneling).tunnelings index = tunneling :=
    Function.update_self _ _ _
  exact
    { clients := unlinks.clients
      count := unlinks.count
      closes := unlinks.closes
      uses := unlinks.uses
      others := fun other differs =>
        (Function.update_of_ne differs _ _).trans (unlinks.others other differs)
      backend := by rw [self, backend]
      session := by rw [self, session, unlinks.session]
      held := unlinks.held
      isOpen := unlinks.isOpen
      backendList := unlinks.backendList }

theorem useTunneling_of_exists (there : (group.tunnelings index).deleted = false) :
    group.useTunneling index = group := by
  rw [useTunneling, there, if_neg Bool.false_ne_true]

theorem deleteTunneling_unlinks (linked : Linked group)
    (there : (group.tunnelings index).deleted = false) :
    Unlinks index group (group.deleteTunneling index) := by
  obtain ⟨unlinks, -⟩ := backendClose_unlinks linked there
  rw [deleteTunneling, useTunneling_of_exists there]
  exact unlinks.setTunneling unlinks.backend rfl

end Unlinks

/-! ## A backend is connected -/

/-- A new descriptor becomes the backend of a tunneling that has none. -/
structure Links (index sockfd : Nat) (group next : Group) : Prop where
  clients : next.clients = group.clients
  count : next.tunnelingCount = group.tunnelingCount
  closes : next.closedTwice = group.closedTwice
  uses : next.usedDeleted = group.usedDeleted
  others : ∀ other, other ≠ index → next.tunnelings other = group.tunnelings other
  self : next.tunnelings index = { group.tunnelings index with backendSockfd := some sockfd }
  isOpen : next.isOpen = Function.update group.isOpen sockfd true
  backendList : ∀ here other, next.backendList here = some other →
    group.backendList here = some other ∨ here = sockfd ∧ other = index

section Links

variable {group next : Group} {index sockfd : Nat}

theorem connectBackend_links (closed : group.isOpen sockfd = false) (registered : Bool) :
    Links index sockfd group (group.connectBackend index sockfd registered) := by
  have notOpen : ¬ group.isOpen sockfd = true := by simp [closed]
  simp only [connectBackend, if_neg notOpen]
  split
  · exact
      { clients := rfl
        count := rfl
        closes := rfl
        uses := rfl
        others := fun _ differs => Function.update_of_ne differs _ _
        self := Function.update_self _ _ _
        isOpen := rfl
        backendList := by
          intro here other listed
          by_cases same : here = sockfd
          · subst same
            have listed : Function.update group.backendList here (some index) here = some other :=
              listed
            rw [Function.update_self] at listed
            exact .inr ⟨rfl, (Option.some.inj listed).symm⟩
          · exact .inl ((Function.update_of_ne same _ _).symm.trans listed) }
  · exact
      { clients := rfl
        count := rfl
        closes := rfl
        uses := rfl
        others := fun _ differs => Function.update_of_ne differs _ _
        self := Function.update_self _ _ _
        isOpen := rfl
        backendList := fun _ _ listed => .inl listed }

theorem Links.holds (links : Links index sockfd group next) {other here : Nat}
    (holds : (next.tunnelings other).Holds here) :
    (group.tunnelings other).Holds here ∨ here = sockfd ∧ other = index := by
  by_cases same : other = index
  · subst same
    rw [links.self] at holds
    exact .inr ⟨(Option.some.inj holds.2).symm, rfl⟩
  · rw [links.others other same] at holds
    exact .inl holds

theorem Links.deleted (links : Links index sockfd group next) (other : Nat) :
    (next.tunnelings other).deleted = (group.tunnelings other).deleted := by
  by_cases same : other = index
  · subst same
    rw [links.self]
  · rw [links.others other same]

theorem Links.session (links : Links index sockfd group next) (other : Nat) :
    (next.tunnelings other).session = (group.tunnelings other).session := by
  by_cases same : other = index
  · subst same
    rw [links.self]
  · rw [links.others other same]

theorem Links.opened (links : Links index sockfd group next) (opened : Opened group) :
    Opened next := by
  intro here other listed
  rw [sessionList_of_clients links.clients] at listed
  rw [links.isOpen]
  by_cases same : here = sockfd
  · subst same
    exact Function.update_self _ _ _
  · rw [Function.update_of_ne same]
    exact opened here other listed

theorem linked_of_links (linked : Linked group) (opened : Opened group)
    (links : Links index sockfd group next) (closed : group.isOpen sockfd = false)
    (there : (group.tunnelings index).deleted = false) (created : index < group.tunnelingCount)
    (backend : (group.tunnelings index).backendSockfd = none) : Linked next := by
  have sameList := sessionList_of_clients links.clients
  -- Nothing that there was has the new descriptor.
  have unheld {other : Nat} : ¬ (group.tunnelings other).Holds sockfd := by
    intro holds
    have isOpen := linked.isOpen other sockfd holds
    rw [closed] at isOpen
    cases isOpen
  have unlisted : group.sessionList sockfd = none := by
    cases listed : group.sessionList sockfd with
    | none => rfl
    | some here =>
        have isOpen := opened sockfd here listed
        rw [closed] at isOpen
        cases isOpen
  have kept {other here : Nat} (holds : (group.tunnelings other).Holds here) :
      (next.tunnelings other).Holds here := by
    have differs : other ≠ index := by
      rintro rfl
      have absent := backend.symm.trans holds.2
      cases absent
    rw [links.others other differs]
    exact holds
  have owning : Owning next := owning_of_clients linked.toOwning links.clients links.count
    (fun owner other refers => (links.deleted other).trans (linked.exist owner other refers).2)
    links.session
  exact
    { owning with
      closes := links.closes.trans linked.closes
      uses := links.uses.trans linked.uses
      registered := by
        intro here other registered
        rcases links.backendList here other registered with before | ⟨rfl, rfl⟩
        · exact kept (linked.registered here other before)
        · rw [links.self]
          exact ⟨there, rfl⟩
      isOpen := by
        intro other here holds
        rw [links.isOpen]
        rcases links.holds holds with before | ⟨rfl, -⟩
        · have differs : here ≠ sockfd := by
            rintro rfl
            exact unheld before
          rw [Function.update_of_ne differs]
          exact linked.isOpen other here before
        · exact Function.update_self _ _ _
      unlisted := by
        intro other here holds
        rw [sameList]
        rcases links.holds holds with before | ⟨rfl, -⟩
        · exact linked.unlisted other here before
        · exact unlisted
      apart := by
        intro first second here ofFirst ofSecond
        rcases links.holds ofFirst with beforeFirst | ⟨rfl, isFirst⟩
        · rcases links.holds ofSecond with beforeSecond | ⟨rfl, -⟩
          · exact linked.apart first second here beforeFirst beforeSecond
          · exact (unheld beforeFirst).elim
        · rcases links.holds ofSecond with beforeSecond | ⟨-, isSecond⟩
          · exact (unheld beforeSecond).elim
          · exact isFirst.trans isSecond.symm
      created := by
        intro other here holds
        rw [links.count]
        rcases links.holds holds with before | ⟨-, rfl⟩
        · exact linked.created other here before
        · exact created }

end Links

/-! ## What a tunneling does -/

section Acts

variable {group : Group} {index : Nat}

/-- A tunneling that exists, in linked lists. -/
structure Ready (index : Nat) (group : Group) : Prop where
  linked : Linked group
  opened : Opened group
  created : index < group.tunnelingCount
  there : (group.tunnelings index).deleted = false

theorem connectBackend_ready (ready : Ready index group)
    (backend : (group.tunnelings index).backendSockfd = none) (sockfd : Nat)
    (registered : Bool) : Ready index (group.connectBackend index sockfd registered) := by
  cases isOpen : group.isOpen sockfd with
  | true =>
      rw [connectBackend, if_pos isOpen]
      exact ready
  | false =>
      have links := @connectBackend_links group index sockfd isOpen registered
      exact
        { linked := linked_of_links ready.linked ready.opened links isOpen ready.there
            ready.created backend
          opened := links.opened ready.opened
          created := by rw [links.count]; exact ready.created
          there := by rw [links.deleted]; exact ready.there }

theorem backendClose_ready (ready : Ready index group) :
    Ready index (group.backendClose index) ∧
      ((group.backendClose index).tunnelings index).backendSockfd = none := by
  obtain ⟨unlinks, there⟩ := backendClose_unlinks ready.linked ready.there
  refine ⟨?_, unlinks.backend⟩
  exact
    { linked := linked_of_unlinks ready.linked unlinks ready.there fun _ _ => there
      opened := unlinks.opened ready.linked ready.there ready.opened
      created := by rw [unlinks.count]; exact ready.created
      there }

/-- A tunneling that connects only without a backend keeps the links. -/
theorem acts_ready (ready : Ready index group) {connected : Bool} {acts : List TunnelingAct}
    (connects : Connects connected acts)
    (backend : connected = false → (group.tunnelings index).backendSockfd = none) :
    Ready index (acts.foldl (act index) group) := by
  induction acts generalizing group connected with
  | nil => exact ready
  | cons first acts ih =>
      cases first with
      | connect sockfd registered =>
          obtain ⟨notConnected, later⟩ := connects
          exact ih (connectBackend_ready ready (backend notConnected) sockfd registered) later
            fun impossible => by cases impossible
      | backendClose =>
          obtain ⟨closed, none⟩ := backendClose_ready ready
          exact ih closed connects fun _ => none
      | forceClose => exact connects.elim

end Acts

/-! ## Marks of tunnelings -/

/-- Only marks of tunnelings change that no link depends on. -/
structure SameLinks (group next : Group) : Prop where
  clients : next.clients = group.clients
  count : next.tunnelingCount = group.tunnelingCount
  closes : next.closedTwice = group.closedTwice
  uses : next.usedDeleted = group.usedDeleted
  backendList : next.backendList = group.backendList
  isOpen : next.isOpen = group.isOpen
  deleted : ∀ index, (next.tunnelings index).deleted = (group.tunnelings index).deleted
  backend : ∀ index,
    (next.tunnelings index).backendSockfd = (group.tunnelings index).backendSockfd
  session : ∀ index, (next.tunnelings index).session = (group.tunnelings index).session

section SameLinks

variable {group next : Group}

theorem SameLinks.refl (group : Group) : SameLinks group group :=
  ⟨rfl, rfl, rfl, rfl, rfl, rfl, fun _ => rfl, fun _ => rfl, fun _ => rfl⟩

theorem SameLinks.opened (same : SameLinks group next) (opened : Opened group) :
    Opened next := by
  intro sockfd index listed
  rw [sessionList_of_clients same.clients] at listed
  rw [same.isOpen]
  exact opened sockfd index listed

theorem linked_of_same (linked : Linked group) (same : SameLinks group next) : Linked next := by
  have sameList := sessionList_of_clients same.clients
  have holds (index sockfd : Nat) :
      (next.tunnelings index).Holds sockfd ↔ (group.tunnelings index).Holds sockfd := by
    rw [Tunneling.Holds, Tunneling.Holds, same.deleted, same.backend]
  have owning : Owning next := owning_of_clients linked.toOwning same.clients same.count
    (fun owner other refers => (same.deleted other).trans (linked.exist owner other refers).2)
    same.session
  exact
    { owning with
      closes := same.closes.trans linked.closes
      uses := same.uses.trans linked.uses
      registered := by
        intro sockfd index registered
        rw [same.backendList] at registered
        exact (holds index sockfd).mpr (linked.registered sockfd index registered)
      isOpen := by
        intro index sockfd held
        rw [same.isOpen]
        exact linked.isOpen index sockfd ((holds index sockfd).mp held)
      unlisted := by
        intro index sockfd held
        rw [sameList]
        exact linked.unlisted index sockfd ((holds index sockfd).mp held)
      apart := fun first second sockfd ofFirst ofSecond =>
        linked.apart first second sockfd ((holds first sockfd).mp ofFirst)
          ((holds second sockfd).mp ofSecond)
      created := by
        intro index sockfd held
        rw [same.count]
        exact linked.created index sockfd ((holds index sockfd).mp held) }

theorem attached_same (index : Nat) (attached : Bool) :
    SameLinks group
      (group.setTunneling index { group.tunnelings index with attached := attached }) := by
  have self : (group.setTunneling index
      { group.tunnelings index with attached := attached }).tunnelings index =
        { group.tunnelings index with attached := attached } := Function.update_self _ _ _
  have others {other : Nat} (differs : other ≠ index) : (group.setTunneling index
      { group.tunnelings index with attached := attached }).tunnelings other =
        group.tunnelings other := Function.update_of_ne differs _ _
  refine ⟨rfl, rfl, rfl, rfl, rfl, rfl, fun other => ?_, fun other => ?_, fun other => ?_⟩
  all_goals
    by_cases same : other = index
    · subst same
      rw [self]
    · rw [others same]

theorem detach_same (tunneling : Option Nat) : SameLinks group (group.detach tunneling) := by
  cases tunneling with
  | none => exact .refl group
  | some index => exact attached_same index false

end SameLinks

/-! ## Sessions -/

section Sessions

variable {group : Group} {index sockfd : Nat} {session : ClientSession}

/-- What a session may become. -/
structure Becomes (group : Group) (index : Nat) (session : ClientSession) : Prop where
  created : index < group.sessionCount
  sockfd : session.sockfd = (group.sessions index).sockfd
  deleted : ∀ sockfd, group.sessionList sockfd = some index → session.deleted = false
  refers : ∀ tunneling, session.Refers tunneling →
    tunneling < group.tunnelingCount ∧ (group.tunnelings tunneling).deleted = false ∧
      (group.tunnelings tunneling).session = index
  agree : ∀ protocol, session.protocol = some protocol →
    session.httpTunneling = none ∨ session.httpTunneling = protocol

theorem setSession_linked (linked : Linked group) (becomes : Becomes group index session) :
    Linked (group.setSession index session) := by
  have self : (group.setSession index session).sessions index = session :=
    Function.update_self _ _ _
  have others {other : Nat} (differs : other ≠ index) :
      (group.setSession index session).sessions other = group.sessions other :=
    Function.update_of_ne differs _ _
  exact
    { closes := linked.closes
      uses := linked.uses
      filed := filed_of_only linked.filed (setSession_only becomes.sockfd)
      listed := by
        intro here other listed
        by_cases same : other = index
        · subst same
          rw [self]
          exact becomes.deleted here listed
        · rw [others same]
          exact linked.listed here other listed
      registered := linked.registered
      isOpen := linked.isOpen
      unlisted := linked.unlisted
      apart := linked.apart
      created := linked.created
      fresh := by
        intro other late tunneling
        have differs : other ≠ index := fun same =>
          Nat.not_le.mpr becomes.created (same ▸ late)
        rw [others differs]
        exact linked.fresh other late tunneling
      exist := by
        intro other tunneling refers
        by_cases same : other = index
        · subst same
          rw [self] at refers
          obtain ⟨inCount, there, -⟩ := becomes.refers tunneling refers
          exact ⟨inCount, there⟩
        · rw [others same] at refers
          exact linked.exist other tunneling refers
      owned := by
        intro other tunneling refers
        by_cases same : other = index
        · subst same
          rw [self] at refers
          exact (becomes.refers tunneling refers).2.2
        · rw [others same] at refers
          exact linked.owned other tunneling refers
      agree := by
        intro other protocol here
        by_cases same : other = index
        · subst same
          rw [self] at here ⊢
          exact becomes.agree protocol here
        · rw [others same] at here ⊢
          exact linked.agree other protocol here }

theorem setSession_opened (opened : Opened group) : Opened (group.setSession index session) :=
  opened

/-- What a session refers to is its own. -/
theorem refers_of_linked (linked : Linked group) {tunneling : Nat}
    (refers : (group.sessions index).Refers tunneling) :
    tunneling < group.tunnelingCount ∧ (group.tunnelings tunneling).deleted = false ∧
      (group.tunnelings tunneling).session = index :=
  ⟨(linked.exist index tunneling refers).1, (linked.exist index tunneling refers).2,
    linked.owned index tunneling refers⟩

/-- A request completes. -/
theorem complete_linked (linked : Linked group) (opened : Opened group)
    (listed : group.sessionList sockfd = some index) (setting : KeepAliveSetting)
    (result : HttpConnection) (now : Int) :
    Linked (group.complete setting index result now).1 ∧
      Opened (group.complete setting index result now).1 := by
  have same := @detach_same group (group.sessions index).protocol.join
  have detached := linked_of_same linked same
  refine ⟨setSession_linked detached ?_, setSession_opened (same.opened opened)⟩
  have sameSessions := sessions_of_clients same.clients
  have refers (tunneling : Nat)
      (own : (group.sessions index).protocol.join = some tunneling) :
      ((group.detach (group.sessions index).protocol.join).sessions index).Refers tunneling := by
    rw [sameSessions]
    exact .inl own
  exact
    { created := by
        rw [sessionCount_of_clients same.clients]
        exact (linked.filed sockfd index listed).1
      sockfd := by rw [sameSessions]
      deleted := fun _ _ => linked.listed sockfd index listed
      refers := by
        rintro tunneling (absent | own)
        · cases absent
        · exact refers_of_linked detached (refers tunneling own)
      agree := fun _ absent => by cases absent }

/-- The tunneling that a session creates. -/
def newTunneling (index : Nat) (group : Group) : Tunneling :=
  { session := index, clientSockfd := some (group.sessions index).sockfd, backendSockfd := none,
    attached := true, deleted := false }

/-- A group with a tunneling more. -/
def withTunneling (index : Nat) (group : Group) : Group :=
  { group with tunnelingCount := group.tunnelingCount + 1 }.setTunneling group.tunnelingCount
    (group.newTunneling index)

theorem withTunneling_self (index : Nat) (group : Group) :
    (group.withTunneling index).tunnelings group.tunnelingCount = group.newTunneling index :=
  Function.update_self _ _ _

theorem withTunneling_others {other : Nat} (differs : other ≠ group.tunnelingCount) :
    (group.withTunneling index).tunnelings other = group.tunnelings other :=
  Function.update_of_ne differs _ _

theorem withTunneling_linked (linked : Linked group) (index : Nat) :
    Linked (group.withTunneling index) := by
  have holds {other here : Nat}
      (held : ((group.withTunneling index).tunnelings other).Holds here) :
      (group.tunnelings other).Holds here := by
    by_cases same : other = group.tunnelingCount
    · subst same
      rw [withTunneling_self] at held
      cases held.2
    · rw [withTunneling_others same] at held
      exact held
  have older {other : Nat} (created : other < group.tunnelingCount) :
      other ≠ group.tunnelingCount := Nat.ne_of_lt created
  exact
    { closes := linked.closes
      uses := linked.uses
      filed := linked.filed
      listed := linked.listed
      registered := by
        intro here other registered
        have before := linked.registered here other registered
        rw [withTunneling_others (older (linked.created other here before))]
        exact before
      isOpen := fun other here held => linked.isOpen other here (holds held)
      unlisted := fun other here held => linked.unlisted other here (holds held)
      apart := fun first second here ofFirst ofSecond =>
        linked.apart first second here (holds ofFirst) (holds ofSecond)
      created := fun other here held =>
        Nat.lt_succ_of_lt (linked.created other here (holds held))
      fresh := linked.fresh
      exist := by
        intro session other refers
        obtain ⟨created, there⟩ := linked.exist session other refers
        refine ⟨Nat.lt_succ_of_lt created, ?_⟩
        rw [withTunneling_others (older created)]
        exact there
      owned := by
        intro session other refers
        rw [withTunneling_others (older (linked.exist session other refers).1)]
        exact linked.owned session other refers
      agree := linked.agree }

/-- The tunneling of a protocol object exists. -/
theorem tunnelingOf_ready (linked : Linked group) (opened : Opened group)
    (listed : group.sessionList sockfd = some index)
    (hasProtocol : (group.sessions index).protocol.isSome = true) :
    Ready (group.tunnelingOf index).1 (group.tunnelingOf index).2 ∧
      ((group.tunnelingOf index).2.tunnelings (group.tunnelingOf index).1).backendSockfd =
        group.protocolBackend index := by
  obtain ⟨protocol, isProtocol⟩ := Option.isSome_iff_exists.mp hasProtocol
  cases protocol with
  | some tunneling =>
      have join : (group.sessions index).protocol.join = some tunneling := by
        rw [isProtocol]
        rfl
      obtain ⟨created, there⟩ := linked.exist index tunneling (.inl join)
      simp only [tunnelingOf, protocolBackend, join]
      exact ⟨⟨linked, opened, created, there⟩, rfl⟩
  | none =>
      have join : (group.sessions index).protocol.join = none := by
        rw [isProtocol]
        rfl
      have noOwn : (group.sessions index).httpTunneling = none := by
        rcases linked.agree index none isProtocol with absent | absent
        · exact absent
        · exact absent
      have becomes : Becomes (group.withTunneling index) index
          { group.sessions index with protocol := some (some group.tunnelingCount) } :=
        { created := (linked.filed sockfd index listed).1
          sockfd := rfl
          deleted := fun _ _ => linked.listed sockfd index listed
          refers := by
            rintro tunneling (protocol | own)
            · obtain rfl : group.tunnelingCount = tunneling := Option.some.inj protocol
              rw [withTunneling_self]
              exact ⟨Nat.lt_succ_self group.tunnelingCount, rfl, rfl⟩
            · have absent := noOwn.symm.trans own
              cases absent
          agree := fun _ _ => .inl noOwn }
      have created : group.tunnelingOf index = (group.tunnelingCount,
          (group.withTunneling index).setSession index
            { group.sessions index with protocol := some (some group.tunnelingCount) }) := by
        simp only [tunnelingOf, join]
        rfl
      have self : ((group.withTunneling index).setSession index
          { group.sessions index with
            protocol := some (some group.tunnelingCount) }).tunnelings group.tunnelingCount =
          group.newTunneling index := withTunneling_self index group
      simp only [created, protocolBackend, join]
      refine ⟨⟨setSession_linked (withTunneling_linked linked index) becomes, opened,
        Nat.lt_succ_self _, ?_⟩, ?_⟩
      · rw [self]
        rfl
      · rw [self]
        rfl

theorem attached_ready {tunneling : Nat} (ready : Ready tunneling group) (attached : Bool) :
    Ready tunneling (group.setTunneling tunneling
      { group.tunnelings tunneling with attached := attached }) := by
  have same := @attached_same group tunneling attached
  exact
    { linked := linked_of_same ready.linked same
      opened := same.opened ready.opened
      created := ready.created
      there := by rw [same.deleted]; exact ready.there }

/-- A request is processed that connects only without a backend. -/
theorem protocolProcessing_linked (linked : Linked group) (opened : Opened group)
    (listed : group.sessionList sockfd = some index)
    (hasProtocol : (group.sessions index).protocol.isSome = true) {work : ProtocolWork}
    (connects : Connects (group.protocolBackend index).isSome (work.tunneling.getD [])) :
    Linked (group.protocolProcessing index work) ∧
      Opened (group.protocolProcessing index work) := by
  simp only [protocolProcessing]
  cases isActs : work.tunneling with
  | none => exact ⟨linked, opened⟩
  | some acts =>
      rw [isActs] at connects
      obtain ⟨ready, backend⟩ := tunnelingOf_ready linked opened listed hasProtocol
      have attached := attached_ready ready true
      simp only [useTunneling_of_exists ready.there]
      have acted := acts_ready attached connects (by
        intro notConnected
        rw [attached_same _ true |>.backend, backend]
        exact Option.isNone_iff_eq_none.mp (by simpa using notConnected))
      exact ⟨acted.linked, acted.opened⟩

theorem useSession_of_exists (there : (group.sessions index).deleted = false) :
    group.useSession index = group := by
  rw [useSession, there, if_neg Bool.false_ne_true]

/-- A client is served. -/
theorem asyncProcessing_linked (linked : Linked group) (opened : Opened group)
    (listed : group.sessionList sockfd = some index)
    (hasProtocol : (group.sessions index).protocol.isSome = true) {work : ProtocolWork}
    (connects : Connects (group.protocolBackend index).isSome (work.tunneling.getD []))
    (setting : KeepAliveSetting) (now : Int) :
    Linked (group.asyncProcessing setting index work now).1 ∧
      Opened (group.asyncProcessing setting index work now).1 := by
  obtain ⟨protocol, isProtocol⟩ := Option.isSome_iff_exists.mp hasProtocol
  have kept : group.createProtocol index = group := by
    rw [createProtocol]
    simp only [isProtocol]
  obtain ⟨processed, stillOpen⟩ :=
    protocolProcessing_linked linked opened listed hasProtocol connects
  simp only [asyncProcessing, useSession_of_exists (linked.listed sockfd index listed), kept]
  split
  · exact ⟨processed, stillOpen⟩
  · have stillListed : (group.protocolProcessing index work).sessionList sockfd = some index := by
      rw [protocolProcessing_only.list]
      exact listed
    exact complete_linked processed stillOpen stillListed setting work.result now

/-! ### Removing a session -/

/-- A session is deleted and taken off the list, but not its tunneling. -/
def forget (sockfd index : Nat) (group : Group) : Group :=
  { group with
    sessionList := Function.update group.sessionList sockfd none
    sessions := Function.update group.sessions index
      { group.sessions index with protocol := none, httpTunneling := none, deleted := true } }

theorem forget_refers {other tunneling : Nat}
    (refers : ((group.forget sockfd index).sessions other).Refers tunneling) :
    other ≠ index ∧ (group.sessions other).Refers tunneling := by
  by_cases same : other = index
  · subst same
    have self : (group.forget sockfd other).sessions other =
        { group.sessions other with protocol := none, httpTunneling := none, deleted := true } :=
      Function.update_self _ _ _
    rw [self] at refers
    rcases refers with absent | absent
    · cases absent
    · cases absent
  · have others : (group.forget sockfd index).sessions other = group.sessions other :=
      Function.update_of_ne same _ _
    rw [others] at refers
    exact ⟨same, refers⟩

/-- The deletion of a tunneling does not touch sessions. -/
theorem deleteTunneling_forget (tunneling : Nat) :
    (group.forget sockfd index).deleteTunneling tunneling =
      (group.deleteTunneling tunneling).forget sockfd index := by
  cases deleted : (group.tunnelings tunneling).deleted <;>
    cases backend : (group.tunnelings tunneling).backendSockfd with
  | none =>
      simp [deleteTunneling, useTunneling, backendClose, removeBackendSession, closeSome,
        forget, setTunneling, deleted, backend]
  | some here =>
      cases isOpen : group.isOpen here <;>
        simp [deleteTunneling, useTunneling, backendClose, removeBackendSession, closeSome,
          closeFd, forget, setTunneling, deleted, backend, isOpen]

theorem forget_linked (linked : Linked group) (listed : group.sessionList sockfd = some index) :
    Linked (group.forget sockfd index) := by
  obtain ⟨created, own⟩ := linked.filed sockfd index listed
  have shorter {here other : Nat}
      (still : Function.update group.sessionList sockfd none here = some other) :
      here ≠ sockfd ∧ group.sessionList here = some other := by
    by_cases same : here = sockfd
    · subst same
      rw [Function.update_self] at still
      cases still
    · exact ⟨same, (Function.update_of_ne same _ _).symm.trans still⟩
  have unlisted : Linked
      { group with sessionList := Function.update group.sessionList sockfd none } :=
    { linked with
      filed := fun here other still => linked.filed here other (shorter still).2
      listed := fun here other still => linked.listed here other (shorter still).2
      unlisted := by
        intro other here holds
        have before := linked.unlisted other here holds
        by_cases same : here = sockfd
        · subst same
          exact Function.update_self _ _ _
        · exact (Function.update_of_ne same _ _).trans before }
  refine setSession_linked unlisted ?_
  exact
    { created
      sockfd := rfl
      deleted := by
        intro here still
        obtain ⟨differs, before⟩ := shorter still
        exact absurd ((linked.filed here index before).2.symm.trans own) differs
      refers := by
        rintro tunneling (absent | absent)
        · cases absent
        · cases absent
      agree := fun _ absent => by cases absent }

/-- `Remove` of a session without a request on its way to a backend. -/
theorem remove_orderly (linked : Linked group) (listed : group.sessionList sockfd = some index)
    (noBackend : group.protocolBackend index = none) :
    group.remove sockfd =
      match (group.sessions index).httpTunneling with
      | none => (group.detach (group.sessions index).protocol.join).forget sockfd index
      | some tunneling =>
          ((group.detach (group.sessions index).protocol.join).forget sockfd
            index).deleteTunneling tunneling := by
  have kept : group.closeProtocolBackend index = group := by
    rw [closeProtocolBackend]
    cases join : (group.sessions index).protocol.join with
    | none => rfl
    | some tunneling =>
        have there := (linked.exist index tunneling (.inl join)).2
        have absent : (group.tunnelings tunneling).backendSockfd = none := by
          rw [protocolBackend, join] at noBackend
          exact noBackend
        simp only [useTunneling_of_exists there, absent]
  have sameSessions :=
    sessions_of_clients (detach_clients group (group.sessions index).protocol.join)
  simp only [remove, listed, useSession_of_exists (linked.listed sockfd index listed), kept,
    deleteSession]
  cases (group.sessions index).httpTunneling with
  | none => simp only [forget, setSession, sameSessions]
  | some tunneling =>
      show _ = deleteTunneling tunneling (forget sockfd index _)
      rw [deleteTunneling_forget]
      simp only [forget, setSession, sessions_of_clients (deleteTunneling_clients _ _),
        sameSessions]

/-- What is left behind `Remove`. -/
structure Removed (sockfd : Nat) (group next : Group) : Prop where
  linked : Linked next
  opened : Opened next
  unlisted : next.sessionList sockfd = none
  isOpen : ∀ here other, group.sessionList here = some other →
    next.isOpen here = group.isOpen here
  holds : ∀ tunneling here, (next.tunnelings tunneling).Holds here →
    (group.tunnelings tunneling).Holds here

theorem remove_removed (linked : Linked group)
    (opened : ∀ here other, here ≠ sockfd → group.sessionList here = some other →
      group.isOpen here = true)
    (listed : group.sessionList sockfd = some index)
    (noBackend : group.protocolBackend index = none) :
    Removed sockfd group (group.remove sockfd) := by
  rw [remove_orderly linked listed noBackend]
  have same := @detach_same group (group.sessions index).protocol.join
  have detached := linked_of_same linked same
  have holds (tunneling here : Nat)
      (held : ((group.detach (group.sessions index).protocol.join).tunnelings
        tunneling).Holds here) : (group.tunnelings tunneling).Holds here :=
    ⟨(same.deleted tunneling).symm.trans held.1, (same.backend tunneling).symm.trans held.2⟩
  have sameSessions := sessions_of_clients same.clients
  have sameList := sessionList_of_clients same.clients
  have sameOpen := same.isOpen
  rw [← sameList] at listed opened
  generalize group.detach (group.sessions index).protocol.join = base at *
  have forgotten := forget_linked detached listed
  have stillOpened : Opened (base.forget sockfd index) := by
    intro here other still
    by_cases isHere : here = sockfd
    · subst isHere
      have absent : (base.forget here index).sessionList here = none :=
        Function.update_self _ _ _
      exact (Option.some_ne_none other (still.symm.trans absent)).elim
    · have before : base.sessionList here = some other :=
        (Function.update_of_ne isHere _ _).symm.trans still
      exact (congrFun sameOpen here).trans (opened here other isHere before)
  have unlisted : (base.forget sockfd index).sessionList sockfd = none :=
    Function.update_self _ _ _
  cases own : (group.sessions index).httpTunneling with
  | none =>
      exact
        { linked := forgotten
          opened := stillOpened
          unlisted
          isOpen := fun here _ _ => congrFun sameOpen here
          holds }
  | some tunneling =>
      have ofIndex : (base.sessions index).Refers tunneling := by
        rw [sameSessions]
        exact .inr own
      have there : ((base.forget sockfd index).tunnelings tunneling).deleted = false :=
        (detached.exist index tunneling ofIndex).2
      have unlinks := deleteTunneling_unlinks forgotten there
      have unowned (other : Nat) :
          ¬ ((base.forget sockfd index).sessions other).Refers tunneling := by
        intro refers
        obtain ⟨differs, before⟩ := forget_refers refers
        exact differs ((detached.owned other tunneling before).symm.trans
          (detached.owned index tunneling ofIndex))
      exact
        { linked := linked_of_unlinks forgotten unlinks there fun other refers =>
            (unowned other refers).elim
          opened := unlinks.opened forgotten there stillOpened
          unlisted := by
            rw [sessionList_of_clients unlinks.clients]
            exact unlisted
          isOpen := by
            intro here other before
            rw [unlinks.isOpen here]
            · exact congrFun sameOpen here
            · intro backend
              have absent := detached.unlisted tunneling here ⟨there, backend⟩
              rw [sameList, before] at absent
              cases absent
          holds := fun other here held => holds other here (unlinks.holds held).2 }

end Sessions

/-! ## Events -/

section Events

variable {group : Group} {sockfd : Nat}

/-- A descriptor is closed that is no backend. -/
theorem closeFd_linked (linked : Linked group) (isOpen : group.isOpen sockfd = true)
    (unheld : ∀ index, ¬ (group.tunnelings index).Holds sockfd) :
    Linked (group.closeFd sockfd) := by
  rw [closeFd, if_pos isOpen]
  exact
    { linked with
      isOpen := by
        intro index here holds
        have differs : here ≠ sockfd := by
          rintro rfl
          exact unheld index holds
        exact (Function.update_of_ne differs _ _).trans (linked.isOpen index here holds) }

theorem closeFd_isOpen {here : Nat} (differs : here ≠ sockfd) :
    (group.closeFd sockfd).isOpen here = group.isOpen here := by
  unfold closeFd
  split
  · exact Function.update_of_ne differs _ _
  · rfl

theorem closeFd_tunnelings : (group.closeFd sockfd).tunnelings = group.tunnelings := by
  unfold closeFd
  split <;> rfl

/-- A listed descriptor is no backend. -/
theorem unheld_of_listed (linked : Linked group) {session : Nat}
    (listed : group.sessionList sockfd = some session) (index : Nat) :
    ¬ (group.tunnelings index).Holds sockfd := by
  intro holds
  have absent := linked.unlisted index sockfd holds
  exact Option.some_ne_none session (listed.symm.trans absent)

/-- The session of a new client. -/
def newSession (setting : KeepAliveSetting) (sockfd : Nat) (now : Int) : ClientSession :=
  { sockfd, protocol := some none, httpTunneling := none, tickets := setting.max,
    firstRequestTime := now, deleted := false }

/-- A group with a client more. -/
def withClient (setting : KeepAliveSetting) (sockfd : Nat) (now : Int) (group : Group) : Group :=
  { group with
    isOpen := Function.update group.isOpen sockfd true
    sessionList := Function.update group.sessionList sockfd (some group.sessionCount)
    sessions := Function.update group.sessions group.sessionCount
      (newSession setting sockfd now)
    sessionCount := group.sessionCount + 1 }

theorem append_new (setting : KeepAliveSetting) (now : Int) (closed : group.isOpen sockfd = false) :
    group.append setting sockfd now = group.withClient setting sockfd now := by
  rw [append, closed, if_neg Bool.false_ne_true]
  rfl

section WithClient

variable (setting : KeepAliveSetting) (now : Int) {here index : Nat}

theorem withClient_session : (group.withClient setting sockfd now).sessions group.sessionCount =
    newSession setting sockfd now :=
  Function.update_self _ _ _

theorem withClient_sessions (differs : index ≠ group.sessionCount) :
    (group.withClient setting sockfd now).sessions index = group.sessions index :=
  Function.update_of_ne differs _ _

theorem withClient_listed : (group.withClient setting sockfd now).sessionList sockfd =
    some group.sessionCount :=
  Function.update_self _ _ _

theorem withClient_list (differs : here ≠ sockfd) :
    (group.withClient setting sockfd now).sessionList here = group.sessionList here :=
  Function.update_of_ne differs _ _

theorem withClient_open : (group.withClient setting sockfd now).isOpen sockfd = true :=
  Function.update_self _ _ _

theorem withClient_isOpen (differs : here ≠ sockfd) :
    (group.withClient setting sockfd now).isOpen here = group.isOpen here :=
  Function.update_of_ne differs _ _

/-- A new client refers to no tunneling. -/
theorem withClient_refers {tunneling : Nat}
    (refers : ((group.withClient setting sockfd now).sessions index).Refers tunneling) :
    (group.sessions index).Refers tunneling := by
  by_cases same : index = group.sessionCount
  · subst same
    rw [withClient_session] at refers
    rcases refers with absent | absent
    · cases absent
    · cases absent
  · rw [withClient_sessions setting now same] at refers
    exact refers

end WithClient

theorem withClient_linked (linked : Linked group) (closed : group.isOpen sockfd = false)
    (setting : KeepAliveSetting) (now : Int) : Linked (group.withClient setting sockfd now) := by
  have elsewhere {index here : Nat} (holds : (group.tunnelings index).Holds here) :
      here ≠ sockfd := by
    rintro rfl
    have isOpen := linked.isOpen index here holds
    rw [closed] at isOpen
    cases isOpen
  exact
    { closes := linked.closes
      uses := linked.uses
      filed := by
        rw [← append_new setting now closed]
        exact append_filed linked.filed setting now
      listed := by
        intro here index listed
        by_cases same : here = sockfd
        · subst same
          rw [withClient_listed] at listed
          obtain rfl := Option.some.inj listed
          rw [withClient_session]
          rfl
        · rw [withClient_list setting now same] at listed
          have differs := Nat.ne_of_lt (linked.filed here index listed).1
          rw [withClient_sessions setting now differs]
          exact linked.listed here index listed
      registered := linked.registered
      isOpen := by
        intro index here holds
        rw [withClient_isOpen setting now (elsewhere holds)]
        exact linked.isOpen index here holds
      unlisted := by
        intro index here holds
        rw [withClient_list setting now (elsewhere holds)]
        exact linked.unlisted index here holds
      apart := linked.apart
      created := linked.created
      fresh := fun index late tunneling refers =>
        linked.fresh index (Nat.le_of_succ_le late) tunneling
          (withClient_refers setting now refers)
      exist := fun index tunneling refers =>
        linked.exist index tunneling (withClient_refers setting now refers)
      owned := fun index tunneling refers =>
        linked.owned index tunneling (withClient_refers setting now refers)
      agree := by
        intro index protocol here
        by_cases same : index = group.sessionCount
        · subst same
          rw [withClient_session]
          exact .inl rfl
        · rw [withClient_sessions setting now same] at here ⊢
          exact linked.agree index protocol here }

theorem withClient_opened (opened : Opened group) (setting : KeepAliveSetting) (now : Int) :
    Opened (group.withClient setting sockfd now) := by
  intro here index listed
  by_cases same : here = sockfd
  · subst same
    exact withClient_open setting now
  · rw [withClient_list setting now same] at listed
    rw [withClient_isOpen setting now same]
    exact opened here index listed

theorem append_linked (linked : Linked group) (opened : Opened group)
    (setting : KeepAliveSetting) (now : Int) :
    Linked (group.append setting sockfd now) ∧ Opened (group.append setting sockfd now) := by
  cases isOpen : group.isOpen sockfd with
  | true =>
      rw [append, if_pos isOpen]
      exact ⟨linked, opened⟩
  | false =>
      rw [append_new setting now isOpen]
      exact ⟨withClient_linked linked isOpen setting now, withClient_opened opened setting now⟩

/-- An orderly event keeps the links. -/
theorem step_linked (linked : Linked group) (opened : Opened group)
    (setting : KeepAliveSetting) {step : GroupStep} (orderly : Orderly group step) :
    Linked (group.step setting step) ∧ Opened (group.step setting step) := by
  cases step with
  | append sockfd now => exact append_linked linked opened setting now
  | ready input sockfd failed work now =>
      simp only [Group.step, ready]
      rw [Orderly] at orderly
      cases listed : group.sessionList sockfd with
      | some index =>
          simp only [listed] at orderly
          simp only [useSession_of_exists (linked.listed sockfd index listed)]
          cases fails : group.asyncFails index failed with
          | true =>
              simp only [fails, if_true] at orderly ⊢
              have removed := remove_removed linked (fun here other _ => opened here other) listed
                orderly
              have stillOpen : (group.remove sockfd).isOpen sockfd = true :=
                (removed.isOpen sockfd index listed).trans (opened sockfd index listed)
              refine ⟨closeFd_linked removed.linked stillOpen fun other holds =>
                unheld_of_listed linked listed other (removed.holds other sockfd holds), ?_⟩
              intro here other still
              rw [sessionList_of_clients (closeFd_clients _ _)] at still
              have differs : here ≠ sockfd := by
                rintro rfl
                exact Option.some_ne_none other (still.symm.trans removed.unlisted)
              rw [closeFd_isOpen differs]
              exact removed.opened here other still
          | false =>
              simp only [fails, Bool.false_eq_true, if_false] at orderly ⊢
              have hasProtocol : (group.sessions index).protocol.isSome = true := by
                rw [asyncFails, Bool.or_eq_false_iff] at fails
                rw [← Option.not_isNone, fails.1, Bool.not_false]
              exact asyncProcessing_linked linked opened listed hasProtocol orderly setting now
      | none =>
          simp only [listed] at orderly
          cases registered : group.backendList sockfd with
          | none => exact ⟨linked, opened⟩
          | some index =>
              simp only [registered] at orderly
              obtain ⟨rfl, attached, connects⟩ := orderly
              have holds := linked.registered sockfd index registered
              have ready : Ready index group :=
                ⟨linked, opened, linked.created index sockfd holds, holds.1⟩
              simp only [useTunneling_of_exists holds.1, attached, Bool.false_eq_true, if_false,
                if_true]
              have acted := acts_ready ready connects fun absent =>
                Option.isNone_iff_eq_none.mp (by simpa using absent)
              exact ⟨acted.linked, acted.opened⟩
  | hangup sockfd =>
      rw [Orderly] at orderly
      cases listed : group.sessionList sockfd with
      | none =>
          simp only [listed] at orderly
      | some index =>
          simp only [listed] at orderly
          have closed := closeFd_linked linked (opened sockfd index listed)
            (unheld_of_listed linked listed)
          have same := closeFd_clients sockfd group
          have stillListed : (group.closeFd sockfd).sessionList sockfd = some index := by
            rw [sessionList_of_clients same]
            exact listed
          have noBackend : (group.closeFd sockfd).protocolBackend index = none := by
            rw [protocolBackend, sessions_of_clients same, closeFd_tunnelings]
            exact orderly
          have removed := remove_removed closed (fun here other differs before => by
            rw [closeFd_isOpen differs]
            rw [sessionList_of_clients same] at before
            exact opened here other before) stillListed noBackend
          simp only [Group.step, hangup, stillListed]
          exact ⟨removed.linked, removed.opened⟩

end Events

end Group

/-! ## Runs -/

theorem linked_run (setting : KeepAliveSetting) {steps : List GroupStep}
    (orderly : Throughout (Group.step setting) Orderly .new steps) :
    Linked (steps.foldl (Group.step setting) .new) ∧
      Opened (steps.foldl (Group.step setting) .new) := by
  refine @Replay.Throughout.invariant _ _ _ _ _ (fun group => Linked group ∧ Opened group) _
    orderly ?_ ?_
  · exact ⟨linked_new, fun _ _ absent => by cases absent⟩
  · intro group links step _ now
    exact Group.step_linked links.1 links.2 setting now

/-- In every state of a run of orderly events, everything is closed once, used while it
exists and referred to while it is open. -/
theorem Group.safe_of_orderly (setting : KeepAliveSetting) (events : List GroupEvent)
    (orderly : Throughout (Group.step setting) Orderly .new (events.flatMap GroupEvent.steps))
    {before after : List GroupStep} (reached : before ++ after = events.flatMap GroupEvent.steps) :
    Safe (before.foldl (Group.step setting) .new) := by
  rw [← reached] at orderly
  obtain ⟨linked, opened⟩ := linked_run setting (Replay.throughout_append.mp orderly).1
  exact safe_of_linked linked opened

/-- A client whose request goes to a backend, which closes, and who then hangs up. -/
def relayedClient : List GroupEvent :=
  [.append 5 0,
    .processing [⟨5, none, some (false, ⟨some [.connect 9 true], .httpContinue⟩), false, false, 1⟩],
    .processing [⟨9, some (false, ⟨some [.backendClose], .httpContinue⟩), none, false, false, 2⟩],
    .processing [⟨5, none, none, true, false, 3⟩]]

theorem Group.safe_of_orderly_relayedClient :
    Safe ((relayedClient.flatMap GroupEvent.steps).foldl (Group.step trialKeepAlive) .new) := by
  refine Group.safe_of_orderly trialKeepAlive relayedClient ?_ (List.append_nil _)
  exact .cons _ _ _ trivial (.cons _ _ _ ⟨rfl, trivial⟩ (.cons _ _ _ ⟨rfl, rfl, trivial⟩
    (.cons _ _ _ rfl (.nil _))))

/-- A client whose socket cannot be read and that hangs up in the same event has its
descriptor closed twice. -/
theorem Group.not_safe_hangup :
    ¬ ∀ (setting : KeepAliveSetting) (events : List GroupEvent)
      (before after : List GroupStep), before ++ after = events.flatMap GroupEvent.steps →
        Safe (before.foldl (Group.step setting) .new) := by
  intro safe
  have closes := (safe trialKeepAlive [.append 5 0,
    .processing [⟨5, none, some (true, trialWork), true, false, 1⟩]] _ []
      (List.append_nil _)).closes
  exact absurd closes (by decide)

end Sessions

end HeapHttpd
