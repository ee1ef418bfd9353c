import HeapHttpd.Sessions.SessionGroup

/-!
# A connection behind a request

What becomes of an asynchronous connection when a request on it has completed with
`httpKeepAlive`: its session has no protocol object until the next call of
`Session::AsyncProcessing`, and without one `Session::AsyncRecv` fails.
-/

namespace HeapHttpd

namespace Sessions

open Http1 (HttpConnection)

namespace Group

/-- The list refers to sessions that have been created, each for its own descriptor. -/
def Filed (group : Group) : Prop :=
  ∀ sockfd index, group.sessionList sockfd = some index →
    index < group.sessionCount ∧ (group.sessions index).sockfd = sockfd

section Filed

variable {group next : Group} {index sockfd : Nat}

theorem filed_of_only (filed : Filed group) (only : OnlySession index group next) :
    Filed next := by
  intro other here listed
  rw [only.list] at listed
  obtain ⟨created, own⟩ := filed other here listed
  refine ⟨by rw [only.count]; exact created, ?_⟩
  by_cases same : here = index
  · subst same
    rw [only.sockfd, own]
  · rw [only.others here same, own]

theorem filed_unlisted (filed : Filed group) (list : next.sessionList =
    Function.update group.sessionList sockfd none) (sessions : next.sessions = group.sessions)
    (count : next.sessionCount = group.sessionCount) : Filed next := by
  intro other here listed
  rw [list] at listed
  by_cases same : other = sockfd
  · subst same
    rw [Function.update_self] at listed
    cases listed
  · rw [Function.update_of_ne same] at listed
    rw [sessions, count]
    exact filed other here listed

theorem append_filed (filed : Filed group) (setting : KeepAliveSetting) (now : Int) :
    Filed (group.append setting sockfd now) := by
  simp only [append]
  split
  · exact filed
  · intro other here listed
    by_cases same : other = sockfd
    · subst same
      obtain rfl : group.sessionCount = here := by simpa using listed
      exact ⟨Nat.lt_succ_self _, by simp⟩
    · obtain ⟨created, own⟩ := filed other here (by simpa [same] using listed)
      exact ⟨Nat.lt_succ_of_lt created, by simp [Nat.ne_of_lt created, own]⟩

/-- What `Remove` leaves, when it finds the session. -/
theorem remove_eq (listed : group.sessionList sockfd = some index) :
    ∃ deleted, OnlySession index group deleted ∧
      group.remove sockfd =
        { deleted with sessionList := Function.update deleted.sessionList sockfd none } := by
  refine ⟨((group.useSession index).closeProtocolBackend index).deleteSession index, ?_, ?_⟩
  on_goal 2 => simp only [remove, listed]
  refine (onlySession_of_clients index ?_).trans deleteSession_only
  simp

theorem remove_filed (filed : Filed group) : Filed (group.remove sockfd) := by
  cases listed : group.sessionList sockfd with
  | none =>
      rw [remove, listed]
      exact filed
  | some index =>
      obtain ⟨deleted, only, same⟩ := remove_eq listed
      rw [same]
      exact filed_unlisted (filed_of_only filed only) rfl rfl rfl

theorem filed_of_clients (filed : Filed group) (same : next.clients = group.clients) :
    Filed next :=
  filed_of_only filed (onlySession_of_clients 0 same)

theorem step_filed (filed : Filed group) (setting : KeepAliveSetting) (step : GroupStep) :
    Filed (group.step setting step) := by
  cases step with
  | append sockfd now => exact append_filed filed setting now
  | ready input sockfd failed work now =>
      simp only [Group.step, ready]
      split
      · rename_i index _
        have used := filed_of_clients filed (useSession_clients index group)
        split
        · exact filed_of_clients (remove_filed used) (closeFd_clients _ _)
        · exact filed_of_only used asyncProcessing_only
      · split
        · exact filed
        · rename_i index _
          have used := filed_of_clients filed (useTunneling_clients index group)
          split
          · exact filed_of_clients used (closeFd_clients _ _)
          · refine filed_of_clients (filed_of_clients used ?_) (acts_clients _ _ _)
            split <;> rfl
  | hangup sockfd =>
      have closed := filed_of_clients filed (closeFd_clients sockfd group)
      simp only [Group.step, hangup]
      split
      · exact remove_filed closed
      · exact closed

end Filed

/-- A session that stays as it is. -/
structure Stays (sockfd index : Nat) (group next : Group) : Prop where
  listed : next.sessionList sockfd = group.sessionList sockfd
  session : next.sessions index = group.sessions index

section Stays

variable {group next last : Group} {index sockfd : Nat}

theorem Stays.trans (first : Stays sockfd index group next) (second : Stays sockfd index next last) :
    Stays sockfd index group last :=
  ⟨second.listed.trans first.listed, second.session.trans first.session⟩

theorem stays_of_clients (same : next.clients = group.clients) :
    Stays sockfd index group next :=
  ⟨by rw [sessionList_of_clients same], by rw [sessions_of_clients same]⟩

theorem stays_of_only {other : Nat} (differs : index ≠ other)
    (only : OnlySession other group next) : Stays sockfd index group next :=
  ⟨by rw [only.list], only.others index differs⟩

theorem remove_stays {other here : Nat} (listed : group.sessionList other = some here)
    (otherSockfd : sockfd ≠ other) (differs : index ≠ here) :
    Stays sockfd index group (group.remove other) := by
  obtain ⟨deleted, only, same⟩ := remove_eq listed
  rw [same]
  refine (stays_of_only differs only).trans ⟨?_, rfl⟩
  exact Function.update_of_ne otherSockfd _ _

/-- A step for another descriptor leaves a session as it is. -/
theorem step_stays (filed : Filed group) (setting : KeepAliveSetting)
    (listed : group.sessionList sockfd = some index) {step : GroupStep}
    (other : step.sockfd ≠ sockfd) : Stays sockfd index group (group.step setting step) := by
  obtain ⟨created, own⟩ := filed sockfd index listed
  have differs {here : Nat} (isHere : group.sessionList step.sockfd = some here) :
      index ≠ here := by
    rintro rfl
    exact other ((filed step.sockfd index isHere).2.symm.trans own)
  cases step with
  | append here now =>
      simp only [Group.step, append]
      split
      · exact stays_of_clients rfl
      · exact ⟨Function.update_of_ne other.symm _ _,
          Function.update_of_ne (Nat.ne_of_lt created) _ _⟩
  | ready input here failed work now =>
      simp only [Group.step, ready]
      split
      · rename_i there isThere
        have used : Stays sockfd index group (group.useSession there) :=
          stays_of_clients (useSession_clients there group)
        split
        · refine used.trans ((remove_stays ?_ other.symm (differs isThere)).trans
            (stays_of_clients (closeFd_clients _ _)))
          rw [sessionList_of_clients (useSession_clients there group)]
          exact isThere
        · exact used.trans (stays_of_only (differs isThere) asyncProcessing_only)
      · split
        · exact stays_of_clients rfl
        · split
          · refine stays_of_clients ?_
            simp
          · refine stays_of_clients ((acts_clients _ _ _).trans ?_)
            split
            · exact useTunneling_clients _ group
            · exact useTunneling_clients _ group
  | hangup here =>
      have closed : Stays sockfd index group (group.closeFd here) :=
        stays_of_clients (closeFd_clients here group)
      have sameList := sessionList_of_clients (closeFd_clients here group)
      simp only [Group.step, hangup]
      split
      · rename_i there isThere
        have wasThere : group.sessionList here = some there := sameList ▸ isThere
        exact closed.trans (remove_stays isThere other.symm (differs wasThere))
      · exact closed.trans (stays_of_clients rfl)

end Stays

/-! ## A completed request -/

section Completed

variable {setting : KeepAliveSetting} {group : Group} {sockfd index : Nat}

/-- Behind a request the session has no protocol object. -/
theorem complete_protocol (result : HttpConnection) (now : Int) :
    ((group.complete setting index result now).1.sessions index).protocol = none := by
  simp [complete, setSession]

/-- The result tells whether the request is complete. -/
theorem asyncProcessing_protocol {work : ProtocolWork} {now : Int}
    (keeps : (group.asyncProcessing setting index work now).2 = .httpKeepAlive) :
    ((group.asyncProcessing setting index work now).1.sessions index).protocol = none := by
  simp only [asyncProcessing] at keeps ⊢
  split at keeps
  · cases keeps
  · rename_i completed
    rw [if_neg completed]
    exact complete_protocol _ _

/-- Without a protocol object, the session is removed and its descriptor closed. -/
theorem ready_unprotected (listed : group.sessionList sockfd = some index)
    (unprotected : (group.sessions index).protocol = none) (failed : Bool) (work : ProtocolWork)
    (now : Int) :
    (group.ready setting sockfd failed work now).sessionList sockfd = none ∧
      (group.ready setting sockfd failed work now).isOpen sockfd = false := by
  have used := useSession_clients index group
  have fails : (group.useSession index).asyncFails index failed = true := by
    simp [asyncFails, sessions_of_clients used, unprotected]
  have isThere : (group.useSession index).sessionList sockfd = some index := by
    rw [sessionList_of_clients used, listed]
  obtain ⟨deleted, -, same⟩ := remove_eq isThere
  simp only [ready, listed, fails, if_true]
  constructor
  · rw [sessionList_of_clients (closeFd_clients _ _), same]
    exact Function.update_self _ _ _
  · unfold closeFd
    split
    · exact Function.update_self _ _ _
    · rename_i closed
      exact Bool.eq_false_iff.mpr closed

end Completed

end Group

/-- A step that completes a request of the session of a descriptor, where keep-alive is
still permitted. -/
def Completes (setting : KeepAliveSetting) (sockfd index : Nat) (group : Group) :
    GroupStep → Prop
  | .ready _ here failed work now =>
      here = sockfd ∧ group.sessionList sockfd = some index ∧
        group.asyncFails index failed = false ∧
        ((group.useSession index).asyncProcessing setting index work now).2 = .httpKeepAlive
  | _ => False

/-- A group behind a request, other steps, and the next event of the connection. -/
def afterRequest (setting : KeepAliveSetting) (before : List GroupStep) (completing : GroupStep)
    (between : List GroupStep) (reading : GroupStep) : Group :=
  (before ++ completing :: between ++ [reading]).foldl (Group.step setting) .new

theorem filed_run (setting : KeepAliveSetting) (steps : List GroupStep) {group : Group}
    (filed : group.Filed) : (steps.foldl (Group.step setting) group).Filed := by
  induction steps generalizing group with
  | nil => exact filed
  | cons step steps ih => exact ih (Group.step_filed filed setting step)

theorem filed_new : Group.new.Filed := by
  intro sockfd index listed
  cases listed

theorem stays_run (setting : KeepAliveSetting) {sockfd index : Nat} (steps : List GroupStep)
    {group : Group} (filed : group.Filed) (listed : group.sessionList sockfd = some index)
    (others : ∀ step ∈ steps, step.sockfd ≠ sockfd) :
    Group.Stays sockfd index group (steps.foldl (Group.step setting) group) := by
  induction steps generalizing group with
  | nil => exact ⟨rfl, rfl⟩
  | cons step steps ih =>
      have first := Group.step_stays filed setting listed (others step List.mem_cons_self)
      exact first.trans (ih (Group.step_filed filed setting step) (first.listed.trans listed)
        fun other member => others other (List.mem_cons_of_mem _ member))

theorem afterRequest_eq (setting : KeepAliveSetting) (before : List GroupStep)
    (completing : GroupStep) (between : List GroupStep) (reading : GroupStep) :
    afterRequest setting before completing between reading =
      Group.step setting (between.foldl (Group.step setting)
        (Group.step setting (before.foldl (Group.step setting) .new) completing)) reading := by
  simp [afterRequest, List.foldl_append]

/-- Once a request has completed with `httpKeepAlive`, the next event that the connection
is readable has it removed and closed, whatever other connections do in between. -/
theorem closes_behind_request {setting : KeepAliveSetting} {before between : List GroupStep}
    {completing : GroupStep} {sockfd index : Nat}
    (completes : Completes setting sockfd index (before.foldl (Group.step setting) .new)
      completing)
    (others : ∀ step ∈ between, step.sockfd ≠ sockfd) (failed : Bool) (work : ProtocolWork)
    (now : Int) :
    ¬ (afterRequest setting before completing between
        (.ready true sockfd failed work now)).sessionList sockfd = some index ∧
      (afterRequest setting before completing between
        (.ready true sockfd failed work now)).isOpen sockfd = false := by
  have filed := filed_run setting before filed_new
  rw [afterRequest_eq]
  generalize before.foldl (Group.step setting) .new = group at completes filed
  cases completing with
  | append | hangup => exact completes.elim
  | ready input here failing done time =>
      obtain ⟨rfl, listed, calm, keeps⟩ := completes
      have used := Group.useSession_clients index group
      have calm' : (group.useSession index).asyncFails index failing = false := by
        rw [← calm, Group.asyncFails, Group.asyncFails, Group.sessions_of_clients used]
      have stepped : Group.step setting group (.ready input here failing done time) =
          ((group.useSession index).asyncProcessing setting index done time).1 := by
        simp [Group.step, Group.ready, listed, calm']
      have completed := Group.asyncProcessing_protocol keeps
      have only := (Group.onlySession_of_clients index used).trans
        (@Group.asyncProcessing_only index (group.useSession index) setting done time)
      rw [stepped]
      generalize ((group.useSession index).asyncProcessing setting index done time).1 = next
        at completed only
      have listedNext : next.sessionList here = some index := by rw [only.list, listed]
      have stays := stays_run setting between (Group.filed_of_only filed only) listedNext others
      obtain ⟨removed, closed⟩ := @Group.ready_unprotected setting _ here index
        (stays.listed.trans listedNext) (by rw [stays.session, completed]) failed work now
      exact ⟨fun kept => Option.some_ne_none index (kept.symm.trans removed), closed⟩

/-- A request that needs no backend. -/
def trialWork : ProtocolWork :=
  { tunneling := none, result := .httpKeepAlive }

def trialKeepAlive : KeepAliveSetting :=
  { max := 10, timeout := 60 }

/-- Two clients, of which the first has a request answered. -/
theorem closes_behind_request_trial :
    ¬ (afterRequest trialKeepAlive [.append 5 0, .append 6 0] (.ready true 5 false trialWork 1)
        [.ready true 6 false trialWork 1] (.ready true 5 false trialWork 2)).sessionList 5 =
          some 0 ∧
      (afterRequest trialKeepAlive [.append 5 0, .append 6 0] (.ready true 5 false trialWork 1)
        [.ready true 6 false trialWork 1] (.ready true 5 false trialWork 2)).isOpen 5 = false :=
  @closes_behind_request trialKeepAlive [.append 5 0, .append 6 0]
    [.ready true 6 false trialWork 1] (.ready true 5 false trialWork 1) 5 0
    ⟨rfl, by decide, by decide, by decide⟩ (by decide) false trialWork 2

/-- The second request of a client is not read. -/
theorem connection_not_kept :
    ¬ ∀ (setting : KeepAliveSetting) (before : List GroupStep) (completing : GroupStep)
      (between : List GroupStep) (sockfd index : Nat) (work : ProtocolWork) (now : Int),
      Completes setting sockfd index (before.foldl (Group.step setting) .new) completing →
        (∀ step ∈ between, step.sockfd ≠ sockfd) →
          (afterRequest setting before completing between
            (.ready true sockfd false work now)).sessionList sockfd = some index := by
  intro keeps
  have kept := keeps trialKeepAlive [.append 5 0] (.ready true 5 false trialWork 1) [] 5 0
    trialWork 2 ⟨rfl, by decide, by decide, by decide⟩ (by decide)
  exact absurd kept (by decide)

end Sessions

end HeapHttpd
