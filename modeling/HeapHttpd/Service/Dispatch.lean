import HeapHttpd.Service.AccessList
import Mathlib.Data.Int.CardIntervalMod

/-!
# Handing clients to the work processes

`Service::Accept` of the service process, whose clients go through socket pairs to the work
processes, while these start, receive and end in any order.
-/

namespace HeapHttpd

namespace Service

/-! ## The state -/

/-- Where a work process is: it has been forked, it has locked its file, or it is no more. -/
inductive Phase
  | starting
  | running
  | ended
  deriving DecidableEq

/-- A socket pair and the work process that was forked for it: its number `m_process_seq`, the
clients that were sent and not yet received, and those that were received. -/
structure Channel where
  seq : Nat
  phase : Phase
  queue : List Nat
  received : List Nat
  deriving DecidableEq

/-- The clients that were handed over, in their order. -/
def Channel.handed (channel : Channel) : List Nat :=
  channel.received ++ channel.queue

/-- What the service process has, all socket pairs that it has made, and the clients that it did
not hand over: rejected ones, those that were closed for lack of a work process or of an address,
and those that were not even closed.  Clients are numbered as they come. -/
structure Dispatcher where
  nextProcess : Nat
  workProcesses : List (Option Nat)
  channels : List Channel
  accepted : Nat
  rejected : List Nat
  closed : List Nat
  leaked : List Nat
  deriving DecidableEq

/-- The start of `Run`, where no work process is started before there is a client for it. -/
def Dispatcher.start (maxInstanceNum : Nat) : Dispatcher where
  nextProcess := 0
  workProcesses := List.replicate maxInstanceNum none
  channels := []
  accepted := 0
  rejected := []
  closed := []
  leaked := []

/-- A client and what its `Accept` meets: the text and the low bytes of its address, if it has a
text, the lists and the time, whether `m_instance_balance_scheme` starts with an R, whether a
process can be forked, and which socket pairs have room. -/
structure Arrival where
  address : Option (List UInt8 × Nat)
  permitList : List (List UInt8)
  rejectList : List StReject
  now : Int
  roundRobin : Bool
  forks : Bool
  room : Nat → Bool

/-! ## Accept -/

/-- `check_pid_file`: no process has the file of a number locked. -/
def Dispatcher.checkPidFile (seq : Nat) (state : Dispatcher) : Bool :=
  !state.channels.any fun channel => channel.seq = seq && channel.phase = .running

/-- A work process is forked for a number, in place of the one that has gone. -/
def Dispatcher.fork (seq : Nat) (state : Dispatcher) : Dispatcher :=
  { state with
    channels := state.channels ++ [{ seq, phase := .starting, queue := [], received := [] }]
    workProcesses := state.workProcesses.set seq (some state.channels.length) }

/-- The socket pair of a number, if `SEND_FD` can send through it. -/
def Dispatcher.sendable (room : Nat → Bool) (seq : Nat) (state : Dispatcher) : Option Nat :=
  (state.workProcesses.getD seq none).filter fun index =>
    (state.channels[index]?.any fun channel => channel.phase ≠ .ended) && room index

/-- A client is sent behind those that were sent before. -/
def Channel.push (client : Nat) (channel : Channel) : Channel :=
  { channel with queue := channel.queue ++ [client] }

/-- A client is sent through a socket pair. -/
def Dispatcher.send (client index : Nat) (state : Dispatcher) : Dispatcher :=
  { state with
    channels := state.channels.modify index (Channel.push client) }

/-- The loop over the work processes, with the turns that are left; behind it, a client that was not
sent is just closed. -/
def Dispatcher.sendLoop (room : Nat → Bool) (client : Nat) : Nat → Dispatcher → Dispatcher
  | 0, state => { state with closed := state.closed ++ [client] }
  | turns + 1, state =>
      match state.sendable room state.nextProcess with
      | some index => state.send client index
      | none =>
          sendLoop room client turns
            { state with nextProcess := (state.nextProcess + 1) % state.workProcesses.length }

/-- The number that `m_next_process` becomes before anything else. -/
def Dispatcher.choose (arrival : Arrival) (ipLowbytes : Nat) (state : Dispatcher) : Dispatcher :=
  { state with
    nextProcess :=
      (if arrival.roundRobin then state.nextProcess + 1 else ipLowbytes) %
        state.workProcesses.length }

/-- `Accept` for a client that is admitted. -/
def Dispatcher.dispatch (arrival : Arrival) (client : Nat) (state : Dispatcher) : Dispatcher :=
  if state.checkPidFile state.nextProcess then
    if arrival.forks then
      (state.fork state.nextProcess).sendLoop arrival.room client state.workProcesses.length
    else { state with leaked := state.leaked ++ [client] }
  else state.sendLoop arrival.room client state.workProcesses.length

/-- `Accept`.  There is a fault where there is no work process at all, whose number is divided
by. -/
def Dispatcher.accept (arrival : Arrival) (state : Dispatcher) : Outcome Dispatcher :=
  let client := state.accepted
  let state := { state with accepted := state.accepted + 1 }
  match arrival.address with
  | none => .ok { state with closed := state.closed ++ [client] }
  | some (clientIp, ipLowbytes) =>
      if state.workProcesses = [] then .fault
      else
        let state := state.choose arrival ipLowbytes
        accessResult arrival.permitList arrival.rejectList clientIp arrival.now >>=
          fun accessResult =>
            .ok (if accessResult then state.dispatch arrival client
              else { state with rejected := state.rejected ++ [client] })

/-! ## The work processes -/

/-- A forked process locks its file, or ends where another one has it locked. -/
def Channel.lock (isFree : Nat → Bool) (channel : Channel) : Channel :=
  if channel.phase = .starting then
    { channel with phase := if isFree channel.seq then .running else .ended }
  else channel

/-- A work process receives a client. -/
def Channel.receive (channel : Channel) : Channel :=
  match channel.phase, channel.queue with
  | .running, client :: queue => { channel with queue, received := channel.received ++ [client] }
  | _, _ => channel

/-- A work process ends. -/
def Channel.finish (channel : Channel) : Channel :=
  { channel with phase := .ended }

/-- Whose turn it is: that of the service process, or of the work process of a socket pair. -/
inductive DispatchEvent
  | accept (arrival : Arrival)
  | lock (index : Nat)
  | receive (index : Nat)
  | finish (index : Nat)

/-- A work process takes a step. -/
def Dispatcher.change (index : Nat) (step : Channel → Channel) (state : Dispatcher) : Dispatcher :=
  { state with channels := state.channels.modify index step }

/-- The next step. -/
def Dispatcher.happen (state : Dispatcher) : DispatchEvent → Outcome Dispatcher
  | .accept arrival => state.accept arrival
  | .lock index => .ok (state.change index (Channel.lock fun seq => state.checkPidFile seq))
  | .receive index => .ok (state.change index Channel.receive)
  | .finish index => .ok (state.change index Channel.finish)

/-- A run. -/
def Dispatcher.run (state : Dispatcher) : List DispatchEvent → Outcome Dispatcher
  | [] => .ok state
  | event :: events => state.happen event >>= fun state => state.run events

/-! ## Each client has one fate -/

/-- The clients that were dealt with, by what became of them. -/
def Dispatcher.fates (state : Dispatcher) : List Nat :=
  state.rejected ++ state.closed ++ state.leaked ++ state.channels.flatMap Channel.handed

section Modified

variable {channels : List Channel} {change : Channel → Channel} {index : Nat}

theorem flatMap_modify (part : Channel → List Nat)
    (kept : ∀ channel, channels[index]? = some channel → part (change channel) = part channel) :
    (channels.modify index change).flatMap part = channels.flatMap part := by
  induction channels generalizing index with
  | nil => rw [List.modify_nil]
  | cons channel channels ih =>
      cases index with
      | zero => rw [List.modify_zero_cons, List.flatMap_cons, kept channel rfl, List.flatMap_cons]
      | succ index =>
          rw [List.modify_succ_cons, List.flatMap_cons, ih fun other isOther => kept other isOther,
            List.flatMap_cons]

theorem seq_modify (kept : ∀ channel, (change channel).seq = channel.seq) (other : Nat) :
    (channels.modify index change)[other]?.map Channel.seq = channels[other]?.map Channel.seq := by
  rw [List.getElem?_modify]
  cases channels[other]? with
  | none => rfl
  | some channel =>
      refine congrArg some ?_
      split
      · exact kept channel
      · rfl

/-- One more client in one part. -/
theorem flatMap_modify_cons (part : Channel → List Nat) {channel : Channel} {client : Nat}
    (isChannel : channels[index]? = some channel)
    (one : (part (change channel)).Perm (client :: part channel)) :
    ((channels.modify index change).flatMap part).Perm (client :: channels.flatMap part) := by
  induction channels generalizing index with
  | nil => cases isChannel
  | cons first channels ih =>
      cases index with
      | zero =>
          cases isChannel
          rw [List.modify_zero_cons, List.flatMap_cons, List.flatMap_cons]
          exact one.append_right _
      | succ index =>
          rw [List.modify_succ_cons, List.flatMap_cons, List.flatMap_cons]
          exact ((ih isChannel).append_left (part first)).trans List.perm_middle

end Modified

@[simp]
theorem Channel.seq_push (client : Nat) (channel : Channel) :
    (channel.push client).seq = channel.seq :=
  rfl

theorem Channel.handed_push (client : Nat) (channel : Channel) :
    (channel.push client).handed.Perm (client :: channel.handed) := by
  rw [push, handed, ← List.append_assoc]
  exact List.perm_append_singleton client channel.handed

namespace Dispatcher

variable {state : Dispatcher}

theorem sendable_channel {room : Nat → Bool} {seq index : Nat}
    (isIndex : state.sendable room seq = some index) :
    state.workProcesses.getD seq none = some index ∧
      ∃ channel, state.channels[index]? = some channel := by
  obtain ⟨isProcess, isOpen⟩ := Option.filter_eq_some_iff.mp isIndex
  rw [Bool.and_eq_true] at isOpen
  refine ⟨isProcess, ?_⟩
  cases isChannel : state.channels[index]? with
  | none =>
      rw [isChannel] at isOpen
      cases isOpen.1
  | some channel => exact ⟨channel, rfl⟩

/-- A client that goes through the loop is closed or handed to one work process. -/
theorem fates_sendLoop (room : Nat → Bool) (client turns : Nat) :
    (state.sendLoop room client turns).fates.Perm (client :: state.fates) ∧
      (state.sendLoop room client turns).accepted = state.accepted := by
  induction turns generalizing state with
  | zero =>
      refine ⟨?_, rfl⟩
      simp only [sendLoop, fates, List.append_assoc, List.singleton_append]
      exact (List.perm_middle.append_left state.rejected).trans List.perm_middle
  | succ turns ih =>
      rw [sendLoop]
      split
      case h_1 index isIndex =>
        obtain ⟨-, channel, isChannel⟩ := sendable_channel isIndex
        refine ⟨?_, rfl⟩
        rw [send, fates, fates]
        exact ((flatMap_modify_cons Channel.handed isChannel
          (channel.handed_push client)).append_left _).trans List.perm_middle
      case h_2 =>
        obtain ⟨fates', accepted⟩ := @ih
          { state with nextProcess := (state.nextProcess + 1) % state.workProcesses.length }
        exact ⟨fates', accepted⟩

theorem fates_fork (seq : Nat) : (state.fork seq).fates = state.fates := by
  rw [fork, fates, fates, List.flatMap_append]
  exact congrArg _ (List.append_nil _)

theorem fates_dispatch (arrival : Arrival) (client : Nat) :
    (state.dispatch arrival client).fates.Perm (client :: state.fates) ∧
      (state.dispatch arrival client).accepted = state.accepted := by
  rw [dispatch]
  split
  · split
    · obtain ⟨sent, accepted⟩ := @fates_sendLoop (state.fork state.nextProcess)
        arrival.room client state.workProcesses.length
      rw [fates_fork] at sent
      exact ⟨sent, accepted⟩
    · refine ⟨?_, rfl⟩
      simp only [fates, List.append_assoc, List.singleton_append]
      exact ((List.perm_middle.append_left state.closed).append_left state.rejected).trans
        ((List.perm_middle.append_left state.rejected).trans List.perm_middle)
  · exact fates_sendLoop arrival.room client state.workProcesses.length

theorem fates_accept {arrival : Arrival} {next : Dispatcher}
    (accepted : state.accept arrival = .ok next) :
    next.fates.Perm (state.accepted :: state.fates) ∧ next.accepted = state.accepted + 1 := by
  rw [accept] at accepted
  dsimp only at accepted
  split at accepted
  · cases accepted
    refine ⟨?_, rfl⟩
    simp only [fates, List.append_assoc, List.singleton_append]
    exact (List.perm_middle.append_left state.rejected).trans List.perm_middle
  · rename_i clientIp ipLowbytes _
    split at accepted
    · cases accepted
    · obtain ⟨isAdmitted, -, isNext⟩ := Outcome.bind_eq_ok.mp accepted
      cases isNext
      split
      · exact fates_dispatch arrival state.accepted
      · refine ⟨?_, rfl⟩
        simp only [fates, choose, List.append_assoc, List.singleton_append]
        exact List.perm_middle

/-- The steps of a work process keep its number and the clients it was handed. -/
theorem happen_cases {event : DispatchEvent} {next : Dispatcher}
    (happened : state.happen event = .ok next) :
    (∃ arrival, event = .accept arrival ∧ state.accept arrival = .ok next) ∨
      ∃ index step, (∀ channel : Channel,
        (step channel).seq = channel.seq ∧ (step channel).handed = channel.handed) ∧
        next = state.change index step := by
  cases event with
  | accept arrival => exact .inl ⟨arrival, rfl, happened⟩
  | lock index =>
      cases happened
      refine .inr ⟨index, _, fun channel => ?_, rfl⟩
      rw [Channel.lock]
      split <;> exact ⟨rfl, rfl⟩
  | receive index =>
      cases happened
      refine .inr ⟨index, _, fun channel => ?_, rfl⟩
      rw [Channel.receive]
      split
      · rename_i client queue _ isQueue
        refine ⟨rfl, ?_⟩
        rw [Channel.handed, Channel.handed, isQueue, List.append_assoc]
        rfl
      · exact ⟨rfl, rfl⟩
  | finish index =>
      cases happened
      exact .inr ⟨index, Channel.finish, fun channel => ⟨rfl, rfl⟩, rfl⟩

theorem fates_happen {event : DispatchEvent} {next : Dispatcher}
    (whole : state.fates.Perm (List.range state.accepted))
    (happened : state.happen event = .ok next) :
    next.fates.Perm (List.range next.accepted) := by
  rcases happen_cases happened with ⟨arrival, rfl, accepted⟩ | ⟨index, step, keeps, rfl⟩
  · obtain ⟨fates', isNext⟩ := fates_accept accepted
    rw [isNext, List.range_succ]
    exact (fates'.trans (whole.cons state.accepted)).trans (List.perm_append_singleton _ _).symm
  · rw [fates, change, flatMap_modify Channel.handed fun channel _ => (keeps channel).2]
    exact whole

end Dispatcher

/-! ## The work processes take turns -/

namespace Dispatcher

/-- The clients that the work processes of a number were handed. -/
def handedTo (seq : Nat) (state : Dispatcher) : List Nat :=
  state.channels.flatMap fun channel => if channel.seq = seq then channel.handed else []

/-- An admitted client of a round robin, for whom the work process whose turn it is can be sent
to, once it has been forked if it was not there. -/
def smooth (state : Dispatcher) : DispatchEvent → Bool
  | .accept arrival =>
      match arrival.address with
      | none => false
      | some (clientIp, _) =>
          let seq := (state.nextProcess + 1) % state.workProcesses.length
          arrival.roundRobin &&
            accessResult arrival.permitList arrival.rejectList clientIp arrival.now = .ok true &&
            if state.checkPidFile seq then arrival.forks && arrival.room state.channels.length
            else (state.sendable arrival.room seq).isSome
  | _ => true

/-- A run with smooth steps alone. -/
def smoothRun : Dispatcher → List DispatchEvent → Bool
  | _, [] => true
  | state, event :: events =>
      state.smooth event &&
        match state.happen event with
        | .ok next => next.smoothRun events
        | _ => true

/-- So many work processes, whose turn it is, and each has its own number. -/
structure Turns (count : Nat) (state : Dispatcher) : Prop where
  processes : state.workProcesses.length = count
  turn : state.nextProcess = state.accepted % count
  numbers : ∀ seq index, state.workProcesses.getD seq none = some index →
    (state.channels[index]?.map Channel.seq) = some seq
  handed : ∀ seq < count, (state.handedTo seq).Perm
    ((List.range state.accepted).filter fun client => (client + 1) % count = seq)

theorem turns_start {count : Nat} : (start count).Turns count where
  processes := List.length_replicate
  turn := (Nat.zero_mod count).symm
  numbers seq index isIndex := by
    rw [start, List.getD_eq_getElem?_getD, List.getElem?_replicate] at isIndex
    split at isIndex <;> cases isIndex
  handed _ _ := List.Perm.refl _

variable {state : Dispatcher} {count : Nat}

theorem handedTo_send {channel : Channel} {index : Nat}
    (isChannel : state.channels[index]? = some channel) (client seq : Nat) :
    ((state.send client index).handedTo seq).Perm
      (if channel.seq = seq then client :: state.handedTo seq else state.handedTo seq) := by
  rw [handedTo, send]
  split
  case isTrue same =>
    refine flatMap_modify_cons _ isChannel ?_
    rw [Channel.seq_push, if_pos same, if_pos same]
    exact channel.handed_push client
  case isFalse other =>
    refine List.Perm.of_eq (flatMap_modify _ fun found isFound => ?_)
    cases isChannel.symm.trans isFound
    rw [Channel.seq_push, if_neg other, if_neg other]

theorem handedTo_fork (seq other : Nat) :
    (state.fork seq).handedTo other = state.handedTo other := by
  rw [handedTo, fork, List.flatMap_append, List.flatMap_singleton]
  split
  · exact List.append_nil _
  · exact List.append_nil _

/-- The next client is handed to the work process whose turn it is. -/
theorem turns_send {next : Dispatcher} {channel : Channel} {index : Nat}
    (turns : state.Turns count) (processes : next.workProcesses.length = count)
    (turn : next.nextProcess = (state.accepted + 1) % count)
    (accepted : next.accepted = state.accepted + 1)
    (numbers : ∀ seq index, next.workProcesses.getD seq none = some index →
      (next.channels[index]?.map Channel.seq) = some seq)
    (same : ∀ seq, next.handedTo seq = state.handedTo seq)
    (isChannel : next.channels[index]? = some channel) (isSeq : channel.seq = next.nextProcess) :
    (next.send state.accepted index).Turns count where
  processes := processes
  turn := by
    show next.nextProcess = next.accepted % count
    rw [turn, accepted]
  numbers seq other isOther := by
    rw [← numbers seq other isOther]
    exact seq_modify (Channel.seq_push state.accepted) other
  handed seq inside := by
    have old := turns.handed seq inside
    have isAccepted : (next.send state.accepted index).accepted = state.accepted + 1 := accepted
    refine (handedTo_send isChannel state.accepted seq).trans ?_
    rw [isAccepted, List.range_succ, List.filter_append, same, isSeq, turn]
    by_cases whose : (state.accepted + 1) % count = seq
    · simp only [if_pos whose, List.filter_cons, decide_eq_true whose, if_true, List.filter_nil]
      exact (old.cons state.accepted).trans (List.perm_append_singleton _ _).symm
    · simp only [if_neg whose, List.filter_cons, decide_eq_false whose, Bool.false_eq_true,
        if_false, List.filter_nil]
      exact old.trans (List.Perm.of_eq (List.append_nil _).symm)

/-- A smooth step keeps the turns. -/
theorem turns_accept {arrival : Arrival} {next : Dispatcher} (turns : state.Turns count)
    (positive : 0 < count) (isSmooth : state.smooth (.accept arrival) = true)
    (accepted : state.accept arrival = .ok next) : next.Turns count := by
  rw [smooth] at isSmooth
  split at isSmooth
  · cases isSmooth
  rename_i clientIp ipLowbytes isAddress
  simp only [Bool.and_eq_true, decide_eq_true_eq] at isSmooth
  obtain ⟨⟨roundRobin, isAdmitted⟩, available⟩ := isSmooth
  have present : state.workProcesses ≠ [] := by
    intro none'
    have length := turns.processes
    rw [none'] at length
    exact Nat.ne_of_lt positive length
  have inside : (state.nextProcess + 1) % count < count := Nat.mod_lt _ positive
  have turn : (state.nextProcess + 1) % count = (state.accepted + 1) % count := by
    rw [turns.turn, Nat.mod_add_mod]
  obtain ⟨left, isCount⟩ : ∃ left, count = left + 1 := ⟨count - 1, by omega⟩
  rw [accept, isAddress] at accepted
  dsimp only at accepted
  rw [if_neg present, isAdmitted, Outcome.ok_bind, if_pos rfl, dispatch] at accepted
  simp only [choose, roundRobin, if_true, turns.processes] at accepted available
  split at accepted
  case isTrue gone =>
    have gone' : state.checkPidFile ((state.nextProcess + 1) % count) = true := gone
    rw [if_pos gone', Bool.and_eq_true] at available
    rw [if_pos available.1] at accepted
    have isNew : (state.workProcesses.set ((state.nextProcess + 1) % count)
        (some state.channels.length)).getD ((state.nextProcess + 1) % count) none =
          some state.channels.length := by
      rw [List.getD_eq_getElem?_getD, List.getElem?_set_self (turns.processes.symm ▸ inside),
        Option.getD_some]
    have isChannel (channel : Channel) :
        (state.channels ++ [channel])[state.channels.length]? = some channel :=
      List.getElem?_concat_length
    rw [isCount, sendLoop, ← isCount] at accepted
    simp only [sendable, fork, isNew, isChannel, Option.filter_some, Option.any_some,
      available.2, Bool.and_true] at accepted
    cases accepted
    refine @turns_send state _ _ _ _ turns ?_ turn rfl ?_ (fun seq => handedTo_fork _ seq)
      (isChannel _) rfl
    · exact (List.length_set ..).trans turns.processes
    · intro seq index isIndex
      rw [List.getD_eq_getElem?_getD, List.getElem?_set] at isIndex
      split at isIndex
      case isTrue same =>
        rw [if_pos (turns.processes.symm ▸ inside)] at isIndex
        cases isIndex
        rw [isChannel, Option.map_some, same]
      case isFalse =>
        have old := turns.numbers seq index (by rw [List.getD_eq_getElem?_getD]; exact isIndex)
        obtain ⟨channel, isOld, isSeq⟩ := Option.map_eq_some_iff.mp old
        rw [List.getElem?_append_left (List.getElem?_eq_some_iff.mp isOld).1, isOld,
          Option.map_some, isSeq]
  case isFalse there =>
    have there' : ¬state.checkPidFile ((state.nextProcess + 1) % count) = true := there
    rw [if_neg there'] at available
    obtain ⟨index, isIndex⟩ := Option.isSome_iff_exists.mp available
    obtain ⟨isProcess, channel, isChannel⟩ := sendable_channel isIndex
    have isSeq := turns.numbers _ index isProcess
    rw [isChannel, Option.map_some, Option.some_inj] at isSeq
    have found : sendable arrival.room ((state.nextProcess + 1) % count)
        { state with
          accepted := state.accepted + 1
          nextProcess := (state.nextProcess + 1) % count } = some index := isIndex
    rw [isCount, sendLoop, ← isCount] at accepted
    simp only [found] at accepted
    cases accepted
    exact @turns_send state _ _ _ _ turns turns.processes turn rfl turns.numbers
      (fun seq => rfl) isChannel isSeq

theorem turns_run {events : List DispatchEvent} {last : Dispatcher} (positive : 0 < count)
    (turns : state.Turns count) (isSmooth : state.smoothRun events = true)
    (ran : state.run events = .ok last) : last.Turns count := by
  induction events generalizing state with
  | nil =>
      cases ran
      exact turns
  | cons event events ih =>
      obtain ⟨next, happened, ran⟩ := Outcome.bind_eq_ok.mp ran
      rw [smoothRun, happened, Bool.and_eq_true] at isSmooth
      refine ih ?_ isSmooth.2 ran
      rcases happen_cases happened with ⟨arrival, rfl, accepted⟩ | ⟨index, step, keeps, rfl⟩
      · exact turns_accept turns positive isSmooth.1 accepted
      · have same (seq : Nat) : (state.change index step).handedTo seq = state.handedTo seq := by
          rw [handedTo, change]
          refine flatMap_modify _ fun channel _ => ?_
          rw [(keeps channel).1, (keeps channel).2]
        exact
          { processes := turns.processes
            turn := turns.turn
            numbers := by
              intro seq other isOther
              rw [← turns.numbers seq other isOther]
              exact seq_modify (fun channel => (keeps channel).1) other
            handed := fun seq inside => by
              rw [same]
              exact turns.handed seq inside }

/-- How many of the first numbers leave a remainder when one is added. -/
theorem length_filter_succ_mod {count seq : Nat} (inside : seq < count) (number : Nat) :
    number / count ≤
        ((List.range number).filter fun client => (client + 1) % count = seq).length ∧
      ((List.range number).filter fun client => (client + 1) % count = seq).length ≤
        number / count + 1 := by
  have same : (List.range number).filter (fun client => (client + 1) % count = seq) =
      (List.range number).filter fun client => client ≡ seq + (count - 1) [MOD count] := by
    refine List.filter_congr fun client _ => decide_eq_decide.mpr ?_
    have whole : seq + (count - 1) + 1 = seq + count := by omega
    have left : seq % count = seq := Nat.mod_eq_of_lt inside
    rw [← Nat.ModEq.add_iff_right (Nat.ModEq.refl 1), whole, Nat.ModEq, Nat.add_mod_right, left]
  have counted := Nat.count_modEq_card number (r := count) (by omega) (seq + (count - 1))
  rw [Nat.count, List.countP_eq_length_filter] at counted
  rw [same, counted]
  split
  · omega
  · omega

/-- A client that anyone may send. -/
def visitor : Arrival where
  address := some (General.octets "192.0.2.1", 0xc0000201)
  permitList := []
  rejectList := []
  now := 0
  roundRobin := true
  forks := true
  room _ := true

/-- Three clients for two work processes. -/
def visits : List DispatchEvent :=
  [.accept visitor, .lock 0, .accept visitor, .receive 0, .lock 1, .accept visitor]

section Sending

variable (room : Nat → Bool) (client : Nat)

/-- The loop sends to the first work process in its order that can be sent to. -/
theorem sendLoop_spec (turns : Nat) (inside : state.nextProcess < state.workProcesses.length) :
    (∃ turn < turns, ∃ index,
      state.sendable room ((state.nextProcess + turn) % state.workProcesses.length) = some index ∧
      (∀ earlier < turn, state.sendable room
        ((state.nextProcess + earlier) % state.workProcesses.length) = none) ∧
      (state.sendLoop room client turns).channels = (state.send client index).channels ∧
      (state.sendLoop room client turns).closed = state.closed) ∨
    ((∀ turn < turns, state.sendable room
        ((state.nextProcess + turn) % state.workProcesses.length) = none) ∧
      (state.sendLoop room client turns).channels = state.channels ∧
      (state.sendLoop room client turns).closed = state.closed ++ [client]) := by
  induction turns generalizing state with
  | zero => exact .inr ⟨fun turn none' => absurd none' (Nat.not_lt_zero turn), rfl, rfl⟩
  | succ turns ih =>
      have here : (state.nextProcess + 0) % state.workProcesses.length = state.nextProcess :=
        Nat.mod_eq_of_lt inside
      have behind (turn : Nat) :
          ((state.nextProcess + 1) % state.workProcesses.length + turn) %
              state.workProcesses.length =
            (state.nextProcess + (turn + 1)) % state.workProcesses.length := by
        rw [Nat.mod_add_mod, Nat.add_assoc, Nat.add_comm 1]
      rw [sendLoop]
      split
      case h_1 index isIndex =>
        exact .inl ⟨0, Nat.succ_pos turns, index, by rw [here]; exact isIndex,
          fun earlier none' => absurd none' (Nat.not_lt_zero earlier), rfl, rfl⟩
      case h_2 isNone =>
        rcases @ih
          { state with nextProcess := (state.nextProcess + 1) % state.workProcesses.length }
          (Nat.mod_lt _ (Nat.zero_lt_of_lt inside)) with
          ⟨turn, inside', index, isIndex, earlier, sent, kept⟩ | ⟨all, sent, closed⟩
        · refine .inl ⟨turn + 1, Nat.succ_lt_succ inside', index, ?_, ?_, sent, kept⟩
          · rw [← behind]
            exact isIndex
          · intro before isBefore
            cases before with
            | zero =>
                rw [here]
                exact isNone
            | succ before =>
                rw [← behind]
                exact earlier before (Nat.lt_of_succ_lt_succ isBefore)
        · refine .inr ⟨fun turn inside' => ?_, sent, closed⟩
          cases turn with
          | zero =>
              rw [here]
              exact isNone
          | succ turn =>
              rw [← behind]
              exact all turn (Nat.lt_of_succ_lt_succ inside')

end Sending

/-- What `Accept` sends with: one more client has come, and the work process of the chosen number is
forked if it has gone. -/
def ready (arrival : Arrival) (ipLowbytes : Nat) (state : Dispatcher) : Dispatcher :=
  let chosen := { state with accepted := state.accepted + 1 }.choose arrival ipLowbytes
  if chosen.checkPidFile chosen.nextProcess then chosen.fork chosen.nextProcess else chosen

theorem ready_turn (arrival : Arrival) (ipLowbytes : Nat)
    (present : state.workProcesses ≠ []) :
    (state.ready arrival ipLowbytes).workProcesses.length = state.workProcesses.length ∧
      (state.ready arrival ipLowbytes).nextProcess < state.workProcesses.length ∧
      (state.ready arrival ipLowbytes).closed = state.closed := by
  have inside (number : Nat) : number % state.workProcesses.length < state.workProcesses.length :=
    Nat.mod_lt _ (List.length_pos_iff.mpr present)
  rw [ready]
  split
  · exact ⟨List.length_set .., inside _, rfl⟩
  · exact ⟨rfl, inside _, rfl⟩

end Dispatcher

end Service

end HeapHttpd
