import HeapHttpd.Library.Replay
import Mathlib.Algebra.Group.Nat.Defs
import Mathlib.Data.List.Nodup

/-!
# The dispatcher of a worker and its pool threads

`Worker::Working` receives the sessions of a worker and hands them to the threads of a
pool over a queue.  Every operation on a mutex, on the semaphore or on the queue is one
step, and the steps of the dispatcher and of the threads come in any order.
-/

namespace HeapHttpd

namespace Worker

/-- The configuration of the pool, and whether the server is built with
`_WITH_ASYNC_`. -/
structure PoolSetting where
  serviceIdleTimeout : Int
  threadIncreaseStep : Nat
  maxInstanceThreadNum : Nat
  withAsync : Bool

/-- Who can hold a lock. -/
inductive Party
  | dispatcher
  | thread (index : Nat)
  deriving DecidableEq

/-- `CLIENT_PARAM_CTRL`. -/
inductive ClientParamCtrl
  | sessionParamData
  | sessionParamExt
  | sessionParamReverseExt
  | sessionParamUsers
  | sessionParamQuit
  deriving DecidableEq

/-- What `RECV_FD` returns: a message with a descriptor, the end of its second, or a
failure. -/
inductive Received
  | message (ctrl : ClientParamCtrl)
  | timeout
  | failure
  deriving DecidableEq

/-- How `sem_timedwait` ends where nothing is posted: it still waits, its time is over or
it was interrupted, or it failed. -/
inductive Waited
  | waits
  | interrupted
  | failed
  deriving DecidableEq

/-- Where `Working` stands.  A session is the number of sessions received before it. -/
inductive DispatcherPoint
  | receive
  | timedOut
  | flushTimedOut
  | postTimedOut
  | idleCheck
  | sizeLockTimedOut
  | sizeUnlockTimedOut
  | idleLockTimedOut (poolSize : Nat)
  | idleUnlockTimedOut (poolSize : Nat)
  | tryLock (session : Nat)
  | flush (session : Nat)
  | postFlushed (session : Nat)
  | unlock
  | post
  | idleLock
  | idleUnlock
  | sizeLock (idleNum : Nat)
  | sizeUnlock (idleNum : Nat)
  | leaving
  | ended
  deriving DecidableEq

/-- Where a thread stands in `START_THREAD_POOL_HANDLER`. -/
inductive ThreadPoint
  | starting
  | sizeLockStarting
  | sizeUnlockStarting
  | idleLockStarting
  | idleUnlockStarting
  | loop
  | wait
  | lock
  | check
  | pop
  | unlock (session : Option Nat)
  | idleLockBusy (session : Nat)
  | idleUnlockBusy (session : Nat)
  | handling (session : Nat)
  | idleLockDone
  | idleUnlockDone
  | sizeLockEnding
  | sizeUnlockEnding
  | idleLockEnding
  | idleUnlockEnding
  | ended
  deriving DecidableEq

/-- `m_STATIC_THREAD_POOL_SIZE` and `m_STATIC_THREAD_IDLE_NUM` with their locks.  The
dispatcher is the only reader of the second lock. -/
structure Counters where
  sizeMutex : Option Party
  poolSize : Nat
  idleLock : Option Party
  idleNum : Nat

/-- `m_STATIC_THREAD_POOL_MUTEX` and the queue it guards.  What has been pushed and popped
is kept, and whether a thread has popped where nothing was. -/
structure Pool where
  mutex : Option Party
  argQueue : List Nat
  pushed : List Nat
  popped : List (Nat × Nat)
  underflow : Bool

/-- A worker: its pool with the semaphore, the dispatcher and the threads. -/
structure WorkerState where
  pool : Pool
  sem : Nat
  poolExit : Bool
  counters : Counters
  dispatcher : DispatcherPoint
  localSessionQueue : List Nat
  lastServiceIdleTime : Int
  received : Nat
  threads : List ThreadPoint

/-- `INIT_THREAD_POOL_HANDLER`, and the threads of the pool before their first step. -/
def WorkerState.initial (threads : Nat) (now : Int) : WorkerState :=
  { pool := { mutex := none, argQueue := [], pushed := [], popped := [], underflow := false }
    sem := 0
    poolExit := true
    counters := { sizeMutex := none, poolSize := 0, idleLock := none, idleNum := 0 }
    dispatcher := .receive
    localSessionQueue := []
    lastServiceIdleTime := now
    received := 0
    threads := List.replicate threads .starting }

namespace WorkerState

/-- The queue gets a session. -/
def push (session : Nat) (state : WorkerState) : WorkerState :=
  { state with
    pool.argQueue := state.pool.argQueue ++ [session]
    pool.pushed := state.pool.pushed ++ [session] }

def semPost (state : WorkerState) : WorkerState :=
  { state with sem := state.sem + 1 }

/-- The dispatcher goes on. -/
def dispatchTo (point : DispatcherPoint) (state : WorkerState) : WorkerState :=
  { state with dispatcher := point }

/-- A thread goes on. -/
def threadTo (index : Nat) (point : ThreadPoint) (state : WorkerState) : WorkerState :=
  { state with threads := state.threads.set index point }

/-- `pthread_mutex_lock` on the mutex of the size: its caller goes on once the mutex is
free. -/
def lockSize (party : Party) (goOn : WorkerState → WorkerState) (state : WorkerState) :
    WorkerState :=
  if state.counters.sizeMutex = none then
    goOn { state with counters.sizeMutex := some party }
  else state

def unlockSize (poolSize : Nat) (state : WorkerState) : WorkerState :=
  { state with counters.sizeMutex := none, counters.poolSize := poolSize }

/-- `pthread_rwlock_rdlock` and `pthread_rwlock_wrlock`. -/
def lockIdle (party : Party) (goOn : WorkerState → WorkerState) (state : WorkerState) :
    WorkerState :=
  if state.counters.idleLock = none then
    goOn { state with counters.idleLock := some party }
  else state

def unlockIdle (idleNum : Nat) (state : WorkerState) : WorkerState :=
  { state with counters.idleLock := none, counters.idleNum := idleNum }

/-- `++` and `--` of an `unsigned int`. -/
def increment (number : Nat) : Nat :=
  (number + 1) % 2 ^ 32

def decrement (number : Nat) : Nat :=
  (number + 2 ^ 32 - 1) % 2 ^ 32

/-- `ThreadPool::More`. -/
def more (step : Nat) (state : WorkerState) : WorkerState :=
  { state with threads := state.threads ++ List.replicate step .starting }

/-- `RECV_FD` at the start of the loop of `Working`. -/
def receiveStep (outcome : Received) (now : Int) (state : WorkerState) : WorkerState :=
  match outcome with
  | .timeout => state.dispatchTo .timedOut
  | .failure => state.dispatchTo .leaving
  | .message ctrl =>
      let state := { state with lastServiceIdleTime := now }
      match ctrl with
      | .sessionParamQuit => state.dispatchTo .leaving
      | .sessionParamData =>
          ({ state with received := state.received + 1 }).dispatchTo (.tryLock state.received)
      | .sessionParamExt | .sessionParamReverseExt | .sessionParamUsers => state

/-- The other steps of `Working`, and the start of `LEAVE_THREAD_POOL_HANDLER` behind
them. -/
def workingStep (setting : PoolSetting) (now : Int) (state : WorkerState) : WorkerState :=
  match state.dispatcher with
  | .receive => state
  | .timedOut =>
      if state.localSessionQueue ≠ [] ∧ state.pool.mutex = none then
        ({ state with
          pool.mutex := some .dispatcher
          lastServiceIdleTime := now }).dispatchTo .flushTimedOut
      else state.dispatchTo .idleCheck
  | .flushTimedOut =>
      match state.localSessionQueue with
      | [] => state.dispatchTo .idleCheck
      | previous :: rest =>
          (({ state with localSessionQueue := rest }).push previous).dispatchTo .postTimedOut
  | .postTimedOut => state.semPost.dispatchTo .flushTimedOut
  | .idleCheck =>
      if now - state.lastServiceIdleTime < setting.serviceIdleTimeout then
        state.dispatchTo .receive
      else state.dispatchTo .sizeLockTimedOut
  | .sizeLockTimedOut => state.lockSize .dispatcher (dispatchTo .sizeUnlockTimedOut)
  | .sizeUnlockTimedOut =>
      (state.unlockSize state.counters.poolSize).dispatchTo
        (.idleLockTimedOut state.counters.poolSize)
  | .idleLockTimedOut poolSize =>
      state.lockIdle .dispatcher (dispatchTo (.idleUnlockTimedOut poolSize))
  | .idleUnlockTimedOut poolSize =>
      (state.unlockIdle state.counters.idleNum).dispatchTo
        (if poolSize ≠ state.counters.idleNum then .receive else .leaving)
  | .tryLock session =>
      if state.pool.mutex = none then
        ({ state with pool.mutex := some .dispatcher }).dispatchTo (.flush session)
      else
        ({ state with
          localSessionQueue := state.localSessionQueue ++ [session] }).dispatchTo .idleLock
  | .flush session =>
      match state.localSessionQueue with
      | [] => (state.push session).dispatchTo .unlock
      | previous :: rest =>
          (({ state with localSessionQueue := rest }).push previous).dispatchTo
            (.postFlushed session)
  | .postFlushed session => state.semPost.dispatchTo (.flush session)
  | .unlock => ({ state with pool.mutex := none }).dispatchTo .post
  | .post => state.semPost.dispatchTo .idleLock
  | .idleLock => state.lockIdle .dispatcher (dispatchTo .idleUnlock)
  | .idleUnlock =>
      (state.unlockIdle state.counters.idleNum).dispatchTo (.sizeLock state.counters.idleNum)
  | .sizeLock idleNum => state.lockSize .dispatcher (dispatchTo (.sizeUnlock idleNum))
  | .sizeUnlock idleNum =>
      let poolSize := state.counters.poolSize
      let state := (state.unlockSize poolSize).dispatchTo .receive
      if !setting.withAsync && idleNum < setting.threadIncreaseStep &&
          poolSize < setting.maxInstanceThreadNum then
        state.more (min (setting.maxInstanceThreadNum - poolSize) setting.threadIncreaseStep)
      else state
  | .leaving => ({ state with poolExit := false }).dispatchTo .ended
  | .ended => state

/-- `START_THREAD_POOL_HANDLER`, a step of one thread. -/
def threadStep (setting : PoolSetting) (index : Nat) (waited : Waited) (state : WorkerState) :
    ThreadPoint → WorkerState
  | .starting => ({ state with poolExit := true }).threadTo index .sizeLockStarting
  | .sizeLockStarting => state.lockSize (.thread index) (threadTo index .sizeUnlockStarting)
  | .sizeUnlockStarting =>
      (state.unlockSize (increment state.counters.poolSize)).threadTo index .idleLockStarting
  | .idleLockStarting => state.lockIdle (.thread index) (threadTo index .idleUnlockStarting)
  | .idleUnlockStarting =>
      (state.unlockIdle (increment state.counters.idleNum)).threadTo index .loop
  | .loop => state.threadTo index (if state.poolExit then .wait else .sizeLockEnding)
  | .wait =>
      if 0 < state.sem then ({ state with sem := state.sem - 1 }).threadTo index .lock
      else
        match waited with
        | .waits => state
        | .interrupted => state.threadTo index (if setting.withAsync then .loop else .sizeLockEnding)
        | .failed => state.threadTo index .sizeLockEnding
  | .lock =>
      if state.pool.mutex = none then
        ({ state with pool.mutex := some (.thread index) }).threadTo index .check
      else state
  | .check => state.threadTo index (if state.pool.argQueue = [] then .unlock none else .pop)
  | .pop =>
      match state.pool.argQueue with
      | [] => ({ state with pool.underflow := true }).threadTo index (.unlock none)
      | session :: rest =>
          ({ state with
            pool.argQueue := rest
            pool.popped := state.pool.popped ++ [(index, session)] }).threadTo index
              (.unlock (some session))
  | .unlock session =>
      ({ state with pool.mutex := none }).threadTo index
        (match session with
        | none => .loop
        | some session => .idleLockBusy session)
  | .idleLockBusy session => state.lockIdle (.thread index) (threadTo index (.idleUnlockBusy session))
  | .idleUnlockBusy session =>
      (state.unlockIdle (decrement state.counters.idleNum)).threadTo index (.handling session)
  | .handling _ => state.threadTo index .idleLockDone
  | .idleLockDone => state.lockIdle (.thread index) (threadTo index .idleUnlockDone)
  | .idleUnlockDone => (state.unlockIdle (increment state.counters.idleNum)).threadTo index .loop
  | .sizeLockEnding => state.lockSize (.thread index) (threadTo index .sizeUnlockEnding)
  | .sizeUnlockEnding =>
      (state.unlockSize (decrement state.counters.poolSize)).threadTo index .idleLockEnding
  | .idleLockEnding => state.lockIdle (.thread index) (threadTo index .idleUnlockEnding)
  | .idleUnlockEnding => (state.unlockIdle (decrement state.counters.idleNum)).threadTo index .ended
  | .ended => state

end WorkerState

/-- Who takes the next step, what it finds and at what time. -/
inductive WorkerEvent
  | receive (outcome : Received) (now : Int)
  | dispatcher (now : Int)
  | thread (index : Nat) (waited : Waited)
  deriving DecidableEq

/-- The next step.  A party that a lock keeps waiting takes none. -/
def workerApply (setting : PoolSetting) (state : WorkerState) : WorkerEvent → WorkerState
  | .receive outcome now =>
      if state.dispatcher = .receive then state.receiveStep outcome now else state
  | .dispatcher now => state.workingStep setting now
  | .thread index waited =>
      match state.threads[index]? with
      | none => state
      | some point => state.threadStep setting index waited point

/-! ## Dispatching -/

/-- The session that the dispatcher has received and not yet put into a queue. -/
def DispatcherPoint.inHand : DispatcherPoint → List Nat
  | .tryLock session | .flush session | .postFlushed session => [session]
  | _ => []

/-- The dispatcher has left its loop. -/
def DispatcherPoint.hasQuit : DispatcherPoint → Bool
  | .leaving | .ended => true
  | _ => false

/-- The loop of the dispatcher starts without the mutex, every session is pushed once or
still waits for it, and once only at the end; none is popped twice, and none where there
is none. -/
structure Dispatches (state : WorkerState) : Prop where
  released : state.dispatcher = .receive → state.pool.mutex ≠ some .dispatcher
  kept : ∀ session < state.received,
    (state.pool.pushed ++ state.localSessionQueue ++ state.dispatcher.inHand).count session = 1
  pushed : state.dispatcher.hasQuit = true →
    ∀ session < state.received, state.pool.pushed.count session = 1
  received : ∀ session ∈ state.pool.pushed, session < state.received
  poppedOnce : (state.pool.popped.map Prod.snd).Nodup
  present : state.pool.underflow = false

/-- A step that neither takes the mutex at the end of a second, nor leaves the loop while
sessions wait. -/
def Undisturbed (state : WorkerState) : WorkerEvent → Prop
  | .receive outcome _ =>
      state.dispatcher = .receive →
        outcome = .failure ∨ outcome = .message .sessionParamQuit →
          state.localSessionQueue = []
  | .dispatcher _ =>
      (state.dispatcher = .timedOut → state.localSessionQueue = [] ∨ state.pool.mutex ≠ none) ∧
        (state.dispatcher = .idleUnlockTimedOut state.counters.idleNum →
          state.localSessionQueue = [])
  | .thread _ _ => True

/-! ## Whatever the steps -/

/-- The dispatcher holds the mutex here. -/
def DispatcherPoint.locks : DispatcherPoint → Bool
  | .flushTimedOut | .postTimedOut | .flush _ | .postFlushed _ | .unlock => true
  | _ => false

/-- A thread holds the mutex here. -/
def ThreadPoint.locks : ThreadPoint → Bool
  | .check | .pop | .unlock _ => true
  | _ => false

/-- A thread that holds the mutex is the one that does, and pops what is there. -/
structure ThreadPoint.Fits (point : ThreadPoint) (index : Nat) (pool : Pool) : Prop where
  locks : point.locks = true → pool.mutex = some (.thread index)
  pops : point = .pop → pool.argQueue ≠ []

/-- What holds after any steps. -/
structure Kept (state : WorkerState) : Prop where
  threads : ∀ (index : Nat) (point : ThreadPoint), state.threads[index]? = some point →
    point.Fits index state.pool
  dispatcher : state.dispatcher.locks = true → state.pool.mutex = some .dispatcher
  taken : state.pool.popped.map Prod.snd ++ state.pool.argQueue = state.pool.pushed
  present : state.pool.underflow = false
  accounted : state.pool.pushed ++ state.localSessionQueue ++ state.dispatcher.inHand =
    List.range state.received

theorem fits_of_unlocked {point : ThreadPoint} (unlocked : point.locks = false) (index : Nat)
    (pool : Pool) : point.Fits index pool := by
  refine ⟨fun locks => ?_, ?_⟩
  · rw [unlocked] at locks
    cases locks
  · rintro rfl
    cases unlocked

/-- A thread without the mutex is at none of its points. -/
theorem ThreadPoint.Fits.unlocked {point : ThreadPoint} {index : Nat} {pool : Pool}
    (fits : point.Fits index pool) (other : pool.mutex ≠ some (.thread index)) :
    point.locks = false :=
  Bool.eq_false_iff.mpr fun locks => other (fits.locks locks)

namespace Kept

variable {state : WorkerState} (kept : Kept state)

include kept

/-- What only moves parties that are not at the queue. -/
theorem quiet {next : WorkerState} (pool : next.pool = state.pool)
    (threads : ∀ (index : Nat) (point : ThreadPoint), next.threads[index]? = some point →
      state.threads[index]? = some point ∨ point.locks = false)
    (locks : next.dispatcher.locks = true → state.dispatcher.locks = true)
    (accounted : state.pool.pushed ++ next.localSessionQueue ++ next.dispatcher.inHand =
      List.range next.received) : Kept next := by
  constructor
  · intro index point isPoint
    rw [pool]
    rcases threads index point isPoint with was | unlocked
    · exact kept.threads index point was
    · exact fits_of_unlocked unlocked index state.pool
  · rw [pool]
    exact fun here => kept.dispatcher (locks here)
  · rw [pool]
    exact kept.taken
  · rw [pool]
    exact kept.present
  · rw [pool]
    exact accounted

section Thread

variable {index : Nat} {point : ThreadPoint}

omit kept in
theorem point_set {next : ThreadPoint} {other : Nat}
    (isPoint : (state.threads.set index next)[other]? = some point) :
    (other = index ∧ point = next) ∨ (other ≠ index ∧ state.threads[other]? = some point) := by
  rw [List.getElem?_set] at isPoint
  split at isPoint
  · rename_i same
    split at isPoint
    · exact .inl ⟨same.symm, (Option.some.inj isPoint).symm⟩
    · cases isPoint
  · rename_i differs
    exact .inr ⟨fun same => differs same.symm, isPoint⟩

/-- A thread goes on without the mutex. -/
theorem threadTo_quiet {next : WorkerState} (unlocked : point.locks = false)
    (pool : next.pool = state.pool) (threads : next.threads = state.threads)
    (dispatcher : next.dispatcher = state.dispatcher)
    (waiting : next.localSessionQueue = state.localSessionQueue)
    (received : next.received = state.received) : Kept (next.threadTo index point) := by
  refine kept.quiet pool ?_ (fun locks => dispatcher ▸ locks) ?_
  · intro other here isPoint
    rw [WorkerState.threadTo, threads] at isPoint
    rcases point_set isPoint with ⟨-, rfl⟩ | ⟨-, was⟩
    · exact .inr unlocked
    · exact .inl was
  · show state.pool.pushed ++ next.localSessionQueue ++ next.dispatcher.inHand =
      List.range next.received
    rw [dispatcher, waiting, received]
    exact kept.accounted

theorem lockSize_threadTo (unlocked : point.locks = false) :
    Kept (state.lockSize (.thread index) (WorkerState.threadTo index point)) := by
  rw [WorkerState.lockSize]
  split
  · exact kept.threadTo_quiet unlocked rfl rfl rfl rfl rfl
  · exact kept

theorem lockIdle_threadTo (unlocked : point.locks = false) :
    Kept (state.lockIdle (.thread index) (WorkerState.threadTo index point)) := by
  rw [WorkerState.lockIdle]
  split
  · exact kept.threadTo_quiet unlocked rfl rfl rfl rfl rfl
  · exact kept

omit kept in
/-- A thread that has the mutex, or gets it or lets go of it, is the only one. -/
theorem threadTo_only {next : WorkerState} (threads : next.threads = state.threads)
    (fits : point.Fits index next.pool)
    (others : ∀ other here, other ≠ index → state.threads[other]? = some here →
      here.locks = false)
    (dispatcher : next.dispatcher.locks = true → next.pool.mutex = some .dispatcher)
    (taken : next.pool.popped.map Prod.snd ++ next.pool.argQueue = next.pool.pushed)
    (present : next.pool.underflow = false)
    (accounted : next.pool.pushed ++ next.localSessionQueue ++ next.dispatcher.inHand =
      List.range next.received) : Kept (next.threadTo index point) := by
  refine ⟨?_, dispatcher, taken, present, accounted⟩
  intro other here isPoint
  rw [WorkerState.threadTo, threads] at isPoint
  rcases point_set isPoint with ⟨rfl, rfl⟩ | ⟨differs, was⟩
  · exact fits
  · exact fits_of_unlocked (others other here differs was) other next.pool

/-- The others have no mutex that a thread has. -/
theorem others_unlocked (isPoint : state.threads[index]? = some point)
    (locks : point.locks = true) (other : Nat) (here : ThreadPoint) (differs : other ≠ index)
    (isHere : state.threads[other]? = some here) : here.locks = false := by
  refine (kept.threads other here isHere).unlocked fun mutex => ?_
  rw [(kept.threads index point isPoint).locks locks] at mutex
  cases mutex
  exact differs rfl

theorem dispatcher_unlocked (isPoint : state.threads[index]? = some point)
    (locks : point.locks = true) : state.dispatcher.locks = false := by
  refine Bool.eq_false_iff.mpr fun dispatcher => ?_
  have mutex := kept.dispatcher dispatcher
  rw [(kept.threads index point isPoint).locks locks] at mutex
  cases mutex

theorem threadStep (setting : PoolSetting) (waited : Waited)
    (isPoint : state.threads[index]? = some point) :
    Kept (state.threadStep setting index waited point) := by
  cases point with
  | starting | sizeUnlockStarting | idleUnlockStarting | idleUnlockBusy | handling
  | idleUnlockDone | sizeUnlockEnding | idleUnlockEnding =>
      exact kept.threadTo_quiet rfl rfl rfl rfl rfl rfl
  | sizeLockStarting | sizeLockEnding => exact kept.lockSize_threadTo rfl
  | idleLockStarting | idleLockBusy | idleLockDone | idleLockEnding =>
      exact kept.lockIdle_threadTo rfl
  | loop =>
      refine kept.threadTo_quiet ?_ rfl rfl rfl rfl rfl
      split <;> rfl
  | wait =>
      by_cases posted : 0 < state.sem
      · simp only [WorkerState.threadStep, if_pos posted]
        exact kept.threadTo_quiet rfl rfl rfl rfl rfl rfl
      · simp only [WorkerState.threadStep, if_neg posted]
        cases waited with
        | waits => exact kept
        | interrupted =>
            refine kept.threadTo_quiet ?_ rfl rfl rfl rfl rfl
            split <;> rfl
        | failed => exact kept.threadTo_quiet rfl rfl rfl rfl rfl rfl
  | lock =>
      rw [WorkerState.threadStep]
      split
      · rename_i free
        have fits : ThreadPoint.check.Fits index
            { state.pool with mutex := some (.thread index) } :=
          ⟨fun _ => rfl, fun pops => by cases pops⟩
        have unlocked : state.dispatcher.locks = false := by
          refine Bool.eq_false_iff.mpr fun locks => ?_
          rw [kept.dispatcher locks] at free
          cases free
        refine threadTo_only rfl fits ?_ ?_ kept.taken kept.present kept.accounted
        · intro other here differs isHere
          exact (kept.threads other here isHere).unlocked (by simp [free])
        · intro locks
          exact absurd (unlocked.symm.trans locks) Bool.false_ne_true
      · exact kept
  | check =>
      have fits := kept.threads index .check isPoint
      refine threadTo_only rfl ⟨fun _ => fits.locks rfl, ?_⟩
        (kept.others_unlocked isPoint rfl) kept.dispatcher kept.taken kept.present kept.accounted
      intro pops empty
      rw [if_pos empty] at pops
      cases pops
  | pop =>
      have fits := kept.threads index .pop isPoint
      rw [WorkerState.threadStep]
      cases queued : state.pool.argQueue with
      | nil => exact absurd queued (fits.pops rfl)
      | cons session rest =>
          refine threadTo_only rfl ⟨fun _ => fits.locks rfl, fun pops => by cases pops⟩
            (kept.others_unlocked isPoint rfl) kept.dispatcher ?_ kept.present kept.accounted
          have taken := kept.taken
          rw [queued] at taken
          simpa using taken
  | unlock session =>
      have unlocked := kept.dispatcher_unlocked isPoint rfl
      refine threadTo_only rfl (fits_of_unlocked ?_ _ _)
        (kept.others_unlocked isPoint rfl) ?_ kept.taken kept.present kept.accounted
      · cases session <;> rfl
      · intro locks
        exact absurd (unlocked.symm.trans locks) Bool.false_ne_true
  | ended => exact kept

end Thread

section Dispatcher

variable {point : DispatcherPoint}

/-- The dispatcher goes on with what it had. -/
theorem dispatchTo_quiet {next : WorkerState} (locks : point.locks = true →
    state.dispatcher.locks = true) (hand : point.inHand = state.dispatcher.inHand)
    (pool : next.pool = state.pool) (threads : next.threads = state.threads)
    (waiting : next.localSessionQueue = state.localSessionQueue)
    (received : next.received = state.received) : Kept (next.dispatchTo point) := by
  refine kept.quiet pool ?_ locks ?_
  · intro index here isPoint
    rw [← threads]
    exact .inl isPoint
  · show state.pool.pushed ++ next.localSessionQueue ++ point.inHand = List.range next.received
    rw [hand, waiting, received]
    exact kept.accounted

theorem lockSize_dispatchTo (locks : point.locks = true → state.dispatcher.locks = true)
    (hand : point.inHand = state.dispatcher.inHand) :
    Kept (state.lockSize .dispatcher (WorkerState.dispatchTo point)) := by
  rw [WorkerState.lockSize]
  split
  · exact kept.dispatchTo_quiet locks hand rfl rfl rfl rfl
  · exact kept

theorem lockIdle_dispatchTo (locks : point.locks = true → state.dispatcher.locks = true)
    (hand : point.inHand = state.dispatcher.inHand) :
    Kept (state.lockIdle .dispatcher (WorkerState.dispatchTo point)) := by
  rw [WorkerState.lockIdle]
  split
  · exact kept.dispatchTo_quiet locks hand rfl rfl rfl rfl
  · exact kept

/-- The dispatcher uses the pool while no thread has its mutex. -/
theorem dispatchTo_only {next : WorkerState}
    (alone : ∀ index, state.pool.mutex ≠ some (.thread index))
    (threads : next.threads = state.threads)
    (locks : point.locks = true → next.pool.mutex = some .dispatcher)
    (taken : next.pool.popped.map Prod.snd ++ next.pool.argQueue = next.pool.pushed)
    (present : next.pool.underflow = false)
    (accounted : next.pool.pushed ++ next.localSessionQueue ++ point.inHand =
      List.range next.received) : Kept (next.dispatchTo point) := by
  refine ⟨?_, locks, taken, present, accounted⟩
  intro index here isPoint
  have was : state.threads[index]? = some here := threads ▸ isPoint
  exact fits_of_unlocked ((kept.threads index here was).unlocked (alone index)) index next.pool

theorem alone_of_locks (locks : state.dispatcher.locks = true) (index : Nat) :
    state.pool.mutex ≠ some (.thread index) := by
  rw [kept.dispatcher locks]
  simp

/-- A session goes from the waiting ones, or from the hand, to the queue. -/
theorem push_only {next : WorkerState} {session : Nat}
    (locks : state.dispatcher.locks = true) (pool : next.pool = state.pool)
    (threads : next.threads = state.threads)
    (accounted : state.pool.pushed ++ session :: next.localSessionQueue ++ point.inHand =
      List.range next.received) : Kept ((next.push session).dispatchTo point) := by
  refine kept.dispatchTo_only (kept.alone_of_locks locks) threads (fun _ => ?_) ?_ ?_ ?_
  · show next.pool.mutex = some .dispatcher
    rw [pool, kept.dispatcher locks]
  · show next.pool.popped.map Prod.snd ++ (next.pool.argQueue ++ [session]) =
      next.pool.pushed ++ [session]
    rw [pool, ← List.append_assoc, kept.taken]
  · show next.pool.underflow = false
    rw [pool, kept.present]
  · show next.pool.pushed ++ [session] ++ next.localSessionQueue ++ point.inHand =
      List.range next.received
    rw [pool, ← accounted]
    simp

theorem receiveStep (outcome : Received) (now : Int) (here : state.dispatcher = .receive) :
    Kept (state.receiveStep outcome now) := by
  have hand : state.dispatcher.inHand = [] := by rw [here]; rfl
  cases outcome with
  | timeout | failure =>
      exact kept.dispatchTo_quiet (fun locks => by cases locks) hand.symm rfl rfl rfl rfl
  | message ctrl =>
      cases ctrl with
      | sessionParamQuit =>
          exact kept.dispatchTo_quiet (fun locks => by cases locks) hand.symm rfl rfl rfl rfl
      | sessionParamExt | sessionParamReverseExt | sessionParamUsers =>
          exact kept.quiet rfl (fun _ _ isPoint => .inl isPoint) id kept.accounted
      | sessionParamData =>
          refine kept.quiet rfl (fun _ _ isPoint => .inl isPoint) (fun locks => by cases locks) ?_
          have accounted := kept.accounted
          rw [hand, List.append_nil] at accounted
          show state.pool.pushed ++ state.localSessionQueue ++ [state.received] =
            List.range (state.received + 1)
          rw [List.range_succ, accounted]

theorem more_quiet (step : Nat) : Kept (state.more step) := by
  refine kept.quiet rfl ?_ id kept.accounted
  intro index here isPoint
  rw [WorkerState.more, List.getElem?_append] at isPoint
  split at isPoint
  · exact .inl isPoint
  · obtain rfl := (List.mem_replicate.mp (List.mem_of_getElem? isPoint)).2
    exact .inr rfl

theorem workingStep (setting : PoolSetting) (now : Int) :
    Kept (state.workingStep setting now) := by
  have accounted := kept.accounted
  cases here : state.dispatcher with
  | receive | ended =>
      rw [WorkerState.workingStep, here]
      exact kept
  | timedOut =>
      rw [here] at accounted
      simp only [WorkerState.workingStep, here]
      split
      · rename_i free
        exact kept.dispatchTo_only (by simp [free.2]) rfl (fun _ => rfl) kept.taken kept.present
          accounted
      · exact kept.dispatchTo_quiet (fun locks => by cases locks) (by rw [here]; rfl) rfl rfl rfl rfl
  | flushTimedOut =>
      simp only [WorkerState.workingStep, here]
      cases waiting : state.localSessionQueue with
      | nil =>
          exact kept.dispatchTo_quiet (fun locks => by cases locks) (by rw [here]; rfl) rfl rfl
            rfl rfl
      | cons previous rest =>
          rw [here, waiting] at accounted
          exact kept.push_only (by rw [here]; rfl) rfl rfl accounted
  | flush session =>
      simp only [WorkerState.workingStep, here]
      cases waiting : state.localSessionQueue with
      | nil =>
          rw [here, waiting] at accounted
          refine kept.push_only (by rw [here]; rfl) rfl rfl ?_
          show state.pool.pushed ++ session :: state.localSessionQueue ++ [] =
            List.range state.received
          rw [waiting, ← accounted]
          simp [DispatcherPoint.inHand]
      | cons previous rest =>
          rw [here, waiting] at accounted
          exact kept.push_only (by rw [here]; rfl) rfl rfl accounted
  | tryLock session =>
      rw [here] at accounted
      simp only [WorkerState.workingStep, here]
      split
      · rename_i free
        exact kept.dispatchTo_only (by simp [free]) rfl (fun _ => rfl) kept.taken kept.present
          accounted
      · refine kept.quiet rfl (fun _ _ isPoint => .inl isPoint) (fun locks => by cases locks) ?_
        show state.pool.pushed ++ (state.localSessionQueue ++ [session]) ++ [] =
          List.range state.received
        rw [List.append_nil, ← List.append_assoc]
        exact accounted
  | unlock =>
      rw [here] at accounted
      rw [WorkerState.workingStep, here]
      exact kept.dispatchTo_only (kept.alone_of_locks (by rw [here]; rfl)) rfl
        (fun locks => by cases locks) kept.taken kept.present accounted
  | postTimedOut | postFlushed =>
      rw [WorkerState.workingStep, here]
      exact kept.dispatchTo_quiet (fun _ => by rw [here]; rfl) (by rw [here]; rfl) rfl rfl rfl rfl
  | idleCheck =>
      simp only [WorkerState.workingStep, here]
      split <;>
        exact kept.dispatchTo_quiet (fun locks => by cases locks) (by rw [here]; rfl) rfl rfl rfl rfl
  | sizeLockTimedOut | sizeLock =>
      rw [WorkerState.workingStep, here]
      exact kept.lockSize_dispatchTo (fun locks => by cases locks) (by rw [here]; rfl)
  | idleLockTimedOut | idleLock =>
      rw [WorkerState.workingStep, here]
      exact kept.lockIdle_dispatchTo (fun locks => by cases locks) (by rw [here]; rfl)
  | sizeUnlockTimedOut | idleUnlock | post | leaving =>
      rw [WorkerState.workingStep, here]
      exact kept.dispatchTo_quiet (fun locks => by cases locks) (by rw [here]; rfl) rfl rfl rfl rfl
  | idleUnlockTimedOut poolSize =>
      simp only [WorkerState.workingStep, here]
      split <;>
        exact kept.dispatchTo_quiet (fun locks => by cases locks) (by rw [here]; rfl) rfl rfl rfl rfl
  | sizeUnlock idleNum =>
      have next : Kept ((state.unlockSize state.counters.poolSize).dispatchTo .receive) :=
        kept.dispatchTo_quiet (fun locks => by cases locks) (by rw [here]; rfl) rfl rfl rfl rfl
      simp only [WorkerState.workingStep, here]
      split
      · exact next.more_quiet _
      · exact next

end Dispatcher

theorem workerApply (setting : PoolSetting) (event : WorkerEvent) :
    Kept (Worker.workerApply setting state event) := by
  cases event with
  | receive outcome now =>
      rw [Worker.workerApply]
      split
      · rename_i here
        exact kept.receiveStep outcome now here
      · exact kept
  | dispatcher now => exact kept.workingStep setting now
  | thread index waited =>
      rw [Worker.workerApply]
      cases isPoint : state.threads[index]? with
      | none => exact kept
      | some point => exact kept.threadStep setting waited isPoint

end Kept

theorem kept_initial (threads : Nat) (now : Int) : Kept (WorkerState.initial threads now) := by
  constructor
  · intro index point isPoint
    obtain rfl := (List.mem_replicate.mp (List.mem_of_getElem? isPoint)).2
    exact fits_of_unlocked rfl index _
  · intro locks
    cases locks
  · rfl
  · rfl
  · rfl

/-! ## Undisturbed steps -/

/-- What holds while the dispatcher does not use the pool at the end of a second. -/
structure Settled (state : WorkerState) : Prop where
  flushes : state.dispatcher ≠ .flushTimedOut ∧ state.dispatcher ≠ .postTimedOut
  holds : state.pool.mutex = some .dispatcher → state.dispatcher.locks = true
  quit : state.dispatcher.hasQuit = true → state.localSessionQueue = []

namespace Settled

variable {state : WorkerState} (settled : Settled state)

include settled

/-- What leaves the dispatcher as it is, and its hold of the mutex. -/
theorem frame {next : WorkerState} (dispatcher : next.dispatcher = state.dispatcher)
    (waiting : next.localSessionQueue = state.localSessionQueue)
    (mutex : next.pool.mutex = some .dispatcher → state.pool.mutex = some .dispatcher) :
    Settled next := by
  refine ⟨?_, fun holds => ?_, fun quit => ?_⟩
  · rw [dispatcher]
    exact settled.flushes
  · rw [dispatcher]
    exact settled.holds (mutex holds)
  · rw [waiting]
    exact settled.quit (dispatcher ▸ quit)

theorem threadStep (setting : PoolSetting) (index : Nat) (waited : Waited)
    (point : ThreadPoint) : Settled (state.threadStep setting index waited point) := by
  cases point with
  | starting | sizeUnlockStarting | idleUnlockStarting | idleUnlockBusy | handling
  | idleUnlockDone | sizeUnlockEnding | idleUnlockEnding | loop | check | ended =>
      exact settled.frame rfl rfl id
  | sizeLockStarting | sizeLockEnding =>
      simp only [WorkerState.threadStep, WorkerState.lockSize]
      split <;> exact settled.frame rfl rfl id
  | idleLockStarting | idleLockBusy | idleLockDone | idleLockEnding =>
      simp only [WorkerState.threadStep, WorkerState.lockIdle]
      split <;> exact settled.frame rfl rfl id
  | wait =>
      simp only [WorkerState.threadStep]
      split
      · exact settled.frame rfl rfl id
      · cases waited <;> exact settled.frame rfl rfl id
  | lock =>
      simp only [WorkerState.threadStep]
      split
      · exact settled.frame rfl rfl fun holds => by cases holds
      · exact settled
  | pop =>
      simp only [WorkerState.threadStep]
      split <;> exact settled.frame rfl rfl id
  | unlock session => exact settled.frame rfl rfl fun holds => by cases holds

omit settled in
/-- The dispatcher goes on without the mutex. -/
theorem dispatchTo_free {next : WorkerState} {point : DispatcherPoint}
    (flushes : point ≠ .flushTimedOut ∧ point ≠ .postTimedOut)
    (free : next.pool.mutex ≠ some .dispatcher)
    (quit : point.hasQuit = true → next.localSessionQueue = []) :
    Settled (next.dispatchTo point) :=
  ⟨flushes, fun holds => absurd holds free, quit⟩

theorem free_of_unlocked (unlocked : state.dispatcher.locks = false) :
    state.pool.mutex ≠ some .dispatcher := by
  intro holds
  rw [settled.holds holds] at unlocked
  cases unlocked

theorem receiveStep {outcome : Received} {now : Int} (here : state.dispatcher = .receive)
    (waits : outcome = .failure ∨ outcome = .message .sessionParamQuit →
      state.localSessionQueue = []) : Settled (state.receiveStep outcome now) := by
  have free := settled.free_of_unlocked (by rw [here]; rfl)
  cases outcome with
  | timeout => exact dispatchTo_free (by simp) free fun quit => by cases quit
  | failure => exact dispatchTo_free (by simp) free fun _ => waits (.inl rfl)
  | message ctrl =>
      cases ctrl with
      | sessionParamQuit => exact dispatchTo_free (by simp) free fun _ => waits (.inr rfl)
      | sessionParamData => exact dispatchTo_free (by simp) free fun quit => by cases quit
      | sessionParamExt | sessionParamReverseExt | sessionParamUsers =>
          exact settled.frame rfl rfl id

/-- A lock of the counters leaves the pool alone. -/
theorem lockSize_dispatchTo {point : DispatcherPoint}
    (flushes : point ≠ .flushTimedOut ∧ point ≠ .postTimedOut)
    (unlocked : state.dispatcher.locks = false) (stays : point.hasQuit = false) :
    Settled (state.lockSize .dispatcher (WorkerState.dispatchTo point)) := by
  rw [WorkerState.lockSize]
  split
  · exact dispatchTo_free flushes (settled.free_of_unlocked unlocked) fun quit => by simp_all
  · exact settled

theorem lockIdle_dispatchTo {point : DispatcherPoint}
    (flushes : point ≠ .flushTimedOut ∧ point ≠ .postTimedOut)
    (unlocked : state.dispatcher.locks = false) (stays : point.hasQuit = false) :
    Settled (state.lockIdle .dispatcher (WorkerState.dispatchTo point)) := by
  rw [WorkerState.lockIdle]
  split
  · exact dispatchTo_free flushes (settled.free_of_unlocked unlocked) fun quit => by simp_all
  · exact settled

theorem workingStep {setting : PoolSetting} {now : Int}
    (timed : state.dispatcher = .timedOut →
      state.localSessionQueue = [] ∨ state.pool.mutex ≠ none)
    (idles : state.dispatcher = .idleUnlockTimedOut state.counters.idleNum →
      state.localSessionQueue = []) : Settled (state.workingStep setting now) := by
  have free := settled.free_of_unlocked
  have quit := settled.quit
  cases here : state.dispatcher with
  | receive | ended =>
      rw [WorkerState.workingStep, here]
      exact settled
  | flushTimedOut => exact absurd here settled.flushes.1
  | postTimedOut => exact absurd here settled.flushes.2
  | timedOut =>
      simp only [WorkerState.workingStep, here]
      split
      · rename_i taken
        rcases timed here with empty | held
        · exact absurd empty taken.1
        · exact absurd taken.2 held
      · exact dispatchTo_free (by simp) (free (by rw [here]; rfl)) fun quit => by cases quit
  | flush session =>
      simp only [WorkerState.workingStep, here]
      cases state.localSessionQueue <;>
        exact ⟨⟨by simp [WorkerState.dispatchTo], by simp [WorkerState.dispatchTo]⟩, fun _ => rfl,
          fun quit => by cases quit⟩
  | postFlushed session =>
      rw [WorkerState.workingStep, here]
      exact ⟨⟨by simp [WorkerState.dispatchTo], by simp [WorkerState.dispatchTo]⟩, fun _ => rfl,
        fun quit => by cases quit⟩
  | tryLock session =>
      simp only [WorkerState.workingStep, here]
      split
      · exact ⟨⟨by simp [WorkerState.dispatchTo], by simp [WorkerState.dispatchTo]⟩, fun _ => rfl,
          fun quit => by cases quit⟩
      · exact dispatchTo_free (by simp) (free (by rw [here]; rfl)) fun quit => by cases quit
  | unlock =>
      rw [WorkerState.workingStep, here]
      exact dispatchTo_free (by simp) (by simp) fun quit => by cases quit
  | idleCheck =>
      simp only [WorkerState.workingStep, here]
      split <;>
        exact dispatchTo_free (by simp) (free (by rw [here]; rfl)) fun quit => by cases quit
  | sizeLockTimedOut | sizeLock =>
      rw [WorkerState.workingStep, here]
      exact settled.lockSize_dispatchTo (by simp) (by rw [here]; rfl) rfl
  | idleLockTimedOut | idleLock =>
      rw [WorkerState.workingStep, here]
      exact settled.lockIdle_dispatchTo (by simp) (by rw [here]; rfl) rfl
  | sizeUnlockTimedOut | idleUnlock | post =>
      rw [WorkerState.workingStep, here]
      exact dispatchTo_free (by simp) (free (by rw [here]; rfl)) fun quit => by cases quit
  | idleUnlockTimedOut poolSize =>
      simp only [WorkerState.workingStep, here]
      split
      · exact dispatchTo_free (by simp) (free (by rw [here]; rfl)) fun quit => by cases quit
      · rename_i same
        have empty := idles (by rw [here, not_not.mp same])
        exact dispatchTo_free (by simp) (free (by rw [here]; rfl)) fun _ => empty
  | sizeUnlock idleNum =>
      have next : Settled ((state.unlockSize state.counters.poolSize).dispatchTo .receive) :=
        dispatchTo_free (by simp) (free (by rw [here]; rfl)) fun quit => by cases quit
      simp only [WorkerState.workingStep, here]
      split
      · exact next.frame rfl rfl id
      · exact next
  | leaving =>
      rw [WorkerState.workingStep, here]
      exact dispatchTo_free (by simp) (free (by rw [here]; rfl)) fun _ => quit (by rw [here]; rfl)

theorem workerApply {setting : PoolSetting} {event : WorkerEvent}
    (undisturbed : Undisturbed state event) :
    Settled (Worker.workerApply setting state event) := by
  cases event with
  | receive outcome now =>
      rw [Worker.workerApply]
      split
      · rename_i here
        exact settled.receiveStep here (undisturbed here)
      · exact settled
  | dispatcher now => exact settled.workingStep undisturbed.1 undisturbed.2
  | thread index waited =>
      rw [Worker.workerApply]
      split
      · exact settled
      · exact settled.threadStep setting index waited _

end Settled

theorem settled_initial (threads : Nat) (now : Int) :
    Settled (WorkerState.initial threads now) :=
  ⟨by simp [WorkerState.initial], by simp [WorkerState.initial], fun _ => rfl⟩

theorem dispatches_of_kept {state : WorkerState} (kept : Kept state) (settled : Settled state) :
    Dispatches state := by
  have accounted := kept.accounted
  have once (session : Nat) (received : session < state.received) :
      (List.range state.received).count session = 1 :=
    List.count_eq_one_of_mem List.nodup_range (List.mem_range.mpr received)
  constructor
  · intro here
    exact settled.free_of_unlocked (by rw [here]; rfl)
  · intro session received
    rw [accounted]
    exact once session received
  · intro quit session received
    have hand : state.dispatcher.inHand = [] := by
      cases here : state.dispatcher <;> simp_all [DispatcherPoint.hasQuit, DispatcherPoint.inHand]
    rw [settled.quit quit, hand, List.append_nil, List.append_nil] at accounted
    rw [accounted]
    exact once session received
  · intro session pushed
    have inAll : session ∈ state.pool.pushed ++ state.localSessionQueue ++
        state.dispatcher.inHand := by simp [pushed]
    rw [accounted] at inAll
    exact List.mem_range.mp inAll
  · have distinct : (state.pool.pushed ++ state.localSessionQueue ++
        state.dispatcher.inHand).Nodup := accounted ▸ List.nodup_range
    rw [← kept.taken] at distinct
    simp only [List.append_assoc] at distinct
    exact distinct.sublist (List.sublist_append_left _ _)
  · exact kept.present

/-- The pool is served as it should be as long as the dispatcher neither takes the mutex
at the end of a second nor leaves while sessions wait. -/
theorem dispatches_of_undisturbed (setting : PoolSetting) (threads : Nat) (now : Int)
    (events : List WorkerEvent)
    (undisturbed : Replay.Throughout (workerApply setting) Undisturbed
      (WorkerState.initial threads now) events) :
    Dispatches (events.foldl (workerApply setting) (WorkerState.initial threads now)) := by
  have both : Kept (events.foldl (workerApply setting) (WorkerState.initial threads now)) ∧
      Settled (events.foldl (workerApply setting) (WorkerState.initial threads now)) :=
    @Replay.Throughout.invariant _ _ _ _ _ (fun state => Kept state ∧ Settled state) _ undisturbed
      ⟨kept_initial threads now, settled_initial threads now⟩
      fun state holds event _ fits =>
        ⟨holds.1.workerApply setting event, holds.2.workerApply fits⟩
  exact dispatches_of_kept both.1 both.2

instance (state : WorkerState) : (event : WorkerEvent) → Decidable (Undisturbed state event)
  | .receive outcome _ =>
      inferInstanceAs (Decidable (state.dispatcher = .receive →
        outcome = .failure ∨ outcome = .message .sessionParamQuit →
          state.localSessionQueue = []))
  | .dispatcher _ =>
      inferInstanceAs (Decidable
        ((state.dispatcher = .timedOut → state.localSessionQueue = [] ∨ state.pool.mutex ≠ none) ∧
          (state.dispatcher = .idleUnlockTimedOut state.counters.idleNum →
            state.localSessionQueue = [])))
  | .thread _ _ => isTrue trivial

def trialSetting : PoolSetting :=
  { serviceIdleTimeout := 600
    threadIncreaseStep := 1
    maxInstanceThreadNum := 4
    withAsync := false }

/-- A second session comes while the only thread takes the first one from the queue. -/
def trialSessions : List WorkerEvent :=
  List.replicate 6 (.thread 0 .waits) ++
    .receive (.message .sessionParamData) 1 :: List.replicate 8 (.dispatcher 1) ++
    List.replicate 2 (.thread 0 .waits) ++
    .receive (.message .sessionParamData) 2 :: List.replicate 5 (.dispatcher 2) ++
    List.replicate 3 (.thread 0 .waits)

/-- The second session is pushed with the third one. -/
theorem dispatches_trial :
    Dispatches (List.foldl (workerApply trialSetting) (WorkerState.initial 1 0)
      (trialSessions ++ .receive (.message .sessionParamData) 3 ::
        List.replicate 10 (.dispatcher 3))) :=
  dispatches_of_undisturbed trialSetting 1 0 _ (by decide)

/-- The second session is pushed at the end of a second, and the mutex stays with the
dispatcher. -/
theorem working_keeps_mutex :
    ¬ ∀ (setting : PoolSetting) (threads : Nat) (now : Int) (events : List WorkerEvent),
      Dispatches (events.foldl (workerApply setting) (WorkerState.initial threads now)) := by
  intro always
  have dispatches := always trialSetting 1 0
    (trialSessions ++ .receive .timeout 3 :: List.replicate 5 (.dispatcher 3))
  exact dispatches.released (by decide) (by decide)

end Worker

end HeapHttpd
