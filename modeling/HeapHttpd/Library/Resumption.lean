import HeapHttpd.Library.Outcome

/-!
# Resumable procedures

A procedure over a state may stop in the middle and let others change the state
before it goes on.  The machine at the end of this file is every interleaving of
calls and resumptions, where the latest procedure that waits goes on first.

An invariant is kept by a procedure together with a mark: what the mark is when
the procedure waits it must be when the procedure goes on, and what it is at the
start it is at the end.  Stacked calls leave the mark alone, so a procedure may
keep in it what it wants to find again.
-/

namespace HeapHttpd

/-- What a procedure does: it is done, it goes wrong, or it waits and goes on
from whatever state it is resumed in.  A procedure whose patience is spent has
taken more passes than it was allowed to. -/
inductive Proc (σ α : Type)
  | done (state : σ) (result : α)
  | fault (state : σ)
  | spent (state : σ)
  | wait (state : σ) (resume : σ → Proc σ α)

namespace Proc

variable {σ α β γ μ : Type}

/-- Go on with the state and the result of a procedure. -/
def andThen : Proc σ α → (σ → α → Proc σ β) → Proc σ β
  | done state result, next => next state result
  | fault state, _ => fault state
  | spent state, _ => spent state
  | wait state resume, next => wait state fun resumed => (resume resumed).andThen next

@[simp]
theorem done_andThen (state : σ) (result : α) (next : σ → α → Proc σ β) :
    (done state result).andThen next = next state result :=
  rfl

@[simp]
theorem fault_andThen (state : σ) (next : σ → α → Proc σ β) :
    (fault state : Proc σ α).andThen next = fault state :=
  rfl

@[simp]
theorem spent_andThen (state : σ) (next : σ → α → Proc σ β) :
    (spent state : Proc σ α).andThen next = spent state :=
  rfl

theorem andThen_assoc (proc : Proc σ α) (next : σ → α → Proc σ β) (last : σ → β → Proc σ γ) :
    (proc.andThen next).andThen last =
      proc.andThen fun state result => (next state result).andThen last := by
  induction proc with
  | done state result => rfl
  | fault state => rfl
  | spent state => rfl
  | wait state resume ih => simp [andThen, ih]

/-- An invariant holds whenever the procedure waits or ends, if it holds whenever
the procedure goes on, and the mark is handled as it should be. -/
inductive Guarantees (inv : σ → Prop) (mark : σ → μ) (first : μ) : Proc σ α → Prop
  | done (state : σ) (result : α) (holds : inv state) (same : mark state = first) :
      Guarantees inv mark first (.done state result)
  | fault (state : σ) (holds : inv state) : Guarantees inv mark first (.fault state)
  | spent (state : σ) (holds : inv state) : Guarantees inv mark first (.spent state)
  | wait (state : σ) (resume : σ → Proc σ α) (holds : inv state)
      (later : ∀ resumed, inv resumed → mark resumed = mark state →
        Guarantees inv mark first (resume resumed)) :
      Guarantees inv mark first (.wait state resume)

theorem Guarantees.andThen {inv : σ → Prop} {mark : σ → μ} {first second : μ}
    {proc : Proc σ α} {next : σ → α → Proc σ β} (kept : proc.Guarantees inv mark first)
    (follows : ∀ state result, inv state → mark state = first →
      (next state result).Guarantees inv mark second) :
    (proc.andThen next).Guarantees inv mark second := by
  induction kept with
  | done state result holds same => exact follows state result holds same
  | fault state holds => exact .fault state holds
  | spent state holds => exact .spent state holds
  | wait state resume holds _ ih => exact .wait _ _ holds ih

/-- Run a procedure, with `handler` for what happens while it waits.  The handler
has a state of its own. -/
def run {ρ : Type} (handler : σ → ρ → Outcome (σ × ρ)) :
    Proc σ α → ρ → Outcome ((σ × α) × ρ)
  | done state result, own => .ok ((state, result), own)
  | fault _, _ => .fault
  | spent _, _ => .err
  | wait state resume, own => do
      let (state, own) ← handler state own
      (resume state).run handler own

@[simp]
theorem run_done {ρ : Type} (handler : σ → ρ → Outcome (σ × ρ)) (state : σ) (result : α)
    (own : ρ) : (done state result).run handler own = .ok ((state, result), own) :=
  rfl

end Proc

/-- A procedure, from whatever state it is started in. -/
def Prog (σ α : Type) :=
  σ → Proc σ α

namespace Prog

variable {σ α β μ : Type}

instance : Monad (Prog σ) where
  pure result := fun state => .done state result
  bind first next := fun state => (first state).andThen fun state result => next result state

@[simp]
theorem pure_apply (result : α) (state : σ) : (pure result : Prog σ α) state = .done state result :=
  rfl

@[simp]
theorem bind_apply (first : Prog σ α) (next : α → Prog σ β) (state : σ) :
    (first >>= next) state = (first state).andThen fun state result => next result state :=
  rfl

/-- The state as it is. -/
def get : Prog σ σ :=
  fun state => .done state state

/-- Change the state. -/
def modify (change : σ → σ) : Prog σ Unit :=
  fun state => .done (change state) ()

/-- Let others go first. -/
def wait : Prog σ Unit :=
  fun state => .wait state fun resumed => .done resumed ()

/-- Leave the defined behaviour. -/
def fault : Prog σ α :=
  fun state => .fault state

/-- Run out of patience. -/
def spent : Prog σ α :=
  fun state => .spent state

/-- A computation that cannot wait and does not change the state. -/
def lift (outcome : Outcome α) : Prog σ α :=
  match outcome with
  | .ok result => pure result
  | .err => fault
  | .fault => fault

/-- A program keeps an invariant from states with a mark on. -/
def Keeps (inv : σ → Prop) (mark : σ → μ) (first : μ) (prog : Prog σ α) : Prop :=
  ∀ state, inv state → mark state = first → (prog state).Guarantees inv mark first

variable {inv : σ → Prop} {mark : σ → μ} {first : μ}

theorem Keeps.pure (result : α) : Keeps inv mark first (pure result : Prog σ α) :=
  fun state holds same => .done state result holds same

theorem Keeps.bind {prog : Prog σ α} {next : α → Prog σ β} (kept : Keeps inv mark first prog)
    (follows : ∀ result, Keeps inv mark first (next result)) :
    Keeps inv mark first (prog >>= next) :=
  fun state holds same =>
    (kept state holds same).andThen fun state result holds same => follows result state holds same

theorem Keeps.get : Keeps inv mark first (get : Prog σ σ) :=
  fun state holds same => .done state state holds same

theorem Keeps.modify {change : σ → σ}
    (kept : ∀ state, inv state → mark state = first → inv (change state))
    (same : ∀ state, mark state = first → mark (change state) = first) :
    Keeps inv mark first (modify change) :=
  fun state holds marked =>
    .done (change state) () (kept state holds marked) (same state marked)

theorem Keeps.wait : Keeps inv mark first (wait : Prog σ Unit) :=
  fun state holds same =>
    .wait state _ holds fun resumed holds same' => .done resumed () holds (same'.trans same)

theorem Keeps.fault : Keeps inv mark first (fault : Prog σ α) :=
  fun state holds _ => .fault state holds

theorem Keeps.spent : Keeps inv mark first (spent : Prog σ α) :=
  fun state holds _ => .spent state holds

theorem Keeps.lift (outcome : Outcome α) : Keeps inv mark first (lift outcome : Prog σ α) := by
  cases outcome with
  | ok result => exact Keeps.pure result
  | err => exact Keeps.fault
  | fault => exact Keeps.fault

end Prog

/-- A state and the procedures that wait, the latest first.  A machine is stopped
when a procedure has gone wrong or lost its patience. -/
structure Machine (σ α : Type) where
  state : σ
  waiting : List (σ → Proc σ α)
  stopped : Bool

namespace Machine

variable {σ α μ : Type}

/-- The machine after a procedure has run until it waits or ends. -/
inductive Runs (waiting : List (σ → Proc σ α)) : Proc σ α → Machine σ α → Prop
  | done (state : σ) (result : α) : Runs waiting (.done state result) ⟨state, waiting, false⟩
  | fault (state : σ) : Runs waiting (.fault state) ⟨state, waiting, true⟩
  | spent (state : σ) : Runs waiting (.spent state) ⟨state, waiting, true⟩
  | wait (state : σ) (resume : σ → Proc σ α) :
      Runs waiting (.wait state resume) ⟨state, resume :: waiting, false⟩

/-- The machines reachable from a first state by calls, in any order, and by
resumptions of the latest procedure that waits. -/
inductive Reachable {ι : Type} (call : ι → σ → Proc σ α) (first : σ → Prop) :
    Machine σ α → Prop
  | start (state : σ) (isFirst : first state) : Reachable call first ⟨state, [], false⟩
  | call (state : σ) (waiting : List (σ → Proc σ α)) (machine : Machine σ α) (input : ι)
      (reachable : Reachable call first ⟨state, waiting, false⟩)
      (runs : Runs waiting (call input state) machine) : Reachable call first machine
  | resume (state : σ) (procedure : σ → Proc σ α) (waiting : List (σ → Proc σ α))
      (machine : Machine σ α)
      (reachable : Reachable call first ⟨state, procedure :: waiting, false⟩)
      (runs : Runs waiting (procedure state) machine) : Reachable call first machine

/-- The machine after a procedure has run until it waits or ends, computed. -/
def settle (waiting : List (σ → Proc σ α)) : Proc σ α → Machine σ α
  | .done state _ => ⟨state, waiting, false⟩
  | .fault state => ⟨state, waiting, true⟩
  | .spent state => ⟨state, waiting, true⟩
  | .wait state resume => ⟨state, resume :: waiting, false⟩

theorem runs_settle (waiting : List (σ → Proc σ α)) (proc : Proc σ α) :
    Runs waiting proc (settle waiting proc) := by
  cases proc with
  | done state result => exact .done state result
  | fault state => exact .fault state
  | spent state => exact .spent state
  | wait state resume => exact .wait state resume

/-- A call, or without an input a resumption. -/
def advance {ι : Type} (call : ι → σ → Proc σ α) (machine : Machine σ α) :
    Option ι → Machine σ α
  | some input =>
      if machine.stopped then machine else settle machine.waiting (call input machine.state)
  | none =>
      if machine.stopped then machine
      else
        match machine.waiting with
        | [] => machine
        | procedure :: waiting => settle waiting (procedure machine.state)

/-- The machine after calls and resumptions. -/
def after {ι : Type} (call : ι → σ → Proc σ α) (state : σ) (inputs : List (Option ι)) :
    Machine σ α :=
  inputs.foldl (advance call) ⟨state, [], false⟩

theorem Reachable.advance {ι : Type} {call : ι → σ → Proc σ α} {first : σ → Prop}
    {machine : Machine σ α} (reachable : Reachable call first machine) (input : Option ι) :
    Reachable call first (machine.advance call input) := by
  rcases machine with ⟨state, waiting, stopped⟩
  cases stopped with
  | true => cases input <;> exact reachable
  | false =>
      cases input with
      | some input => exact .call state waiting _ input reachable (runs_settle waiting _)
      | none =>
          cases waiting with
          | nil => exact reachable
          | cons procedure waiting =>
              exact .resume state procedure waiting _ reachable (runs_settle waiting _)

theorem reachable_after {ι : Type} {call : ι → σ → Proc σ α} {first : σ → Prop} {state : σ}
    (isFirst : first state) (inputs : List (Option ι)) :
    Reachable call first (after call state inputs) := by
  have steps (machine : Machine σ α) (reachable : Reachable call first machine) :
      Reachable call first (inputs.foldl (Machine.advance call) machine) := by
    induction inputs generalizing machine with
    | nil => exact reachable
    | cons input inputs ih => exact ih _ (reachable.advance input)
  exact steps _ (.start state isFirst)

/-- The procedures that wait keep an invariant, each from the mark it waits with
to the mark of the one below. -/
inductive Stacked (inv : σ → Prop) (mark : σ → μ) : μ → List (σ → Proc σ α) → Prop
  | nil (first : μ) : Stacked inv mark first []
  | cons (first second : μ) (procedure : σ → Proc σ α) (waiting : List (σ → Proc σ α))
      (keeps : ∀ state, inv state → mark state = first →
        (procedure state).Guarantees inv mark second)
      (below : Stacked inv mark second waiting) :
      Stacked inv mark first (procedure :: waiting)

theorem Runs.invariant {inv : σ → Prop} {mark : σ → μ} {first : μ}
    {waiting : List (σ → Proc σ α)} {proc : Proc σ α} {machine : Machine σ α}
    (runs : Runs waiting proc machine) (kept : proc.Guarantees inv mark first)
    (below : Stacked inv mark first waiting) :
    inv machine.state ∧
      (machine.stopped = false → Stacked inv mark (mark machine.state) machine.waiting) := by
  cases runs with
  | done state result =>
      cases kept with
      | done _ _ holds same => exact ⟨holds, fun _ => same ▸ below⟩
  | fault state =>
      cases kept with
      | fault _ holds => exact ⟨holds, by simp⟩
  | spent state =>
      cases kept with
      | spent _ holds => exact ⟨holds, by simp⟩
  | wait state resume =>
      cases kept with
      | wait _ _ holds later => exact ⟨holds, fun _ => .cons _ first resume waiting later below⟩

/-- What every call guarantees holds in every reachable state. -/
theorem Reachable.invariant {ι : Type} {call : ι → σ → Proc σ α} {first inv : σ → Prop}
    {mark : σ → μ} (initially : ∀ state, first state → inv state)
    (kept : ∀ input state, inv state → (call input state).Guarantees inv mark (mark state))
    {machine : Machine σ α} (reachable : Reachable call first machine) :
    inv machine.state ∧
      (machine.stopped = false → Stacked inv mark (mark machine.state) machine.waiting) := by
  induction reachable with
  | start state isFirst => exact ⟨initially state isFirst, fun _ => .nil _⟩
  | call state waiting machine input _ runs ih =>
      exact runs.invariant (kept input state ih.1) (ih.2 rfl)
  | resume state procedure waiting machine _ runs ih =>
      cases ih.2 rfl with
      | cons _ second _ _ keeps below => exact runs.invariant (keeps state ih.1 rfl) below

end Machine

end HeapHttpd
