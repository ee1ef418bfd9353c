import Mathlib.Data.List.Basic

/-!
# Outboxes

What has been given to an outbox is passed on from its front, some of it at a time.
-/

namespace HeapHttpd

/-- What is held back, and what has gone. -/
structure Outbox (α : Type*) where
  held : List α
  gone : List α
  deriving DecidableEq, Repr

namespace Outbox

variable {α : Type*} {box : Outbox α} {given : List α}

def empty : Outbox α :=
  { held := [], gone := [] }

/-- More is given. -/
def put (data : List α) (box : Outbox α) : Outbox α :=
  { box with held := box.held ++ data }

/-- Some of what is held is passed on. -/
def pass (count : Nat) (box : Outbox α) : Outbox α :=
  { held := box.held.drop count, gone := box.gone ++ box.held.take count }

/-- All that was given has gone or is held, once and in order. -/
def Carries (given : List α) (box : Outbox α) : Prop :=
  given = box.gone ++ box.held

theorem carries_empty : (empty : Outbox α).Carries [] :=
  rfl

theorem Carries.put (carries : box.Carries given) (data : List α) :
    (box.put data).Carries (given ++ data) := by
  rw [Carries, carries, Outbox.put, List.append_assoc]

theorem Carries.pass (carries : box.Carries given) (count : Nat) :
    (box.pass count).Carries given := by
  rw [Carries, carries, Outbox.pass, List.append_assoc, List.take_append_drop]

theorem pass_all : (box.pass box.held.length).held = [] :=
  List.drop_length

end Outbox

end HeapHttpd
