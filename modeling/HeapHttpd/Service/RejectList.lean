import Mathlib.Data.List.Basic

/-!
# The reject list

What `Service::Run` does with a message to reject an address: a loop over
`m_reject_list` that erases, and then the new record.  An iterator is the place of its
record, so that behind an erased record it is at the next one.
-/

namespace HeapHttpd

namespace Service

/-- `stReject`. -/
structure StReject where
  ip : List UInt8
  expire : Int
  deriving DecidableEq, Repr

/-- The loop over the vector, with its iterator. -/
structure Purge where
  rejectList : List StReject
  x : Nat
  deriving DecidableEq, Repr

/-- A pass of the loop at some time, unless the iterator is at the end. -/
def Purge.step (now : Int) (purge : Purge) : Option Purge :=
  match purge.rejectList[purge.x]? with
  | none => none
  | some record =>
      some (if record.expire < now then
          { purge with rejectList := purge.rejectList.eraseIdx purge.x }
        else purge)

/-- What the loop leaves, if so many passes are enough. -/
def Purge.run (now : Int) : Nat → Purge → Option (List StReject)
  | 0, _ => none
  | passes + 1, purge =>
      match purge.step now with
      | none => some purge.rejectList
      | some next => run now passes next

/-- The branch for `MSG_REJECT_APPEND`. -/
def rejectAppend (now : Int) (rejectIp : List UInt8) (passes : Nat) (rejectList : List StReject) :
    Option (List StReject) :=
  (Purge.run now passes ⟨rejectList, 0⟩).map fun kept => kept ++ [⟨rejectIp, now + 5⟩]

/-- The loop ends, and leaves the records that have not expired, in their order, and the new
one. -/
def Purges (now : Int) (rejectIp : List UInt8) (rejectList : List StReject) : Prop :=
  ∃ passes, rejectAppend now rejectIp passes rejectList =
    some (rejectList.filter (fun record => ¬record.expire < now) ++ [⟨rejectIp, now + 5⟩])

namespace Purge

variable {now : Int} {record : StReject} {rejectList kept : List StReject}

theorem step_expired (expired : record.expire < now) :
    step now ⟨record :: rejectList, 0⟩ = some ⟨rejectList, 0⟩ := by
  simp [step, expired]

theorem step_unexpired (unexpired : ¬record.expire < now) :
    step now ⟨record :: rejectList, 0⟩ = some ⟨record :: rejectList, 0⟩ := by
  simp [step, unexpired]

/-- At a record that has not expired the iterator stays. -/
theorem run_unexpired (unexpired : ¬record.expire < now) (passes : Nat) :
    run now passes ⟨record :: rejectList, 0⟩ = none := by
  induction passes with
  | zero => rfl
  | succ passes ih =>
      rw [run, step_unexpired unexpired]
      exact ih

theorem run_expired (expired : ∀ record ∈ rejectList, record.expire < now) :
    run now (rejectList.length + 1) ⟨rejectList, 0⟩ = some [] := by
  induction rejectList with
  | nil => rfl
  | cons record rejectList ih =>
      rw [List.forall_mem_cons] at expired
      rw [run, step_expired expired.1]
      exact ih expired.2

/-- The loop only ends behind an expired last record. -/
theorem expired_of_run {passes : Nat} (ends : run now passes ⟨rejectList, 0⟩ = some kept) :
    ∀ record ∈ rejectList, record.expire < now := by
  induction rejectList generalizing passes with
  | nil => exact fun record absent => (List.not_mem_nil absent).elim
  | cons record rejectList ih =>
      by_cases expired : record.expire < now
      · cases passes with
        | zero => cases ends
        | succ passes =>
            rw [run, step_expired expired] at ends
            exact List.forall_mem_cons.mpr ⟨expired, ih ends⟩
      · rw [run_unexpired expired] at ends
        cases ends

end Purge

/-- For which lists this is so. -/
theorem purges_iff (now : Int) (rejectIp : List UInt8) (rejectList : List StReject) :
    Purges now rejectIp rejectList ↔ ∀ record ∈ rejectList, record.expire < now := by
  constructor
  · rintro ⟨passes, ends⟩
    rw [rejectAppend, Option.map_eq_some_iff] at ends
    obtain ⟨kept, ends, -⟩ := ends
    exact Purge.expired_of_run ends
  · intro expired
    have none : rejectList.filter (fun record => ¬record.expire < now) = [] := by
      rw [List.filter_eq_nil_iff]
      intro record member
      simpa using expired record member
    exact ⟨rejectList.length + 1, by rw [rejectAppend, Purge.run_expired expired, none]; rfl⟩

/-- The loop does not end where a record of the configuration file is in the list, which
never expires. -/
theorem not_purges_configured :
    ¬∀ now rejectIp rejectList, Purges now rejectIp rejectList := by
  intro purges
  obtain ⟨passes, ends⟩ := purges 1700000000 [0x31] [⟨[0x32], 0xffffffff⟩]
  have stays : Purge.run 1700000000 passes ⟨[⟨[0x32], 0xffffffff⟩], 0⟩ = none :=
    Purge.run_unexpired (by decide) passes
  rw [rejectAppend, stays] at ends
  cases ends

end Service

end HeapHttpd
