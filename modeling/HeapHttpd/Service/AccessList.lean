import HeapHttpd.Service.RejectList
import HeapHttpd.Service.Strmatch
import Mathlib.Data.Set.Defs

/-!
# Admitting a client

How `Service::Accept` comes to its `access_result`, from the two lists and the address.
-/

namespace HeapHttpd

namespace Service

open General (octets cString)

/-- The loop over `m_permit_list`. -/
def isPermitted (clientIp : List UInt8) (permitList : List (List UInt8)) : Outcome Bool :=
  permitList.anyM fun pattern => strmatch pattern clientIp

/-- A loop over `m_reject_list`. -/
def isRejected (clientIp : List UInt8) (now : Int) (rejectList : List StReject) : Outcome Bool :=
  rejectList.anyM fun record =>
    strmatch record.ip clientIp >>= fun result => .ok (result && now < record.expire)

/-- `access_result`. -/
def accessResult (permitList : List (List UInt8)) (rejectList : List StReject)
    (clientIp : List UInt8) (now : Int) : Outcome Bool :=
  if 0 < permitList.length then
    isPermitted clientIp permitList >>= fun permitted =>
      isRejected clientIp now rejectList >>= fun rejected =>
        .ok (if rejected then false else permitted)
  else
    isRejected clientIp now rejectList >>= fun rejected => .ok (if rejected then false else true)

/-- The address is admitted if the first list is empty or has it, and the second one does not
have it. -/
def RightlyAdmitted (permitList : List (List UInt8)) (rejectList : List StReject)
    (clientIp : List UInt8) (now : Int) : Prop :=
  ∃ result, accessResult permitList rejectList clientIp now = .ok result ∧
    (result = true ↔
      (permitList = [] ∨ ∃ pattern ∈ permitList, Matches (cString pattern) (cString clientIp)) ∧
        ¬∃ record ∈ rejectList, now < record.expire ∧
          Matches (cString record.ip) (cString clientIp))

/-- A loop that asks for one element asks for any. -/
theorem anyM_answers {α : Type} {test : α → Outcome Bool} {property : α → Prop} {list : List α}
    (answers : ∀ element ∈ list,
      ∃ result, test element = .ok result ∧ (result = true ↔ property element)) :
    ∃ result, list.anyM test = .ok result ∧
      (result = true ↔ ∃ element ∈ list, property element) := by
  induction list with
  | nil => exact ⟨false, rfl, by simp⟩
  | cons element list ih =>
      obtain ⟨⟨here, tested, isHere⟩, answers⟩ := List.forall_mem_cons.mp answers
      obtain ⟨later, looped, isLater⟩ := ih answers
      rw [List.anyM, tested, Outcome.ok_bind]
      cases here with
      | true => exact ⟨true, rfl, by simp [← isHere]⟩
      | false => exact ⟨later, looped, by simp [← isHere, isLater]⟩

section

variable {permitList : List (List UInt8)} {rejectList : List StReject} {clientIp : List UInt8}

theorem isRejected_answers (now : Int)
    (right : ∀ record ∈ rejectList, RightlyMatched record.ip clientIp) :
    ∃ result, isRejected clientIp now rejectList = .ok result ∧
      (result = true ↔ ∃ record ∈ rejectList, now < record.expire ∧
        Matches (cString record.ip) (cString clientIp)) := by
  refine anyM_answers fun record member => ?_
  obtain ⟨result, matched, isMatched⟩ := right record member
  refine ⟨result && now < record.expire, ?_, ?_⟩
  · rw [matched, Outcome.ok_bind]
  · rw [Bool.and_eq_true, decide_eq_true_iff, isMatched, and_comm]

/-- Where the patterns are matched as they should be, the address is admitted so. -/
theorem rightlyAdmitted_of_matched (now : Int)
    (permits : ∀ pattern ∈ permitList, RightlyMatched pattern clientIp)
    (rejects : ∀ record ∈ rejectList, RightlyMatched record.ip clientIp) :
    RightlyAdmitted permitList rejectList clientIp now := by
  obtain ⟨rejected, rejectLoop, isRejected⟩ := isRejected_answers now rejects
  obtain ⟨permitted, permitLoop, isPermitted⟩ :
      ∃ result, isPermitted clientIp permitList = .ok result ∧ (result = true ↔ _) :=
    anyM_answers permits
  cases permitList with
  | nil =>
      refine ⟨if rejected then false else true, ?_, ?_⟩
      · have isEmpty : ¬0 < ([] : List (List UInt8)).length := Nat.lt_irrefl 0
        rw [accessResult, if_neg isEmpty, rejectLoop, Outcome.ok_bind]
      · rw [← isRejected]
        cases rejected
        · simp
        · simp
  | cons pattern permitList =>
      refine ⟨if rejected then false else permitted, ?_, ?_⟩
      · have notEmpty : 0 < (pattern :: permitList).length := Nat.succ_pos _
        rw [accessResult, if_pos notEmpty, permitLoop, Outcome.ok_bind, rejectLoop,
          Outcome.ok_bind]
      · rw [← isRejected, ← isPermitted, or_iff_right (List.cons_ne_nil _ _)]
        cases rejected
        · simp
        · simp

/-- A list of one pattern shows how it is matched. -/
theorem rightlyMatched_of_admitted {pattern : List UInt8} {now : Int}
    (right : RightlyAdmitted [pattern] [] clientIp now) : RightlyMatched pattern clientIp := by
  obtain ⟨result, admitted, isAdmitted⟩ := right
  have notEmpty : 0 < [pattern].length := Nat.one_pos
  rw [accessResult, if_pos notEmpty] at admitted
  obtain ⟨permitted, permitLoop, rejectLoop⟩ := Outcome.bind_eq_ok.mp admitted
  cases rejectLoop
  rw [isPermitted, List.anyM] at permitLoop
  obtain ⟨matched, isMatched, permitLoop⟩ := Outcome.bind_eq_ok.mp permitLoop
  refine ⟨matched, isMatched, ?_⟩
  have same : permitted = matched := by
    cases matched
    · cases permitLoop
      rfl
    · cases permitLoop
      rfl
  simpa [same] using isAdmitted

end

theorem not_rightlyMatched_of {aPattern aSource : List UInt8} {result : Bool}
    (answer : strmatch aPattern aSource = .ok result)
    (wrong : ¬(result = true ↔ Matches (cString aPattern) (cString aSource))) :
    ¬RightlyMatched aPattern aSource := by
  rintro ⟨result', ends, right⟩
  rw [answer] at ends
  cases ends
  exact wrong right

end Service

end HeapHttpd
