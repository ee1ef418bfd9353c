import Mathlib.Data.List.Basic
import Mathlib.Tactic.Common

/-!
# Journals

What is known of the entries of a journal and of what was written before each of them.  A journal
only grows, so what was once so stays so, and what is always so has to be shown of new entries only.
-/

namespace HeapHttpd

namespace Journal

variable {Entry : Type*} {journal more : List Entry} {entry : Entry}
  {p q : List Entry → Entry → Prop}

/-- It is so of some entry and what was written before it. -/
def Once (p : List Entry → Entry → Prop) (journal : List Entry) : Prop :=
  ∃ front entry back, journal = front ++ entry :: back ∧ p front entry

/-- It is so of each entry and what was written before it. -/
def Always (p : List Entry → Entry → Prop) (journal : List Entry) : Prop :=
  ∀ front entry back, journal = front ++ entry :: back → p front entry

/-- It is so of the last entry of a kind and what was written before it. -/
def Latest (kind : Entry → Prop) (p : List Entry → Entry → Prop) (journal : List Entry) : Prop :=
  ∃ front entry back, journal = front ++ entry :: back ∧ kind entry ∧ p front entry ∧
    ∀ later ∈ back, ¬kind later

theorem Once.append (once : Once p journal) (more : List Entry) : Once p (journal ++ more) := by
  obtain ⟨front, entry, back, rfl, holds⟩ := once
  exact ⟨front, entry, back ++ more, by rw [List.append_assoc, List.cons_append], holds⟩

theorem always_nil : Always p [] := by
  intro front entry back split
  exact absurd split.symm (List.append_ne_nil_of_right_ne_nil _ (List.cons_ne_nil _ _))

/-- New entries have to be looked at with all that was written before them. -/
theorem always_append :
    Always p (journal ++ more) ↔
      Always p journal ∧ Always (fun front entry => p (journal ++ front) entry) more := by
  constructor
  case mp =>
    intro always
    constructor
    case left =>
      rintro front entry back rfl
      exact always front entry (back ++ more) (by rw [List.append_assoc, List.cons_append])
    case right =>
      rintro front entry back rfl
      exact always (journal ++ front) entry back (List.append_assoc ..).symm
  case mpr =>
    rintro ⟨before, new⟩ front entry back split
    rcases List.append_eq_append_iff.mp split with ⟨middle, rfl, isMore⟩ | ⟨middle, isJournal, rest⟩
    · exact new middle entry back isMore
    · cases middle with
      | nil =>
          rw [List.append_nil] at isJournal
          rw [← isJournal]
          have holds : p (journal ++ []) entry := new [] entry back rest.symm
          rwa [List.append_nil] at holds
      | cons first middle =>
          rw [List.cons_append, List.cons.injEq] at rest
          obtain ⟨rfl, -⟩ := rest
          exact before front entry middle isJournal

/-- What is so of any entry of some kind, whatever was written before it. -/
theorem Always.append (always : Always p journal) (each : ∀ entry ∈ more, ∀ front, p front entry) :
    Always p (journal ++ more) := by
  refine always_append.mpr ⟨always, ?_⟩
  rintro front entry back rfl
  exact each entry (List.mem_append_right _ List.mem_cons_self) _

/-- One new entry. -/
theorem always_concat : Always p (journal ++ [entry]) ↔ Always p journal ∧ p journal entry := by
  rw [always_append]
  refine and_congr_right fun _ => ⟨fun new => ?_, fun holds front last back split => ?_⟩
  · have holds : p (journal ++ []) entry := new [] entry [] rfl
    rwa [List.append_nil] at holds
  · rcases List.singleton_eq_append_iff.mp split with ⟨rfl, isLast⟩ | ⟨-, impossible⟩
    · obtain ⟨rfl, -⟩ := List.cons.inj isLast
      rwa [List.append_nil]
    · cases impossible

/-- Entries of another kind do not matter to the last one of a kind. -/
theorem Latest.append {kind : Entry → Prop} (latest : Latest kind p journal)
    (others : ∀ entry ∈ more, ¬kind entry) : Latest kind p (journal ++ more) := by
  obtain ⟨front, entry, back, rfl, isKind, holds, after⟩ := latest
  refine ⟨front, entry, back ++ more, by rw [List.append_assoc, List.cons_append], isKind, holds,
    ?_⟩
  intro later member
  rcases List.mem_append.mp member with inBack | inMore
  · exact after later inBack
  · exact others later inMore

/-- An entry at the end is the last one of its kind. -/
theorem latest_concat {kind : Entry → Prop} (isKind : kind entry) (holds : p journal entry) :
    Latest kind p (journal ++ [entry]) :=
  ⟨journal, entry, [], rfl, isKind, holds, nofun⟩

end Journal

end HeapHttpd
