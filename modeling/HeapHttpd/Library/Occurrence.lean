import Mathlib.Data.List.Infix

/-!
# Parts of a text

Where a part occurs first in a text, and what is between two of them.
-/

namespace HeapHttpd

namespace Occurrence

variable {α : Type*} {part text : List α} {pos index : Nat}

/-- The first place from some place on where the part occurs. -/
structure First (part text : List α) (pos index : Nat) : Prop where
  behind : pos ≤ index
  inside : index ≤ text.length
  here : part <+: text.drop index
  first : ∀ earlier, pos ≤ earlier → earlier < index → ¬part <+: text.drop earlier

/-- From there on the part does not occur. -/
def Absent (part text : List α) (pos : Nat) : Prop :=
  ∀ index, pos ≤ index → index ≤ text.length → ¬part <+: text.drop index

/-- Where the text behind a part starts, or all of it if there is no part to look for. -/
inductive Starts (text : List α) : Option (List α) → Nat → Prop
  | whole : Starts text none 0
  | behind (part : List α) (index : Nat) (first : First part text 0 index) :
      Starts text (some part) (index + part.length)

/-- What is between two parts: all from the start if the second one does not occur behind it,
and nothing if the first one does not occur. -/
inductive Between (text : List α) (front back : Option (List α)) : List α → Prop
  | nothing (part : List α) (isFront : front = some part) (absent : Absent part text 0) :
      Between text front back []
  | rest (start : Nat) (starts : Starts text front start)
      (absent : ∀ part, back = some part → Absent part text start) :
      Between text front back (text.drop start)
  | cut (start stop : Nat) (part : List α) (starts : Starts text front start)
      (isBack : back = some part) (first : First part text start stop) :
      Between text front back ((text.take stop).drop start)

/-- Without a second part it is all of the rest. -/
theorem Between.of_starts {front : Option (List α)} {start : Nat}
    (starts : Starts text front start) : Between text front none (text.drop start) := by
  refine .rest start starts ?_
  intro part isBack
  cases isBack

theorem First.unique {other : Nat} (first : First part text pos index)
    (first' : First part text pos other) : index = other := by
  rcases Nat.lt_trichotomy index other with earlier | same | later
  · exact absurd first.here (first'.first index first.behind earlier)
  · exact same
  · exact absurd first'.here (first.first other first'.behind later)

theorem First.not_absent (first : First part text pos index) : ¬Absent part text pos :=
  fun absent => absent index first.behind first.inside first.here

/-- The part ends inside of the text. -/
theorem First.length_le (first : First part text pos index) :
    index + part.length ≤ text.length := by
  have short := first.here.length_le
  have inside := first.inside
  rw [List.length_drop] at short
  omega

/-- What is in front of an occurrence, the part, and what is behind it. -/
theorem First.split (first : First part text pos index) :
    text = text.take index ++ part ++ text.drop (index + part.length) := by
  obtain ⟨behind, whole⟩ := first.here
  have dropped : text.drop (index + part.length) = behind := by
    rw [← List.drop_drop, ← whole, List.drop_left]
  rw [dropped, List.append_assoc, whole, List.take_append_drop]

theorem Starts.unique {front : Option (List α)} {start other : Nat}
    (starts : Starts text front start) (starts' : Starts text front other) : start = other := by
  cases starts with
  | whole =>
      cases starts'
      rfl
  | behind part index first =>
      cases starts' with
      | behind _ index' first' => rw [first.unique first']

theorem Starts.le_length {front : Option (List α)} {start : Nat}
    (starts : Starts text front start) : start ≤ text.length := by
  cases starts with
  | whole => exact Nat.zero_le _
  | behind part index first => exact first.length_le

theorem Between.unique {front back : Option (List α)} {between other : List α}
    (isBetween : Between text front back between) (isBetween' : Between text front back other) :
    between = other := by
  have apart {part : List α} {start : Nat} (isFront : front = some part)
      (absent : Absent part text 0) (starts : Starts text front start) : False := by
    subst isFront
    cases starts with
    | behind _ index first => exact first.not_absent absent
  cases isBetween with
  | nothing part isFront absent =>
      cases isBetween' with
      | nothing => rfl
      | rest start starts => exact (apart isFront absent starts).elim
      | cut start stop part' starts => exact (apart isFront absent starts).elim
  | rest start starts absent =>
      cases isBetween' with
      | nothing part isFront absent' => exact (apart isFront absent' starts).elim
      | rest start' starts' => rw [starts.unique starts']
      | cut start' stop part starts' isBack first =>
          cases starts.unique starts'
          exact (first.not_absent (absent part isBack)).elim
  | cut start stop part starts isBack first =>
      cases isBetween' with
      | nothing part isFront absent' => exact (apart isFront absent' starts).elim
      | rest start' starts' absent =>
          cases starts.unique starts'
          exact (first.not_absent (absent part isBack)).elim
      | cut start' stop' part' starts' isBack' first' =>
          cases starts.unique starts'
          cases isBack.symm.trans isBack'
          rw [first.unique first']

/-- Behind a first symbol with which the part does not begin, it is one place further. -/
theorem First.cons {symbol : α} (first : First part text 0 index)
    (notHere : ¬part <+: symbol :: text) : First part (symbol :: text) 0 (index + 1) := by
  refine ⟨Nat.zero_le _, Nat.succ_le_succ first.inside, first.here, fun earlier _ before => ?_⟩
  cases earlier with
  | zero => exact notHere
  | succ earlier => exact first.first earlier (Nat.zero_le _) (Nat.lt_of_succ_lt_succ before)

theorem Absent.cons {symbol : α} (absent : Absent part text 0)
    (notHere : ¬part <+: symbol :: text) : Absent part (symbol :: text) 0 := by
  intro index _ inside
  cases index with
  | zero => exact notHere
  | succ index => exact absent index (Nat.zero_le _) (Nat.le_of_succ_le_succ inside)

theorem first_of_prefix (here : part <+: text) : First part text 0 0 :=
  ⟨Nat.le_refl _, Nat.zero_le _, here, fun _ _ before => absurd before (Nat.not_lt_zero _)⟩

/-- A single symbol is first behind others. -/
theorem first_symbol {symbol : α} {front rest : List α} (free : symbol ∉ front) :
    First [symbol] (front ++ symbol :: rest) 0 front.length := by
  induction front with
  | nil => exact first_of_prefix (List.prefix_append [symbol] rest)
  | cons head front ih =>
      rw [List.mem_cons, not_or] at free
      exact (ih free.2).cons fun here => free.1 (List.cons_prefix_cons.mp here).1

theorem absent_symbol {symbol : α} (free : symbol ∉ text) : Absent [symbol] text 0 := by
  intro index _ _ here
  exact free (List.mem_of_mem_drop (here.subset List.mem_cons_self))

section Search

variable [DecidableEq α]

/-- The search for the first place. -/
def search (part text : List α) (pos : Nat) : Option Nat :=
  (List.range (text.length + 1)).find? fun index =>
    decide (pos ≤ index) && part.isPrefixOf (text.drop index)

theorem search_eq_some_iff : search part text pos = some index ↔ First part text pos index := by
  rw [search, List.find?_range_eq_some]
  simp only [Bool.and_eq_true, decide_eq_true_eq, List.isPrefixOf_iff_prefix, List.mem_range,
    Bool.not_eq_true', Bool.and_eq_false_imp, Nat.lt_succ_iff]
  constructor
  · rintro ⟨⟨behind, here⟩, inside, first⟩
    refine ⟨behind, inside, here, fun earlier behind' before occurs => ?_⟩
    have absent := first earlier before behind'
    rw [List.isPrefixOf_iff_prefix.mpr occurs] at absent
    cases absent
  · rintro ⟨behind, inside, here, first⟩
    refine ⟨⟨behind, here⟩, inside, fun earlier before behind' => ?_⟩
    exact (Bool.not_eq_true _).mp fun occurs =>
      first earlier behind' before (List.isPrefixOf_iff_prefix.mp occurs)

theorem search_eq_none_iff : search part text pos = none ↔ Absent part text pos := by
  rw [search, List.find?_range_eq_none]
  simp only [Bool.not_eq_true', Bool.and_eq_false_imp, decide_eq_true_eq, Nat.lt_succ_iff]
  constructor
  · intro none index behind inside occurs
    have absent := none index inside behind
    rw [List.isPrefixOf_iff_prefix.mpr occurs] at absent
    cases absent
  · intro absent index inside behind
    exact (Bool.not_eq_true _).mp fun occurs =>
      absent index behind inside (List.isPrefixOf_iff_prefix.mp occurs)

end Search

end Occurrence

end HeapHttpd
