import Mathlib.Data.List.Infix
import Mathlib.Tactic.Common

/-!
# Patterns with wildcards

A pattern is a list of symbols, of which one stands for any list and another one for any
symbol.  The tail of a pattern behind a star may be matched with any end of a text, so of the
places where a part between two stars matches the first one is as good as any.
-/

namespace HeapHttpd

section

variable {α : Type*} [DecidableEq α]

/-- A text matches a pattern. -/
def Glob (star any : α) : List α → List α → Prop
  | [], text => text = []
  | symbol :: pattern, text =>
      if symbol = star then ∃ rest, rest <:+ text ∧ Glob star any pattern rest
      else ∃ first rest, text = first :: rest ∧ (symbol = any ∨ symbol = first) ∧
        Glob star any pattern rest

namespace Glob

variable {star any symbol first : α} {pattern part text rest : List α}

theorem star_iff : Glob star any (star :: pattern) text ↔
    ∃ rest, rest <:+ text ∧ Glob star any pattern rest := by
  rw [Glob, if_pos rfl]

/-- A symbol that is not the star takes one symbol. -/
theorem cons_iff (single : symbol ≠ star) : Glob star any (symbol :: pattern) text ↔
    ∃ first rest, text = first :: rest ∧ (symbol = any ∨ symbol = first) ∧
      Glob star any pattern rest := by
  rw [Glob, if_neg single]

theorem not_cons_nil (single : symbol ≠ star) : ¬Glob star any (symbol :: pattern) [] := by
  rw [cons_iff single]
  rintro ⟨first, rest, none, -⟩
  cases none

theorem cons_cons_iff (single : symbol ≠ star) :
    Glob star any (symbol :: pattern) (first :: text) ↔
      (symbol = any ∨ symbol = first) ∧ Glob star any pattern text := by
  rw [cons_iff single]
  constructor
  · rintro ⟨first', rest, same, fits, matched⟩
    cases same
    exact ⟨fits, matched⟩
  · rintro ⟨fits, matched⟩
    exact ⟨first, text, rfl, fits, matched⟩

/-- A star matches more text as well. -/
theorem of_suffix (matched : Glob star any (star :: pattern) rest) (isSuffix : rest <:+ text) :
    Glob star any (star :: pattern) text := by
  obtain ⟨last, isLast, matched⟩ := star_iff.mp matched
  exact star_iff.mpr ⟨last, isLast.trans isSuffix, matched⟩

theorem star_nil : Glob star any [star] text :=
  star_iff.mpr ⟨[], List.nil_suffix, rfl⟩

theorem star_star_iff : Glob star any (star :: star :: pattern) text ↔
    Glob star any (star :: pattern) text := by
  constructor
  · intro matched
    obtain ⟨rest, isSuffix, matched⟩ := star_iff.mp matched
    exact matched.of_suffix isSuffix
  · intro matched
    exact star_iff.mpr ⟨text, List.suffix_rfl, matched⟩

/-- What is behind a star is matched here or later. -/
theorem star_cons_iff : Glob star any (star :: pattern) (first :: text) ↔
    Glob star any pattern (first :: text) ∨ Glob star any (star :: pattern) text := by
  constructor
  · intro matched
    obtain ⟨rest, isSuffix, matched⟩ := star_iff.mp matched
    rcases List.suffix_cons_iff.mp isSuffix with rfl | later
    · exact .inl matched
    · exact .inr (star_iff.mpr ⟨rest, later, matched⟩)
  · rintro (here | later)
    · exact star_iff.mpr ⟨_, List.suffix_rfl, here⟩
    · exact later.of_suffix (List.suffix_cons first text)

theorem not_star_cons_nil (single : symbol ≠ star) :
    ¬Glob star any (star :: symbol :: pattern) [] := by
  intro matched
  obtain ⟨rest, isSuffix, matched⟩ := star_iff.mp matched
  rw [List.suffix_nil.mp isSuffix] at matched
  exact not_cons_nil single matched

/-- Behind a star, a symbol for any one only takes a symbol away. -/
theorem star_any_iff (differ : any ≠ star) :
    Glob star any (star :: any :: pattern) (first :: text) ↔
      Glob star any (star :: pattern) text := by
  induction text generalizing first with
  | nil =>
      rw [star_cons_iff, cons_cons_iff differ, or_iff_left (not_star_cons_nil differ),
        and_iff_right (.inl rfl)]
      constructor
      · exact fun matched => star_iff.mpr ⟨[], List.suffix_rfl, matched⟩
      · intro matched
        obtain ⟨rest, isSuffix, matched⟩ := star_iff.mp matched
        rwa [List.suffix_nil.mp isSuffix] at matched
  | cons second text ih =>
      rw [star_cons_iff, cons_cons_iff differ, and_iff_right (.inl rfl), ih,
        ← star_cons_iff]

/-- A part without stars takes as many symbols as it has. -/
theorem append_iff (single : star ∉ part) : Glob star any (part ++ pattern) text →
    ∃ taken rest, text = taken ++ rest ∧ taken.length = part.length ∧
      Glob star any pattern rest := by
  induction part generalizing text with
  | nil => exact fun matched => ⟨[], text, rfl, rfl, matched⟩
  | cons symbol part ih =>
      rw [List.mem_cons, not_or] at single
      intro matched
      rw [List.cons_append, cons_iff (Ne.symm single.1)] at matched
      obtain ⟨first, others, rfl, -, matched⟩ := matched
      obtain ⟨taken, rest, rfl, sameLength, matched⟩ := ih single.2 matched
      exact ⟨first :: taken, rest, rfl, congrArg Nat.succ sameLength, matched⟩

/-- Symbols for any one in front only ask for more text. -/
theorem of_append_any (differ : any ≠ star) (anys : ∀ symbol ∈ part, symbol = any)
    (matched : Glob star any (star :: (part ++ pattern)) text) :
    Glob star any (star :: pattern) text := by
  have single : star ∉ part := fun member => differ (anys star member).symm
  obtain ⟨rest, isSuffix, matched⟩ := star_iff.mp matched
  obtain ⟨taken, last, rfl, -, matched⟩ := append_iff single matched
  exact star_iff.mpr ⟨last, (List.suffix_append taken last).trans isSuffix, matched⟩

/-- A part that is matched once is not matched again before there has been one symbol more. -/
theorem later (single : star ∉ part) {taken : List α}
    (few : taken.length < part.length)
    (matched : Glob star any (star :: (part ++ pattern)) (taken ++ text)) :
    text ≠ [] ∧ ∃ rest, rest <:+ text ∧ Glob star any pattern rest := by
  obtain ⟨here, isSuffix, matched⟩ := star_iff.mp matched
  obtain ⟨taken', rest, rfl, sameLength, matched⟩ := append_iff single matched
  have lengths := isSuffix.length_le
  simp only [List.length_append] at lengths
  have shorter : rest.length < text.length := by omega
  have ends : rest <:+ taken ++ text := (List.suffix_append taken' rest).trans isSuffix
  refine ⟨?_, rest, List.suffix_of_suffix_length_le ends (List.suffix_append taken text)
    (Nat.le_of_lt shorter), matched⟩
  rintro rfl
  cases shorter

end Glob

end

end HeapHttpd
