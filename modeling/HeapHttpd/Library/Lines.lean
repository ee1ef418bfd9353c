import Mathlib.Tactic.Common

/-!
# Terminated lines

A text as a sequence of lines, each ended by one symbol, and the way back: a text that
was put together from lines without the symbol is taken apart into the same lines.
-/

namespace HeapHttpd

namespace Lines

variable {Symbol : Type*}

/-- Lines with their ends. -/
def joined (eol : Symbol) (texts : List (List Symbol)) : List Symbol :=
  texts.flatMap (· ++ [eol])

/-! ## Up to a symbol -/

/-- A text is taken up to where it stops. -/
theorem takeWhile_stop {stays : Symbol → Bool} {front rest : List Symbol}
    (all : ∀ symbol ∈ front, stays symbol = true)
    (stop : ∀ symbol ∈ rest.head?, stays symbol = false) :
    (front ++ rest).takeWhile stays = front := by
  rw [List.takeWhile_append_of_pos all]
  cases rest with
  | nil => simp
  | cons symbol rest => simp [stop symbol rfl]

theorem dropWhile_stop {stays : Symbol → Bool} {front rest : List Symbol}
    (all : ∀ symbol ∈ front, stays symbol = true)
    (stop : ∀ symbol ∈ rest.head?, stays symbol = false) :
    (front ++ rest).dropWhile stays = rest := by
  rw [List.dropWhile_append_of_pos all]
  cases rest with
  | nil => rfl
  | cons symbol rest => simp [stop symbol rfl]

variable [DecidableEq Symbol]

theorem takeWhile_until {eol : Symbol} {line : List Symbol} (free : eol ∉ line)
    (rest : List Symbol) : (line ++ eol :: rest).takeWhile (· ≠ eol) = line := by
  refine takeWhile_stop (fun symbol member => decide_eq_true ?_) (by simp)
  rintro rfl
  exact free member

theorem dropWhile_until {eol : Symbol} {line : List Symbol} (free : eol ∉ line)
    (rest : List Symbol) : (line ++ eol :: rest).dropWhile (· ≠ eol) = eol :: rest := by
  refine dropWhile_stop (fun symbol member => decide_eq_true ?_) (by simp)
  rintro rfl
  exact free member

/-! ## Joined and parted -/

/-- The lines of a text behind a part of the first one; the last line may lack its end. -/
def parted (eol : Symbol) : List Symbol → List Symbol → List (List Symbol)
  | line, [] => if line = [] then [] else [line]
  | line, symbol :: text =>
      if symbol = eol then line :: parted eol [] text else parted eol (line ++ [symbol]) text

theorem not_mem_parted {eol : Symbol} {line text : List Symbol} (lineFree : eol ∉ line) :
    ∀ other ∈ parted eol line text, eol ∉ other := by
  induction text generalizing line with
  | nil =>
      intro other member
      rw [parted] at member
      split at member
      · cases member
      · rwa [List.mem_singleton.mp member]
  | cons symbol text ih =>
      intro other member
      rw [parted] at member
      split at member
      · rcases List.mem_cons.mp member with rfl | later
        · exact lineFree
        · exact ih List.not_mem_nil other later
      · rename_i isOther
        refine ih ?_ other member
        rw [List.mem_append, List.mem_singleton, not_or]
        exact ⟨lineFree, Ne.symm isOther⟩

theorem parted_append {eol : Symbol} {front : List Symbol} (frontFree : eol ∉ front)
    (line text : List Symbol) :
    parted eol line (front ++ text) = parted eol (line ++ front) text := by
  induction front generalizing line with
  | nil => rw [List.nil_append, List.append_nil]
  | cons symbol front ih =>
      rw [List.mem_cons, not_or] at frontFree
      rw [List.cons_append, parted, if_neg (Ne.symm frontFree.1), ih frontFree.2,
        List.append_assoc, List.singleton_append]

/-- Lines that were joined are found again. -/
theorem parted_joined {eol : Symbol} {texts : List (List Symbol)}
    (free : ∀ text ∈ texts, eol ∉ text) : parted eol [] (joined eol texts) = texts := by
  induction texts with
  | nil => rfl
  | cons text texts ih =>
      have rest := ih fun other member => free other (List.mem_cons_of_mem _ member)
      rw [joined, List.flatMap_cons, List.append_assoc,
        parted_append (free text List.mem_cons_self), List.nil_append, List.singleton_append,
        parted, if_pos rfl]
      rw [joined] at rest
      rw [rest]

end Lines

end HeapHttpd
