import HeapHttpd.General
import HeapHttpd.Library.Glob
import HeapHttpd.Library.Outcome
import Mathlib.Logic.Relation

/-!
# Matching an address

`strmatch`, step by step: its first loop compares what is behind the start or behind a symbol
that has been found, the second one passes over wildcards behind a star, and the third one, in
it, looks for the next symbol.
-/

namespace HeapHttpd

namespace Service

open General (cString)
open Relation (ReflTransGen)

/-- A loop of `strmatch`. -/
inductive StrmatchLoop
  | first
  | second
  | third
  deriving DecidableEq, Repr

/-- The variables of `strmatch`.  `StringPtr` is the memory from there on, with the NUL at its
end, and `PatternPtr` the pattern from there on. -/
structure Strmatch where
  loop : StrmatchLoop
  stringPtr : List UInt8
  patternPtr : List UInt8
  stringRes : Option (List UInt8)
  patternRes : Option (List UInt8)
  deriving DecidableEq, Repr

/-- What a step comes to. -/
inductive StrmatchStep
  | goesOn (next : Strmatch)
  | returns (result : Bool)
  deriving DecidableEq, Repr

namespace Strmatch

/-- `*StringPtr`. -/
def deref (state : Strmatch) : Outcome UInt8 :=
  match state.stringPtr with
  | [] => .fault
  | ch :: _ => .ok ch

/-- The next octet of both. -/
def advance (state : Strmatch) : Strmatch :=
  { state with stringPtr := state.stringPtr.tail, patternPtr := state.patternPtr.tail }

/-- Back to where the last part began, if there is one. -/
def restore (state : Strmatch) : StrmatchStep :=
  match state.stringRes, state.patternRes with
  | some stringRes, some patternRes =>
      .goesOn { state with loop := .second, stringPtr := stringRes, patternPtr := patternRes }
  | _, _ => .returns false

/-- Behind a star, whichever loop finds it. -/
def behindStar (state : Strmatch) : Strmatch :=
  { state with
    loop := .second
    patternPtr := state.patternPtr.tail
    patternRes := some state.patternPtr.tail }

/-- A pass of the first loop.  Its branch for `'?'` asks for `'0'`, not for `'\0'`. -/
def firstLoop (state : Strmatch) : Outcome StrmatchStep :=
  match state.patternPtr with
  | [] => state.deref >>= fun ch => .ok (if ch = 0 then .returns true else state.restore)
  | symbol :: _ =>
      if symbol = 0x2a then .ok (.goesOn state.behindStar)
      else if symbol = 0x3f then
        state.deref >>= fun ch =>
          .ok (if ch = 0x30 then .returns false else .goesOn state.advance)
      else
        state.deref >>= fun ch =>
          .ok
            (if ch = 0 then .returns false
            else if ch ≠ symbol then state.restore
            else .goesOn state.advance)

/-- A pass of the second loop. -/
def secondLoop (state : Strmatch) : Outcome StrmatchStep :=
  match state.patternPtr with
  | [] => .ok (.returns true)
  | symbol :: _ =>
      if symbol = 0x2a then .ok (.goesOn state.behindStar)
      else if symbol = 0x3f then
        state.deref >>= fun ch => .ok (if ch = 0 then .returns false else .goesOn state.advance)
      else .ok (.goesOn { state with loop := .third })

/-- A pass of the loop in it, and what is behind it. -/
def thirdLoop (state : Strmatch) : Outcome StrmatchStep :=
  state.deref >>= fun ch =>
    .ok
      (if ch = 0 then .returns false
      else if state.patternPtr.head? = some ch then
        .goesOn { state.advance with loop := .first, stringRes := some state.stringPtr.tail }
      else .goesOn { state with stringPtr := state.stringPtr.tail })

/-- A pass of the loop it is in. -/
def step (state : Strmatch) : Outcome StrmatchStep :=
  match state.loop with
  | .first => state.firstLoop
  | .second => state.secondLoop
  | .third => state.thirdLoop

/-- So many steps at most.  `err` stands for a run that goes on behind them. -/
def run : Nat → Strmatch → Outcome Bool
  | 0, _ => .err
  | steps + 1, state =>
      state.step >>= fun made =>
        match made with
        | .goesOn next => next.run steps
        | .returns result => .ok result

/-- The variables at the start. -/
def start (aPattern aSource : List UInt8) : Strmatch :=
  { loop := .first
    stringPtr := cString aSource ++ [0]
    patternPtr := cString aPattern
    stringRes := none
    patternRes := none }

/-- How much of the string a new part can begin in. -/
def extent (state : Strmatch) : Nat :=
  match state.loop with
  | .first => (state.stringRes.getD state.stringPtr).length
  | .second | .third => state.stringPtr.length

/-- The order of the loops. -/
def phase (state : Strmatch) : Nat :=
  match state.loop with
  | .first => 2
  | .second => 1
  | .third => 0

/-- How many steps there can be, with a pattern of some size. -/
def rank (size : Nat) (state : Strmatch) : Nat :=
  (state.extent * 3 + state.phase) * (size + 1) + state.patternPtr.length

end Strmatch

/-- `strmatch`, with steps that are enough. -/
def strmatch (aPattern aSource : List UInt8) : Outcome Bool :=
  let start := Strmatch.start aPattern aSource
  start.run (start.rank start.patternPtr.length + 1)

/-- A string matches a pattern: `'*'` stands for any octets, and `'?'` for one. -/
def Matches (aPattern aSource : List UInt8) : Prop :=
  Glob 0x2a 0x3f aPattern aSource

/-- `strmatch` reads nothing behind the strings, and tells whether the pattern is matched. -/
def RightlyMatched (aPattern aSource : List UInt8) : Prop :=
  ∃ result, strmatch aPattern aSource = .ok result ∧
    (result = true ↔ Matches (cString aPattern) (cString aSource))

namespace Strmatch

/-- One state leads to another. -/
def Leads (state next : Strmatch) : Prop :=
  state.step = .ok (.goesOn next)

/-- The first loop has a `'?'` before it, and an octet. -/
def Asks (octet : UInt8) (state : Strmatch) : Prop :=
  state.loop = .first ∧ state.patternPtr.head? = some 0x3f ∧ state.stringPtr.head? = some octet

/-- The first loop goes back to where the last part began. -/
def Again (state next : Strmatch) : Prop :=
  state.loop = .first ∧ next.loop = .second ∧ state.patternPtr.head? ≠ some 0x2a

/-- The rest of the string matches the rest of the pattern behind a star. -/
def Rest (state : Strmatch) : Prop :=
  Matches (0x2a :: state.patternPtr) (cString state.stringPtr)

/-- It does so without the `'?'`s in front. -/
def RestWithout (state : Strmatch) : Prop :=
  Matches (0x2a :: state.patternPtr.dropWhile (· = 0x3f)) (cString state.stringPtr)

/-- No `'?'` of the first loop meets the end.  Where one meets a `'0'`, nothing else would match.
Where a part that begins with `'?'` is tried again, the rest of the string matches with these if
it matches without. -/
structure Harmless (wanted : Prop) (state : Strmatch) : Prop where
  atEnd : ¬state.Asks 0
  atZero : state.Asks 0x30 → ¬wanted
  again : ∀ next, state.Leads next → state.Again next → next.RestWithout → next.Rest

/-- A `'?'` meets the end with nothing but stars behind it, and the string matches all the
same. -/
def Lucky (wanted : Prop) (state : Strmatch) : Prop :=
  wanted ∧ state.Asks 0 ∧ state.patternPtr.tail ≠ [] ∧
    ∀ symbol ∈ state.patternPtr.tail, symbol = 0x2a

end Strmatch

/-- What the states are that `strmatch` comes to. -/
def WellLed (aPattern aSource : List UInt8) : Prop :=
  let start := Strmatch.start aPattern aSource
  let wanted := Matches (cString aPattern) (cString aSource)
  (∀ state, ReflTransGen Strmatch.Leads start state → state.Harmless wanted) ∨
    ∃ state, ReflTransGen Strmatch.Leads start state ∧ state.Lucky wanted

/-! ## One step -/

namespace Strmatch

/-- What a state stands for, with a pattern of some size.  Behind a symbol that has been found,
the question is whether the rest matches here or the part matches later. -/
inductive Means (size : Nat) : Strmatch → Prop → Prop
  | start (pattern text : List UInt8) (nulFree : 0 ∉ text) (fits : pattern.length ≤ size) :
      Means size
        { loop := .first, stringPtr := text ++ [0], patternPtr := pattern, stringRes := none
          patternRes := none }
        (Matches pattern text)
  | attempt (anys : List UInt8) (symbol : UInt8) (part pattern taken text : List UInt8)
      (isAny : ∀ any ∈ anys, any = 0x3f) (plain : symbol ≠ 0x2a ∧ symbol ≠ 0x3f)
      (single : 0x2a ∉ part) (same : taken.length = part.length) (nulFree : 0 ∉ taken ++ text)
      (fits : (anys ++ symbol :: (part ++ pattern)).length ≤ size) :
      Means size
        { loop := .first, stringPtr := text ++ [0], patternPtr := pattern
          stringRes := some (taken ++ text ++ [0])
          patternRes := some (anys ++ symbol :: (part ++ pattern)) }
        (Matches pattern text ∨
          Matches (0x2a :: symbol :: (part ++ pattern)) (taken ++ text))
  | second (anys pattern text : List UInt8) (stringRes : Option (List UInt8))
      (isAny : ∀ any ∈ anys, any = 0x3f) (nulFree : 0 ∉ text)
      (fits : (anys ++ pattern).length ≤ size) :
      Means size
        { loop := .second, stringPtr := text ++ [0], patternPtr := pattern, stringRes
          patternRes := some (anys ++ pattern) }
        (Matches (0x2a :: pattern) text)
  | third (anys : List UInt8) (symbol : UInt8) (pattern text : List UInt8)
      (stringRes : Option (List UInt8)) (isAny : ∀ any ∈ anys, any = 0x3f)
      (plain : symbol ≠ 0x2a ∧ symbol ≠ 0x3f) (nulFree : 0 ∉ text)
      (fits : (anys ++ symbol :: pattern).length ≤ size) :
      Means size
        { loop := .third, stringPtr := text ++ [0], patternPtr := symbol :: pattern, stringRes
          patternRes := some (anys ++ symbol :: pattern) }
        (Matches (0x2a :: symbol :: pattern) text)

/-- What a state comes to that does not meet the end with a `'?'`: an answer, which is right
but for a no to a `'?'` that has met a `'0'`; a state with the same question; or a part that is
tried again, with the `'?'`s in front of it. -/
inductive Progress (size : Nat) (state : Strmatch) (question : Prop) : Prop
  | returns (result : Bool) (made : state.step = .ok (.returns result))
      (yes : result = true → question) (no : question → result = false → state.Asks 0x30)
  | same (next : Strmatch) (leads : state.Leads next) (means : Means size next question)
      (decreases : next.rank size < state.rank size) (forward : ¬state.Again next)
  | again (next : Strmatch) (leads : state.Leads next) (means : Means size next next.Rest)
      (decreases : next.rank size < state.rank size) (isAgain : state.Again next)
      (without : question ↔ next.RestWithout) (sound : next.Rest → question)

variable {size : Nat} {state next : Strmatch} {question : Prop}

theorem Means.congr {question' : Prop} (means : Means size state question)
    (same : question ↔ question') : Means size state question' :=
  propext same ▸ means

/-- Fewer steps are left behind less of the string, in a later loop, or with less of the
pattern. -/
theorem rank_lt (fits : next.patternPtr.length ≤ size)
    (less : next.extent * 3 + next.phase < state.extent * 3 + state.phase ∨
      next.extent * 3 + next.phase = state.extent * 3 + state.phase ∧
        next.patternPtr.length < state.patternPtr.length) :
    next.rank size < state.rank size := by
  unfold rank
  rcases less with less | ⟨same, shorter⟩
  · have more := Nat.mul_le_mul_right (size + 1) (Nat.succ_le_of_lt less)
    rw [Nat.succ_mul] at more
    omega
  · rw [same]
    omega

/-- The octets of a string before its NUL. -/
theorem ne_zero_of_nulFree {first : UInt8} {text : List UInt8} (nulFree : 0 ∉ first :: text) :
    first ≠ 0 := by
  rintro rfl
  exact nulFree List.mem_cons_self

theorem matches_symbol {symbol first : UInt8} {pattern text : List UInt8}
    (plain : symbol ≠ 0x2a ∧ symbol ≠ 0x3f) :
    Matches (symbol :: pattern) (first :: text) ↔ first = symbol ∧ Matches pattern text := by
  rw [Matches, Glob.cons_cons_iff plain.1, or_iff_right plain.2, eq_comm]
  rfl

theorem matches_any {first : UInt8} {pattern text : List UInt8} :
    Matches (0x3f :: pattern) (first :: text) ↔ Matches pattern text := by
  rw [Matches, Glob.cons_cons_iff (by decide), and_iff_right (.inl rfl)]
  rfl

section Steps

variable {symbol first : UInt8} (text pattern : List UInt8)
  (stringRes patternRes : Option (List UInt8))

/-- The first loop at the end of the pattern. -/
theorem step_first_nil (other : first ≠ 0) :
    step ⟨.first, first :: text ++ [0], [], stringRes, patternRes⟩ =
      .ok (restore ⟨.first, first :: text ++ [0], [], stringRes, patternRes⟩) := by
  simp only [step, firstLoop, deref, List.cons_append, Outcome.ok_bind, if_neg other]

/-- At a `'?'`. -/
theorem leads_first_any (other : first ≠ 0x30) :
    Leads ⟨.first, first :: text ++ [0], 0x3f :: pattern, stringRes, patternRes⟩
      ⟨.first, text ++ [0], pattern, stringRes, patternRes⟩ := by
  have notStar : (0x3f : UInt8) ≠ 0x2a := by decide
  simp only [Leads, step, firstLoop, deref, List.cons_append, Outcome.ok_bind, if_neg notStar,
    if_true, if_neg other, advance, List.tail_cons]

/-- At another symbol. -/
theorem step_first_symbol (plain : symbol ≠ 0x2a ∧ symbol ≠ 0x3f) (other : first ≠ 0) :
    step ⟨.first, first :: text ++ [0], symbol :: pattern, stringRes, patternRes⟩ =
      .ok
        (if first = symbol then .goesOn ⟨.first, text ++ [0], pattern, stringRes, patternRes⟩
        else restore ⟨.first, first :: text ++ [0], symbol :: pattern, stringRes, patternRes⟩) := by
  simp only [step, firstLoop, deref, List.cons_append, Outcome.ok_bind, if_neg plain.1,
    if_neg plain.2, if_neg other, advance, List.tail_cons, ite_not]

theorem step_first_end (plain : symbol ≠ 0x2a ∧ symbol ≠ 0x3f) :
    step ⟨.first, [0], symbol :: pattern, stringRes, patternRes⟩ = .ok (.returns false) := by
  simp only [step, firstLoop, deref, Outcome.ok_bind, if_neg plain.1, if_neg plain.2, if_true]

theorem leads_second_any (other : first ≠ 0) :
    Leads ⟨.second, first :: text ++ [0], 0x3f :: pattern, stringRes, patternRes⟩
      ⟨.second, text ++ [0], pattern, stringRes, patternRes⟩ := by
  have notStar : (0x3f : UInt8) ≠ 0x2a := by decide
  simp only [Leads, step, secondLoop, deref, List.cons_append, Outcome.ok_bind, if_neg notStar,
    if_true, if_neg other, advance, List.tail_cons]

theorem leads_second_symbol (plain : symbol ≠ 0x2a ∧ symbol ≠ 0x3f) :
    Leads ⟨.second, text, symbol :: pattern, stringRes, patternRes⟩
      ⟨.third, text, symbol :: pattern, stringRes, patternRes⟩ := by
  simp only [Leads, step, secondLoop, if_neg plain.1, if_neg plain.2]

theorem step_third (other : first ≠ 0) :
    step ⟨.third, first :: text ++ [0], symbol :: pattern, stringRes, patternRes⟩ =
      .ok
        (.goesOn
          (if symbol = first then ⟨.first, text ++ [0], pattern, some (text ++ [0]), patternRes⟩
          else ⟨.third, text ++ [0], symbol :: pattern, stringRes, patternRes⟩)) := by
  simp only [step, thirdLoop, deref, List.cons_append, Outcome.ok_bind, if_neg other,
    List.head?_cons, Option.some_inj, advance, List.tail_cons]
  split
  · rfl
  · rfl

end Steps

/-- A pass with the same question, in the first loop. -/
theorem forward_of_first {next : Strmatch} (stays : next.loop = .first) : ¬state.Again next := by
  rintro ⟨-, isSecond, -⟩
  rw [stays] at isSecond
  cases isSecond

/-- The first loop before anything has been found. -/
theorem progress_start (pattern text : List UInt8) (nulFree : 0 ∉ text)
    (fits : pattern.length ≤ size)
    (notOver : ¬(Strmatch.mk .first (text ++ [0]) pattern none none).Asks 0) :
    Progress size ⟨.first, text ++ [0], pattern, none, none⟩ (Matches pattern text) := by
  cases pattern with
  | nil =>
      cases text with
      | nil => exact .returns true rfl (fun _ => rfl) nofun
      | cons first text =>
          have other := ne_zero_of_nulFree nulFree
          exact .returns false (step_first_nil text none none other) nofun
            fun matched => nomatch matched
  | cons symbol pattern =>
      have fits' : pattern.length ≤ size := Nat.le_of_succ_le fits
      by_cases isStar : symbol = 0x2a
      · subst isStar
        refine .same _ rfl (.second [] pattern text none nofun nulFree fits')
          (rank_lt fits' (.inl ?_)) fun again => again.2.2 rfl
        exact Nat.lt_succ_self _
      · cases text with
        | nil =>
            have unmatched : ¬Matches (symbol :: pattern) [] := Glob.not_cons_nil isStar
            by_cases isAny : symbol = 0x3f
            · exact absurd ⟨rfl, congrArg some isAny, rfl⟩ notOver
            · exact .returns false (step_first_end pattern none none ⟨isStar, isAny⟩) nofun
                fun matched => absurd matched unmatched
        | cons first text =>
            have other := ne_zero_of_nulFree nulFree
            have nulFree' : 0 ∉ text := fun member => nulFree (.tail _ member)
            have less : (Strmatch.mk .first (text ++ [0]) pattern none none).rank size <
                (Strmatch.mk .first (first :: text ++ [0]) (symbol :: pattern) none none).rank
                  size := by
              refine rank_lt fits' (.inl ?_)
              simp only [extent, phase, Option.getD_none, List.cons_append, List.length_cons]
              omega
            by_cases isAny : symbol = 0x3f
            · subst isAny
              by_cases isZero : first = 0x30
              · subst isZero
                exact .returns false rfl nofun fun _ _ => ⟨rfl, rfl, rfl⟩
              · exact .same _ (leads_first_any text pattern none none isZero)
                  ((Means.start pattern text nulFree' fits').congr matches_any.symm) less
                  (forward_of_first rfl)
            · have plain := And.intro isStar isAny
              have made := step_first_symbol text pattern none none plain other
              have compares : Matches (symbol :: pattern) (first :: text) ↔ _ :=
                matches_symbol plain
              by_cases found : first = symbol
              · rw [if_pos found] at made
                exact .same _ made ((Means.start pattern text nulFree' fits').congr
                  (compares.trans (and_iff_right found)).symm) less (forward_of_first rfl)
              · rw [if_neg found] at made
                exact .returns false made nofun fun matched => absurd (compares.mp matched).1 found

/-- A part that is tried again. -/
theorem progress_again {anys rest text : List UInt8} {symbol : UInt8} {state : Strmatch}
    (isAny : ∀ any ∈ anys, any = 0x3f) (plain : symbol ≠ 0x2a ∧ symbol ≠ 0x3f)
    (nulFree : 0 ∉ text) (fits : (anys ++ symbol :: rest).length ≤ size)
    (isFirst : state.loop = .first) (notStar : state.patternPtr.head? ≠ some 0x2a)
    (isString : state.stringRes = some (text ++ [0]))
    (isPattern : state.patternRes = some (anys ++ symbol :: rest))
    (made : state.step = .ok state.restore)
    (same : question ↔ Matches (0x2a :: symbol :: rest) text) : Progress size state question := by
  let next : Strmatch :=
    ⟨.second, text ++ [0], anys ++ symbol :: rest, some (text ++ [0]),
      some (anys ++ symbol :: rest)⟩
  have string : cString (text ++ [0]) = text := General.cString_append_nul nulFree []
  have restored : state.restore = .goesOn next := by
    simp only [restore, isString, isPattern, next]
  have without : (anys ++ symbol :: rest).dropWhile (· = 0x3f) = symbol :: rest := by
    rw [List.dropWhile_append_of_pos fun any member => decide_eq_true (isAny any member),
      List.dropWhile_cons_of_neg (by simpa using plain.2)]
  have isRest : next.Rest ↔ Matches (0x2a :: (anys ++ symbol :: rest)) text := by
    rw [Rest, string]
  have isRestWithout : next.RestWithout ↔ Matches (0x2a :: symbol :: rest) text := by
    rw [RestWithout, string, without]
  refine .again next (made.trans (congrArg _ restored)) ?_ (rank_lt fits (.inl ?_))
    ⟨isFirst, rfl, notStar⟩ (same.trans isRestWithout.symm) ?_
  · exact (Means.second [] (anys ++ symbol :: rest) text (some (text ++ [0])) nofun nulFree
      fits).congr isRest.symm
  · simp only [extent, phase, isFirst, isString, Option.getD_some, next]
    omega
  · rw [isRest, same]
    exact Glob.of_append_any (by decide) isAny

/-- The first loop behind a symbol that has been found. -/
theorem progress_attempt (anys : List UInt8) (symbol : UInt8) (part pattern taken text : List UInt8)
    (isAny : ∀ any ∈ anys, any = 0x3f) (plain : symbol ≠ 0x2a ∧ symbol ≠ 0x3f)
    (single : 0x2a ∉ part) (same : taken.length = part.length) (nulFree : 0 ∉ taken ++ text)
    (fits : (anys ++ symbol :: (part ++ pattern)).length ≤ size)
    (notOver : ¬(Strmatch.mk .first (text ++ [0]) pattern (some (taken ++ text ++ [0]))
      (some (anys ++ symbol :: (part ++ pattern)))).Asks 0) :
    Progress size
      ⟨.first, text ++ [0], pattern, some (taken ++ text ++ [0]),
        some (anys ++ symbol :: (part ++ pattern))⟩
      (Matches pattern text ∨
        Matches (0x2a :: symbol :: (part ++ pattern)) (taken ++ text)) := by
  have single' : 0x2a ∉ symbol :: part :=
    List.not_mem_cons_of_ne_of_not_mem (Ne.symm plain.1) single
  have few : taken.length < (symbol :: part).length := by
    rw [List.length_cons, same]
    exact Nat.lt_succ_self _
  have nulFree' : 0 ∉ text := fun member => nulFree (List.mem_append_right _ member)
  cases pattern with
  | nil =>
      cases text with
      | nil => exact .returns true rfl (fun _ => .inl rfl) nofun
      | cons first text =>
          have other := ne_zero_of_nulFree nulFree'
          refine progress_again isAny plain nulFree fits rfl nofun rfl rfl
            (step_first_nil text _ _ other) (or_iff_right ?_)
          exact nofun
  | cons next pattern =>
      have fits' : pattern.length ≤ size := by
        simp only [List.length_append, List.length_cons] at fits
        omega
      by_cases isStar : next = 0x2a
      · subst isStar
        have question : Matches (0x2a :: pattern) text ↔
            Matches (0x2a :: pattern) text ∨
              Matches (0x2a :: symbol :: (part ++ 0x2a :: pattern)) (taken ++ text) := by
          refine ⟨.inl, fun matched => matched.elim id fun matched => ?_⟩
          obtain ⟨-, rest, isSuffix, matched⟩ := Glob.later single' few matched
          exact matched.of_suffix isSuffix
        refine .same _ rfl ((Means.second [] pattern text _ nofun nulFree' fits').congr question)
          (rank_lt fits' (.inl ?_)) fun again => again.2.2 rfl
        simp only [extent, phase, behindStar, Option.getD_some, List.length_append]
        omega
      · cases text with
        | nil =>
            have unmatched : ¬(Matches (next :: pattern) [] ∨
                Matches (0x2a :: symbol :: (part ++ next :: pattern)) (taken ++ [])) := by
              rintro (matched | matched)
              · exact Glob.not_cons_nil isStar matched
              · exact (Glob.later single' few matched).1 rfl
            by_cases isAny' : next = 0x3f
            · exact absurd ⟨rfl, congrArg some isAny', rfl⟩ notOver
            · exact .returns false (step_first_end pattern _ _ ⟨isStar, isAny'⟩) nofun
                fun matched => absurd matched unmatched
        | cons first text =>
            have other := ne_zero_of_nulFree nulFree'
            have string : taken ++ [first] ++ text = taken ++ first :: text :=
              List.append_assoc taken [first] text
            have whole : part ++ [next] ++ pattern = part ++ next :: pattern :=
              List.append_assoc part [next] pattern
            have single'' : 0x2a ∉ part ++ [next] := by
              rw [List.mem_append, List.mem_singleton, not_or]
              exact ⟨single, Ne.symm isStar⟩
            have same' : (taken ++ [first]).length = (part ++ [next]).length := by
              rw [List.length_append, List.length_append, same]
              rfl
            have means : Means size _ _ := .attempt anys symbol (part ++ [next]) pattern
              (taken ++ [first]) text isAny plain single'' same' (by rwa [string]) (by rwa [whole])
            rw [string, whole] at means
            have less : (Strmatch.mk .first (text ++ [0]) pattern
                (some (taken ++ first :: text ++ [0]))
                (some (anys ++ symbol :: (part ++ next :: pattern)))).rank size <
              (Strmatch.mk .first (first :: text ++ [0]) (next :: pattern)
                (some (taken ++ first :: text ++ [0]))
                (some (anys ++ symbol :: (part ++ next :: pattern)))).rank size :=
              rank_lt fits' (.inr ⟨rfl, Nat.lt_succ_self _⟩)
            by_cases isAny' : next = 0x3f
            · subst isAny'
              by_cases isZero : first = 0x30
              · subst isZero
                exact .returns false rfl nofun fun _ _ => ⟨rfl, rfl, rfl⟩
              · exact .same _ (leads_first_any text pattern _ _ isZero)
                  (means.congr (or_congr_left matches_any.symm)) less (forward_of_first rfl)
            · have plain' := And.intro isStar isAny'
              have made := step_first_symbol text pattern (some (taken ++ first :: text ++ [0]))
                (some (anys ++ symbol :: (part ++ next :: pattern))) plain' other
              have compares : Matches (next :: pattern) (first :: text) ↔ _ :=
                matches_symbol plain'
              by_cases found : first = next
              · rw [if_pos found] at made
                exact .same _ made
                  (means.congr (or_congr_left (compares.trans (and_iff_right found)).symm)) less
                  (forward_of_first rfl)
              · rw [if_neg found] at made
                refine progress_again isAny plain nulFree fits rfl ?_ rfl rfl made
                  (or_iff_right fun matched => found (compares.mp matched).1)
                exact fun isHead => isStar (Option.some.inj isHead)

/-- The second loop. -/
theorem progress_second (anys pattern text : List UInt8) (stringRes : Option (List UInt8))
    (isAny : ∀ any ∈ anys, any = 0x3f) (nulFree : 0 ∉ text)
    (fits : (anys ++ pattern).length ≤ size) :
    Progress size ⟨.second, text ++ [0], pattern, stringRes, some (anys ++ pattern)⟩
      (Matches (0x2a :: pattern) text) := by
  have forward {state next : Strmatch} (isSecond : state.loop = .second) : ¬state.Again next := by
    rintro ⟨isFirst, -⟩
    rw [isSecond] at isFirst
    cases isFirst
  cases pattern with
  | nil => exact .returns true rfl (fun _ => Glob.star_nil) nofun
  | cons symbol pattern =>
      have fits' : pattern.length ≤ size := by
        simp only [List.length_append, List.length_cons] at fits
        omega
      by_cases isStar : symbol = 0x2a
      · subst isStar
        exact .same _ rfl
          ((Means.second [] pattern text stringRes nofun nulFree fits').congr
            Glob.star_star_iff.symm)
          (rank_lt fits' (.inr ⟨rfl, Nat.lt_succ_self _⟩)) (forward rfl)
      · by_cases isAny' : symbol = 0x3f
        · subst isAny'
          cases text with
          | nil =>
              exact .returns false rfl nofun fun matched =>
                absurd matched (Glob.not_star_cons_nil isStar)
          | cons first text =>
              have other := ne_zero_of_nulFree nulFree
              have whole : anys ++ [0x3f] ++ pattern = anys ++ 0x3f :: pattern :=
                List.append_assoc anys [0x3f] pattern
              have isAny'' : ∀ any ∈ anys ++ [0x3f], any = 0x3f := by
                intro any member
                rcases List.mem_append.mp member with earlier | last
                · exact isAny any earlier
                · exact List.mem_singleton.mp last
              have means : Means size _ _ := .second (anys ++ [0x3f]) pattern text stringRes isAny''
                (fun member => nulFree (.tail _ member)) (by rwa [whole])
              rw [whole] at means
              refine .same _ (leads_second_any text pattern stringRes _ other)
                (means.congr (Glob.star_any_iff isStar).symm) (rank_lt fits' (.inl ?_))
                (forward rfl)
              simp only [extent, phase, List.cons_append, List.length_cons]
              omega
        · have plain := And.intro isStar isAny'
          refine .same _ (leads_second_symbol (text ++ [0]) pattern stringRes _ plain)
            (.third anys symbol pattern text stringRes isAny plain nulFree fits)
            (rank_lt ?_ (.inl (Nat.lt_succ_self _))) (forward rfl)
          exact Nat.le_trans (List.length_append ▸ Nat.le_add_left _ _) fits

/-- The third loop. -/
theorem progress_third (anys : List UInt8) (symbol : UInt8) (pattern text : List UInt8)
    (stringRes : Option (List UInt8)) (isAny : ∀ any ∈ anys, any = 0x3f)
    (plain : symbol ≠ 0x2a ∧ symbol ≠ 0x3f) (nulFree : 0 ∉ text)
    (fits : (anys ++ symbol :: pattern).length ≤ size) :
    Progress size
      ⟨.third, text ++ [0], symbol :: pattern, stringRes, some (anys ++ symbol :: pattern)⟩
      (Matches (0x2a :: symbol :: pattern) text) := by
  have forward {state next : Strmatch} (isThird : state.loop = .third) : ¬state.Again next := by
    rintro ⟨isFirst, -⟩
    rw [isThird] at isFirst
    cases isFirst
  cases text with
  | nil =>
      exact .returns false rfl nofun fun matched =>
        absurd matched (Glob.not_star_cons_nil plain.1)
  | cons first text =>
      have other := ne_zero_of_nulFree nulFree
      have nulFree' : 0 ∉ text := fun member => nulFree (.tail _ member)
      have made := @step_third symbol first text pattern stringRes
        (some (anys ++ symbol :: pattern)) other
      have split : Matches (0x2a :: symbol :: pattern) (first :: text) ↔
          Matches (symbol :: pattern) (first :: text) ∨
            Matches (0x2a :: symbol :: pattern) text := Glob.star_cons_iff
      have fits' : (symbol :: pattern).length ≤ size :=
        Nat.le_trans (List.length_append ▸ Nat.le_add_left _ _) fits
      have compares : Matches (symbol :: pattern) (first :: text) ↔ _ := matches_symbol plain
      by_cases found : symbol = first
      · rw [if_pos found] at made
        refine .same _ made
          ((Means.attempt anys symbol [] pattern [] text isAny plain List.not_mem_nil rfl nulFree'
            fits).congr ?_) (rank_lt (Nat.le_of_succ_le fits') (.inl ?_)) (forward rfl)
        · exact (or_congr_left (compares.trans (and_iff_right found.symm)).symm).trans split.symm
        · simp only [extent, phase, Option.getD_some, List.cons_append, List.length_cons]
          omega
      · rw [if_neg found] at made
        refine .same _ made
          ((Means.third anys symbol pattern text stringRes isAny plain nulFree' fits).congr ?_)
          (rank_lt fits' (.inl ?_)) (forward rfl)
        · exact (split.trans (or_iff_right fun matched =>
            found (compares.mp matched).1.symm)).symm
        · simp only [extent, phase, List.cons_append, List.length_cons]
          omega

theorem Means.progress (means : Means size state question) (notOver : ¬state.Asks 0) :
    Progress size state question := by
  cases means with
  | start pattern text nulFree fits => exact progress_start pattern text nulFree fits notOver
  | attempt anys symbol part pattern taken text isAny plain single same nulFree fits =>
      exact progress_attempt anys symbol part pattern taken text isAny plain single same nulFree
        fits notOver
  | second anys pattern text stringRes isAny nulFree fits =>
      exact progress_second anys pattern text stringRes isAny nulFree fits
  | third anys symbol pattern text stringRes isAny plain nulFree fits =>
      exact progress_third anys symbol pattern text stringRes isAny plain nulFree fits

/-! ## Runs -/

theorem run_returns {result : Bool} (made : state.step = .ok (.returns result)) (steps : Nat) :
    state.run (steps + 1) = .ok result := by
  rw [run, made, Outcome.ok_bind]

theorem run_leads (leads : state.Leads next) (steps : Nat) :
    state.run (steps + 1) = next.run steps := by
  rw [run, leads, Outcome.ok_bind]

theorem Leads.unique {other : Strmatch} (leads : state.Leads next) (leads' : state.Leads other) :
    next = other := by
  rw [Leads, leads] at leads'
  cases leads'
  rfl

/-- A `'?'` that meets a `'0'`. -/
theorem Asks.returns (asks : state.Asks 0x30) : state.step = .ok (.returns false) := by
  obtain ⟨loop, stringPtr, patternPtr, stringRes, patternRes⟩ := state
  obtain ⟨isFirst, isAny, isZero⟩ := asks
  cases isFirst
  cases patternPtr with
  | nil => cases isAny
  | cons symbol pattern =>
      cases stringPtr with
      | nil => cases isZero
      | cons first text =>
          cases isAny
          cases isZero
          rfl

/-- What is reached from a state is this state, or reached from the next one. -/
theorem forall_reached {property : Strmatch → Prop} (here : property state)
    (later : ∀ next, state.Leads next → ∀ reached, ReflTransGen Leads next reached →
      property reached) :
    ∀ reached, ReflTransGen Leads state reached → property reached := by
  intro reached path
  rcases Relation.ReflTransGen.cases_head path with rfl | ⟨next, leads, path⟩
  · exact here
  · exact later next leads reached path

/-- Where nothing goes wrong, the question is answered. -/
theorem run_of_harmless {wanted : Prop} (means : Means size state question)
    (same : question ↔ wanted)
    (harmless : ∀ reached, ReflTransGen Leads state reached → reached.Harmless wanted)
    {steps : Nat} (enough : state.rank size < steps) :
    ∃ result, state.run steps = .ok result ∧ (result = true ↔ wanted) := by
  induction steps generalizing state question with
  | zero => cases enough
  | succ steps ih =>
      have here := harmless state .refl
      have behind (next : Strmatch) (leads : state.Leads next) :
          ∀ reached, ReflTransGen Leads next reached → reached.Harmless wanted :=
        fun reached path => harmless reached (.head leads path)
      cases means.progress here.atEnd with
      | returns result made yes no =>
          refine ⟨result, run_returns made steps, fun isTrue => same.mp (yes isTrue), ?_⟩
          intro isWanted
          by_contra isFalse
          have zero := no (same.mpr isWanted) ((Bool.not_eq_true _).mp isFalse)
          exact here.atZero zero isWanted
      | same next leads means' decreases forward =>
          rw [run_leads leads]
          exact ih means' same (behind next leads) (by omega)
      | again next leads means' decreases isAgain without sound =>
          rw [run_leads leads]
          refine ih means' ⟨fun rest => same.mp (sound rest), fun isWanted => ?_⟩
            (behind next leads) (by omega)
          exact here.again next leads isAgain (without.mp (same.mpr isWanted))

/-! ## Behind the string -/

/-- A `'?'` that meets the end takes the NUL. -/
theorem Means.leads_over (means : Means size state question) (isOver : state.Asks 0) :
    state.Leads state.advance ∧ state.advance.stringPtr = [] := by
  have last {text : List UInt8} (nulFree : 0 ∉ text) (isEnd : (text ++ [0]).head? = some 0) :
      text = [] := by
    cases text with
    | nil => rfl
    | cons first text => exact absurd (Option.some.inj isEnd) (ne_zero_of_nulFree nulFree)
  obtain ⟨isFirst, isAny, isEnd⟩ := isOver
  cases means with
  | start pattern text nulFree fits =>
      cases last nulFree isEnd
      cases pattern with
      | nil => cases isAny
      | cons symbol pattern =>
          cases isAny
          exact ⟨rfl, rfl⟩
  | attempt anys symbol part pattern taken text isAny' plain single same nulFree fits =>
      cases last (fun member => nulFree (List.mem_append_right _ member)) isEnd
      cases pattern with
      | nil => cases isAny
      | cons symbol pattern =>
          cases isAny
          exact ⟨rfl, rfl⟩
  | second anys pattern text stringRes isAny' nulFree fits => cases isFirst
  | third anys symbol pattern text stringRes isAny' plain nulFree fits => cases isFirst

/-- What a step from there may be: only a star can be passed over. -/
theorem step_past (past : state.stringPtr = []) :
    state.step = .fault ∨ state.loop = .second ∧ state.patternPtr = [] ∧
        state.step = .ok (.returns true) ∨
      state.loop ≠ .third ∧ state.patternPtr.head? = some 0x2a ∧ state.Leads state.behindStar ∨
      state.Leads { state with loop := .third } := by
  obtain ⟨loop, stringPtr, patternPtr, stringRes, patternRes⟩ := state
  cases past
  cases loop with
  | first =>
      cases patternPtr with
      | nil => exact .inl rfl
      | cons symbol pattern =>
          by_cases isStar : symbol = 0x2a
          · subst isStar
            exact .inr (.inr (.inl ⟨nofun, rfl, rfl⟩))
          · left
            simp only [step, firstLoop, if_neg isStar, deref, Outcome.fault_bind, ite_self]
  | second =>
      cases patternPtr with
      | nil => exact .inr (.inl ⟨rfl, rfl, rfl⟩)
      | cons symbol pattern =>
          by_cases isStar : symbol = 0x2a
          · subst isStar
            exact .inr (.inr (.inl ⟨nofun, rfl, rfl⟩))
          · by_cases isAny : symbol = 0x3f
            · subst isAny
              exact .inl rfl
            · exact .inr (.inr (.inr (leads_second_symbol [] pattern _ _ ⟨isStar, isAny⟩)))
  | third => exact .inl rfl

theorem Leads.past (leads : state.Leads next) (past : state.stringPtr = []) :
    next.stringPtr = [] := by
  rcases step_past past with fault | ⟨-, -, returns⟩ | ⟨-, -, behind⟩ | third
  · rw [Leads, fault] at leads
    cases leads
  · rw [Leads, returns] at leads
    cases leads
  · rw [leads.unique behind]
    exact past
  · rw [leads.unique third]
    exact past

theorem reached_past {reached : Strmatch} (past : state.stringPtr = [])
    (path : ReflTransGen Leads state reached) : reached.stringPtr = [] := by
  induction path with
  | refl => exact past
  | tail _ leads ih => exact leads.past ih

/-- Nothing but stars, behind which the second loop is at its end. -/
def OnlyStars (state : Strmatch) : Prop :=
  state.loop ≠ .third ∧ (state.loop = .first → state.patternPtr ≠ []) ∧
    ∀ symbol ∈ state.patternPtr, symbol = 0x2a

/-- A run from there only ends behind stars. -/
theorem onlyStars_of_run {steps : Nat} {result : Bool} (past : state.stringPtr = [])
    (ends : state.run steps = .ok result) : result = true ∧ state.OnlyStars := by
  induction steps generalizing state with
  | zero => cases ends
  | succ steps ih =>
      rcases step_past past with fault | ⟨isSecond, isEnd, returns⟩ | ⟨loops, isStar, behind⟩ |
        third
      · rw [run, fault, Outcome.fault_bind] at ends
        cases ends
      · rw [run_returns returns] at ends
        cases ends
        refine ⟨rfl, ?_, ?_, ?_⟩
        · rw [isSecond]
          nofun
        · rw [isSecond]
          nofun
        · rw [isEnd]
          nofun
      · rw [run_leads behind] at ends
        have past' : state.behindStar.stringPtr = [] := past
        obtain ⟨isTrue, -, -, stars⟩ := ih past' ends
        obtain ⟨pattern, same⟩ := List.head?_eq_some_iff.mp isStar
        have isTail : state.behindStar.patternPtr = pattern := by
          rw [behindStar, same, List.tail_cons]
        rw [isTail] at stars
        refine ⟨isTrue, loops, fun _ => ?_, ?_⟩
        · rw [same]
          exact List.cons_ne_nil _ _
        · rw [same]
          exact List.forall_mem_cons.mpr ⟨rfl, stars⟩
      · rw [run_leads third] at ends
        have past' : ({ state with loop := .third } : Strmatch).stringPtr = [] := past
        exact absurd rfl (ih past' ends).2.1

theorem OnlyStars.run {steps : Nat} (only : state.OnlyStars)
    (enough : state.patternPtr.length < steps) : state.run steps = .ok true := by
  induction steps generalizing state with
  | zero => cases enough
  | succ steps ih =>
      obtain ⟨loop, stringPtr, patternPtr, stringRes, patternRes⟩ := state
      obtain ⟨notThird, inFirst, stars⟩ := only
      cases patternPtr with
      | nil =>
          cases loop with
          | first => exact absurd rfl (inFirst rfl)
          | second => exact run_returns rfl steps
          | third => exact absurd rfl notThird
      | cons symbol pattern =>
          cases stars symbol List.mem_cons_self
          have leads : Leads ⟨loop, stringPtr, 0x2a :: pattern, stringRes, patternRes⟩
              ⟨.second, stringPtr, pattern, stringRes, some pattern⟩ := by
            cases loop with
            | first => rfl
            | second => rfl
            | third => exact absurd rfl notThird
          rw [run_leads leads]
          refine ih ⟨nofun, nofun, fun symbol member => stars symbol (.tail _ member)⟩ ?_
          exact Nat.lt_of_succ_lt_succ enough

/-! ## Which runs are right -/

theorem Lucky.onlyStars {wanted : Prop} (lucky : state.Lucky wanted) :
    state.advance.OnlyStars := by
  obtain ⟨-, ⟨isFirst, -⟩, notNil, stars⟩ := lucky
  refine ⟨?_, fun _ => notNil, stars⟩
  rw [advance, isFirst]
  nofun

/-- A run past the end with only stars left says yes. -/
theorem run_of_lucky {wanted : Prop} {reached : Strmatch} (means : Means size state question)
    (path : ReflTransGen Leads state reached) (lucky : reached.Lucky wanted) {steps : Nat}
    (enough : state.rank size < steps) : state.run steps = .ok true := by
  induction steps generalizing state question with
  | zero => cases enough
  | succ steps ih =>
      by_cases isOver : state.Asks 0
      · obtain ⟨leads, past⟩ := means.leads_over isOver
        rcases Relation.ReflTransGen.cases_head path with rfl | ⟨next, leads', path⟩
        · rw [run_leads leads]
          refine lucky.onlyStars.run ?_
          obtain ⟨pattern, same⟩ := List.head?_eq_some_iff.mp isOver.2.1
          have isTail : state.advance.patternPtr.length + 1 = state.patternPtr.length := by
            rw [advance, same]
            rfl
          have size_le : state.patternPtr.length ≤ state.rank size := Nat.le_add_left _ _
          omega
        · -- behind the NUL no state has an octet
          rw [leads.unique leads'] at past
          have isPast := reached_past past path
          have isEnd := lucky.2.1.2.2
          rw [isPast] at isEnd
          cases isEnd
      · rcases Relation.ReflTransGen.cases_head path with rfl | ⟨next, leads, path⟩
        · exact absurd lucky.2.1 isOver
        · rw [run_leads leads]
          cases means.progress isOver with
          | returns result made yes no =>
              rw [Leads, made] at leads
              cases leads
          | same next' leads' means' decreases forward =>
              cases leads.unique leads'
              exact ih means' path (by omega)
          | again next' leads' means' decreases isAgain without sound =>
              cases leads.unique leads'
              exact ih means' path (by omega)

/-- Where a run answers the question, nothing has gone wrong, or it was lucky. -/
theorem harmless_of_run {wanted : Prop} {steps : Nat} {result : Bool}
    (means : Means size state question) (sound : question → wanted)
    (ends : state.run steps = .ok result) (right : result = true ↔ wanted) :
    (∀ reached, ReflTransGen Leads state reached → reached.Harmless wanted) ∧
        (result = true → question) ∨
      ∃ reached, ReflTransGen Leads state reached ∧ reached.Lucky wanted := by
  induction steps generalizing state question with
  | zero => cases ends
  | succ steps ih =>
      by_cases isOver : state.Asks 0
      · obtain ⟨leads, past⟩ := means.leads_over isOver
        rw [run_leads leads] at ends
        obtain ⟨isTrue, -, inFirst, stars⟩ := onlyStars_of_run past ends
        exact .inr ⟨state, .refl, right.mp isTrue, isOver, inFirst isOver.1, stars⟩
      · cases means.progress isOver with
        | returns result' made yes no =>
            rw [run_returns made] at ends
            cases ends
            refine .inl ⟨forall_reached ⟨isOver, fun asks isWanted => ?_, ?_⟩ ?_, yes⟩
            · rw [asks.returns] at made
              cases made
              exact Bool.false_ne_true (right.mpr isWanted)
            · intro next leads
              rw [Leads, made] at leads
              cases leads
            · intro next leads
              rw [Leads, made] at leads
              cases leads
        | same next leads means' decreases forward =>
            rw [run_leads leads] at ends
            rcases ih means' sound ends with ⟨harmless, yes⟩ | ⟨reached, path, lucky⟩
            · refine .inl ⟨forall_reached ⟨isOver, fun asks => ?_, ?_⟩ ?_, yes⟩
              · rw [Leads, asks.returns] at leads
                cases leads
              · intro other leads' isAgain
                cases leads.unique leads'
                exact absurd isAgain forward
              · intro other leads'
                cases leads.unique leads'
                exact harmless
            · exact .inr ⟨reached, .head leads path, lucky⟩
        | again next leads means' decreases isAgain without sound' =>
            rw [run_leads leads] at ends
            rcases ih means' (fun rest => sound (sound' rest)) ends with
              ⟨harmless, yes⟩ | ⟨reached, path, lucky⟩
            · refine .inl ⟨forall_reached ⟨isOver, fun asks => ?_, ?_⟩ ?_, fun isTrue =>
                sound' (yes isTrue)⟩
              · rw [Leads, asks.returns] at leads
                cases leads
              · -- the answer is the one to the question before
                intro other leads' _ matched
                cases leads.unique leads'
                exact yes (right.mpr (sound (without.mpr matched)))
              · intro other leads'
                cases leads.unique leads'
                exact harmless
            · exact .inr ⟨reached, .head leads path, lucky⟩

/-! ## Patterns without `'?'` -/

/-- A part that is taken back is one that has been put aside. -/
theorem restore_eq (leads : state.restore = .goesOn next) :
    state.patternRes = some next.patternPtr ∧ next.patternRes = state.patternRes := by
  unfold restore at leads
  split at leads
  · rename_i isString isPattern
    cases leads
    exact ⟨isPattern, rfl⟩
  · cases leads

/-- Where the patterns of a state come from. -/
theorem Leads.patterns (leads : state.Leads next) :
    (next.patternPtr = state.patternPtr ∨ next.patternPtr = state.patternPtr.tail ∨
        state.patternRes = some next.patternPtr) ∧
      (next.patternRes = state.patternRes ∨ next.patternRes = some state.patternPtr.tail) := by
  have here {other : Strmatch} {ch : Outcome UInt8} {made : UInt8 → StrmatchStep}
      (leads : (ch >>= fun ch => .ok (made ch)) = .ok (.goesOn other)) :
      ∃ ch, made ch = .goesOn other := by
    obtain ⟨ch, -, same⟩ := Outcome.bind_eq_ok.mp leads
    exact ⟨ch, Outcome.ok.inj same⟩
  unfold Leads step at leads
  split at leads
  · unfold firstLoop at leads
    split at leads
    · obtain ⟨ch, made⟩ := here leads
      split at made
      · cases made
      · obtain ⟨isRes, same⟩ := restore_eq made
        exact ⟨.inr (.inr isRes), .inl same⟩
    · split at leads
      · cases leads
        exact ⟨.inr (.inl rfl), .inr rfl⟩
      · split at leads
        · obtain ⟨ch, made⟩ := here leads
          split at made
          · cases made
          · cases made
            exact ⟨.inr (.inl rfl), .inl rfl⟩
        · obtain ⟨ch, made⟩ := here leads
          split at made
          · cases made
          · split at made
            · obtain ⟨isRes, same⟩ := restore_eq made
              exact ⟨.inr (.inr isRes), .inl same⟩
            · cases made
              exact ⟨.inr (.inl rfl), .inl rfl⟩
  · unfold secondLoop at leads
    split at leads
    · cases leads
    · split at leads
      · cases leads
        exact ⟨.inr (.inl rfl), .inr rfl⟩
      · split at leads
        · obtain ⟨ch, made⟩ := here leads
          split at made
          · cases made
          · cases made
            exact ⟨.inr (.inl rfl), .inl rfl⟩
        · cases leads
          exact ⟨.inl rfl, .inl rfl⟩
  · obtain ⟨ch, made⟩ := here leads
    split at made
    · cases made
    · split at made
      · cases made
        exact ⟨.inr (.inl rfl), .inl rfl⟩
      · cases made
        exact ⟨.inl rfl, .inl rfl⟩

/-- There is no `'?'` in the pattern, nor where it was put aside. -/
def NoAny (state : Strmatch) : Prop :=
  0x3f ∉ state.patternPtr ∧ ∀ patternRes, state.patternRes = some patternRes → 0x3f ∉ patternRes

theorem NoAny.leads (noAny : state.NoAny) (leads : state.Leads next) : next.NoAny := by
  obtain ⟨pattern, res⟩ := leads.patterns
  have tail : 0x3f ∉ state.patternPtr.tail := fun member => noAny.1 (List.mem_of_mem_tail member)
  constructor
  · rcases pattern with same | isTail | isRes
    · exact same ▸ noAny.1
    · exact isTail ▸ tail
    · exact noAny.2 _ isRes
  · intro patternRes isRes
    rcases res with same | isTail
    · exact noAny.2 _ (same ▸ isRes)
    · cases isTail.symm.trans isRes
      exact tail

theorem NoAny.not_asks (noAny : state.NoAny) (octet : UInt8) : ¬state.Asks octet := by
  rintro ⟨-, isAny, -⟩
  exact noAny.1 (List.mem_of_mem_head? isAny)

theorem NoAny.harmless (noAny : state.NoAny) (wanted : Prop) : state.Harmless wanted := by
  refine ⟨noAny.not_asks 0, fun asks => absurd asks (noAny.not_asks 0x30), ?_⟩
  intro next leads _ matched
  have kept : next.patternPtr.dropWhile (· = 0x3f) = next.patternPtr := by
    cases same : next.patternPtr with
    | nil => rfl
    | cons symbol pattern =>
        refine List.dropWhile_cons_of_neg ?_
        have absent := (noAny.leads leads).1
        rw [same, List.mem_cons, not_or] at absent
        simpa using Ne.symm absent.1
  rwa [RestWithout, kept] at matched

end Strmatch

/-- Which patterns are matched as they should be, and with which strings. -/
theorem rightlyMatched_iff (aPattern aSource : List UInt8) :
    RightlyMatched aPattern aSource ↔ WellLed aPattern aSource := by
  have nulFree : 0 ∉ cString aSource := General.nulFree_cString aSource
  have means := Strmatch.Means.start (cString aPattern) (cString aSource) nulFree (Nat.le_refl _)
  constructor
  · rintro ⟨result, ends, right⟩
    exact (Strmatch.harmless_of_run means id ends right).imp_left And.left
  · rintro (harmless | ⟨reached, path, lucky⟩)
    · exact Strmatch.run_of_harmless means Iff.rfl harmless (Nat.lt_succ_self _)
    · refine ⟨true, Strmatch.run_of_lucky means path lucky (Nat.lt_succ_self _), ?_⟩
      exact ⟨fun _ => lucky.1, fun _ => rfl⟩

/-- A pattern without `'?'` is matched as it should be, with any string. -/
theorem rightlyMatched_of_notMem {aPattern : List UInt8} (plain : 0x3f ∉ cString aPattern)
    (aSource : List UInt8) : RightlyMatched aPattern aSource := by
  rw [rightlyMatched_iff]
  left
  intro state path
  have noAny : state.NoAny := by
    induction path with
    | refl => exact ⟨plain, nofun⟩
    | tail _ leads ih => exact ih.leads leads
  exact noAny.harmless _

end Service

end HeapHttpd
