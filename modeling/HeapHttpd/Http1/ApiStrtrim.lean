import HeapHttpd.Http1.PostVars

/-!
# Trimming in the API

The loops of `_strtrim_`, with a pass as the source has it and `bExit` behind it, and when the
outcome is that of `strtrim`.
-/

namespace HeapHttpd

namespace Http1

open General

/-- `find_first_not_of` for one octet. -/
def findFirstNotOf (ch : UInt8) (src : List UInt8) : Option Nat :=
  src.findIdx? (· ≠ ch)

/-- `find_last_not_of` for one octet. -/
def findLastNotOf (ch : UInt8) (src : List UInt8) : Option Nat :=
  (src.reverse.findIdx? (· ≠ ch)).map fun index => src.length - 1 - index

/-- What the first loop does with an octet: whether it has been erased in front of others, and
what is left. -/
def eraseFirst (ch : UInt8) (src : List UInt8) : Bool × List UInt8 :=
  match findFirstNotOf ch src with
  | none => (false, [])
  | some ops => if ops ≠ 0 then (true, src.drop ops) else (false, src)

/-- What the second loop does with one. -/
def eraseLast (ch : UInt8) (src : List UInt8) : Bool × List UInt8 :=
  match findLastNotOf ch src with
  | none => (false, src)
  | some ops => if ops ≠ src.length - 1 then (true, src.take (ops + 1)) else (false, src)

/-- A pass of the first loop: `bExit` and the string.  Only spaces clear `bExit`. -/
def startPass (src : List UInt8) : Bool × List UInt8 :=
  let spaces := eraseFirst 0x20 src
  let tabs := eraseFirst 0x09 spaces.2
  let returns := eraseFirst 0x0d tabs.2
  let newlines := eraseFirst 0x0a returns.2
  (!spaces.1, newlines.2)

/-- A pass of the second loop. -/
def endPass (src : List UInt8) : Bool × List UInt8 :=
  let spaces := eraseLast 0x20 src
  let tabs := eraseLast 0x09 spaces.2
  let returns := eraseLast 0x0d tabs.2
  let newlines := eraseLast 0x0a returns.2
  (!(spaces.1 || tabs.1 || returns.1 || newlines.1), newlines.2)

/-- `while (!bExit)`, if so many passes are enough. -/
def untilExit (pass : List UInt8 → Bool × List UInt8) : Nat → List UInt8 → Option (List UInt8)
  | 0, _ => none
  | passes + 1, src =>
      if (pass src).1 then some (pass src).2 else untilExit pass passes (pass src).2

/-- `_strtrim_`, if so many passes of each loop are enough. -/
def strtrimIn (passes : Nat) (src : List UInt8) : Option (List UInt8) :=
  (untilExit startPass passes src).bind (untilExit endPass passes)

/-- `_strtrim_` comes to an end and takes away the blanks around a string, like `strtrim` if there
is no NUL. -/
def RightlyTrimmed (src : List UInt8) : Prop :=
  ∃ passes result, strtrimIn passes src = some result ∧ Trimming.Inside isBlank src result ∧
    (0 ∉ src → result = strtrim src)

/-! ## One pass -/

theorem findFirstNotOf_eq_none {ch : UInt8} {src : List UInt8}
    (none' : findFirstNotOf ch src = none) : ∀ other ∈ src, other = ch := by
  intro other member
  have same := List.findIdx?_eq_none_iff.mp none' other member
  simpa using same

theorem findFirstNotOf_eq_some {ch : UInt8} {src : List UInt8} {ops : Nat}
    (found : findFirstNotOf ch src = some ops) :
    ops < src.length ∧ src.dropWhile (· = ch) = src.drop ops := by
  obtain ⟨inside, same⟩ := List.findIdx?_eq_some_iff_findIdx_eq.mp found
  refine ⟨inside, ?_⟩
  rw [List.dropWhile_eq_drop_findIdx_not, ← same]
  simp only [decide_not]

theorem eraseFirst_eq (ch : UInt8) (src : List UInt8) :
    eraseFirst ch src =
      (decide (src.dropWhile (· = ch) ≠ [] ∧ src.dropWhile (· = ch) ≠ src),
        src.dropWhile (· = ch)) := by
  rw [eraseFirst]
  cases found : findFirstNotOf ch src with
  | none =>
      have all : src.dropWhile (· = ch) = [] := by
        rw [List.dropWhile_eq_nil_iff]
        exact fun other member => decide_eq_true (findFirstNotOf_eq_none found other member)
      simp [all]
  | some ops =>
      obtain ⟨inside, dropped⟩ := findFirstNotOf_eq_some found
      rw [dropped]
      by_cases start : ops = 0
      · subst start
        simp
      · have nonempty : src.drop ops ≠ [] := by
          rw [ne_eq, List.drop_eq_nil_iff]
          omega
        have shorter : src.drop ops ≠ src := by
          intro same
          have lengths := congrArg List.length same
          rw [List.length_drop] at lengths
          omega
        simp [start, nonempty, shorter]

theorem eraseLast_eq (ch : UInt8) (src : List UInt8) :
    eraseLast ch src = (decide (dropEnd ch src ≠ src), dropEnd ch src) := by
  rw [eraseLast, findLastNotOf]
  cases found : src.reverse.findIdx? (· ≠ ch) with
  | none =>
      have all : src.all (· = ch) = true := by
        rw [List.all_eq_true]
        exact fun other member => decide_eq_true
          (findFirstNotOf_eq_none found other (List.mem_reverse.mpr member))
      have same : dropEnd ch src = src := by rw [dropEnd, if_pos all]
      simp [same]
  | some index =>
      obtain ⟨inside, dropped⟩ := findFirstNotOf_eq_some found
      rw [List.length_reverse] at inside
      have kept : src.rdropWhile (· = ch) = src.take (src.length - index) := by
        rw [List.rdropWhile, dropped, List.drop_reverse, List.reverse_reverse]
      have mixed : ¬src.all (· = ch) = true := by
        intro all
        have gone : src.rdropWhile (· = ch) = [] :=
          List.rdropWhile_eq_nil_iff.mpr (List.all_eq_true.mp all)
        have lengths := congrArg List.length (kept.symm.trans gone)
        rw [List.length_take, List.length_nil] at lengths
        omega
      have isEnd : src.length - 1 - index + 1 = src.length - index := by omega
      rw [dropEnd, if_neg mixed, kept, Option.map_some]
      by_cases last : index = 0
      · subst last
        simp
      · have differs : src.length - 1 - index ≠ src.length - 1 := by omega
        have shorter : src.take (src.length - index) ≠ src := by
          intro same
          have lengths := congrArg List.length same
          rw [List.length_take] at lengths
          omega
        simp only [if_pos differs, isEnd, shorter, ne_eq, not_false_eq_true, decide_true]

/-! ## The loops -/

theorem startPass_eq (src : List UInt8) :
    startPass src =
      let unspaced := src.dropWhile (· = 0x20)
      (decide ¬(unspaced ≠ [] ∧ unspaced ≠ src),
        ((unspaced.dropWhile (· = 0x09)).dropWhile (· = 0x0d)).dropWhile (· = 0x0a)) := by
  simp only [startPass, eraseFirst_eq, decide_not]

/-- The octet is dropped where something changes. -/
theorem endPass_eq (src : List UInt8) :
    endPass src =
      let next := dropEnd 0x0a (dropEnd 0x0d (dropEnd 0x09 (dropEnd 0x20 src)))
      (decide (next = src), next) := by
  simp only [endPass, eraseLast_eq, Prod.mk.injEq, and_true]
  by_cases fixed : dropEnd 0x0a (dropEnd 0x0d (dropEnd 0x09 (dropEnd 0x20 src))) = src
  · have each (kind : UInt8) (member : kind ∈ [0x20, 0x09, 0x0d, 0x0a]) :
        dropEnd kind src = src :=
      @Trimming.dropEnd_eq_self _ _ [0x20, 0x09, 0x0d, 0x0a] src kind fixed member
    have spaces := each 0x20 (by decide)
    have tabs := each 0x09 (by decide)
    have returns := each 0x0d (by decide)
    have newlines := each 0x0a (by decide)
    simp [spaces, tabs, returns, newlines]
  · have some' : ¬(dropEnd 0x20 src = src ∧ dropEnd 0x09 (dropEnd 0x20 src) = dropEnd 0x20 src ∧
        dropEnd 0x0d (dropEnd 0x09 (dropEnd 0x20 src)) = dropEnd 0x09 (dropEnd 0x20 src) ∧
        dropEnd 0x0a (dropEnd 0x0d (dropEnd 0x09 (dropEnd 0x20 src))) =
          dropEnd 0x0d (dropEnd 0x09 (dropEnd 0x20 src))) := by
      rintro ⟨spaces, tabs, returns, newlines⟩
      exact fixed (newlines.trans (returns.trans (tabs.trans spaces)))
    rw [decide_eq_false fixed, Bool.not_eq_false', ← Bool.not_eq_false]
    simp only [Bool.or_eq_false_iff, decide_eq_false_iff_not, not_not]
    rintro ⟨⟨⟨spaces, tabs⟩, returns⟩, newlines⟩
    exact some' ⟨spaces, tabs, returns, newlines⟩

/-- More passes do not matter. -/
theorem untilExit_mono {pass : List UInt8 → Bool × List UInt8} {passes more : Nat}
    {src result : List UInt8} (ends : untilExit pass passes src = some result)
    (enough : passes ≤ more) : untilExit pass more src = some result := by
  induction passes generalizing src more with
  | zero => cases ends
  | succ passes ih =>
      obtain ⟨more, rfl⟩ := Nat.exists_eq_add_one.mpr (Nat.lt_of_lt_of_le (Nat.succ_pos _) enough)
      rw [untilExit] at ends ⊢
      split
      · next isLast => rwa [if_pos isLast] at ends
      · next goesOn =>
          rw [if_neg goesOn] at ends
          exact ih ends (Nat.le_of_succ_le_succ enough)

/-- Each pass but the last one takes something away. -/
theorem untilExit_startPass {passes : Nat} {src : List UInt8} (enough : src.length < passes) :
    untilExit startPass passes src = some (trimStart passes src) := by
  induction passes generalizing src with
  | zero => cases enough
  | succ passes ih =>
      rw [untilExit, startPass_eq, trimStart]
      by_cases goesOn : src.dropWhile (· = 0x20) ≠ [] ∧ src.dropWhile (· = 0x20) ≠ src
      · have suffix : ((((src.dropWhile (· = 0x20)).dropWhile (· = 0x09)).dropWhile
            (· = 0x0d)).dropWhile (· = 0x0a)) <:+ src.dropWhile (· = 0x20) :=
          (List.dropWhile_suffix _).trans ((List.dropWhile_suffix _).trans
            (List.dropWhile_suffix _))
        have shorter : (src.dropWhile (· = 0x20)).length < src.length := by
          refine lt_of_le_of_ne (List.dropWhile_suffix _).length_le fun same => goesOn.2 ?_
          exact (List.dropWhile_suffix _).eq_of_length same
        have less := suffix.length_le
        simp only [goesOn, not_true_eq_false, decide_false, Bool.false_eq_true, if_false,
          ne_eq, not_false_eq_true, and_self, if_true]
        exact ih (by omega)
      · simp only [if_neg goesOn, decide_eq_true goesOn, if_true]

theorem untilExit_endPass {passes : Nat} {src : List UInt8} (enough : src.length < passes) :
    untilExit endPass passes src = some (trimEnd passes src) := by
  induction passes generalizing src with
  | zero => cases enough
  | succ passes ih =>
      rw [untilExit, endPass_eq, trimEnd]
      by_cases fixed : dropEnd 0x0a (dropEnd 0x0d (dropEnd 0x09 (dropEnd 0x20 src))) = src
      · simp only [fixed, decide_true, if_true]
      · have isPrefix : dropEnd 0x0a (dropEnd 0x0d (dropEnd 0x09 (dropEnd 0x20 src))) <+: src :=
          Trimming.stripLast_isPrefix [0x20, 0x09, 0x0d, 0x0a] src
        have shorter := lt_of_le_of_ne isPrefix.length_le fun same =>
          fixed (isPrefix.eq_of_length same)
        simp only [fixed, decide_false, Bool.false_eq_true, if_false]
        exact ih (by omega)

/-- Both loops come to an end, and leave what the model of them leaves. -/
theorem strtrimIn_eq (src : List UInt8) :
    strtrimIn (src.length + 1) src = some (apiStrtrim src) := by
  have shorter : (trimStart (src.length + 1) src).length ≤ src.length := by
    rw [trimStart_eq]
    exact Trimming.stripStart_suffix.length_le
  rw [strtrimIn, untilExit_startPass (Nat.lt_succ_self _), Option.bind_some, apiStrtrim]
  exact untilExit_mono (untilExit_endPass (Nat.lt_succ_self _)) (Nat.succ_le_succ shorter)

theorem strtrimIn_mono {passes more : Nat} {src result : List UInt8}
    (ends : strtrimIn passes src = some result) (enough : passes ≤ more) :
    strtrimIn more src = some result := by
  obtain ⟨started, first, second⟩ := Option.bind_eq_some_iff.mp ends
  rw [strtrimIn, untilExit_mono first enough, Option.bind_some]
  exact untilExit_mono second enough

theorem strtrimIn_unique {passes : Nat} {src result : List UInt8}
    (ends : strtrimIn passes src = some result) : result = apiStrtrim src := by
  have longer := strtrimIn_mono ends (Nat.le_max_left passes (src.length + 1))
  rw [strtrimIn_mono (strtrimIn_eq src) (Nat.le_max_right passes (src.length + 1))] at longer
  exact (Option.some.inj longer).symm

/-- `_strtrim_` always comes to an end, and trims a string where the blanks in front of it are
runs of spaces, tabs, carriage returns and line feeds in this order, each but the last one with a
space in front. -/
theorem rightlyTrimmed_iff (src : List UInt8) :
    (∃ passes result, strtrimIn passes src = some result) ∧
      (RightlyTrimmed src ↔
        Trimming.Peelable 0x20 [0x09, 0x0d, 0x0a] (src.takeWhile isBlank)) := by
  refine ⟨⟨_, _, strtrimIn_eq src⟩, ?_⟩
  rw [← apiStrtrim_eq_trimmed_iff]
  constructor
  · rintro ⟨passes, result, ends, inside, -⟩
    rw [← strtrimIn_unique ends]
    exact Trimming.inside_iff.mp inside
  · intro trims
    refine ⟨_, _, strtrimIn_eq src, Trimming.inside_iff.mpr trims, fun nulFree => ?_⟩
    rw [trims, strtrim_eq_trimmed nulFree]

/-- A line feed in front of a space. -/
theorem not_rightlyTrimmed : ¬RightlyTrimmed (octets "\n a") := by
  rintro ⟨passes, result, ends, inside, -⟩
  have left : apiStrtrim (octets "\n a") = octets " a" := by decide
  have blank : isBlank 0x20 = false := by
    refine inside.first 0x20 ?_
    rw [strtrimIn_unique ends, left]
    rfl
  cases blank

end Http1

end HeapHttpd
