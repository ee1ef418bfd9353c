import Mathlib.Data.List.DropRight

/-!
# Trimming in rounds

A loop that takes symbols of some kinds from the start of a text, one kind after the
other, and that begins another round only where it met the first kind; and one that
takes them from the end as long as something changes, but never the whole text.
-/

namespace HeapHttpd

namespace Trimming

variable {Symbol : Type*} [DecidableEq Symbol]

/-- A round at the start. -/
def strip (kinds text : List Symbol) : List Symbol :=
  kinds.foldl (fun text kind => text.dropWhile (· = kind)) text

/-- Rounds at the start, as long as the first kind was there and something stood behind it. -/
def stripStart (first : Symbol) (others : List Symbol) : Nat → List Symbol → List Symbol
  | 0, text => text
  | rounds + 1, text =>
      let unspaced := text.dropWhile (· = first)
      let next := strip others unspaced
      if unspaced ≠ [] ∧ unspaced ≠ text then stripStart first others rounds next else next

/-- The symbols of a kind at the end, unless there are no others. -/
def dropEnd (kind : Symbol) (text : List Symbol) : List Symbol :=
  if text.all (· = kind) then text else text.rdropWhile (· = kind)

/-- A round at the end. -/
def stripLast (kinds text : List Symbol) : List Symbol :=
  kinds.foldl (fun text kind => dropEnd kind text) text

/-- Rounds at the end, as long as they change something. -/
def stripEnd (kinds : List Symbol) : Nat → List Symbol → List Symbol
  | 0, text => text
  | rounds + 1, text =>
      if stripLast kinds text = text then text else stripEnd kinds rounds (stripLast kinds text)

/-- Both loops. -/
def strtrim (first : Symbol) (others text : List Symbol) : List Symbol :=
  let started := stripStart first others (text.length + 1) text
  stripEnd (first :: others) (started.length + 1) started

/-- What is inside of a text when all blanks around it are taken away, and nothing else. -/
structure Inside (isBlank : Symbol → Bool) (text inside : List Symbol) : Prop where
  around : ∃ front back, text = front ++ (inside ++ back) ∧
    (∀ symbol ∈ front, isBlank symbol = true) ∧ ∀ symbol ∈ back, isBlank symbol = true
  first : ∀ symbol ∈ inside.head?, isBlank symbol = false
  last : ∀ symbol ∈ inside.getLast?, isBlank symbol = false

/-! ## Inside of the blanks -/

section Inside

variable {isBlank : Symbol → Bool} {text inside : List Symbol}

omit [DecidableEq Symbol] in
theorem dropWhile_blanks {front rest : List Symbol}
    (blank : ∀ symbol ∈ front, isBlank symbol = true)
    (stop : ∀ symbol ∈ rest.head?, isBlank symbol = false) :
    (front ++ rest).dropWhile isBlank = rest := by
  rw [List.dropWhile_append_of_pos blank]
  cases rest with
  | nil => rfl
  | cons symbol rest => exact List.dropWhile_cons_of_neg (by simp [stop symbol rfl])

omit [DecidableEq Symbol] in
/-- There is one such text. -/
theorem inside_iff : Inside isBlank text inside ↔
    inside = (text.dropWhile isBlank).rdropWhile isBlank := by
  constructor
  · rintro ⟨⟨front, back, rfl, blank, blank'⟩, first, last⟩
    cases inside with
    | nil =>
        have all : ∀ symbol ∈ front ++ ([] ++ back), isBlank symbol = true := fun symbol member =>
          (List.mem_append.mp member).elim (blank symbol) (blank' symbol)
        rw [List.dropWhile_eq_nil_iff.mpr all]
        rfl
    | cons symbol inside =>
        have first' : ∀ head ∈ (symbol :: inside ++ back).head?, isBlank head = false := first
        rw [dropWhile_blanks blank first', List.rdropWhile, List.reverse_append,
          dropWhile_blanks, List.reverse_reverse]
        · exact fun symbol member => blank' symbol (List.mem_reverse.mp member)
        · rwa [List.head?_reverse]
  · rintro rfl
    have front := @List.takeWhile_append_dropWhile _ isBlank text
    have back := @List.rdropWhile_append_rtakeWhile _ isBlank (text.dropWhile isBlank)
    refine ⟨⟨text.takeWhile isBlank, (text.dropWhile isBlank).rtakeWhile isBlank, ?_, ?_, ?_⟩,
      ?_, ?_⟩
    · rw [back, front]
    · exact fun symbol member => List.mem_takeWhile_imp member
    · exact fun symbol member => List.mem_rtakeWhile_imp member
    · intro symbol isHead
      obtain ⟨rest, whole⟩ := @List.rdropWhile_prefix _ isBlank (text.dropWhile isBlank)
      have other := List.head?_dropWhile_not isBlank text
      rw [← whole, List.head?_append, Option.mem_def.mp isHead] at other
      simpa using other
    · intro symbol isLast
      have nonempty : (text.dropWhile isBlank).rdropWhile isBlank ≠ [] := by
        intro empty
        rw [empty] at isLast
        cases isLast
      have other := List.rdropWhile_last_not isBlank _ nonempty
      rw [List.getLast?_eq_getLast_of_ne_nil nonempty] at isLast
      rw [Option.some.inj isLast] at other
      simpa using other

end Inside

/-! ## The start -/

/-- Symbols of some kinds in the order of the kinds. -/
inductive InOrder : List Symbol → List Symbol → Prop
  | nil (kinds : List Symbol) : InOrder kinds []
  | next (kind : Symbol) (kinds run : List Symbol) (later : InOrder kinds run) :
      InOrder (kind :: kinds) run
  | more (kind : Symbol) (kinds run : List Symbol) (later : InOrder (kind :: kinds) run) :
      InOrder (kind :: kinds) (kind :: run)

/-- Runs of symbols in order, each of which but the last one begins with the first kind. -/
def Peelable (first : Symbol) (others lead : List Symbol) : Prop :=
  ∃ (runs : List (List Symbol)) (last : List Symbol), lead = runs.flatten ++ last ∧
    (∀ run ∈ runs, InOrder (first :: others) run ∧ run.head? = some first) ∧
    InOrder (first :: others) last

section Start

variable {kinds others run text rest lead : List Symbol} {kind first : Symbol}

theorem strip_cons : strip (kind :: kinds) text = strip kinds (text.dropWhile (· = kind)) :=
  rfl

theorem strip_suffix (kinds text : List Symbol) : strip kinds text <:+ text := by
  induction kinds generalizing text with
  | nil => exact List.suffix_refl text
  | cons kind kinds ih => exact (ih _).trans (List.dropWhile_suffix _)

omit [DecidableEq Symbol] in
theorem InOrder.tail {symbol : Symbol} (inOrder : InOrder kinds (symbol :: run)) :
    InOrder kinds run := by
  generalize isCons : symbol :: run = whole at inOrder
  induction inOrder with
  | nil => cases isCons
  | next kind kinds whole later ih => exact .next kind kinds run (ih isCons)
  | more kind kinds whole later ih =>
      cases isCons
      exact later

omit [DecidableEq Symbol] in
theorem InOrder.of_suffix (inOrder : InOrder kinds run) (suffix : text <:+ run) :
    InOrder kinds text := by
  obtain ⟨front, rfl⟩ := suffix
  induction front with
  | nil => exact inOrder
  | cons symbol front ih => exact ih inOrder.tail

theorem InOrder.dropWhile (inOrder : InOrder (kind :: kinds) run) :
    InOrder kinds (run.dropWhile (· = kind)) := by
  generalize isCons : kind :: kinds = whole at inOrder
  induction inOrder with
  | nil => exact .nil kinds
  | next kind kinds run later ih =>
      cases isCons
      exact later.of_suffix (List.dropWhile_suffix _)
  | more kind kinds run later ih =>
      cases isCons
      rw [List.dropWhile_cons_of_pos (by simp)]
      exact ih rfl

omit [DecidableEq Symbol] in
theorem InOrder.mem (inOrder : InOrder kinds run) {symbol : Symbol} (member : symbol ∈ run) :
    symbol ∈ kinds := by
  induction inOrder with
  | nil => cases member
  | next kind kinds run later ih => exact List.mem_cons_of_mem _ (ih member)
  | more kind kinds run later ih =>
      rcases List.mem_cons.mp member with rfl | behind
      · exact List.mem_cons_self
      · exact ih behind

omit [DecidableEq Symbol] in
theorem inOrder_replicate (kind : Symbol) (kinds : List Symbol) (count : Nat) :
    InOrder (kind :: kinds) (List.replicate count kind) := by
  induction count with
  | zero => exact .nil _
  | succ count ih => exact .more kind kinds _ ih

omit [DecidableEq Symbol] in
theorem Peelable.cons (peelable : Peelable first others lead)
    (inOrder : InOrder (first :: others) run) (headed : run.head? = some first) :
    Peelable first others (run ++ lead) := by
  obtain ⟨runs, last, rfl, begins, inOrder'⟩ := peelable
  refine ⟨run :: runs, last, ?_, List.forall_mem_cons.mpr ⟨⟨inOrder, headed⟩, begins⟩, inOrder'⟩
  rw [List.flatten_cons, List.append_assoc]

omit [DecidableEq Symbol] in
theorem InOrder.peelable (inOrder : InOrder (first :: others) lead) :
    Peelable first others lead :=
  ⟨[], lead, rfl, by simp, inOrder⟩

/-- A round takes what is in order. -/
theorem InOrder.strip (inOrder : InOrder kinds run) : strip kinds run = [] := by
  induction kinds generalizing run with
  | nil =>
      cases inOrder
      rfl
  | cons kind kinds ih => exact ih inOrder.dropWhile

/-- A round takes something that is in order. -/
theorem exists_inOrder (kinds text : List Symbol) :
    ∃ run, InOrder kinds run ∧ text = run ++ Trimming.strip kinds text := by
  induction kinds generalizing text with
  | nil => exact ⟨[], .nil [], rfl⟩
  | cons kind kinds ih =>
      obtain ⟨run, inOrder, whole⟩ := ih (text.dropWhile (· = kind))
      have further (front : List Symbol) (same : ∀ symbol ∈ front, symbol = kind) :
          InOrder (kind :: kinds) (front ++ run) := by
        induction front with
        | nil => exact .next kind kinds run inOrder
        | cons symbol front ih =>
            obtain ⟨rfl, later⟩ := List.forall_mem_cons.mp same
            exact .more symbol kinds (front ++ run) (ih later)
      refine ⟨text.takeWhile (· = kind) ++ run, further _ fun symbol member => ?_, ?_⟩
      · simpa using List.mem_takeWhile_imp member
      · rw [List.append_assoc, strip_cons, ← whole, List.takeWhile_append_dropWhile]

/-- A round comes to an end at a symbol of no kind. -/
theorem strip_append (stop : ∀ symbol ∈ rest.head?, symbol ∉ kinds) (lead : List Symbol) :
    strip kinds (lead ++ rest) = strip kinds lead ++ rest := by
  induction kinds generalizing lead with
  | nil => rfl
  | cons kind kinds ih =>
      have kept : (lead ++ rest).dropWhile (· = kind) = lead.dropWhile (· = kind) ++ rest := by
        rw [List.dropWhile_append]
        split
        · next gone =>
            rw [List.isEmpty_iff.mp gone, List.nil_append]
            cases rest with
            | nil => rfl
            | cons symbol rest =>
                have other := stop symbol (by simp)
                rw [List.mem_cons, not_or] at other
                exact List.dropWhile_cons_of_neg (by simpa using other.1)
        · rfl
      rw [strip_cons, strip_cons, kept]
      exact ih (fun symbol isHead member => stop symbol isHead (List.mem_cons_of_mem _ member)) _

/-- A round over a run and what stands behind it. -/
theorem InOrder.strip_append_suffix (inOrder : InOrder kinds run) (text : List Symbol) :
    Trimming.strip kinds (run ++ text) <:+ text := by
  induction kinds generalizing run text with
  | nil =>
      cases inOrder
      exact List.suffix_refl text
  | cons kind kinds ih =>
      rw [strip_cons, List.dropWhile_append]
      split
      · exact (strip_suffix kinds _).trans (List.dropWhile_suffix _)
      · exact ih inOrder.dropWhile text

/-- A round over a run where the first kind stands behind it. -/
theorem InOrder.strip_append_first (inOrder : InOrder (first :: others) run)
    (alone : first ∉ others) (again : text.head? = some first) :
    Trimming.strip (first :: others) (run ++ text) = text ∨
      Trimming.strip (first :: others) (run ++ text) =
        Trimming.strip (first :: others) text := by
  rw [strip_cons, List.dropWhile_append]
  split
  · exact .inr rfl
  · left
    rw [strip_append (fun symbol isHead => ?_), inOrder.dropWhile.strip, List.nil_append]
    rw [again] at isHead
    exact Option.some.inj isHead ▸ alone

theorem dropWhile_ne_iff : text.dropWhile (· = first) ≠ text ↔ text.head? = some first := by
  cases text with
  | nil => exact iff_of_false (fun changed => changed rfl) (Option.some_ne_none first).symm
  | cons symbol text =>
      rw [List.head?_cons, Option.some_inj]
      by_cases isFirst : symbol = first
      · refine iff_of_true (fun same => ?_) isFirst
        have fewer := (List.dropWhile_suffix (l := text) (· = first)).length_le
        rw [List.dropWhile_cons_of_pos (by simpa using isFirst)] at same
        rw [same, List.length_cons] at fewer
        omega
      · exact iff_of_false
          (fun changed => changed (List.dropWhile_cons_of_neg (by simpa using isFirst))) isFirst

/-- A round takes something of the first kind only from the lead. -/
theorem dropWhile_append_ne_iff (stop : ∀ symbol ∈ rest.head?, symbol ∉ first :: others) :
    (lead ++ rest).dropWhile (· = first) ≠ lead ++ rest ↔ lead.head? = some first := by
  rw [dropWhile_ne_iff]
  cases lead with
  | nil =>
      exact iff_of_false (fun headed => stop first headed List.mem_cons_self)
        (Option.some_ne_none first).symm
  | cons symbol lead => rfl

theorem length_strip_lt (headed : lead.head? = some first) :
    (strip (first :: others) lead).length < lead.length := by
  cases lead with
  | nil => cases headed
  | cons symbol lead =>
      obtain rfl : symbol = first := Option.some.inj headed
      have fewer := ((strip_suffix others _).trans
        (List.dropWhile_suffix (l := lead) (· = symbol))).length_le
      rw [strip_cons, List.dropWhile_cons_of_pos (by simp), List.length_cons]
      omega

/-- What a round leaves of what can be peeled. -/
theorem Peelable.strip (peelable : Peelable first others lead) (alone : first ∉ others) :
    Trimming.strip (first :: others) lead = [] ∨
      lead.head? = some first ∧ Peelable first others (Trimming.strip (first :: others) lead) := by
  obtain ⟨runs, last, rfl, begins, inOrder⟩ := peelable
  induction runs with
  | nil => exact .inl inOrder.strip
  | cons run runs ih =>
      obtain ⟨here, later⟩ := List.forall_mem_cons.mp begins
      have headed : ((run :: runs).flatten ++ last).head? = some first := by
        rw [List.flatten_cons, List.append_assoc, List.head?_append, here.2]
        rfl
      rw [headed, List.flatten_cons, List.append_assoc]
      cases runs with
      | nil =>
          have suffix := here.1.strip_append_suffix last
          exact .inr ⟨rfl, (inOrder.of_suffix suffix).peelable⟩
      | cons next runs =>
          have again : ((next :: runs).flatten ++ last).head? = some first := by
            rw [List.flatten_cons, List.append_assoc, List.head?_append,
              (later next List.mem_cons_self).2]
            rfl
          rcases here.1.strip_append_first alone again with stops | goes
          · rw [stops]
            exact .inr ⟨rfl, next :: runs, last, rfl, later, inOrder⟩
          · rw [goes]
            exact (ih later).imp_right fun both => ⟨rfl, both.2⟩

/-- The loop takes all that stands in front of a symbol of no kind where this can be peeled. -/
theorem stripStart_eq_iff {rounds : Nat} (alone : first ∉ others)
    (stop : ∀ symbol ∈ rest.head?, symbol ∉ first :: others) (enough : lead.length < rounds) :
    stripStart first others rounds (lead ++ rest) = rest ↔ Peelable first others lead := by
  induction rounds generalizing lead with
  | zero => omega
  | succ rounds ih =>
      have taken : strip others ((lead ++ rest).dropWhile (· = first)) =
          strip (first :: others) lead ++ rest := strip_append stop lead
      obtain ⟨run, inOrder, whole⟩ := exists_inOrder (first :: others) lead
      rw [stripStart]
      split
      · next goes =>
          have headed := (dropWhile_append_ne_iff stop).mp goes.2
          have shorter := @length_strip_lt _ _ others lead first headed
          rw [taken, ih (by omega)]
          constructor
          · intro left
            rw [whole]
            refine left.cons inOrder ?_
            rw [whole] at headed
            cases run with
            | nil =>
                have same := congrArg List.length whole
                rw [List.nil_append] at same
                omega
            | cons symbol run => exact headed
          · intro peelable
            rcases peelable.strip alone with gone | ⟨-, left⟩
            · rw [gone]
              exact (InOrder.nil _).peelable
            · exact left
      · next stops =>
          rw [taken, List.append_left_eq_self]
          constructor
          · intro gone
            rw [gone, List.append_nil] at whole
            exact whole ▸ inOrder.peelable
          · intro peelable
            rcases peelable.strip alone with gone | ⟨headed, -⟩
            · exact gone
            · have changed := (dropWhile_append_ne_iff stop).mpr headed
              have unspaced := not_not.mp fun nonempty => stops ⟨nonempty, changed⟩
              rw [unspaced] at taken
              have gone : strip others ([] : List Symbol) = [] :=
                List.suffix_nil.mp (strip_suffix others [])
              exact (List.append_eq_nil_iff.mp (taken.symm.trans gone)).1

theorem stripStart_suffix {rounds : Nat} : stripStart first others rounds text <:+ text := by
  induction rounds generalizing text with
  | zero => exact List.suffix_refl text
  | succ rounds ih =>
      rw [stripStart]
      have suffix := (strip_suffix others _).trans (List.dropWhile_suffix (l := text) (· = first))
      split
      · exact ih.trans suffix
      · exact suffix

/-- What stands behind a symbol of no kind stays. -/
theorem stripStart_append {rounds : Nat} (stop : ∀ symbol ∈ rest.head?, symbol ∉ first :: others) :
    ∃ left, stripStart first others rounds (lead ++ rest) = left ++ rest ∧ left <:+ lead := by
  induction rounds generalizing lead with
  | zero => exact ⟨lead, rfl, List.suffix_refl lead⟩
  | succ rounds ih =>
      have taken : strip others ((lead ++ rest).dropWhile (· = first)) =
          strip (first :: others) lead ++ rest := strip_append stop lead
      have suffix := strip_suffix (first :: others) lead
      rw [stripStart, taken]
      split
      · obtain ⟨left, isLeft, suffix'⟩ := @ih (strip (first :: others) lead)
        exact ⟨left, isLeft, suffix'.trans suffix⟩
      · exact ⟨_, rfl, suffix⟩

end Start

/-! ## The end -/

section End

variable {kinds front tail text : List Symbol} {kind last : Symbol}

theorem dropEnd_isPrefix (kind : Symbol) (text : List Symbol) : dropEnd kind text <+: text := by
  rw [dropEnd]
  split
  · exact List.prefix_refl text
  · exact List.rdropWhile_prefix _ _

theorem stripLast_isPrefix (kinds text : List Symbol) : stripLast kinds text <+: text := by
  induction kinds generalizing text with
  | nil => exact List.prefix_refl text
  | cons kind kinds ih => exact (ih _).trans (dropEnd_isPrefix kind text)

theorem dropEnd_ne_nil (nonempty : text ≠ []) : dropEnd kind text ≠ [] := by
  rw [dropEnd]
  split
  · exact nonempty
  · next other =>
      intro gone
      exact other (List.all_eq_true.mpr (List.rdropWhile_eq_nil_iff.mp gone))

theorem stripLast_ne_nil (nonempty : text ≠ []) : stripLast kinds text ≠ [] := by
  induction kinds generalizing text with
  | nil => exact nonempty
  | cons kind kinds ih => exact ih (dropEnd_ne_nil nonempty)

theorem stripEnd_isPrefix {rounds : Nat} : stripEnd kinds rounds text <+: text := by
  induction rounds generalizing text with
  | zero => exact List.prefix_refl text
  | succ rounds ih =>
      rw [stripEnd]
      split
      · exact List.prefix_refl text
      · exact ih.trans (stripLast_isPrefix kinds text)

/-- Something is left at the end. -/
theorem stripEnd_ne_nil {rounds : Nat} (nonempty : text ≠ []) :
    stripEnd kinds rounds text ≠ [] := by
  induction rounds generalizing text with
  | zero => exact nonempty
  | succ rounds ih =>
      rw [stripEnd]
      split
      · exact nonempty
      · exact ih (stripLast_ne_nil nonempty)

/-- A place where no kind is taken further: behind a symbol of no kind, or behind all
symbols of one kind that a text begins with. -/
def Holds (kinds front : List Symbol) (last : Symbol) (tail : List Symbol) : Prop :=
  last ∉ kinds ∨ (∀ symbol ∈ front, symbol = last) ∧ tail.head? ≠ some last

omit [DecidableEq Symbol] in
theorem Holds.of_prefix {tail' : List Symbol} (holds : Holds kinds front last tail)
    (shorter : tail' <+: tail) : Holds kinds front last tail' := by
  refine holds.imp_right fun ⟨same, other⟩ => ⟨same, ?_⟩
  cases tail' with
  | nil => simp
  | cons symbol tail' =>
      obtain ⟨rest, rfl⟩ := shorter
      exact other

theorem prefix_rdropWhile (other : last ≠ kind) :
    front ++ [last] <+: (front ++ last :: tail).rdropWhile (· = kind) := by
  induction tail using List.reverseRecOn with
  | nil =>
      refine ⟨[], ?_⟩
      rw [List.append_nil, List.rdropWhile_concat_neg _ _ _ (by simpa using other)]
  | append_singleton tail symbol ih =>
      have whole : front ++ last :: (tail ++ [symbol]) = (front ++ last :: tail) ++ [symbol] := by
        rw [List.append_assoc, List.cons_append]
      rw [whole]
      by_cases same : symbol = kind
      · rwa [List.rdropWhile_concat_pos _ _ _ (by simpa using same)]
      · rw [List.rdropWhile_concat_neg _ _ _ (by simpa using same), ← whole]
        exact ⟨tail ++ [symbol], by simp⟩

theorem Holds.dropEnd (holds : Holds kinds front last tail) (member : kind ∈ kinds) :
    ∃ tail', dropEnd kind (front ++ last :: tail) = front ++ last :: tail' ∧ tail' <+: tail := by
  have kept : front ++ [last] <+: Trimming.dropEnd kind (front ++ last :: tail) := by
    rw [Trimming.dropEnd]
    split
    · exact ⟨tail, by simp⟩
    · next mixed =>
        by_cases other : last = kind
        · subst other
          obtain ⟨same, differs⟩ := holds.resolve_left (not_not.mpr member)
          cases tail with
          | nil =>
              refine (mixed (List.all_eq_true.mpr fun symbol isIn => ?_)).elim
              rcases List.mem_append.mp isIn with inFront | isLast
              · simpa using same symbol inFront
              · simpa using isLast
          | cons symbol tail =>
              have further : symbol ≠ last := fun isLast => differs (by rw [isLast]; rfl)
              have longer := @prefix_rdropWhile _ _ (front ++ [last]) tail last symbol further
              rw [List.append_assoc, List.append_assoc] at longer
              exact List.IsPrefix.trans ⟨[symbol], List.append_assoc _ _ _⟩ longer
        · exact prefix_rdropWhile other
  obtain ⟨tail', isTail⟩ := kept
  rw [List.append_assoc, List.singleton_append] at isTail
  refine ⟨tail', isTail.symm, ?_⟩
  have shorter := dropEnd_isPrefix kind (front ++ last :: tail)
  rw [← isTail, List.prefix_append_right_inj, List.cons_prefix_cons] at shorter
  exact shorter.2

theorem Holds.stripLast (holds : Holds kinds front last tail) {some' : List Symbol}
    (among : ∀ kind ∈ some', kind ∈ kinds) :
    ∃ tail', stripLast some' (front ++ last :: tail) = front ++ last :: tail' ∧
      tail' <+: tail := by
  induction some' generalizing tail with
  | nil => exact ⟨tail, rfl, List.prefix_refl tail⟩
  | cons kind some' ih =>
      obtain ⟨here, later⟩ := List.forall_mem_cons.mp among
      obtain ⟨tail', dropped, shorter⟩ := holds.dropEnd here
      obtain ⟨tail'', left, shorter'⟩ := ih (holds.of_prefix shorter) later
      refine ⟨tail'', ?_, shorter'.trans shorter⟩
      rw [← left, ← dropped]
      rfl

/-- Where a round changes nothing, no kind does. -/
theorem dropEnd_eq_self (fixed : stripLast kinds text = text) (member : kind ∈ kinds) :
    dropEnd kind text = text := by
  induction kinds generalizing text with
  | nil => cases member
  | cons other kinds ih =>
      have whole : dropEnd other text = text := by
        refine (dropEnd_isPrefix other text).eq_of_length (le_antisymm ?_ ?_)
        · exact (dropEnd_isPrefix other text).length_le
        · calc text.length = (Trimming.stripLast (other :: kinds) text).length := by rw [fixed]
            _ ≤ (dropEnd other text).length := (stripLast_isPrefix kinds _).length_le
      rcases List.mem_cons.mp member with rfl | later
      · exact whole
      · refine ih ?_ later
        have rest : Trimming.stripLast kinds (dropEnd other text) = text := fixed
        rwa [whole] at rest

theorem exists_run (symbol : Symbol) (text : List Symbol) :
    ∃ count left, text = List.replicate count symbol ++ left ∧ left.head? ≠ some symbol := by
  induction text with
  | nil => exact ⟨0, [], rfl, (Option.some_ne_none symbol).symm⟩
  | cons head text ih =>
      by_cases same : head = symbol
      · subst same
        obtain ⟨count, left, rfl, differs⟩ := ih
        exact ⟨count + 1, left, by rw [List.replicate_succ, List.cons_append], differs⟩
      · exact ⟨0, head :: text, rfl, fun isHead => same (Option.some.inj isHead)⟩

/-- What is left is what stands in front of such a place, if only symbols of the kinds
stand behind it. -/
theorem Holds.stripEnd (holds : Holds kinds front last tail) (all : ∀ symbol ∈ tail, symbol ∈ kinds)
    {rounds : Nat} (enough : tail.length < rounds) :
    stripEnd kinds rounds (front ++ last :: tail) = front ++ [last] := by
  induction rounds generalizing tail with
  | zero => omega
  | succ rounds ih =>
      rw [Trimming.stripEnd]
      split
      · next fixed =>
          cases tail using List.reverseRecOn with
          | nil => rfl
          | append_singleton tail symbol =>
              have member := all symbol (by simp)
              have whole := dropEnd_eq_self fixed member
              rw [Trimming.dropEnd] at whole
              split at whole
              · next uniform =>
                  rw [List.all_eq_true] at uniform
                  have isLast : last = symbol := by simpa using uniform last (by simp)
                  rw [Holds, isLast] at holds
                  refine ((holds.resolve_left (not_not.mpr member)).2 ?_).elim
                  cases tail with
                  | nil => rfl
                  | cons head tail =>
                      have isHead : head = symbol := by simpa using uniform head (by simp)
                      rw [List.cons_append, List.head?_cons, isHead]
              · have joined : front ++ last :: (tail ++ [symbol]) =
                    (front ++ last :: tail) ++ [symbol] := by
                  rw [List.append_assoc, List.cons_append]
                rw [joined, List.rdropWhile_concat_pos _ _ _ (by simp)] at whole
                have shorter := (@List.rdropWhile_prefix _ (· = symbol)
                  (front ++ last :: tail)).length_le
                rw [whole, List.length_append, List.length_singleton] at shorter
                omega
      · next changed =>
          obtain ⟨tail', left, shorter⟩ := holds.stripLast fun _ member => member
          rw [left] at changed ⊢
          have fewer : tail'.length < tail.length := by
            refine lt_of_le_of_ne shorter.length_le fun same => changed ?_
            rw [shorter.eq_of_length same]
          exact ih (holds.of_prefix shorter)
            (fun symbol member => all symbol (shorter.subset member)) (by omega)

/-- Where some symbol is of no kind. -/
theorem stripEnd_eq_rdropWhile {rounds : Nat} {symbol : Symbol} (member : symbol ∈ text)
    (none' : symbol ∉ kinds) (enough : text.length < rounds) :
    stripEnd kinds rounds text = text.rdropWhile (· ∈ kinds) := by
  have split := @List.rdropWhile_append_rtakeWhile _ (· ∈ kinds) text
  have nonempty : text.rdropWhile (· ∈ kinds) ≠ [] := fun gone =>
    none' (by simpa using List.rdropWhile_eq_nil_iff.mp gone symbol member)
  have isLast := List.rdropWhile_last_not _ _ nonempty
  have front := List.dropLast_append_getLast nonempty
  generalize (text.rdropWhile (· ∈ kinds)).getLast nonempty = last at isLast front
  have inKinds : ∀ symbol ∈ text.rtakeWhile (· ∈ kinds), symbol ∈ kinds := fun symbol taken => by
    simpa using List.mem_rtakeWhile_imp taken
  have fewer := congrArg List.length split
  rw [List.length_append] at fewer
  have holds : Holds kinds (text.rdropWhile (· ∈ kinds)).dropLast last
      (text.rtakeWhile (· ∈ kinds)) := .inl (by simpa using isLast)
  have left := holds.stripEnd inKinds (show _ < rounds by omega)
  rw [front, ← List.singleton_append, ← List.append_assoc, front, split] at left
  exact left

end End

theorem mem_of_mem_strtrim {first symbol : Symbol} {others text : List Symbol}
    (member : symbol ∈ strtrim first others text) : symbol ∈ text :=
  stripStart_suffix.subset (stripEnd_isPrefix.subset member)

/-- Which texts are trimmed at both ends. -/
theorem strtrim_eq_iff {first : Symbol} {others : List Symbol} (alone : first ∉ others)
    (text : List Symbol) :
    strtrim first others text =
        (text.dropWhile (· ∈ first :: others)).rdropWhile (· ∈ first :: others) ↔
      Peelable first others (text.takeWhile (· ∈ first :: others)) := by
  have whole := @List.takeWhile_append_dropWhile _ (· ∈ first :: others) text
  have stop : ∀ symbol ∈ (text.dropWhile (· ∈ first :: others)).head?,
      symbol ∉ first :: others := fun symbol isHead => by
    have other := List.head?_dropWhile_not (· ∈ first :: others) text
    rw [Option.mem_def.mp isHead] at other
    simpa using other
  have inKinds : ∀ symbol ∈ text.takeWhile (· ∈ first :: others), symbol ∈ first :: others :=
    fun symbol taken => by simpa using List.mem_takeWhile_imp taken
  generalize text.takeWhile (· ∈ first :: others) = lead at whole inKinds ⊢
  generalize text.dropWhile (· ∈ first :: others) = rest at whole stop ⊢
  subst whole
  have enough : lead.length < (lead ++ rest).length + 1 := by
    rw [List.length_append]
    omega
  rw [← stripStart_eq_iff alone stop enough, strtrim]
  obtain ⟨left, started, suffix⟩ := @stripStart_append _ _ others rest lead first
    ((lead ++ rest).length + 1) stop
  rw [started, List.append_left_eq_self]
  constructor
  · intro trimmed
    by_contra nonempty
    obtain ⟨symbol, left, rfl⟩ := List.exists_cons_of_ne_nil nonempty
    obtain ⟨head, kept, isKept⟩ := List.exists_cons_of_ne_nil
      (@stripEnd_ne_nil _ _ (first :: others) (symbol :: left ++ rest)
        ((symbol :: left ++ rest).length + 1) (List.cons_ne_nil _ _))
    have headed {whole : List Symbol} (isPrefix : head :: kept <+: whole) :
        whole.head? = some head :=
      List.singleton_prefix_iff_head?_eq_some.mp (List.IsPrefix.trans ⟨kept, rfl⟩ isPrefix)
    have ofText : (symbol :: left ++ rest).head? = some head :=
      headed (isKept ▸ stripEnd_isPrefix)
    have ofRest : rest.head? = some head := by
      rw [isKept] at trimmed
      exact headed (trimmed ▸ List.rdropWhile_prefix _ _)
    have same : rest.head? = some symbol := ofRest.trans ofText.symm
    exact stop symbol same (inKinds symbol (suffix.subset List.mem_cons_self))
  · rintro rfl
    rw [List.nil_append]
    cases rest with
    | nil => exact List.prefix_nil.mp stripEnd_isPrefix
    | cons symbol rest =>
        exact stripEnd_eq_rdropWhile List.mem_cons_self (stop symbol rfl) (Nat.lt_succ_self _)

end Trimming

end HeapHttpd
