import HeapHttpd.Http1.ByteRanges
import HeapHttpd.Http1.PostVars

/-!
# Digest parameters

The loop of `WWW_Auth` that fills `DigestMap`, over parameters as a client writes them.
It knows nothing of quotes, and `_strtrim_dquote_` takes blanks and quotes together.
-/

namespace HeapHttpd

namespace Http1

open General
open Tunneling (isTchar)
open WebDoc (IsOws)

/-! ## The loop -/

/-- What `_strtrim_dquote_` takes away besides spaces. -/
def dquoteKinds : List UInt8 :=
  [0x09, 0x0d, 0x0a, 0x22]

/-- `_strtrim_dquote_`. -/
def strtrimDquote (src : List UInt8) : List UInt8 :=
  Trimming.strtrim 0x20 dquoteKinds src

/-- The variables of the loop, where `isValue` is whether `where` is `V`. -/
structure DigestVars where
  isValue : Bool
  key : List UInt8
  value : List UInt8
  digestMap : StringMap
  deriving DecidableEq

/-- What is done at a comma and at the end. -/
def DigestVars.store (vars : DigestVars) : DigestVars :=
  let key := strtrimDquote vars.key
  if key ≠ [] then
    { isValue := false, key := [], value := [],
      digestMap := vars.digestMap.set key (strtrimDquote vars.value) }
  else { vars with key, isValue := false }

/-- What is done at another octet. -/
def DigestVars.take (vars : DigestVars) (ch : UInt8) : DigestVars :=
  if vars.isValue = false ∧ ch = 0x3d then { vars with isValue := true }
  else if vars.isValue then { vars with value := vars.value ++ [ch] }
  else { vars with key := vars.key ++ [ch] }

/-- The `DigestMap` of `WWW_Auth`. -/
def digestMap (authinfo : List UInt8) : StringMap :=
  (Pieces.readPieces 0x2c DigestVars.take DigestVars.store ⟨false, [], [], []⟩
    (cString authinfo)).digestMap

/-! ## What a client writes -/

/-- An octet that may stand in a quoted string, if need be behind a backslash. -/
def isQuotable (ch : UInt8) : Bool :=
  ch = 0x09 || (0x20 ≤ ch && ch ≠ 0x7f)

/-- The quoted pairs of a text, and its other octets. -/
def quoted (text : List UInt8) : List UInt8 :=
  text.flatMap fun ch => if ch = 0x22 ∨ ch = 0x5c then [0x5c, ch] else [ch]

/-- A parameter with the blanks around it. -/
structure DigestParam where
  before : List UInt8
  name : List UInt8
  value : List UInt8
  behind : List UInt8
  blankBefore : IsOws before
  legalName : LegalName name
  quotable : ∀ ch ∈ value, isQuotable ch = true
  blankBehind : IsOws behind

/-- What stands behind the `=`. -/
def DigestParam.quotedValue (param : DigestParam) : List UInt8 :=
  0x22 :: (quoted param.value ++ 0x22 :: param.behind)

def DigestParam.text (param : DigestParam) : List UInt8 :=
  param.before ++ (param.name ++ 0x3d :: param.quotedValue)

/-- The parameters in an `Authorization` field. -/
def digestParams (params : List DigestParam) : List UInt8 :=
  [0x2c].intercalate (params.map DigestParam.text)

/-- The parameters that the loop does not change: the blanks before the name begin with
a space or are all tabs, the value has no comma and nothing that is quoted in it, and at
its end is no blank, unless it is one blank again and again; an empty one stands at the
end of the parameter. -/
structure DigestParam.Kept (param : DigestParam) : Prop where
  before : param.before = [] ∨ param.before.head? = some 0x20 ∨ ∀ ch ∈ param.before, ch = 0x09
  plain : ∀ ch ∈ param.value, ch ≠ 0x2c ∧ ch ≠ 0x22 ∧ ch ≠ 0x5c
  ends : param.value = [] ∧ param.behind = [] ∨
    (∃ last, param.value.getLast? = some last ∧ last ≠ 0x20 ∧ last ≠ 0x09) ∨
    ∃ ch count, param.value = List.replicate (count + 1) ch

/-! ## One piece in the loop -/

section Piece

theorem foldl_digestTake_value (key value : List UInt8) (varmap : StringMap) (text : List UInt8) :
    text.foldl DigestVars.take ⟨true, key, value, varmap⟩ = ⟨true, key, value ++ text, varmap⟩ := by
  induction text generalizing value with
  | nil => rw [List.append_nil, List.foldl_nil]
  | cons ch text ih =>
      rw [List.foldl_cons, DigestVars.take, if_neg (by simp), if_pos rfl, ih, List.append_assoc,
        List.singleton_append]

/-- The loop over a piece. -/
theorem foldl_digestTake (key value : List UInt8) (varmap : StringMap) (piece : List UInt8) :
    piece.foldl DigestVars.take ⟨false, key, value, varmap⟩ =
      ⟨decide (0x3d ∈ piece), key ++ keyText piece, value ++ valueText piece, varmap⟩ := by
  induction piece generalizing key with
  | nil => simp [keyText, valueText]
  | cons ch piece ih =>
      rw [List.foldl_cons]
      by_cases isEqual : ch = 0x3d
      · subst isEqual
        rw [DigestVars.take, if_pos ⟨rfl, rfl⟩, foldl_digestTake_value]
        simp [keyText, valueText]
      · rw [DigestVars.take, if_neg (fun both => isEqual both.2), if_neg (by simp), ih]
        simp [keyText, valueText, isEqual, Ne.symm isEqual]

/-- A piece with its comma, behind pieces that left a value. -/
def storeParam (carried : List UInt8 × StringMap) (piece : List UInt8) :
    List UInt8 × StringMap :=
  if strtrimDquote (keyText piece) = [] then (carried.1 ++ valueText piece, carried.2)
  else
    ([], carried.2.set (strtrimDquote (keyText piece))
      (strtrimDquote (carried.1 ++ valueText piece)))

/-- The loop over pieces. -/
theorem digestMap_eq (authinfo : List UInt8) :
    digestMap authinfo =
      (((cString authinfo).splitOn 0x2c).foldl storeParam ([], [])).2 := by
  have pieces (value : List UInt8) (varmap : StringMap) (pieces : List (List UInt8)) :
      (pieces.foldl (fun (vars : DigestVars) piece => (piece.foldl DigestVars.take vars).store)
        ⟨false, [], value, varmap⟩).digestMap =
        (pieces.foldl storeParam (value, varmap)).2 := by
    induction pieces generalizing value varmap with
    | nil => rfl
    | cons piece pieces ih =>
        rw [List.foldl_cons, List.foldl_cons, foldl_digestTake, DigestVars.store, storeParam]
        dsimp only
        rw [List.nil_append]
        by_cases unnamed : strtrimDquote (keyText piece) = []
        · rw [if_neg (not_not.mpr unnamed), if_pos unnamed, unnamed]
          exact ih _ _
        · rw [if_pos unnamed, if_neg unnamed]
          exact ih _ _
  rw [digestMap, Pieces.readPieces_eq_foldl]
  exact pieces [] [] _

end Piece

/-! ## Names and values -/

section Trimmed

theorem token_not_mem (ch : UInt8) : isTchar ch = true →
    ch ∉ 0x20 :: dquoteKinds ∧ ch ≠ 0x2c ∧ ch ≠ 0x3d ∧ ch ≠ 0 := by
  revert ch
  apply forall_octet
  decide +kernel

theorem blank_mem {ch : UInt8} (blank : ch = 0x20 ∨ ch = 0x09) : ch ∈ 0x20 :: dquoteKinds := by
  rcases blank with rfl | rfl
  · decide
  · decide

theorem inOrder_tabs (count : Nat) :
    Trimming.InOrder (0x20 :: dquoteKinds) (List.replicate count 0x09) :=
  .next _ _ _ (Trimming.inOrder_replicate _ _ count)

variable {before name : List UInt8}

/-- Blanks that begin with a space are taken away. -/
theorem peelable_of_head (blank : IsOws before) (headed : ∀ ch ∈ before.head?, ch = 0x20) :
    Trimming.Peelable 0x20 dquoteKinds before := by
  have bounded (bound : Nat) (short : before.length ≤ bound) :
      Trimming.Peelable 0x20 dquoteKinds before := by
    induction bound generalizing before with
    | zero =>
        obtain rfl : before = [] := List.length_eq_zero_iff.mp (Nat.le_zero.mp short)
        exact (Trimming.InOrder.nil _).peelable
    | succ bound ih =>
        cases before with
        | nil => exact (Trimming.InOrder.nil _).peelable
        | cons ch before =>
            obtain rfl : ch = 0x20 := headed ch rfl
            obtain ⟨-, blank⟩ := List.forall_mem_cons.mp blank
            have suffix := List.dropWhile_suffix (l := before) (· = 0x09)
            have run : Trimming.InOrder (0x20 :: dquoteKinds)
                (0x20 :: before.takeWhile (· = 0x09)) := by
              have allTabs : ∀ ch ∈ before.takeWhile (· = 0x09), ch = 0x09 := fun ch taken => by
                simpa using List.mem_takeWhile_imp taken
              rw [List.eq_replicate_of_mem allTabs]
              exact .more _ _ _ (inOrder_tabs _)
            have rest : Trimming.Peelable 0x20 dquoteKinds (before.dropWhile (· = 0x09)) := by
              refine ih (fun ch member => blank ch (suffix.subset member)) (fun ch isHead => ?_) ?_
              · have other := List.head?_dropWhile_not (· = 0x09) before
                rw [Option.mem_def.mp isHead] at other
                have member := List.mem_of_head? (Option.mem_def.mp isHead)
                exact (blank ch (suffix.subset member)).resolve_right (by simpa using other)
              · have shorter := suffix.length_le
                rw [List.length_cons] at short
                omega
            have whole := rest.cons run rfl
            rwa [List.cons_append, List.takeWhile_append_dropWhile] at whole
  exact bounded _ le_rfl

/-- Which blanks are. -/
theorem peelable_iff (blank : IsOws before) :
    Trimming.Peelable 0x20 dquoteKinds before ↔
      before = [] ∨ before.head? = some 0x20 ∨ ∀ ch ∈ before, ch = 0x09 := by
  constructor
  · rintro ⟨runs, last, rfl, begins, inOrder⟩
    cases runs with
    | nil =>
        rw [List.flatten_nil, List.nil_append] at blank ⊢
        cases inOrder with
        | nil => exact .inl rfl
        | next _ _ _ later =>
            refine .inr (.inr fun ch member => (blank ch member).resolve_left ?_)
            rintro rfl
            exact absurd (later.mem member) (by decide)
        | more => exact .inr (.inl rfl)
    | cons run runs =>
        have headed := (begins run List.mem_cons_self).2
        rw [List.flatten_cons, List.append_assoc, List.head?_append, headed]
        exact .inr (.inl rfl)
  · rintro (rfl | headed | allTabs)
    · exact (Trimming.InOrder.nil _).peelable
    · refine peelable_of_head blank fun ch isHead => ?_
      rw [headed] at isHead
      exact (Option.some.inj isHead).symm
    · rw [List.eq_replicate_of_mem allTabs]
      exact (inOrder_tabs _).peelable

/-- A name behind blanks comes with what is left of them. -/
theorem strtrimDquote_name (legal : LegalName name) :
    ∃ left, strtrimDquote (before ++ name) = left ++ name ∧ left <:+ before ∧
      (left = [] ↔ Trimming.Peelable 0x20 dquoteKinds before) := by
  obtain ⟨nonempty, token⟩ := legal
  have stop : ∀ ch ∈ name.head?, ch ∉ 0x20 :: dquoteKinds := fun ch isHead =>
    (token_not_mem ch (token ch (List.mem_of_head? (Option.mem_def.mp isHead)))).1
  have enough : before.length < (before ++ name).length + 1 := by
    rw [List.length_append]
    omega
  obtain ⟨left, started, suffix⟩ := @Trimming.stripStart_append _ _ dquoteKinds name before 0x20
    ((before ++ name).length + 1) stop
  have gone := Trimming.stripStart_eq_iff (by decide) stop enough
  rw [started, List.append_left_eq_self] at gone
  refine ⟨left, ?_, suffix, gone⟩
  obtain ⟨front, last, isConcat⟩ := List.eq_nil_or_concat name |>.resolve_left nonempty
  rw [List.concat_eq_append] at isConcat
  have isLast := (token_not_mem last (token last (by simp [isConcat]))).1
  rw [strtrimDquote, Trimming.strtrim, started, isConcat, ← List.append_assoc]
  exact Trimming.Holds.stripEnd (.inl isLast) (by simp) (Nat.succ_pos _)

end Trimmed

section Value

variable {value behind : List UInt8}

theorem stripStart_quoted (rounds : Nat) (blank : IsOws behind) :
    Trimming.stripStart 0x20 dquoteKinds (rounds + 1) (0x22 :: (quoted value ++ 0x22 :: behind)) =
      if value = [] then behind else quoted value ++ 0x22 :: behind := by
  have unspaced (rest : List UInt8) : (0x22 :: rest).dropWhile (· = 0x20) = 0x22 :: rest :=
    List.dropWhile_cons_of_neg (by decide)
  rw [Trimming.stripStart, unspaced, if_neg fun both => both.2 rfl]
  have round (rest : List UInt8) :
      Trimming.strip dquoteKinds (0x22 :: rest) = rest.dropWhile (· = 0x22) :=
    rfl
  rw [round]
  cases value with
  | nil =>
      rw [if_pos rfl]
      show behind.dropWhile (· = 0x22) = behind
      cases behind with
      | nil => rfl
      | cons ch behind =>
          refine List.dropWhile_cons_of_neg ?_
          rcases blank ch List.mem_cons_self with rfl | rfl
          · decide
          · decide
  | cons ch value =>
      rw [if_neg (List.cons_ne_nil _ _), quoted, List.flatMap_cons, List.append_assoc]
      split
      · rfl
      · next plain =>
          rw [not_or] at plain
          exact List.dropWhile_cons_of_neg (by simpa using plain.1)

theorem count_quoted (value : List UInt8) :
    (quoted value).count 0x5c = value.count 0x22 + 2 * value.count 0x5c := by
  induction value with
  | nil => rfl
  | cons ch value ih =>
      rw [quoted, List.flatMap_cons, List.count_append, ← quoted, ih, List.count_cons,
        List.count_cons]
      by_cases isQuote : ch = 0x22
      · subst isQuote
        rw [if_pos (.inl rfl)]
        simp
        omega
      · by_cases isBackslash : ch = 0x5c
        · subst isBackslash
          rw [if_pos (.inr rfl)]
          simp
          omega
        · rw [if_neg (not_or.mpr ⟨isQuote, isBackslash⟩)]
          simp [isQuote, isBackslash]

theorem quoted_of_plain (plain : ∀ ch ∈ value, ch ≠ 0x22 ∧ ch ≠ 0x5c) : quoted value = value := by
  induction value with
  | nil => rfl
  | cons ch value ih =>
      obtain ⟨here, later⟩ := List.forall_mem_cons.mp plain
      rw [quoted, List.flatMap_cons, if_neg (not_or.mpr here), ← quoted, ih later,
        List.singleton_append]

/-- What stands behind a value at the end of its parameter. -/
theorem behind_mem (blank : IsOws behind) : ∀ ch ∈ 0x22 :: behind, ch ∈ 0x20 :: dquoteKinds := by
  refine List.forall_mem_cons.mpr ⟨by decide, fun ch member => blank_mem (blank ch member)⟩

theorem rdropWhile_append {kinds front tail : List UInt8} (all : ∀ ch ∈ tail, ch ∈ kinds) :
    (front ++ tail).rdropWhile (· ∈ kinds) = front.rdropWhile (· ∈ kinds) := by
  induction tail using List.reverseRecOn with
  | nil => rw [List.append_nil]
  | append_singleton tail ch ih =>
      rw [← List.append_assoc, List.rdropWhile_concat_pos _ _ _ (by simpa using all ch (by simp))]
      exact ih fun other member => all other (List.mem_append_left _ member)

/-- A value with something in it that is quoted does not come back. -/
theorem strtrimDquote_ne (blank : IsOws behind) (special : ∃ ch ∈ value, ch = 0x22 ∨ ch = 0x5c) :
    strtrimDquote (0x22 :: (quoted value ++ 0x22 :: behind)) ≠ value := by
  obtain ⟨ch, member, isSpecial⟩ := special
  have nonempty : value ≠ [] := List.ne_nil_of_mem member
  have some' : 1 ≤ value.count 0x22 + value.count 0x5c := by
    rcases isSpecial with rfl | rfl
    · have := List.count_pos_iff.mpr member
      omega
    · have := List.count_pos_iff.mpr member
      omega
  have backslash : (0x5c : UInt8) ∈ quoted value ++ 0x22 :: behind := by
    refine List.mem_append_left _ (List.count_pos_iff.mp ?_)
    rw [count_quoted]
    omega
  rw [strtrimDquote, Trimming.strtrim, stripStart_quoted _ blank, if_neg nonempty,
    Trimming.stripEnd_eq_rdropWhile backslash (by decide) (Nat.lt_succ_self _),
    rdropWhile_append (behind_mem blank)]
  intro same
  have kept := congrArg (List.count 0x5c) (@List.rdropWhile_append_rtakeWhile _
    (· ∈ 0x20 :: dquoteKinds) (quoted value))
  have none' : ((quoted value).rtakeWhile (· ∈ 0x20 :: dquoteKinds)).count 0x5c = 0 := by
    refine List.count_eq_zero.mpr fun isIn => ?_
    have kind := List.mem_rtakeWhile_imp isIn
    exact absurd kind (by decide)
  rw [List.count_append, same, none', count_quoted] at kept
  omega

/-- The octets of a value that are taken from an end. -/
theorem mem_kinds_iff {ch : UInt8} (quotable : isQuotable ch = true) (notQuote : ch ≠ 0x22) :
    ch ∈ 0x20 :: dquoteKinds ↔ ch = 0x20 ∨ ch = 0x09 := by
  constructor
  · intro member
    simp only [dquoteKinds, List.mem_cons, List.not_mem_nil, or_false] at member
    rcases member with rfl | rfl | rfl | rfl | rfl
    · exact .inl rfl
    · exact .inr rfl
    · exact absurd quotable (by decide)
    · exact absurd quotable (by decide)
    · exact (notQuote rfl).elim
  · exact blank_mem

/-- A value with another octet than blanks comes back without its blanks at the end. -/
theorem stripEnd_mixed_iff {rounds : Nat} {ch : UInt8}
    (kind : ∀ ch ∈ value, ch ∈ 0x20 :: dquoteKinds ↔ ch = 0x20 ∨ ch = 0x09) (blank : IsOws behind)
    (member : ch ∈ value) (isOther : ch ∉ 0x20 :: dquoteKinds)
    (enough : (value ++ 0x22 :: behind).length < rounds) :
    Trimming.stripEnd (0x20 :: dquoteKinds) rounds (value ++ 0x22 :: behind) = value ↔
      ∃ last, value.getLast? = some last ∧ last ≠ 0x20 ∧ last ≠ 0x09 := by
  have nonempty := List.ne_nil_of_mem member
  have isLast := List.getLast?_eq_some_getLast nonempty
  have lastKind := kind _ (List.getLast_mem nonempty)
  rw [Trimming.stripEnd_eq_rdropWhile (List.mem_append_left _ member) isOther enough,
    rdropWhile_append (behind_mem blank), List.rdropWhile_eq_self_iff]
  constructor
  · intro kept
    refine ⟨_, isLast, not_or.mp fun isBlank => kept nonempty ?_⟩
    exact decide_eq_true (lastKind.mpr isBlank)
  · rintro ⟨last, isLast', notBlank⟩ _ isKind
    rw [isLast, Option.some.injEq] at isLast'
    rw [isLast'] at isKind lastKind
    exact not_or.mpr notBlank (lastKind.mp (of_decide_eq_true isKind))

/-- Of blanks, the run of equal ones at the start stays. -/
theorem stripEnd_blanks_iff {rounds : Nat} (blank : IsOws behind) (nonempty : value ≠ [])
    (allBlank : ∀ ch ∈ value, ch = 0x20 ∨ ch = 0x09)
    (enough : (value ++ 0x22 :: behind).length < rounds) :
    Trimming.stripEnd (0x20 :: dquoteKinds) rounds (value ++ 0x22 :: behind) = value ↔
      ∃ ch count, value = List.replicate (count + 1) ch := by
  obtain ⟨head, rest, rfl⟩ := List.exists_cons_of_ne_nil nonempty
  obtain ⟨count, left, rfl, differs⟩ := Trimming.exists_run head rest
  have notQuote : some (0x22 : UInt8) ≠ some head := fun isHead => by
    have isBlank := allBlank head List.mem_cons_self
    rw [← Option.some.inj isHead] at isBlank
    exact absurd isBlank (by decide)
  have differs' : (left ++ 0x22 :: behind).head? ≠ some head := by
    cases left with
    | nil => exact notQuote
    | cons ch left => exact differs
  have holds : Trimming.Holds (0x20 :: dquoteKinds) (List.replicate count head) head
      (left ++ 0x22 :: behind) :=
    .inr ⟨fun ch member => List.eq_of_mem_replicate member, differs'⟩
  have inKinds : ∀ ch ∈ left ++ 0x22 :: behind, ch ∈ 0x20 :: dquoteKinds := by
    refine List.forall_mem_append.mpr ⟨fun ch member => blank_mem (allBlank ch ?_),
      behind_mem blank⟩
    simp [member]
  have joined : head :: (List.replicate count head ++ left) ++ 0x22 :: behind =
      List.replicate count head ++ head :: (left ++ 0x22 :: behind) := by
    rw [← List.cons_append, ← List.replicate_succ, List.replicate_succ', List.append_assoc,
      List.append_assoc, List.singleton_append]
  rw [joined] at enough ⊢
  rw [holds.stripEnd inKinds (by simp at enough ⊢; omega)]
  constructor
  · intro kept
    refine ⟨head, count, ?_⟩
    rw [← kept, List.replicate_succ']
  · rintro ⟨ch, count', uniform⟩
    have isCh (other : UInt8) (member : other ∈ head :: (List.replicate count head ++ left)) :
        other = ch :=
      List.eq_of_mem_replicate (uniform ▸ member)
    have noLeft : left = [] := by
      cases left with
      | nil => rfl
      | cons next left =>
          refine (differs ?_).elim
          rw [List.head?_cons, isCh next (by simp), isCh head (by simp)]
    rw [noLeft, List.append_nil, ← List.replicate_succ', List.replicate_succ]

/-- Which values come back, of those that nothing is quoted in. -/
theorem strtrimDquote_plain_iff (quotable : ∀ ch ∈ value, isQuotable ch = true)
    (blank : IsOws behind) (nonempty : value ≠ []) (plain : ∀ ch ∈ value, ch ≠ 0x22 ∧ ch ≠ 0x5c) :
    strtrimDquote (0x22 :: (quoted value ++ 0x22 :: behind)) = value ↔
      (∃ last, value.getLast? = some last ∧ last ≠ 0x20 ∧ last ≠ 0x09) ∨
        ∃ ch count, value = List.replicate (count + 1) ch := by
  have kind (ch : UInt8) (member : ch ∈ value) :=
    mem_kinds_iff (quotable ch member) (plain ch member).1
  rw [strtrimDquote, Trimming.strtrim, stripStart_quoted _ blank, if_neg nonempty,
    quoted_of_plain plain]
  by_cases other : ∃ ch ∈ value, ch ∉ 0x20 :: dquoteKinds
  · obtain ⟨ch, member, isOther⟩ := other
    rw [stripEnd_mixed_iff kind blank member isOther (Nat.lt_succ_self _)]
    refine (or_iff_left_of_imp ?_).symm
    rintro ⟨same, count, rfl⟩
    rw [List.eq_of_mem_replicate member, kind same (by simp)] at isOther
    exact ⟨same, by rw [List.replicate_succ', List.getLast?_concat], not_or.mp isOther⟩
  · have allBlank : ∀ ch ∈ value, ch = 0x20 ∨ ch = 0x09 := fun ch member =>
      (kind ch member).mp (not_not.mp fun isOther => other ⟨ch, member, isOther⟩)
    rw [stripEnd_blanks_iff blank nonempty allBlank (Nat.lt_succ_self _)]
    refine (or_iff_right ?_).symm
    rintro ⟨last, isLast, notBlank⟩
    exact not_or.mpr notBlank (allBlank last (List.mem_of_getLast? isLast))

/-- Which values come back. -/
theorem strtrimDquote_value_iff (quotable : ∀ ch ∈ value, isQuotable ch = true)
    (blank : IsOws behind) :
    strtrimDquote (0x22 :: (quoted value ++ 0x22 :: behind)) = value ↔
      (∀ ch ∈ value, ch ≠ 0x22 ∧ ch ≠ 0x5c) ∧
        (value = [] ∧ behind = [] ∨
          (∃ last, value.getLast? = some last ∧ last ≠ 0x20 ∧ last ≠ 0x09) ∨
          ∃ ch count, value = List.replicate (count + 1) ch) := by
  by_cases nonempty : value = []
  · subst nonempty
    rw [strtrimDquote, Trimming.strtrim, stripStart_quoted _ blank, if_pos rfl]
    constructor
    · intro gone
      refine ⟨by simp, .inl ⟨rfl, ?_⟩⟩
      by_contra more
      exact Trimming.stripEnd_ne_nil more gone
    · rintro ⟨-, ⟨-, rfl⟩ | ⟨last, isLast, -⟩ | ⟨ch, count, isReplicate⟩⟩
      · exact List.prefix_nil.mp Trimming.stripEnd_isPrefix
      · cases isLast
      · cases isReplicate
  · by_cases plain : ∀ ch ∈ value, ch ≠ 0x22 ∧ ch ≠ 0x5c
    · rw [strtrimDquote_plain_iff quotable blank nonempty plain]
      exact ⟨fun ends => ⟨plain, .inr ends⟩,
        fun both => both.2.resolve_left fun empty => nonempty empty.1⟩
    · refine iff_of_false (strtrimDquote_ne blank ?_) fun both => plain both.1
      by_contra none'
      refine plain fun ch member => not_or.mp fun isSpecial => none' ⟨ch, member, isSpecial⟩

end Value

/-! ## All parameters -/

section Params

variable {params : List DigestParam}

/-- No value that is found has a comma. -/
theorem comma_not_mem_of_find {authinfo name value : List UInt8}
    (found : OrderedMap.find name (digestMap authinfo) = some value) : 0x2c ∉ value := by
  have stored (pieces : List (List UInt8)) (free : ∀ piece ∈ pieces, 0x2c ∉ piece)
      (carried : List UInt8 × StringMap) (valueFree : 0x2c ∉ carried.1)
      (mapFree : ∀ entry ∈ carried.2, 0x2c ∉ entry.2) :
      ∀ entry ∈ (pieces.foldl storeParam carried).2, 0x2c ∉ entry.2 := by
    induction pieces generalizing carried with
    | nil => exact mapFree
    | cons piece pieces ih =>
        obtain ⟨here, later⟩ := List.forall_mem_cons.mp free
        have collected : 0x2c ∉ carried.1 ++ valueText piece := by
          rw [List.mem_append, not_or]
          exact ⟨valueFree, fun comma =>
            here ((List.dropWhile_suffix _).subset (List.mem_of_mem_tail comma))⟩
        rw [List.foldl_cons]
        refine ih later _ ?_ ?_
        · rw [storeParam]
          split
          · exact collected
          · exact List.not_mem_nil
        · rw [storeParam]
          split
          · exact mapFree
          · intro entry member
            rcases OrderedMap.mem_set member with rfl | before
            · exact fun comma => collected (Trimming.mem_of_mem_strtrim comma)
            · exact mapFree entry before
  rw [digestMap_eq] at found
  exact stored _ (Pieces.not_mem_splitOn _ _) ([], []) List.not_mem_nil (by simp) _
    (OrderedMap.mem_of_find found)

namespace DigestParam

variable (param : DigestParam)

theorem keyFree : ∀ ch ∈ param.before ++ param.name, ch ≠ 0x3d ∧ ch ≠ 0x2c ∧ ch ≠ 0 := by
  refine List.forall_mem_append.mpr ⟨fun ch member => ?_, fun ch member => ?_⟩
  · rcases param.blankBefore ch member with rfl | rfl
    · decide
    · decide
  · obtain ⟨-, notComma, notEqual, notNul⟩ := token_not_mem ch (param.legalName.2 ch member)
    exact ⟨notEqual, notComma, notNul⟩

theorem keyText_text : keyText param.text = param.before ++ param.name := by
  rw [keyText, text, ← List.append_assoc]
  exact Lines.takeWhile_until (fun member => (param.keyFree 0x3d member).1 rfl) _

theorem valueText_text : valueText param.text = param.quotedValue := by
  rw [valueText, text, ← List.append_assoc,
    Lines.dropWhile_until (fun member => (param.keyFree 0x3d member).1 rfl), List.tail_cons]

theorem mem_text {ch : UInt8} (member : ch ∈ param.text) :
    ch ∈ param.before ++ param.name ∨ ch = 0x3d ∨ ch = 0x22 ∨ ch = 0x5c ∨ ch ∈ param.value ∨
      ch ∈ param.behind := by
  rw [text, quotedValue, ← List.append_assoc] at member
  simp only [List.mem_append (s := param.before ++ param.name), List.mem_cons,
    List.mem_append (s := quoted param.value)] at member
  rcases member with inKey | rfl | rfl | inValue | rfl | inBehind
  · exact .inl inKey
  · exact .inr (.inl rfl)
  · exact .inr (.inr (.inl rfl))
  · obtain ⟨other, member, isPart⟩ := List.mem_flatMap.mp inValue
    split at isPart
    · rcases List.mem_cons.mp isPart with rfl | isOther
      · exact .inr (.inr (.inr (.inl rfl)))
      · rw [List.mem_singleton.mp isOther]
        exact .inr (.inr (.inr (.inr (.inl member))))
    · rw [List.mem_singleton.mp isPart]
      exact .inr (.inr (.inr (.inr (.inl member))))
  · exact .inr (.inr (.inl rfl))
  · exact .inr (.inr (.inr (.inr (.inr inBehind))))

theorem comma_not_mem_text (free : 0x2c ∉ param.value) : 0x2c ∉ param.text := by
  intro comma
  rcases param.mem_text comma with inKey | absurd' | absurd' | absurd' | inValue | inBehind
  · exact (param.keyFree 0x2c inKey).2.1 rfl
  · exact absurd absurd' (by decide)
  · exact absurd absurd' (by decide)
  · exact absurd absurd' (by decide)
  · exact free inValue
  · rcases param.blankBehind 0x2c inBehind with absurd' | absurd'
    · exact absurd absurd' (by decide)
    · exact absurd absurd' (by decide)

theorem nul_not_mem_text : 0 ∉ param.text := by
  intro nul
  rcases param.mem_text nul with inKey | absurd' | absurd' | absurd' | inValue | inBehind
  · exact (param.keyFree 0 inKey).2.2 rfl
  · exact absurd absurd' (by decide)
  · exact absurd absurd' (by decide)
  · exact absurd absurd' (by decide)
  · exact absurd (param.quotable 0 inValue) (by decide)
  · rcases param.blankBehind 0 inBehind with absurd' | absurd'
    · exact absurd absurd' (by decide)
    · exact absurd absurd' (by decide)

/-- The name as the loop takes it. -/
def key : List UInt8 :=
  strtrimDquote (param.before ++ param.name)

theorem key_ne_nil : param.key ≠ [] := by
  obtain ⟨left, isLeft, -⟩ := @strtrimDquote_name param.before param.name param.legalName
  rw [key, isLeft]
  exact List.append_ne_nil_of_right_ne_nil _ param.legalName.1

/-- A key that is a name is the name of its parameter. -/
theorem key_eq_iff {name : List UInt8} (legal : LegalName name) :
    param.key = name ↔ param.name = name ∧
      (param.before = [] ∨ param.before.head? = some 0x20 ∨ ∀ ch ∈ param.before, ch = 0x09) := by
  obtain ⟨left, isLeft, suffix, gone⟩ := @strtrimDquote_name param.before param.name
    param.legalName
  rw [key, isLeft, ← peelable_iff param.blankBefore, ← gone]
  constructor
  · rintro rfl
    cases left with
    | nil => exact ⟨rfl, rfl⟩
    | cons ch left =>
        have blank := param.blankBefore ch (suffix.subset List.mem_cons_self)
        exact ((token_not_mem ch (legal.2 ch List.mem_cons_self)).1 (blank_mem blank)).elim
  · rintro ⟨same, rfl⟩
    exact same

end DigestParam

theorem nul_not_mem_digestParams : 0 ∉ digestParams params := by
  induction params with
  | nil => exact List.not_mem_nil
  | cons param params ih =>
      cases params with
      | nil =>
          rw [digestParams, List.map_cons, List.map_nil, List.intercalate_singleton]
          exact param.nul_not_mem_text
      | cons next params =>
          rw [digestParams, List.map_cons, List.map_cons, List.intercalate_cons_cons,
            ← List.map_cons, ← digestParams]
          simp only [List.mem_append, not_or]
          exact ⟨⟨param.nul_not_mem_text, by decide⟩, ih⟩

/-- The loop over parameters without a comma in their values. -/
theorem digestMap_digestParams (free : ∀ param ∈ params, 0x2c ∉ param.value) :
    digestMap (digestParams params) = params.foldl (fun (varmap : StringMap) param =>
      varmap.set param.key (strtrimDquote param.quotedValue)) [] := by
  have pieces (varmap : StringMap) : (params.map DigestParam.text).foldl storeParam ([], varmap) =
      ([], params.foldl (fun (varmap : StringMap) param =>
        varmap.set param.key (strtrimDquote param.quotedValue)) varmap) := by
    clear free
    induction params generalizing varmap with
    | nil => rfl
    | cons param params ih =>
        rw [List.map_cons, List.foldl_cons, List.foldl_cons, storeParam, param.keyText_text,
          ← DigestParam.key, if_neg param.key_ne_nil, param.valueText_text, List.nil_append]
        exact ih _
  rw [digestMap_eq, cString_of_nulFree nul_not_mem_digestParams]
  by_cases nonempty : params = []
  · subst nonempty
    rfl
  · have split : (digestParams params).splitOn 0x2c = params.map DigestParam.text := by
      refine List.splitOn_intercalate 0x2c (fun text member => ?_) (by simpa using nonempty)
      obtain ⟨param, isParam, rfl⟩ := List.mem_map.mp member
      exact param.comma_not_mem_text (free param isParam)
    rw [split, pieces]

end Params

/-- Which parameters are found under their names. -/
theorem digestMap_iff (params : List DigestParam)
    (distinct : (params.map DigestParam.name).Nodup) :
    (∀ param ∈ params,
        OrderedMap.find param.name (digestMap (digestParams params)) = some param.value) ↔
      ∀ param ∈ params, param.Kept := by
  constructor
  · intro found
    have free : ∀ param ∈ params, 0x2c ∉ param.value := fun param member =>
      comma_not_mem_of_find (found param member)
    intro param member
    have isFound := found param member
    rw [digestMap_digestParams free] at isFound
    rcases OrderedMap.mem_foldl_set (OrderedMap.mem_of_find isFound) with
      absent | ⟨other, isOther, same⟩
    · cases absent
    · rw [Prod.mk.injEq] at same
      obtain ⟨sameName, before⟩ := (other.key_eq_iff param.legalName).mp same.1.symm
      obtain rfl := List.inj_on_of_nodup_map distinct isOther member sameName
      obtain ⟨plain, ends⟩ :=
        (strtrimDquote_value_iff other.quotable other.blankBehind).mp same.2.symm
      refine ⟨before, fun ch isIn => ⟨?_, plain ch isIn⟩, ends⟩
      rintro rfl
      exact free other isOther isIn
  · intro kept param member
    have free : ∀ param ∈ params, 0x2c ∉ param.value := fun other isOther comma =>
      ((kept other isOther).plain 0x2c comma).1 rfl
    rw [digestMap_digestParams free]
    refine OrderedMap.find_foldl_set (fun other isOther isKey => ?_) (.inr ⟨param, member, ?_⟩)
    · obtain ⟨sameName, -⟩ := (other.key_eq_iff param.legalName).mp isKey
      obtain rfl := List.inj_on_of_nodup_map distinct isOther member sameName
      exact (strtrimDquote_value_iff other.quotable other.blankBehind).mpr
        ⟨fun ch isIn => ((kept other isOther).plain ch isIn).2, (kept other isOther).ends⟩
    · exact (param.key_eq_iff param.legalName).mpr ⟨rfl, (kept param member).before⟩

theorem isOws_nil : IsOws [] := by
  simp [IsOws]

/-- A parameter without blanks around it. -/
def plainParam (name value : List UInt8) (legalName : LegalName name)
    (quotable : ∀ ch ∈ value, isQuotable ch = true) : DigestParam :=
  ⟨[], name, value, [], isOws_nil, legalName, quotable, isOws_nil⟩

theorem legalName_username : LegalName (octets "username") :=
  ⟨by decide +kernel, by decide +kernel⟩

theorem quotable_username : ∀ ch ∈ octets "a=b", isQuotable ch = true := by
  decide +kernel

theorem digestMap_username :
    OrderedMap.find (octets "username") (digestMap (digestParams
      [plainParam (octets "username") (octets "a=b") legalName_username quotable_username])) =
      some (octets "a=b") := by
  have distinct : ([plainParam (octets "username") (octets "a=b") legalName_username
      quotable_username].map DigestParam.name).Nodup := List.nodup_singleton _
  refine (digestMap_iff _ distinct).mpr ?_ _ List.mem_cons_self
  exact List.forall_mem_singleton.mpr ⟨.inl rfl, by decide +kernel,
    .inr (.inl ⟨0x62, by decide, by decide, by decide⟩)⟩

theorem legalName_uri : LegalName (octets "uri") :=
  ⟨by decide +kernel, by decide +kernel⟩

theorem quotable_uri : ∀ ch ∈ octets "/a,b", isQuotable ch = true := by
  decide +kernel

/-- A value with a comma is cut there. -/
theorem not_digestMap_uri :
    ¬∀ params : List DigestParam, (params.map DigestParam.name).Nodup → ∀ param ∈ params,
      OrderedMap.find param.name (digestMap (digestParams params)) = some param.value := by
  intro found
  have whole := found [plainParam (octets "uri") (octets "/a,b") legalName_uri quotable_uri]
    (List.nodup_singleton _) _ List.mem_cons_self
  have cut : OrderedMap.find (octets "uri") (digestMap (digestParams
      [plainParam (octets "uri") (octets "/a,b") legalName_uri quotable_uri])) =
      some (octets "/a") := by decide
  have same : some (octets "/a") = some (octets "/a,b") := cut.symm.trans whole
  exact absurd (congrArg (Option.map List.length) same) (by decide)

end Http1

end HeapHttpd
