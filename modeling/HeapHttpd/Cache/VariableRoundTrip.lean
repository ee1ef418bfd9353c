import HeapHttpd.Cache.VariableLines
import Mathlib.Data.List.MinMax

/-!
# Saving and reloading variables

Variables come back from their file as long as names and identifiers hold none of the
octets that the lines of a file use, and times fit into an `int`.
-/

namespace HeapHttpd

namespace Cache

open General OrderedMap
open Http1 (isSpace)
open Tunneling (strtrim_inside)
open Http2 (toInt toInt_of_bounds)

/-! ## Reloading lines -/

section Reloading

variable {Key : Type} [DecidableEq Key] {before : Key → Key → Bool}
  {read : List UInt8 → Option (Key × StoredVar)} {nOldVersion : Nat}

theorem mergeVar_absent {vars : VarMap Key} {key : Key} (absent : find key vars = none)
    (var : StoredVar) : mergeVar before vars key var = some (set before key var vars) := by
  rw [mergeVar, absent]

theorem mem_mergeVar {vars merged : VarMap Key} {key : Key} {var : StoredVar}
    (outcome : mergeVar before vars key var = some merged) {entry : Key × StoredVar}
    (member : entry ∈ merged) : entry = (key, var) ∨ entry ∈ vars := by
  rw [mergeVar] at outcome
  split at outcome
  · cases outcome
    exact mem_set member
  · split at outcome
    · cases outcome
      split at member
      · exact mem_set member
      · exact .inr member
    · cases outcome

/-- Lines of variables with different keys are all taken over. -/
theorem reloadLines_items {Item : Type} {lineOf : Item → List UInt8}
    {entryOf : Item → Key × StoredVar} {items : List Item} {reloaded : Reloaded Key}
    (reads : ∀ item ∈ items, lineOf item ≠ [] ∧ (lineOf item).headD 0 ≠ 0x23 ∧
      read (lineOf item) = some (entryOf item))
    (distinct : (items.map fun item => (entryOf item).1).Nodup)
    (absent : ∀ item ∈ items, find (entryOf item).1 reloaded.vars = none) :
    reloadLines before read nOldVersion reloaded (items.map lineOf) =
      some { reloaded with
        vars := items.foldl (fun vars item => set before (entryOf item).1 (entryOf item).2 vars)
          reloaded.vars } := by
  induction items generalizing reloaded with
  | nil => rfl
  | cons item items ih =>
      obtain ⟨nonempty, noVersion, isEntry⟩ := reads item List.mem_cons_self
      rw [List.map_cons, List.nodup_cons] at distinct
      rw [List.map_cons, reloadLines, if_neg nonempty, if_neg noVersion, isEntry]
      simp only [mergeVar_absent (absent item List.mem_cons_self)]
      rw [ih (fun other member => reads other (List.mem_cons_of_mem _ member)) distinct.2]
      · rfl
      · intro other member
        have differ : (entryOf item).1 ≠ (entryOf other).1 := fun same =>
          distinct.1 (same ▸ List.mem_map_of_mem member)
        rw [find_set, if_neg differ, absent other (List.mem_cons_of_mem _ member)]

/-- Whatever is there behind a file was there before, or was read from a line. -/
theorem mem_reloadLines {reloaded result : Reloaded Key} {lines : List (List UInt8)}
    (outcome : reloadLines before read nOldVersion reloaded lines = some result)
    {entry : Key × StoredVar} (member : entry ∈ result.vars) :
    entry ∈ reloaded.vars ∨
      ∃ line ∈ lines, line ≠ [] ∧ line.headD 0 ≠ 0x23 ∧ read line = some entry := by
  induction lines generalizing reloaded with
  | nil =>
      cases outcome
      exact .inl member
  | cons strline lines ih =>
      have later {start : Reloaded Key}
          (rest : reloadLines before read nOldVersion start lines = some result) :
          entry ∈ start.vars ∨ ∃ line ∈ strline :: lines,
            line ≠ [] ∧ line.headD 0 ≠ 0x23 ∧ read line = some entry :=
        (ih rest).imp_right fun ⟨line, inLines, known⟩ =>
          ⟨line, List.mem_cons_of_mem _ inLines, known⟩
      rw [reloadLines] at outcome
      split at outcome
      · exact later outcome
      · rename_i nonempty
        split at outcome
        · split at outcome
          · cases outcome
          · split at outcome
            · cases outcome
              exact .inl member
            · have known := later outcome
              exact known
        · rename_i noVersion
          split at outcome
          · cases outcome
          · rename_i key var isEntry
            split at outcome
            · cases outcome
            · rename_i vars merged
              rcases later outcome with inVars | fromLine
              · rcases mem_mergeVar merged inVars with rfl | old
                · exact .inr ⟨strline, List.mem_cons_self, nonempty, noVersion, isEntry⟩
                · exact .inl old
              · exact .inr fromLine

end Reloading

/-! ## The version -/

theorem digit_unsigned (ch : UInt8) : 0x30 ≤ ch ∧ ch ≤ 0x39 →
    isSpace ch = false ∧ ch ≠ 0x2d ∧ ch ≠ 0x2b := by
  revert ch
  apply forall_octet
  decide +kernel

theorem scanVersion_digits {number : Nat} (small : number < 2 ^ 64) :
    scanVersion (octets "#" ++ Decimal.digits number) = some number := by
  obtain ⟨first, rest, isDigits⟩ := List.exists_cons_of_ne_nil (Decimal.digits_ne_nil number)
  obtain ⟨notSpace, notMinus, notPlus⟩ :=
    digit_unsigned first (digits_plain first (isDigits ▸ List.mem_cons_self))
  have kept : (Decimal.digits number).dropWhile isSpace = Decimal.digits number := by
    rw [isDigits, List.dropWhile_cons, notSpace]
    rfl
  have sign : (Decimal.digits number).headD 0 = first := by
    rw [isDigits]
    rfl
  have all : (Decimal.digits number).takeWhile Decimal.isDigit = Decimal.digits number :=
    List.takeWhile_eq_self_iff.mpr fun ch => Decimal.isDigit_of_mem_digits
  have line : octets "#" ++ Decimal.digits number = 0x23 :: Decimal.digits number := rfl
  have unsigned : ¬(first = 0x2d ∨ first = 0x2b) := not_or.mpr ⟨notMinus, notPlus⟩
  have isNumber : ¬((0x23 : UInt8) ≠ 0x23 ∨ Decimal.digits number = []) :=
    not_or.mpr ⟨not_not.mpr rfl, Decimal.digits_ne_nil number⟩
  rw [line, scanVersion]
  simp only [kept, sign, if_neg unsigned, all, if_neg isNumber, Decimal.value_digits,
    if_neg (Nat.not_le.mpr small), if_neg notMinus]

theorem versionLine_octets {number : Nat} :
    ∀ ch ∈ octets "#" ++ Decimal.digits number,
      ch ≠ 0x0a ∧ ch ≠ 0x3b ∧ isBlank ch = false := by
  intro ch member
  rcases List.mem_append.mp member with isMark | isDigit
  · rw [List.mem_singleton.mp isMark]
    decide
  · obtain ⟨notSemicolon, -, notEnd, -, -, notBlank⟩ :=
      timeOctet_plain ch (.inr (digits_plain ch isDigit))
    exact ⟨notEnd, notSemicolon, notBlank⟩

/-! ## What comes back -/

/-- Every variable is there with its value and the time it was made, and no other one. -/
def ComeBack {Key : Type} [DecidableEq Key] (kept : List (PushedVar Key))
    (outcome : Option (Reloaded Key)) : Prop :=
  ∃ reloaded, outcome = some reloaded ∧ ∀ key,
    (find key reloaded.vars).map (fun var => (var.value, var.create)) =
      (find key (kept.map PushedVar.entry)).map fun var => (var.value, var.create)

/-- A `memory_cache` without any variable. -/
def emptyCache {Key : Type} : Reloaded Key :=
  ⟨[], 0⟩

/-- A server variable that a file can hold. -/
structure ServerVar.Storable (var : ServerVar) : Prop where
  name : PlainName var.key
  create : -2 ^ 31 ≤ var.create ∧ var.create < 2 ^ 31

/-- A session variable that a file can hold. -/
structure SessionVar.Storable (var : SessionVar) : Prop where
  name : PlainName var.key.2
  create : -2 ^ 31 ≤ var.create ∧ var.create < 2 ^ 31
  length : 31 ≤ var.key.1.length ∧ var.key.1.length ≤ 32
  separators : ∀ ch ∈ var.key.1, ch ≠ 0x3b ∧ ch ≠ 0x0a
  trimmed : strtrim var.key.1 = var.key.1
  noVersion : var.key.1.headD 0 ≠ 0x23

/-- The variables that are saved come back. -/
def VarKind.BringsBack {Key : Type} [DecidableEq Key] (kind : VarKind Key) (nVersion : Nat)
    (now : Int) (vars : List (PushedVar Key)) : Prop :=
  ∃ file, kind.save nVersion now (vars.map PushedVar.entry) = some file ∧
    ComeBack (vars.filter fun var => kind.saves now var.stored) (kind.reload emptyCache file)

section ComeBack

variable {Key : Type} [DecidableEq Key] {before : Key → Key → Bool}
  {read : List UInt8 → Option (Key × StoredVar)} {kept : List (PushedVar Key)}

/-- The entry that a line is read back to. -/
def PushedVar.readEntry (var : PushedVar Key) : Key × StoredVar :=
  (var.key, ⟨var.encodedValue, some (toInt var.create), some (toInt var.access)⟩)

omit [DecidableEq Key] in
theorem map_fst_entry : (kept.map PushedVar.entry).map Prod.fst = kept.map PushedVar.key := by
  rw [List.map_map]
  rfl

theorem find_entry (distinct : (kept.map PushedVar.key).Nodup) {var : PushedVar Key}
    (member : var ∈ kept) : find var.key (kept.map PushedVar.entry) = some var.entry.2 := by
  cases found : find var.key (kept.map PushedVar.entry) with
  | none =>
      rw [find_eq_none, map_fst_entry] at found
      exact absurd (List.mem_map_of_mem member) found
  | some stored =>
      obtain ⟨other, otherMember, isEntry⟩ := List.mem_map.mp (mem_of_find found)
      have same : other = var :=
        List.inj_on_of_nodup_map distinct otherMember member (congrArg Prod.fst isEntry)
      rw [← same, isEntry]

/-- The version comes first. -/
theorem reloadLines_fileLines (nOldVersion : Nat) (reloaded : Reloaded Key) (nVersion : Nat)
    (lines : List (List UInt8)) :
    reloadLines before read nOldVersion reloaded (fileLines nVersion lines) =
      if nOldVersion = (nVersion + 1) % 2 ^ 64 then some reloaded
      else reloadLines before read nOldVersion
        { reloaded with version := (nVersion + 1) % 2 ^ 64 } lines := by
  have small : (nVersion + 1) % 2 ^ 64 < 2 ^ 64 := Nat.mod_lt _ (by decide)
  have isVersion : (octets "#" ++ Decimal.digits ((nVersion + 1) % 2 ^ 64)).headD 0 = 0x23 := rfl
  have nonempty : octets "#" ++ Decimal.digits ((nVersion + 1) % 2 ^ 64) ≠ [] :=
    List.append_ne_nil_of_left_ne_nil (List.cons_ne_nil _ _) _
  have scanned := scanVersion_digits small
  rw [fileLines, reloadLines, if_neg nonempty, if_pos isVersion, scanned]

/-- Lines that are read back to the variables bring them back. -/
theorem comeBack_of_reads {lineOf : PushedVar Key → List UInt8} {nVersion : Nat}
    (reads : ∀ var ∈ kept, lineOf var ≠ [] ∧ (lineOf var).headD 0 ≠ 0x23 ∧
      read (lineOf var) = some var.readEntry)
    (bounded : ∀ var ∈ kept, -2 ^ 31 ≤ var.create ∧ var.create < 2 ^ 31)
    (distinct : (kept.map PushedVar.key).Nodup)
    (versioned : (nVersion + 1) % 2 ^ 64 ≠ 0) :
    ComeBack kept (reloadLines before read 0 emptyCache (fileLines nVersion (kept.map lineOf))) := by
  have items := @reloadLines_items Key _ before read 0 _ lineOf PushedVar.readEntry kept
    { vars := [], version := (nVersion + 1) % 2 ^ 64 } reads distinct fun _ _ => rfl
  rw [reloadLines_fileLines, if_neg (Ne.symm versioned)]
  simp only [emptyCache]
  rw [items]
  refine ⟨_, rfl, fun key => ?_⟩
  have found : find key (kept.foldl
      (fun vars var => set before var.readEntry.1 var.readEntry.2 vars) []) =
      find key (kept.map PushedVar.readEntry) := find_foldl_set_nil distinct key
  simp only
  rw [found]
  refine map_find_congr ?_ key
  intro var member
  obtain ⟨low, high⟩ := bounded var member
  rw [PushedVar.readEntry, PushedVar.entry, toInt_of_bounds low high]
  exact ⟨rfl, rfl⟩

/-- What comes back was read from some line. -/
theorem ComeBack.exists_line {nVersion : Nat} {lines : List (List UInt8)}
    (comeBack : ComeBack kept (reloadLines before read nVersion emptyCache lines))
    (distinct : (kept.map PushedVar.key).Nodup) {var : PushedVar Key} (member : var ∈ kept) :
    ∃ line ∈ lines, line ≠ [] ∧ line.headD 0 ≠ 0x23 ∧
      ∃ stored, read line = some (var.key, stored) ∧ stored.create = some var.create := by
  obtain ⟨reloaded, outcome, same⟩ := comeBack
  have known := same var.key
  rw [find_entry distinct member, Option.map_some, Option.map_eq_some_iff] at known
  obtain ⟨stored, found, isStored⟩ := known
  rw [Prod.mk.injEq] at isStored
  rcases mem_reloadLines outcome (mem_of_find found) with inNil | ⟨line, inLines, known⟩
  · cases inNil
  · exact ⟨line, inLines, known.1, known.2.1, stored, known.2.2, isStored.2⟩

/-- Nothing comes back behind the version of an empty `memory_cache`. -/
theorem ComeBack.versioned {nVersion : Nat} {lines : List (List UInt8)}
    (comeBack : ComeBack kept (reloadLines before read 0 emptyCache (fileLines nVersion lines)))
    (distinct : (kept.map PushedVar.key).Nodup) (nonempty : kept ≠ []) :
    (nVersion + 1) % 2 ^ 64 ≠ 0 := by
  intro isZero
  obtain ⟨var, rest, rfl⟩ := List.exists_cons_of_ne_nil nonempty
  rw [reloadLines_fileLines, if_pos isZero.symm] at comeBack
  obtain ⟨reloaded, outcome, same⟩ := comeBack
  cases outcome
  have known := same var.key
  rw [find_entry distinct List.mem_cons_self] at known
  cases known

end ComeBack

/-! ## Files -/

theorem getlines_varFile {lines : List (List UInt8)} (nonempty : lines ≠ []) (nVersion : Nat)
    (free : ∀ line ∈ lines, 0x0a ∉ line) :
    getlines (varFile nVersion lines) = fileLines nVersion lines := by
  rw [varFile, if_neg nonempty, getlines, Option.getD_some]
  refine Lines.parted_joined fun line member => ?_
  rcases List.mem_cons.mp member with rfl | isLine
  · exact fun isEnd => (versionLine_octets _ isEnd).1 rfl
  · exact free line isLine

theorem not_mem_getlines (file : Option (List UInt8)) : ∀ line ∈ getlines file, 0x0a ∉ line :=
  Lines.not_mem_parted List.not_mem_nil

theorem PlainName.not_mem {name : List UInt8} (plain : PlainName name) : 0x0a ∉ name :=
  fun member => (plain.separators _ member).2.2 rfl

/-- A measure that rises from every item where it is not zero is zero. -/
theorem eq_zero_of_ascent {Item : Type} {items : List Item} {measure : Item → Nat}
    (ascends : ∀ item ∈ items, measure item = 0 ∨ ∃ other ∈ items, measure item < measure other) :
    ∀ item ∈ items, measure item = 0 := by
  intro item member
  cases highest : items.argmax measure with
  | none =>
      rw [List.argmax_eq_none] at highest
      rw [highest] at member
      cases member
  | some top =>
      have below {other : Item} (isOther : other ∈ items) : measure other ≤ measure top :=
        List.le_of_mem_argmax isOther highest
      rcases ascends top (List.argmax_mem highest) with zero | ⟨other, isOther, higher⟩
      · exact Nat.le_zero.mp (zero ▸ below member)
      · exact absurd (below isOther) (Nat.not_le.mpr higher)

/-! ## Server variables -/

/-- The line of a server variable. -/
def ServerVar.lineText (var : ServerVar) : List UInt8 :=
  var.text var.key

/-- The line of a variable that a file can hold is read back. -/
theorem ServerVar.Storable.reads {var : ServerVar} (storable : ServerVar.Storable var)
    (nulFree : 0 ∉ var.key) : ServerVar.lineText var ≠ [] ∧
      (ServerVar.lineText var).headD 0 ≠ 0x23 ∧
      readServerVar (ServerVar.lineText var) = some var.readEntry := by
  obtain ⟨⟨first, front, noVersion, -⟩, -⟩ := var.ends_text var.key
  refine ⟨text_ne_nil var var.key, ?_, readServerVar_line storable.name nulFree⟩
  rw [ServerVar.lineText, List.headD_eq_head?_getD, front]
  exact noVersion

section Server

variable {nVersion : Nat} {vars : List ServerVar}

/-- The variables come back from a file that holds all of them. -/
def ServerFileComesBack (nVersion : Nat) (vars : List ServerVar) : Prop :=
  ComeBack vars (serverVars.reload emptyCache (varFile nVersion (vars.map ServerVar.lineText)))

theorem comeBack_nil {Key : Type} [DecidableEq Key] :
    ComeBack ([] : List (PushedVar Key)) (some emptyCache) :=
  ⟨emptyCache, rfl, fun _ => rfl⟩

theorem map_strtrim_fileLines (nVersion : Nat) (vars : List ServerVar) :
    (fileLines nVersion (vars.map ServerVar.lineText)).map strtrim =
      fileLines nVersion (vars.map ServerVar.lineText) := by
  rw [fileLines, List.map_cons, List.map_map,
    strtrim_of_unblank fun ch member => (versionLine_octets ch member).2.2]
  congr 1
  exact List.map_congr_left fun var _ => var.strtrim_text var.key

theorem getlines_serverFile (nonempty : vars ≠ []) (nVersion : Nat)
    (free : ∀ var ∈ vars, 0x0a ∉ var.key) :
    getlines (varFile nVersion (vars.map ServerVar.lineText)) = fileLines nVersion (vars.map ServerVar.lineText) := by
  refine getlines_varFile (fun empty => nonempty (List.map_eq_nil_iff.mp empty)) nVersion ?_
  intro line member
  obtain ⟨var, isVar, rfl⟩ := List.mem_map.mp member
  exact var.not_mem_text (free var isVar)

theorem serverFileComesBack_of (distinct : (vars.map PushedVar.key).Nodup)
    (nulFree : ∀ var ∈ vars, 0 ∉ var.key) (versioned : vars = [] ∨ (nVersion + 1) % 2 ^ 64 ≠ 0)
    (storable : ∀ var ∈ vars, ServerVar.Storable var) : ServerFileComesBack nVersion vars := by
  by_cases empty : vars = []
  · subst empty
    exact comeBack_nil
  · have lines := getlines_serverFile empty nVersion
      fun var member => (storable var member).name.not_mem
    rw [ServerFileComesBack, VarKind.reload, lines]
    simp only [serverVars]
    rw [map_strtrim_fileLines]
    exact comeBack_of_reads
      (fun var member => (storable var member).reads (nulFree var member))
      (fun var member => (storable var member).create) distinct (versioned.resolve_left empty)

/-- Whatever comes back is a name that was read from one of the lines. -/
theorem ServerFileComesBack.readFrom (comeBack : ServerFileComesBack nVersion vars)
    (distinct : (vars.map PushedVar.key).Nodup) {var : ServerVar} (member : var ∈ vars) :
    ∃ line ∈ getlines (varFile nVersion (vars.map ServerVar.lineText)), ReadFrom (strtrim line) var.key ∧
      0x3d ∉ var.key ∧ -2 ^ 31 ≤ var.create ∧ var.create < 2 ^ 31 := by
  obtain ⟨line, inLines, -, -, stored, read, create⟩ := comeBack.exists_line distinct member
  obtain ⟨raw, isRaw, rfl⟩ := List.mem_map.mp inLines
  obtain ⟨known, equalFree, bounds⟩ := readServerVar_known read
  exact ⟨raw, isRaw, known, equalFree, bounds _ create⟩

theorem ServerFileComesBack.not_mem (comeBack : ServerFileComesBack nVersion vars)
    (distinct : (vars.map PushedVar.key).Nodup) : ∀ var ∈ vars, 0x0a ∉ var.key := by
  intro var member isEnd
  obtain ⟨line, inLines, known, -⟩ := comeBack.readFrom distinct member
  exact not_mem_getlines _ line inLines
    ((strtrim_inside line).sublist.mem (known.part.mem isEnd))

/-- A semicolon in a name would take a name with more of them. -/
theorem ServerFileComesBack.semicolonFree (comeBack : ServerFileComesBack nVersion vars)
    (distinct : (vars.map PushedVar.key).Nodup) :
    ∀ var ∈ vars, var.key.count 0x3b = 0 := by
  refine eq_zero_of_ascent fun var member => ?_
  obtain ⟨line, inLines, known, -⟩ := comeBack.readFrom distinct member
  have fewer := (strtrim_inside line).sublist.count_le 0x3b
  rw [getlines_serverFile (List.ne_nil_of_mem member) nVersion (comeBack.not_mem distinct)]
    at inLines
  refine known.semicolons.imp_right fun many => ?_
  rcases List.mem_cons.mp inLines with rfl | isLine
  · have none : (octets "#" ++ Decimal.digits ((nVersion + 1) % 2 ^ 64)).count 0x3b = 0 :=
      List.count_eq_zero.mpr fun isSemicolon => (versionLine_octets _ isSemicolon).2.1 rfl
    omega
  · obtain ⟨other, isOther, rfl⟩ := List.mem_map.mp isLine
    have count := @PushedVar.count_text _ other other.key
    rw [ServerVar.lineText] at *
    exact ⟨other, isOther, by omega⟩

theorem ServerFileComesBack.storable (comeBack : ServerFileComesBack nVersion vars)
    (distinct : (vars.map PushedVar.key).Nodup) :
    ∀ var ∈ vars, ServerVar.Storable var := by
  intro var member
  obtain ⟨line, -, known, equalFree, bounds⟩ := comeBack.readFrom distinct member
  have semicolonFree := List.count_eq_zero.mp (comeBack.semicolonFree distinct var member)
  have endFree := comeBack.not_mem distinct var member
  refine ⟨⟨fun ch inName => ⟨?_, ?_, ?_⟩, known.trimmed⟩, bounds⟩
  · rintro rfl
    exact semicolonFree inName
  · rintro rfl
    exact equalFree inName
  · rintro rfl
    exact endFree inName

theorem ServerFileComesBack.versioned (comeBack : ServerFileComesBack nVersion vars)
    (distinct : (vars.map PushedVar.key).Nodup) :
    vars = [] ∨ (nVersion + 1) % 2 ^ 64 ≠ 0 := by
  by_cases empty : vars = []
  · exact .inl empty
  · have endFree := comeBack.not_mem distinct
    rw [ServerFileComesBack, VarKind.reload, getlines_serverFile empty nVersion endFree] at comeBack
    simp only [serverVars] at comeBack
    rw [map_strtrim_fileLines] at comeBack
    exact .inr (ComeBack.versioned comeBack distinct empty)

end Server

/-! ## Session variables -/

namespace SessionVar

/-- The identifier as the constructor keeps it. -/
def uid (var : SessionVar) : List UInt8 :=
  var.key.1.take 32

/-- The line of a variable whose identifier is long enough. -/
def lineText (var : SessionVar) : List UInt8 :=
  var.uid ++ octets ";" ++ var.text var.key.2

theorem length_uid_le (var : SessionVar) : var.uid.length ≤ 32 :=
  List.length_take_le 32 _

theorem uid_sublist (var : SessionVar) : var.uid.Sublist var.key.1 :=
  List.take_sublist 32 _

theorem uid_eq {var : SessionVar} (short : var.key.1.length ≤ 32) : var.uid = var.key.1 :=
  List.take_of_length_le short

theorem uid_ne_nil {var : SessionVar} (long : 31 ≤ var.key.1.length) : var.uid ≠ [] := by
  intro empty
  have length := congrArg List.length empty
  rw [uid, List.length_take, List.length_nil] at length
  omega

theorem line_eq (var : SessionVar) : sessionVars.line var.entry =
    if 31 ≤ var.key.1.length then some (lineText var) else none := by
  by_cases long : 31 ≤ var.key.1.length
  · simp only [sessionVars, PushedVar.entry, sessionLine, copyUid, PushedVar.fieldsText_stored,
      if_pos long]
    rfl
  · simp only [sessionVars, PushedVar.entry, sessionLine, copyUid, if_neg long]

theorem headD_lineText {var : SessionVar} (long : 31 ≤ var.key.1.length) :
    var.lineText.headD 0 = var.uid.headD 0 := by
  obtain ⟨first, rest, isUid⟩ := List.exists_cons_of_ne_nil (uid_ne_nil long)
  rw [lineText, isUid]
  rfl

theorem not_mem_lineText {var : SessionVar} (uidFree : 0x0a ∉ var.key.1)
    (nameFree : 0x0a ∉ var.key.2) : 0x0a ∉ var.lineText := by
  rw [lineText, List.mem_append, List.mem_append, not_or, not_or]
  exact ⟨⟨fun member => uidFree (var.uid_sublist.mem member), by decide⟩,
    var.not_mem_text nameFree⟩

theorem count_lineText (var : SessionVar) :
    var.lineText.count 0x3b = var.uid.count 0x3b + 3 + var.key.2.count 0x3b := by
  have separator : (octets ";").count 0x3b = 1 := rfl
  rw [lineText, List.count_append, List.count_append, separator, var.count_text]
  omega

end SessionVar

/-- The line of a variable that a file can hold is read back. -/
theorem SessionVar.Storable.reads {var : SessionVar} (storable : SessionVar.Storable var)
    (nulFree : 0 ∉ var.key.1 ∧ 0 ∉ var.key.2) : SessionVar.lineText var ≠ [] ∧
      (SessionVar.lineText var).headD 0 ≠ 0x23 ∧
      readSessionVar (SessionVar.lineText var) = some var.readEntry := by
  obtain ⟨name, -, ⟨long, short⟩, separators, trimmed', noVersion⟩ := storable
  have uid := SessionVar.uid_eq short
  have uidNonempty := SessionVar.uid_ne_nil long
  refine ⟨?_, ?_, ?_⟩
  · rw [SessionVar.lineText, List.append_assoc]
    exact List.append_ne_nil_of_left_ne_nil uidNonempty _
  · rw [SessionVar.headD_lineText long, uid]
    exact noVersion
  · rw [SessionVar.lineText, uid]
    rw [uid] at uidNonempty
    rw [readSessionVar_line uidNonempty (fun isSemicolon => (separators _ isSemicolon).1 rfl)
      nulFree.1 name nulFree.2, trimmed', copyUid, if_pos long, Option.map_some,
      List.take_of_length_le short]
    rfl

section Session

variable {nVersion : Nat} {kept : List SessionVar}

/-- The variables come back from a file that holds all of them. -/
def SessionFileComesBack (nVersion : Nat) (kept : List SessionVar) : Prop :=
  ComeBack kept
    (sessionVars.reload emptyCache (varFile nVersion (kept.map SessionVar.lineText)))

theorem getlines_sessionFile (nonempty : kept ≠ []) (nVersion : Nat)
    (free : ∀ var ∈ kept, 0x0a ∉ var.key.1 ∧ 0x0a ∉ var.key.2) :
    getlines (varFile nVersion (kept.map SessionVar.lineText)) =
      fileLines nVersion (kept.map SessionVar.lineText) := by
  refine getlines_varFile (fun empty => nonempty (List.map_eq_nil_iff.mp empty)) nVersion ?_
  intro line member
  obtain ⟨var, isVar, rfl⟩ := List.mem_map.mp member
  exact SessionVar.not_mem_lineText (free var isVar).1 (free var isVar).2

theorem sessionFileComesBack_of (distinct : (kept.map PushedVar.key).Nodup)
    (nulFree : ∀ var ∈ kept, 0 ∉ var.key.1 ∧ 0 ∉ var.key.2)
    (versioned : kept = [] ∨ (nVersion + 1) % 2 ^ 64 ≠ 0)
    (storable : ∀ var ∈ kept, SessionVar.Storable var) : SessionFileComesBack nVersion kept := by
  by_cases empty : kept = []
  · subst empty
    exact comeBack_nil
  · have lines := getlines_sessionFile empty nVersion fun var member =>
      ⟨fun isEnd => ((storable var member).separators _ isEnd).2 rfl,
        (storable var member).name.not_mem⟩
    rw [SessionFileComesBack, VarKind.reload, lines]
    simp only [sessionVars, List.map_id]
    exact comeBack_of_reads
      (fun var member => (storable var member).reads (nulFree var member))
      (fun var member => (storable var member).create) distinct (versioned.resolve_left empty)

namespace SessionFileComesBack

/-- Whatever comes back is a key that was read from one of the lines. -/
theorem readFrom (comeBack : SessionFileComesBack nVersion kept)
    (distinct : (kept.map PushedVar.key).Nodup) {var : SessionVar} (member : var ∈ kept) :
    ∃ line ∈ getlines (varFile nVersion (kept.map SessionVar.lineText)),
      line.headD 0 ≠ 0x23 ∧ ∃ stored, readSessionVar line = some (var.key, stored) ∧
        stored.create = some var.create := by
  rw [SessionFileComesBack, VarKind.reload] at comeBack
  simp only [sessionVars, List.map_id] at comeBack
  obtain ⟨line, inLines, -, noVersion, known⟩ := ComeBack.exists_line comeBack distinct member
  exact ⟨line, inLines, noVersion, known⟩

theorem not_mem (comeBack : SessionFileComesBack nVersion kept)
    (distinct : (kept.map PushedVar.key).Nodup) :
    ∀ var ∈ kept, 0x0a ∉ var.key.1 ∧ 0x0a ∉ var.key.2 := by
  intro var member
  obtain ⟨line, inLines, -, stored, read, -⟩ := comeBack.readFrom distinct member
  obtain ⟨⟨name, -⟩, field, uid, -, isUid⟩ := readSessionVar_known read
  have free := not_mem_getlines _ line inLines
  refine ⟨fun isEnd => free (uid.part.mem ?_), fun isEnd => free (name.part.mem isEnd)⟩
  rw [isUid] at isEnd
  exact List.mem_of_mem_take isEnd

/-- The lines that are read are those that were written. -/
theorem mem_lines (comeBack : SessionFileComesBack nVersion kept)
    (distinct : (kept.map PushedVar.key).Nodup) {var : SessionVar} (member : var ∈ kept) :
    ∃ other ∈ kept, (SessionVar.lineText other).headD 0 ≠ 0x23 ∧
      ∃ stored, readSessionVar (SessionVar.lineText other) = some (var.key, stored) ∧
        stored.create = some var.create := by
  obtain ⟨line, inLines, noVersion, known⟩ := comeBack.readFrom distinct member
  rw [getlines_sessionFile (List.ne_nil_of_mem member) nVersion (comeBack.not_mem distinct)]
    at inLines
  rcases List.mem_cons.mp inLines with rfl | isLine
  · exact absurd rfl noVersion
  · obtain ⟨other, isOther, rfl⟩ := List.mem_map.mp isLine
    exact ⟨other, isOther, noVersion, known⟩

/-- A semicolon in a name would take a name with more of them. -/
theorem semicolonFree (comeBack : SessionFileComesBack nVersion kept)
    (distinct : (kept.map PushedVar.key).Nodup) :
    ∀ var ∈ kept, var.key.2.count 0x3b = 0 := by
  refine eq_zero_of_ascent fun var member => ?_
  obtain ⟨other, isOther, -, stored, read, -⟩ := comeBack.mem_lines distinct member
  obtain ⟨⟨known, -⟩, -⟩ := readSessionVar_known read
  refine known.semicolons.imp_right fun many => ⟨other, isOther, ?_⟩
  have inUid : (SessionVar.uid other).count 0x3b ≤ 32 :=
    List.count_le_length.trans other.length_uid_le
  rw [SessionVar.count_lineText] at many
  omega

theorem plainName (comeBack : SessionFileComesBack nVersion kept)
    (distinct : (kept.map PushedVar.key).Nodup) :
    ∀ var ∈ kept, PlainName var.key.2 := by
  intro var member
  obtain ⟨other, -, -, stored, read, -⟩ := comeBack.mem_lines distinct member
  obtain ⟨⟨known, equalFree, -⟩, -⟩ := readSessionVar_known read
  have semicolonFree := List.count_eq_zero.mp (comeBack.semicolonFree distinct var member)
  have endFree := (comeBack.not_mem distinct var member).2
  refine ⟨fun ch inName => ⟨?_, ?_, ?_⟩, known.trimmed⟩
  · rintro rfl
    exact semicolonFree inName
  · rintro rfl
    exact equalFree inName
  · rintro rfl
    exact endFree inName

theorem uidFree (comeBack : SessionFileComesBack nVersion kept)
    (distinct : (kept.map PushedVar.key).Nodup) :
    ∀ var ∈ kept, 0x3b ∉ var.key.1 := by
  intro var member isSemicolon
  obtain ⟨other, isOther, -, stored, read, -⟩ := comeBack.mem_lines distinct member
  obtain ⟨-, field, known, -, isUid⟩ := readSessionVar_known read
  have inField : 0 < field.count 0x3b := by
    rw [isUid] at isSemicolon
    exact List.count_pos_iff.mpr (List.mem_of_mem_take isSemicolon)
  have inUid : (SessionVar.uid other).count 0x3b ≤ 32 :=
    List.count_le_length.trans other.length_uid_le
  have inName := comeBack.semicolonFree distinct other isOther
  have count := other.count_lineText
  rcases known.semicolons with none | many
  · omega
  · omega

/-- An identifier is what is left of one of the identifiers without the blanks. -/
theorem uid_eq_strtrim (comeBack : SessionFileComesBack nVersion kept)
    (distinct : (kept.map PushedVar.key).Nodup)
    (nulFree : ∀ var ∈ kept, 0 ∉ var.key.1 ∧ 0 ∉ var.key.2)
    (long : ∀ var ∈ kept, 31 ≤ var.key.1.length) {var : SessionVar} (member : var ∈ kept) :
    31 ≤ var.key.1.length ∧ ∃ other ∈ kept, (SessionVar.uid other).headD 0 ≠ 0x23 ∧
      var.key.1 = strtrim (SessionVar.uid other) ∧ -2 ^ 31 ≤ var.create ∧ var.create < 2 ^ 31 := by
  obtain ⟨other, isOther, noVersion, stored, read, create⟩ := comeBack.mem_lines distinct member
  have bounds := (readSessionVar_known read).1.2.2 _ create
  have inside := SessionVar.uid_sublist other
  rw [SessionVar.lineText, readSessionVar_line (SessionVar.uid_ne_nil (long other isOther))
    (fun isSemicolon => comeBack.uidFree distinct other isOther (inside.mem isSemicolon))
    (fun isNul => (nulFree other isOther).1 (inside.mem isNul))
    (comeBack.plainName distinct other isOther) (nulFree other isOther).2, copyUid] at read
  split at read
  · have short : (strtrim (SessionVar.uid other)).length ≤ 32 :=
      (strtrim_inside _).length_le.trans other.length_uid_le
    rw [Option.map_some, List.take_of_length_le short, Option.some.injEq, Prod.mk.injEq] at read
    rw [SessionVar.headD_lineText (long other isOther)] at noVersion
    exact ⟨long var member, other, isOther, noVersion, (congrArg Prod.fst read.1).symm, bounds⟩
  · cases read

theorem storable (comeBack : SessionFileComesBack nVersion kept)
    (distinct : (kept.map PushedVar.key).Nodup)
    (nulFree : ∀ var ∈ kept, 0 ∉ var.key.1 ∧ 0 ∉ var.key.2)
    (long : ∀ var ∈ kept, 31 ≤ var.key.1.length) :
    ∀ var ∈ kept, SessionVar.Storable var := by
  have trimmed' : ∀ var ∈ kept, var.key.1.length ≤ 32 ∧ strtrim var.key.1 = var.key.1 := by
    intro var member
    obtain ⟨-, other, isOther, -, isUid, -⟩ :=
      comeBack.uid_eq_strtrim distinct nulFree long member
    have free : 0 ∉ SessionVar.uid other := fun isNul =>
      (nulFree other isOther).1 (other.uid_sublist.mem isNul)
    rw [isUid]
    exact ⟨(strtrim_inside _).length_le.trans other.length_uid_le, strtrim_strtrim free⟩
  intro var member
  obtain ⟨isLong, other, isOther, noVersion, isUid, bounds⟩ :=
    comeBack.uid_eq_strtrim distinct nulFree long member
  obtain ⟨short, isTrimmed⟩ := trimmed' var member
  refine ⟨comeBack.plainName distinct var member, bounds, ⟨isLong, short⟩, ?_, isTrimmed, ?_⟩
  · intro ch inUid
    refine ⟨?_, ?_⟩
    · rintro rfl
      exact comeBack.uidFree distinct var member inUid
    · rintro rfl
      exact (comeBack.not_mem distinct var member).1 inUid
  · obtain ⟨otherShort, otherTrimmed⟩ := trimmed' other isOther
    rw [SessionVar.uid_eq otherShort] at noVersion isUid
    rwa [isUid, otherTrimmed]

theorem versioned (comeBack : SessionFileComesBack nVersion kept)
    (distinct : (kept.map PushedVar.key).Nodup) :
    kept = [] ∨ (nVersion + 1) % 2 ^ 64 ≠ 0 := by
  by_cases empty : kept = []
  · exact .inl empty
  · have endFree := comeBack.not_mem distinct
    rw [SessionFileComesBack, VarKind.reload, getlines_sessionFile empty nVersion endFree]
      at comeBack
    simp only [sessionVars, List.map_id] at comeBack
    exact .inr (ComeBack.versioned comeBack distinct empty)

end SessionFileComesBack

end Session

/-! ## Both kinds of variables -/

section Kind

variable {Key : Type} {kind : VarKind Key} {Fits : PushedVar Key → Prop} [DecidablePred Fits]
  {lineText : PushedVar Key → List UInt8} {vars : List (PushedVar Key)}

theorem mapM_line (line_eq : ∀ var : PushedVar Key, kind.line var.entry =
    if Fits var then some (lineText var) else none) {lines : List (List UInt8)} :
    (vars.map PushedVar.entry).mapM kind.line = some lines ↔
      (∀ var ∈ vars, Fits var) ∧ lines = vars.map lineText := by
  induction vars generalizing lines with
  | nil => simp [eq_comm]
  | cons var vars ih =>
      rw [List.map_cons, List.mapM_cons, line_eq, List.forall_mem_cons, List.map_cons]
      split
      · rename_i fits
        constructor
        · intro outcome
          cases rest : (vars.map PushedVar.entry).mapM kind.line with
          | none =>
              rw [rest] at outcome
              cases outcome
          | some others =>
              obtain ⟨all, isMap⟩ := ih.mp rest
              rw [rest] at outcome
              cases outcome
              exact ⟨⟨fits, all⟩, by rw [isMap]⟩
        · rintro ⟨⟨-, all⟩, rfl⟩
          rw [ih.mpr ⟨all, rfl⟩]
          rfl
      · rename_i unfit
        constructor
        · intro outcome
          cases outcome
        · rintro ⟨⟨fits, -⟩, -⟩
          exact absurd fits unfit

/-- The variables that are saved come back if all of them have a line, and come back
from the file with these lines. -/
theorem bringsBack_iff_file [DecidableEq Key] (line_eq : ∀ var : PushedVar Key,
    kind.line var.entry = if Fits var then some (lineText var) else none)
    {nVersion : Nat} {now : Int} :
    kind.BringsBack nVersion now vars ↔
      (∀ var ∈ vars.filter (fun var => kind.saves now var.stored), Fits var) ∧
        ComeBack (vars.filter fun var => kind.saves now var.stored)
          (kind.reload emptyCache (varFile nVersion
            ((vars.filter fun var => kind.saves now var.stored).map lineText))) := by
  have saved : ((vars.map PushedVar.entry).filter fun entry => kind.saves now entry.2) =
      (vars.filter fun var => kind.saves now var.stored).map PushedVar.entry :=
    List.filter_map
  rw [VarKind.BringsBack, VarKind.save, saved]
  constructor
  · rintro ⟨file, isFile, comeBack⟩
    obtain ⟨lines, isLines, rfl⟩ := Option.map_eq_some_iff.mp isFile
    obtain ⟨fits, rfl⟩ := (mapM_line line_eq).mp isLines
    exact ⟨fits, comeBack⟩
  · rintro ⟨fits, comeBack⟩
    rw [(mapM_line line_eq).mpr ⟨fits, rfl⟩]
    exact ⟨_, rfl, comeBack⟩

end Kind

theorem ServerVar.line_eq (var : ServerVar) :
    serverVars.line var.entry = if True then some (ServerVar.lineText var) else none := by
  rw [if_pos trivial]
  rfl

/-- Server variables and session variables come back from their files exactly if each
one that is saved is storable and the version does not wrap around to zero. -/
theorem bringsBack_iff {nVersion : Nat} {now : Int} {servers : List ServerVar}
    {sessions : List SessionVar} (serverDistinct : (servers.map PushedVar.key).Nodup)
    (sessionDistinct : (sessions.map PushedVar.key).Nodup)
    (serverNulFree : ∀ var ∈ servers, 0 ∉ var.key)
    (sessionNulFree : ∀ var ∈ sessions, 0 ∉ var.key.1 ∧ 0 ∉ var.key.2) :
    (serverVars.BringsBack nVersion now servers ↔
      (servers = [] ∨ (nVersion + 1) % 2 ^ 64 ≠ 0) ∧
        ∀ var ∈ servers, ServerVar.Storable var) ∧
    (sessionVars.BringsBack nVersion now sessions ↔
      ((sessions.filter fun var => bSave now var.stored) = [] ∨ (nVersion + 1) % 2 ^ 64 ≠ 0) ∧
        ∀ var ∈ sessions, bSave now var.stored = true → SessionVar.Storable var) := by
  constructor
  · have all : (servers.filter fun var => serverVars.saves now var.stored) = servers :=
      List.filter_eq_self.mpr fun _ _ => rfl
    rw [bringsBack_iff_file ServerVar.line_eq, all]
    constructor
    · rintro ⟨-, comeBack⟩
      have known : ServerFileComesBack nVersion servers := comeBack
      exact ⟨known.versioned serverDistinct, known.storable serverDistinct⟩
    · rintro ⟨versioned, storable⟩
      exact ⟨fun _ _ => trivial,
        serverFileComesBack_of serverDistinct serverNulFree versioned storable⟩
  · have distinct := ((List.filter_sublist (l := sessions)
      (p := fun var => bSave now var.stored)).map PushedVar.key).nodup sessionDistinct
    have nulFree : ∀ var ∈ sessions.filter fun var => bSave now var.stored,
        0 ∉ var.key.1 ∧ 0 ∉ var.key.2 := fun var member =>
      sessionNulFree var (List.mem_of_mem_filter member)
    rw [bringsBack_iff_file SessionVar.line_eq]
    constructor
    · rintro ⟨long, comeBack⟩
      have known : SessionFileComesBack nVersion
          (sessions.filter fun var => bSave now var.stored) := comeBack
      have storable := known.storable distinct nulFree long
      exact ⟨known.versioned distinct, fun var member saved =>
        storable var (List.mem_filter.mpr ⟨member, saved⟩)⟩
    · rintro ⟨versioned, storable⟩
      have storable' : ∀ var ∈ sessions.filter fun var => bSave now var.stored,
          SessionVar.Storable var := fun var member =>
        storable var (List.mem_of_mem_filter member) (List.mem_filter.mp member).2
      exact ⟨fun var member => (storable' var member).length.1,
        sessionFileComesBack_of distinct nulFree versioned storable'⟩

/-- A server variable for a trial. -/
def trialServerVar (name : String) : ServerVar :=
  ⟨octets name, octets "1", 5, 5⟩

/-- A session variable for a trial. -/
def trialSessionVar : SessionVar :=
  ⟨(octets "0123456789abcdef0123456789abcdef", octets "b"), octets "x y", 5, 6⟩

theorem plainName_of_all {name : List UInt8}
    (all : (name.all fun ch => ch != 0x3b && ch != 0x3d && ch != 0x0a && !isBlank ch) = true) :
    PlainName name := by
  have plain := List.all_eq_true.mp all
  simp only [Bool.and_eq_true, bne_iff_ne, Bool.not_eq_true'] at plain
  exact ⟨fun ch member => ⟨(plain ch member).1.1.1, (plain ch member).1.1.2, (plain ch member).1.2⟩,
    strtrim_of_unblank fun ch member => (plain ch member).2⟩

theorem bringsBack_trial : serverVars.BringsBack 0 90 [trialServerVar "a"] ∧
    sessionVars.BringsBack 0 90 [trialSessionVar] := by
  have both := @bringsBack_iff 0 90 [trialServerVar "a"] [trialSessionVar]
    (List.nodup_singleton _) (List.nodup_singleton _)
    (List.forall_mem_singleton.mpr (by decide))
    (List.forall_mem_singleton.mpr (by decide))
  have uid : PlainName trialSessionVar.key.1 := plainName_of_all (by decide)
  refine ⟨both.1.mpr ⟨.inr (by decide), List.forall_mem_singleton.mpr ?_⟩,
    both.2.mpr ⟨.inr (by decide), List.forall_mem_singleton.mpr fun _ => ?_⟩⟩
  · exact ⟨plainName_of_all (by decide), by decide⟩
  · exact ⟨plainName_of_all (by decide), by decide, by decide,
      fun ch member => ⟨(uid.separators ch member).1, (uid.separators ch member).2.2⟩,
      uid.trimmed, by decide⟩

/-- A name with a separator does not come back. -/
theorem not_bringsBack : ¬serverVars.BringsBack 0 90 [trialServerVar "a;b"] := by
  intro bringsBack
  have comeBack : ServerFileComesBack 0 [trialServerVar "a;b"] :=
    ((bringsBack_iff_file ServerVar.line_eq).mp bringsBack).2
  have storable := comeBack.storable (List.nodup_singleton _) _ List.mem_cons_self
  exact (storable.name.separators 0x3b (by decide)).1 rfl

end Cache

end HeapHttpd
