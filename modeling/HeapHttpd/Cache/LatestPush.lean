import HeapHttpd.Cache.SharedVariables
import HeapHttpd.Library.Replay
import HeapHttpd.Library.SharedRegister

/-!
# The latest push of a variable

The copies of one variable in the `memory_cache` of each process and in the files are a
register that the processes share.  A variable that was pushed at a later second than all
before under its key is what every process gets.
-/

namespace HeapHttpd

namespace Cache

open General OrderedMap SharedRegister
open Http2 (toInt_of_bounds)

/-- The time that variables are compared by. -/
def createTime (var : StoredVar) : Int :=
  var.create.getD 0

variable {Key : Type} [DecidableEq Key]

/-! ## Merging -/

/-- An entry is taken over, unless one of its key that is as young is there. -/
def merge (before : Key → Key → Bool) (vars : VarMap Key) (entry : Key × StoredVar) :
    VarMap Key :=
  match find entry.1 vars with
  | none => set before entry.1 entry.2 vars
  | some old =>
      if createTime old < createTime entry.2 then set before entry.1 entry.2 vars else vars

theorem find_merge (before : Key → Key → Bool) (vars : VarMap Key) (entry : Key × StoredVar)
    (key : Key) : find key (merge before vars entry) =
      if entry.1 = key then younger createTime (find key vars) (some entry.2)
      else find key vars := by
  rw [merge]
  cases found : find entry.1 vars with
  | none =>
      simp only [find_set]
      split
      · rename_i same
        rw [← same, found]
        rfl
      · rfl
  | some old =>
      simp only
      by_cases same : entry.1 = key
      · rw [if_pos same, ← same, found, younger]
        split
        · rw [find_set, if_pos rfl]
        · exact found
      · rw [if_neg same]
        split
        · rw [find_set, if_neg same]
        · rfl

theorem younger_none (time : StoredVar → Int) (own : Option StoredVar) :
    younger time own none = own := by
  cases own <;> rfl

/-- Entries of different keys are merged as if all at once. -/
theorem find_foldl_merge (before : Key → Key → Bool) {entries vars : VarMap Key}
    (distinct : (entries.map Prod.fst).Nodup) (key : Key) :
    find key (entries.foldl (merge before) vars) =
      younger createTime (find key vars) (find key entries) := by
  induction entries generalizing vars with
  | nil => exact (younger_none createTime _).symm
  | cons entry entries ih =>
      rw [List.map_cons, List.nodup_cons] at distinct
      rw [List.foldl_cons, ih distinct.2, find_merge, find]
      by_cases same : entry.1 = key
      · have absent : find key entries = none := find_eq_none.mpr (same ▸ distinct.1)
        rw [if_pos same, if_pos same, absent, younger_none]
      · rw [if_neg same, if_neg same]

/-- A map of variables that were pushed and that a file can hold. -/
structure Filed (Storable : PushedVar Key → Prop) (vars : VarMap Key) : Prop where
  distinct : (vars.map Prod.fst).Nodup
  pushed : ∀ entry ∈ vars, ∃ var : PushedVar Key, Storable var ∧ entry = var.entry

section Merging

variable {Storable : PushedVar Key → Prop} {vars : VarMap Key} {before : Key → Key → Bool}

omit [DecidableEq Key] in
theorem filed_nil : Filed Storable [] :=
  ⟨List.nodup_nil, fun _ member => absurd member List.not_mem_nil⟩

theorem Filed.set (filed : Filed Storable vars) {var : PushedVar Key} (storable : Storable var) :
    Filed Storable (set before var.key var.stored vars) := by
  refine ⟨nodup_set filed.distinct _ _ _, fun entry member => ?_⟩
  rcases mem_set member with isVar | old
  · exact ⟨var, storable, isVar⟩
  · exact filed.pushed entry old

theorem Filed.merge (filed : Filed Storable vars) {var : PushedVar Key}
    (storable : Storable var) : Filed Storable (merge before vars var.entry) := by
  rw [Cache.merge]
  split
  · exact filed.set storable
  · split
    · exact filed.set storable
    · exact filed

theorem Filed.foldl_merge (filed : Filed Storable vars) {kept : List (PushedVar Key)}
    (storable : ∀ var ∈ kept, Storable var) :
    Filed Storable ((kept.map PushedVar.entry).foldl (Cache.merge before) vars) := by
  induction kept generalizing vars with
  | nil => exact filed
  | cons var kept ih =>
      exact ih (filed.merge (storable var List.mem_cons_self))
        fun other member => storable other (List.mem_cons_of_mem _ member)

theorem Filed.mergeVar (filed : Filed Storable vars) (var : PushedVar Key) :
    mergeVar before vars var.key var.stored = some (Cache.merge before vars var.entry) := by
  rw [Cache.mergeVar, Cache.merge, PushedVar.entry]
  cases found : find var.key vars with
  | none => rfl
  | some old =>
      obtain ⟨other, -, isEntry⟩ := filed.pushed _ (mem_of_find found)
      have isOld : old = other.stored := congrArg Prod.snd isEntry
      rw [isOld]
      rfl

/-- The lines of variables are merged one after the other. -/
theorem reloadLines_merge {read : List UInt8 → Option (Key × StoredVar)} {nOldVersion : Nat}
    {lineText : PushedVar Key → List UInt8} {kept : List (PushedVar Key)} {reloaded : Reloaded Key}
    (reads : ∀ var ∈ kept, Storable var ∧ lineText var ≠ [] ∧ (lineText var).headD 0 ≠ 0x23 ∧
      read (lineText var) = some var.entry)
    (filed : Filed Storable reloaded.vars) :
    reloadLines before read nOldVersion reloaded (kept.map lineText) =
      some { reloaded with
        vars := (kept.map PushedVar.entry).foldl (Cache.merge before) reloaded.vars } := by
  induction kept generalizing reloaded with
  | nil => rfl
  | cons var kept ih =>
      obtain ⟨storable, nonempty, noVersion, isEntry⟩ := reads var List.mem_cons_self
      rw [List.map_cons, reloadLines, if_neg nonempty, if_neg noVersion, isEntry]
      simp only [PushedVar.entry, filed.mergeVar]
      rw [ih (fun other member => reads other (List.mem_cons_of_mem _ member))
        (filed.merge storable)]
      rfl

end Merging

/-! ## One file -/

/-- What a kind of variables has: the lines of variables that a file can hold are read back,
and a variable that was just pushed is saved. -/
structure VarKind.Lawful (kind : VarKind Key) (lineText : PushedVar Key → List UInt8)
    (Storable : PushedVar Key → Prop) : Prop where
  line : ∀ var, Storable var → kind.line var.entry = some (lineText var)
  file : ∀ nVersion vars, vars ≠ [] → (∀ var ∈ vars, Storable var) →
    (getlines (varFile nVersion (vars.map lineText))).map kind.trim =
      fileLines nVersion (vars.map lineText)
  read : ∀ var, Storable var → lineText var ≠ [] ∧ (lineText var).headD 0 ≠ 0x23 ∧
    kind.read (lineText var) = some var.entry
  fresh : ∀ (key : Key) (value : List UInt8) (now : Int),
    kind.saves now (PushedVar.stored ⟨key, value, now, now⟩) = true

section Kind

variable {kind : VarKind Key} {lineText : PushedVar Key → List UInt8}
  {Storable : PushedVar Key → Prop}

omit [DecidableEq Key] in
theorem exists_pushed {vars : VarMap Key}
    (pushed : ∀ entry ∈ vars, ∃ var : PushedVar Key, Storable var ∧ entry = var.entry) :
    ∃ kept : List (PushedVar Key), vars = kept.map PushedVar.entry ∧
      ∀ var ∈ kept, Storable var := by
  induction vars with
  | nil => exact ⟨[], rfl, fun _ member => absurd member List.not_mem_nil⟩
  | cons entry vars ih =>
      obtain ⟨kept, isKept, storable⟩ := ih fun other member =>
        pushed other (List.mem_cons_of_mem _ member)
      obtain ⟨var, isStorable, rfl⟩ := pushed entry List.mem_cons_self
      refine ⟨var :: kept, by rw [isKept, List.map_cons], ?_⟩
      rw [List.forall_mem_cons]
      exact ⟨isStorable, storable⟩

/-- A file with the lines of some variables. -/
structure FileOf (lineText : PushedVar Key → List UInt8) (Storable : PushedVar Key → Prop)
    (version : Nat) (kept : List (PushedVar Key)) (file : Option (List UInt8)) : Prop where
  nonempty : kept ≠ []
  storable : ∀ var ∈ kept, Storable var
  distinct : ((kept.map PushedVar.entry).map Prod.fst).Nodup
  positive : 0 < version
  small : version < 2 ^ 64
  isFile : file = varFile (version - 1) (kept.map lineText)

/-- What reloading a file does: nothing if its version is on record. -/
theorem reload_fileOf (law : kind.Lawful lineText Storable) {version : Nat}
    {kept : List (PushedVar Key)} {file : Option (List UInt8)} {reloaded : Reloaded Key}
    (fileOf : FileOf lineText Storable version kept file) (filed : Filed Storable reloaded.vars) :
    kind.reload reloaded file =
      if reloaded.version = version then some reloaded
      else some ⟨(kept.map PushedVar.entry).foldl (merge kind.before) reloaded.vars, version⟩ := by
  obtain ⟨nonempty, storable, -, positive, small, rfl⟩ := fileOf
  have isVersion : (version - 1 + 1) % 2 ^ 64 = version := by
    rw [Nat.sub_add_cancel positive, Nat.mod_eq_of_lt small]
  rw [VarKind.reload, law.file _ _ nonempty storable, reloadLines_fileLines, isVersion]
  split
  · rfl
  · exact reloadLines_merge (fun var member =>
      ⟨storable var member, law.read var (storable var member)⟩) filed

omit [DecidableEq Key] in
theorem find_filter [DecidableEq Key] {vars : VarMap Key}
    (distinct : (vars.map Prod.fst).Nodup) (saves : StoredVar → Bool) (key : Key) :
    find key (vars.filter fun entry => saves entry.2) = (find key vars).filter saves := by
  induction vars with
  | nil => rfl
  | cons entry vars ih =>
      rw [List.map_cons, List.nodup_cons] at distinct
      rw [List.filter_cons, find]
      by_cases same : entry.1 = key
      · have absent : find key vars = none := find_eq_none.mpr (same ▸ distinct.1)
        rw [if_pos same]
        split
        · rename_i saved
          rw [find, if_pos same, Option.filter_some, if_pos saved]
        · rename_i notSaved
          rw [ih distinct.2, absent, Option.filter_some, if_neg notSaved]
          rfl
      · rw [if_neg same, ← ih distinct.2]
        split
        · rw [find, if_neg same]
        · rfl

omit [DecidableEq Key] in
/-- What saving does: it writes a file with the variables that are saved, if there are any. -/
theorem save_eq (law : kind.Lawful lineText Storable) {vars : VarMap Key}
    (filed : Filed Storable vars) (nVersion : Nat) (now : Int) :
    ∃ kept : List (PushedVar Key), (vars.filter fun entry => kind.saves now entry.2) =
        kept.map PushedVar.entry ∧ (∀ var ∈ kept, Storable var) ∧
      kind.save nVersion now vars = some (varFile nVersion (kept.map lineText)) := by
  have pushed : ∀ entry ∈ vars.filter fun entry => kind.saves now entry.2,
      ∃ var : PushedVar Key, Storable var ∧ entry = var.entry := fun entry member =>
    filed.pushed entry (List.mem_of_mem_filter member)
  obtain ⟨kept, isKept, storable⟩ := exists_pushed pushed
  refine ⟨kept, isKept, storable, ?_⟩
  have lines : (kept.map PushedVar.entry).mapM kind.line = some (kept.map lineText) := by
    clear isKept
    induction kept with
    | nil => rfl
    | cons var kept ih =>
        rw [List.forall_mem_cons] at storable
        rw [List.map_cons, List.mapM_cons, law.line var storable.1, ih storable.2]
        rfl
  rw [VarKind.save, isKept, lines, Option.map_some]

end Kind

/-! ## The register of a key -/

/-- The copies of a variable in the processes and in the files. -/
structure Represents {Process : Type} (lineText : PushedVar Key → List UInt8)
    (Storable : PushedVar Key → Prop) (key : Key) (processes : Processes Process Key)
    (copies : Copies Process StoredVar) : Prop where
  filed : ∀ process, Filed Storable (processes.caches process).vars
  memory : ∀ process, copies.memory process = find key (processes.caches process).vars
  seen : ∀ process, copies.seen process = (processes.caches process).fileVersions
  file : ∀ owner, (copies.version owner = 0 ∧ processes.files owner = none ∧
      copies.file owner = none) ∨
    ∃ kept, FileOf lineText Storable (copies.version owner) kept (processes.files owner) ∧
      copies.file owner = find key (kept.map PushedVar.entry)

section Steps

variable {Process : Type} [DecidableEq Process] {kind : VarKind Key}
  {lineText : PushedVar Key → List UInt8} {Storable : PushedVar Key → Prop} {key : Key}
  {processes : Processes Process Key} {copies : Copies Process StoredVar}

omit [DecidableEq Process] in
theorem represents_initial :
    Represents lineText Storable key (noVars : Processes Process Key) Copies.initial :=
  ⟨fun _ => filed_nil, fun _ => rfl, fun _ => rfl, fun _ => .inl ⟨rfl, rfl, rfl⟩⟩

namespace Represents

/-- The `memory_cache` of a process is replaced. -/
theorem setCache (represents : Represents lineText Storable key processes copies)
    (process : Process) {cache : ProcessCache Process Key} (filed : Filed Storable cache.vars) :
    Represents lineText Storable key (processes.setCache process cache)
      { copies with
        memory := Function.update copies.memory process (find key cache.vars)
        seen := Function.update copies.seen process cache.fileVersions } where
  filed := by
    intro other
    rw [Processes.caches_setCache]
    split
    · exact filed
    · exact represents.filed other
  memory := by
    intro other
    simp only [Processes.caches_setCache, Function.update_apply]
    split
    · rfl
    · exact represents.memory other
  seen := by
    intro other
    simp only [Processes.caches_setCache, Function.update_apply]
    split
    · rfl
    · exact represents.seen other
  file := represents.file

/-- One round of the loop over the files. -/
theorem reloadFile (law : kind.Lawful lineText Storable) {process : Process}
    {cache : ProcessCache Process Key}
    (represents : Represents lineText Storable key (processes.setCache process cache) copies)
    {owner : Process} (seen : copies.seen process owner ≤ copies.version owner) :
    ∃ after, Processes.reloadFile kind processes.files cache owner = some after ∧
      Represents lineText Storable key (processes.setCache process after)
        (copies.absorb createTime process owner) := by
  have isCache : (processes.setCache process cache).caches process = cache := by
    rw [Processes.caches_setCache, if_pos rfl]
  have filed := represents.filed process
  have versions := represents.seen process
  have memory := represents.memory process
  rw [isCache] at filed versions memory
  rw [versions] at seen
  -- a file whose version is on record, or that is not there
  have unchanged (upToDate : cache.fileVersions owner = copies.version owner)
      (same : kind.reload ⟨cache.vars, cache.fileVersions owner⟩ (processes.files owner) =
        some ⟨cache.vars, cache.fileVersions owner⟩) :
      ∃ after, Processes.reloadFile kind processes.files cache owner = some after ∧
        Represents lineText Storable key (processes.setCache process after)
          (copies.absorb createTime process owner) := by
    refine ⟨cache, ?_, ?_⟩
    · rw [Processes.reloadFile, same, Option.map_some, Function.update_eq_self]
    · rw [Copies.absorb, versions, if_pos upToDate]
      exact represents
  rcases represents.file owner with ⟨isZero, noFile, -⟩ | ⟨kept, fileOf, isCopy⟩
  · have noFile' : processes.files owner = none := noFile
    refine unchanged (by omega) ?_
    rw [noFile']
    rfl
  · have outcome := @reload_fileOf Key _ kind lineText Storable law _ _ _
      ⟨cache.vars, cache.fileVersions owner⟩ fileOf filed
    by_cases upToDate : cache.fileVersions owner = copies.version owner
    · refine unchanged upToDate ?_
      rw [if_pos upToDate] at outcome
      exact outcome
    · rw [if_neg upToDate] at outcome
      refine ⟨⟨(kept.map PushedVar.entry).foldl (merge kind.before) cache.vars,
        Function.update cache.fileVersions owner (copies.version owner)⟩, ?_, ?_⟩
      · have isFile : (processes.setCache process cache).files owner = processes.files owner := rfl
        rw [isFile] at outcome
        rw [Processes.reloadFile, outcome, Option.map_some]
      · have merged : Filed Storable
            ((kept.map PushedVar.entry).foldl (merge kind.before) cache.vars) :=
          filed.foldl_merge fileOf.storable
        have replaced := @setCache Key _ Process _ lineText Storable key _ copies represents process
          ⟨_, Function.update cache.fileVersions owner (copies.version owner)⟩ merged
        rw [Processes.setCache_setCache] at replaced
        simp only at replaced
        rw [find_foldl_merge _ fileOf.distinct, ← memory, ← isCopy] at replaced
        rw [Copies.absorb, versions, if_neg upToDate]
        exact replaced

/-- The loop over the files. -/
theorem reloadVars (law : kind.Lawful lineText Storable)
    {last : Option (Process × StoredVar)} {process : Process}
    {cache : ProcessCache Process Key} (readdir : List Process)
    (represents : Represents lineText Storable key (processes.setCache process cache) copies)
    (coherent : Coherent createTime last copies) :
    ∃ after, Processes.reloadVars kind processes.files readdir cache = some after ∧
      Represents lineText Storable key (processes.setCache process after)
        (copies.absorbAll createTime process readdir) := by
  induction readdir generalizing cache copies with
  | nil => exact ⟨cache, rfl, represents⟩
  | cons owner readdir ih =>
      obtain ⟨between, isBetween, known⟩ :=
        represents.reloadFile law (coherent.seen process owner)
      obtain ⟨after, isAfter, behind⟩ := ih known (coherent.absorb process owner)
      refine ⟨after, ?_, behind⟩
      rw [Processes.reloadVars, isBetween]
      exact isAfter

theorem reload (law : kind.Lawful lineText Storable) {last : Option (Process × StoredVar)}
    (represents : Represents lineText Storable key processes copies)
    (coherent : Coherent createTime last copies) (process : Process) (readdir : List Process) :
    ∃ after, Processes.reload kind process readdir processes = some after ∧
      Represents lineText Storable key after (copies.absorbAll createTime process readdir) ∧
      after.files = processes.files := by
  have same : processes.setCache process (processes.caches process) = processes := by
    rw [Processes.setCache, Function.update_eq_self]
  rw [← same] at represents
  obtain ⟨after, isAfter, known⟩ := represents.reloadVars law readdir coherent
  refine ⟨processes.setCache process after, ?_, known, rfl⟩
  rw [Processes.reload, isAfter, Option.map_some]

/-- A process saves its variables, if there are any to save. -/
theorem saveVars (law : kind.Lawful lineText Storable)
    (represents : Represents lineText Storable key processes copies) (process : Process)
    (now : Int) (small : (processes.caches process).fileVersions process + 1 < 2 ^ 64) :
    ∃ after, Processes.saveVars kind process now processes = some after ∧
      ((after = processes ∧ ((processes.caches process).vars.filter
          fun entry => kind.saves now entry.2) = []) ∨
        Represents lineText Storable key after (copies.publish process
          ((find key (processes.caches process).vars).all (kind.saves now)))) := by
  have filed := represents.filed process
  have versions := represents.seen process
  obtain ⟨kept, isKept, storable, saved⟩ :=
    save_eq law filed ((processes.caches process).fileVersions process) now
  by_cases empty : kept = []
  · refine ⟨processes, ?_, .inl ⟨rfl, by rw [isKept, empty, List.map_nil]⟩⟩
    rw [Processes.saveVars]
    rw [empty] at saved
    simp only [saved]
    rfl
  · have hasFile : varFile ((processes.caches process).fileVersions process)
        (kept.map lineText) = some (Lines.joined 0x0a (fileLines
          ((processes.caches process).fileVersions process) (kept.map lineText))) :=
      if_neg fun none => empty (List.map_eq_nil_iff.mp none)
    have distinct : ((kept.map PushedVar.entry).map Prod.fst).Nodup := by
      rw [← isKept]
      exact (List.filter_sublist.map Prod.fst).nodup filed.distinct
    have copy : find key (kept.map PushedVar.entry) =
        (find key (processes.caches process).vars).filter (kind.saves now) := by
      rw [← isKept, find_filter filed.distinct]
    have isVersion : ((processes.caches process).fileVersions process + 1) % 2 ^ 64 =
        (processes.caches process).fileVersions process + 1 := Nat.mod_eq_of_lt small
    rw [Processes.saveVars]
    simp only [saved, hasFile, isVersion]
    refine ⟨_, rfl, .inr ?_⟩
    refine ⟨?_, ?_, ?_, ?_⟩
    · intro other
      simp only [Function.update_apply]
      split
      · exact filed
      · exact represents.filed other
    · intro other
      simp only [Function.update_apply, Copies.publish]
      split
      · rename_i self
        rw [self]
        exact represents.memory process
      · exact represents.memory other
    · intro other
      simp only [Function.update_apply, Copies.publish]
      split
      · rw [versions]
      · exact represents.seen other
    · intro owner
      simp only [Function.update_apply, Copies.publish]
      split
      · refine .inr ⟨kept, ⟨empty, storable, distinct, Nat.succ_pos _, ?_, ?_⟩, ?_⟩
        · rw [versions]
          exact small
        · rw [versions, Nat.add_sub_cancel]
          exact hasFile.symm
        · rw [copy, represents.memory process]
          cases find key (processes.caches process).vars with
          | none => rfl
          | some stored => rfl
      · exact represents.file owner

end Represents

end Steps

/-! ## Runs -/

section Runs

variable {Process : Type} [DecidableEq Process]

/-- The processes behind some operations, and the last push under a key. -/
structure KeyHistory (Process Key : Type) where
  processes : Option (Processes Process Key)
  last : Option (Process × PushedVar Key)

/-- Before the first operation. -/
def KeyHistory.initial : KeyHistory Process Key :=
  ⟨some noVars, none⟩

/-- One more operation. -/
def follow (kind : VarKind Key) (key : Key) (history : KeyHistory Process Key)
    (operation : VarOperation Process Key) : KeyHistory Process Key :=
  ⟨history.processes.bind fun processes => processes.step kind operation,
    lastPush key history.last operation⟩

/-- A listing of the directory has every file. -/
def Complete (processes : Processes Process Key) (readdir : List Process) : Prop :=
  ∀ owner, processes.files owner ≠ none → owner ∈ readdir

/-- The version of a file does not wrap around, and the file keeps the variable if the
process was the last one to push it. -/
def SavesLast (kind : VarKind Key) (key : Key) (last : Option (Process × PushedVar Key))
    (processes : Processes Process Key) (process : Process) (now : Int) : Prop :=
  (processes.caches process).fileVersions process + 1 < 2 ^ 64 ∧
    ∀ var, last = some (process, var) →
      (find key (processes.caches process).vars).all (kind.saves now) = true

/-- An operation that keeps the last push of a key: a file can hold what is pushed; a push
under the key is later than the one before it; no file drops the variable that its process
was the last one to push; and the directory is listed as a whole. -/
def KeepsLast (kind : VarKind Key) (Storable : PushedVar Key → Prop) (key : Key)
    (last : Option (Process × PushedVar Key)) (processes : Processes Process Key) :
    VarOperation Process Key → Prop
  | .push process pushed value now =>
      Storable ⟨pushed, value, now, now⟩ ∧
        (if pushed = key then
          (processes.caches process).fileVersions process + 1 < 2 ^ 64 ∧
            ∀ other var, last = some (other, var) → var.create < now
        else SavesLast kind key last processes process now)
  | .get _ _ readdir => Complete processes readdir
  | .restart process unloaded readdir =>
      (∀ now, unloaded = some now → SavesLast kind key last processes process now) ∧
        ∀ after, processes.unload kind process unloaded = some after → Complete after readdir

/-- Every operation keeps the last push of a key where it stands. -/
def Careful (kind : VarKind Key) (Storable : PushedVar Key → Prop) (key : Key)
    (history : KeyHistory Process Key) (operation : VarOperation Process Key) : Prop :=
  ∀ processes, history.processes = some processes →
    KeepsLast kind Storable key history.last processes operation

/-- What a register has of a push. -/
def stampOf (push : Process × PushedVar Key) : Process × StoredVar :=
  (push.1, push.2.stored)

/-- The copies of the variable are sound. -/
def Follows (lineText : PushedVar Key → List UInt8) (Storable : PushedVar Key → Prop) (key : Key)
    (history : KeyHistory Process Key) : Prop :=
  ∃ processes copies, history.processes = some processes ∧
    Represents lineText Storable key processes copies ∧
    Sound createTime (history.last.map stampOf) copies ∧ Synced copies

variable {kind : VarKind Key} {lineText : PushedVar Key → List UInt8}
  {Storable : PushedVar Key → Prop} {key : Key} {history : KeyHistory Process Key}
  {processes : Processes Process Key} {copies : Copies Process StoredVar}

omit [DecidableEq Process] in
theorem follows_initial : Follows lineText Storable key
    (KeyHistory.initial : KeyHistory Process Key) :=
  ⟨noVars, Copies.initial, rfl, represents_initial, sound_initial, synced_initial⟩

omit [DecidableEq Process] in
/-- A listing that has every file has the files of all versions. -/
theorem Represents.complete (represents : Represents lineText Storable key processes copies)
    {readdir : List Process} (complete : Complete processes readdir) :
    ∀ owner, copies.version owner ≠ 0 → owner ∈ readdir := by
  intro owner written
  rcases represents.file owner with ⟨isZero, -, -⟩ | ⟨kept, fileOf, -⟩
  · exact absurd isZero written
  · refine complete owner fun noFile => fileOf.nonempty ?_
    have isFile := fileOf.isFile
    rw [noFile, varFile] at isFile
    split at isFile
    · rename_i empty
      exact List.map_eq_nil_iff.mp empty
    · cases isFile

/-- Saving keeps the last push. -/
theorem Follows.saveVars (law : kind.Lawful lineText Storable)
    {last : Option (Process × PushedVar Key)}
    (represents : Represents lineText Storable key processes copies)
    (sound : Sound createTime (last.map stampOf) copies) (synced : Synced copies)
    {process : Process} {now : Int} (saves : SavesLast kind key last processes process now) :
    ∃ after copies', Processes.saveVars kind process now processes = some after ∧
      Represents lineText Storable key after copies' ∧
      Sound createTime (last.map stampOf) copies' ∧ Synced copies' := by
  obtain ⟨after, isAfter, ⟨rfl, -⟩ | published⟩ := represents.saveVars law process now saves.1
  · exact ⟨after, copies, isAfter, represents, sound, synced⟩
  · refine ⟨after, _, isAfter, published, sound.publish (synced process) ?_,
      synced.publish process _⟩
    by_cases wrote : ∃ var, last = some (process, var)
    · obtain ⟨var, isLast⟩ := wrote
      exact .inl (saves.2 var isLast)
    · refine .inr fun latest isLast => wrote ?_
      obtain ⟨⟨other, var⟩, isPush, isStamp⟩ := Option.map_eq_some_iff.mp isLast
      cases isStamp
      exact ⟨var, isPush⟩

/-- The `memory_cache` behind the assignment of a push. -/
def pushedCache (kind : VarKind Key) (var : PushedVar Key) (cache : ProcessCache Process Key) :
    ProcessCache Process Key :=
  { cache with vars := set kind.before var.key var.stored cache.vars }

theorem Represents.pushedCache (represents : Represents lineText Storable key processes copies)
    (kind : VarKind Key) (process : Process) {var : PushedVar Key} (storable : Storable var) :
    Represents lineText Storable key
      (processes.setCache process (pushedCache kind var (processes.caches process)))
      { copies with
        memory := Function.update copies.memory process
          (if var.key = key then some var.stored else copies.memory process) } := by
  have filed : Filed Storable (Cache.pushedCache kind var (processes.caches process)).vars :=
    (represents.filed process).set storable
  have replaced := represents.setCache process filed
  have versions : (Cache.pushedCache kind var (processes.caches process)).fileVersions =
      copies.seen process := (represents.seen process).symm
  rw [versions, Function.update_eq_self, Cache.pushedCache] at replaced
  simp only [find_set, ← represents.memory process] at replaced
  exact replaced

/-- Pushing a variable, by the register of its key. -/
theorem Follows.push_same (law : kind.Lawful lineText Storable)
    {last : Option (Process × PushedVar Key)}
    (represents : Represents lineText Storable key processes copies)
    (sound : Sound createTime (last.map stampOf) copies) (synced : Synced copies)
    {process : Process} {value : List UInt8} {now : Int}
    (storable : Storable ⟨key, value, now, now⟩)
    (small : (processes.caches process).fileVersions process + 1 < 2 ^ 64)
    (later : ∀ other var, last = some (other, var) → var.create < now) :
    ∃ after copies', Processes.pushVar kind process key value now processes = some after ∧
      Represents lineText Storable key after copies' ∧
      Sound createTime (some (stampOf (process, ⟨key, value, now, now⟩))) copies' ∧
      Synced copies' := by
  have fresh := law.fresh key value now
  have assigned := represents.pushedCache kind process storable
  rw [if_pos rfl] at assigned
  have cache : (processes.setCache process (pushedCache kind ⟨key, value, now, now⟩
      (processes.caches process))).caches process =
      pushedCache kind ⟨key, value, now, now⟩ (processes.caches process) := by
    rw [Processes.caches_setCache, if_pos rfl]
  have found : find key (pushedCache kind ⟨key, value, now, now⟩ (processes.caches process)).vars =
      some (PushedVar.stored ⟨key, value, now, now⟩) := by
    rw [pushedCache, find_set, if_pos rfl]
  obtain ⟨after, isAfter, ⟨-, nothing⟩ | published⟩ :=
    assigned.saveVars law process now (by rw [cache]; exact small)
  · rw [cache] at nothing
    have saved : (key, PushedVar.stored ⟨key, value, now, now⟩) ∈
        (pushedCache kind ⟨key, value, now, now⟩ (processes.caches process)).vars.filter
          fun entry => kind.saves now entry.2 :=
      List.mem_filter.mpr ⟨mem_of_find found, fresh⟩
    rw [nothing] at saved
    cases saved
  · rw [cache, found, Option.all_some, fresh] at published
    refine ⟨after, _, isAfter, published, sound.write (synced process) ?_, ?_⟩
    · intro writer latest isLast
      obtain ⟨⟨other, var⟩, isPush, isStamp⟩ := Option.map_eq_some_iff.mp isLast
      cases isStamp
      exact later other var isPush
    · exact Synced.publish synced process true

/-- Pushing a variable under another key. -/
theorem Follows.push_other (law : kind.Lawful lineText Storable)
    {last : Option (Process × PushedVar Key)}
    (represents : Represents lineText Storable key processes copies)
    (sound : Sound createTime (last.map stampOf) copies) (synced : Synced copies)
    {process : Process} {pushed : Key} {value : List UInt8} {now : Int} (other : pushed ≠ key)
    (storable : Storable ⟨pushed, value, now, now⟩)
    (saves : SavesLast kind key last processes process now) :
    ∃ after copies', Processes.pushVar kind process pushed value now processes = some after ∧
      Represents lineText Storable key after copies' ∧
      Sound createTime (last.map stampOf) copies' ∧ Synced copies' := by
  have assigned := represents.pushedCache kind process storable
  rw [if_neg other, Function.update_eq_self] at assigned
  refine Follows.saveVars law assigned sound synced ?_
  have cache : (processes.setCache process (pushedCache kind ⟨pushed, value, now, now⟩
      (processes.caches process))).caches process =
      pushedCache kind ⟨pushed, value, now, now⟩ (processes.caches process) := by
    rw [Processes.caches_setCache, if_pos rfl]
  rw [SavesLast, cache, pushedCache, find_set, if_neg other]
  exact saves

/-- Starting a process anew. -/
theorem Follows.restart (law : kind.Lawful lineText Storable)
    {last : Option (Process × PushedVar Key)}
    (represents : Represents lineText Storable key processes copies)
    (sound : Sound createTime (last.map stampOf) copies) (synced : Synced copies)
    {process : Process} {unloaded : Option Int} {readdir : List Process}
    (saves : ∀ now, unloaded = some now → SavesLast kind key last processes process now)
    (complete : ∀ after, processes.unload kind process unloaded = some after →
      Complete after readdir) :
    ∃ after copies', Processes.restart kind process unloaded readdir processes = some after ∧
      Represents lineText Storable key after copies' ∧
      Sound createTime (last.map stampOf) copies' ∧ Synced copies' := by
  have unloading : ∃ between copies', processes.unload kind process unloaded = some between ∧
      Represents lineText Storable key between copies' ∧
      Sound createTime (last.map stampOf) copies' ∧ Synced copies' := by
    cases unloaded with
    | none => exact ⟨processes, copies, rfl, represents, sound, synced⟩
    | some now => exact Follows.saveVars law represents sound synced (saves now rfl)
  obtain ⟨between, copies', isBetween, represents', sound', synced'⟩ := unloading
  have filed : Filed Storable (newCache : ProcessCache Process Key).vars := filed_nil
  have forgotten : Represents lineText Storable key (between.setCache process newCache)
      (copies'.forget process) := represents'.setCache process filed
  obtain ⟨after, isAfter, known, -⟩ :=
    forgotten.reload law (sound'.forget process).toCoherent process readdir
  refine ⟨after, _, ?_, known, (sound'.forget process).absorbAll process readdir,
    sound'.synced_restart synced' (represents'.complete (complete between isBetween)) process⟩
  rw [Processes.restart, isBetween]
  exact isAfter

/-- Every careful operation keeps the copies sound. -/
theorem Follows.step (law : kind.Lawful lineText Storable)
    (follows : Follows lineText Storable key history) {operation : VarOperation Process Key}
    (careful : Careful kind Storable key history operation) :
    Follows lineText Storable key (follow kind key history operation) := by
  obtain ⟨processes, copies, isProcesses, represents, sound, synced⟩ := follows
  have keeps := careful processes isProcesses
  rw [follow, isProcesses]
  cases operation with
  | push process pushed value now =>
      obtain ⟨storable, saves⟩ := keeps
      by_cases same : pushed = key
      · subst same
        rw [if_pos rfl] at saves
        rw [lastPush, if_pos rfl]
        exact Follows.push_same law represents sound synced storable saves.1 saves.2
      · rw [if_neg same] at saves
        rw [lastPush, if_neg same]
        exact Follows.push_other law represents sound synced same storable saves
  | get process other readdir =>
      obtain ⟨after, isAfter, known, -⟩ := represents.reload law sound.toCoherent process readdir
      exact ⟨after, _, isAfter, known, sound.absorbAll process readdir,
        synced.absorbAll process readdir⟩
  | restart process unloaded readdir =>
      exact Follows.restart law represents sound synced keeps.1 keeps.2

/-- Every process gets the last push. -/
theorem Follows.getVar (law : kind.Lawful lineText Storable)
    (follows : Follows lineText Storable key history) :
    ∃ processes, history.processes = some processes ∧
      ∀ process readdir, Complete processes readdir →
        processes.getVar kind process key readdir =
          some (history.last.map fun push => push.2.encodedValue) := by
  obtain ⟨processes, copies, isProcesses, represents, sound, -⟩ := follows
  refine ⟨processes, isProcesses, fun process readdir complete => ?_⟩
  obtain ⟨after, isAfter, known, -⟩ := represents.reload law sound.toCoherent process readdir
  have latest := sound.memory_absorbAll (represents.complete complete) process
  rw [known.memory process, Option.map_map] at latest
  rw [Processes.getVar, isAfter, Option.map_some, latest, Option.map_map]
  rfl

/-- Behind some operations every process gets the last push under a key. -/
def GetsLast (kind : VarKind Key) (key : Key) (operations : List (VarOperation Process Key)) :
    Prop :=
  ∃ processes, (operations.foldl (follow kind key) KeyHistory.initial).processes =
      some processes ∧
    ∀ process readdir, Complete processes readdir →
      processes.getVar kind process key readdir =
        some ((operations.foldl (follow kind key) KeyHistory.initial).last.map
          fun push => push.2.encodedValue)

theorem getsLast_of_careful (law : kind.Lawful lineText Storable)
    {operations : List (VarOperation Process Key)}
    (careful : Replay.Throughout (follow kind key) (Careful kind Storable key)
      KeyHistory.initial operations) : GetsLast kind key operations := by
  have start : Follows lineText Storable key (KeyHistory.initial : KeyHistory Process Key) :=
    follows_initial
  exact (careful.invariant start fun _ follows _ _ now => follows.step law now).getVar law

end Runs

/-! ## Server variables and session variables -/

/-- A server variable that is read back as it is. -/
structure ServerVar.Reliable (var : ServerVar) : Prop extends ServerVar.Storable var where
  nulFree : 0 ∉ var.key
  access : -2 ^ 31 ≤ var.access ∧ var.access < 2 ^ 31

/-- A session variable that is read back as it is. -/
structure SessionVar.Reliable (var : SessionVar) : Prop extends SessionVar.Storable var where
  nulFree : 0 ∉ var.key.1 ∧ 0 ∉ var.key.2
  access : -2 ^ 31 ≤ var.access ∧ var.access < 2 ^ 31

theorem readEntry_eq {Key : Type} {var : PushedVar Key}
    (create : -2 ^ 31 ≤ var.create ∧ var.create < 2 ^ 31)
    (access : -2 ^ 31 ≤ var.access ∧ var.access < 2 ^ 31) : var.readEntry = var.entry := by
  rw [PushedVar.readEntry, toInt_of_bounds create.1 create.2, toInt_of_bounds access.1 access.2]
  rfl

theorem lawful_serverVars : serverVars.Lawful ServerVar.lineText ServerVar.Reliable where
  line := by
    intro var _
    rw [ServerVar.line_eq, if_pos trivial]
  file := by
    intro nVersion vars nonempty reliable
    have lines := getlines_serverFile nonempty nVersion fun var member =>
      (reliable var member).name.not_mem
    rw [lines]
    exact map_strtrim_fileLines nVersion vars
  read := by
    intro var reliable
    have reads := reliable.toStorable.reads reliable.nulFree
    rw [readEntry_eq reliable.create reliable.access] at reads
    exact reads
  fresh := fun _ _ _ => rfl

theorem lawful_sessionVars : sessionVars.Lawful SessionVar.lineText SessionVar.Reliable where
  line := by
    intro var reliable
    rw [SessionVar.line_eq, if_pos reliable.length.1]
  file := by
    intro nVersion vars nonempty reliable
    have lines := getlines_sessionFile nonempty nVersion fun var member =>
      ⟨fun isEnd => ((reliable var member).separators _ isEnd).2 rfl,
        (reliable var member).name.not_mem⟩
    rw [lines]
    exact List.map_id _
  read := by
    intro var reliable
    have reads := reliable.toStorable.reads reliable.nulFree
    rw [readEntry_eq reliable.create reliable.access] at reads
    exact reads
  fresh := by
    intro key value now
    have none : now - now ≤ 90 := by omega
    exact decide_eq_true none

/-- Behind operations that all keep the last push of a server variable or of a session
variable, every process gets it. -/
theorem getsLast {Process : Type} [DecidableEq Process] :
    (∀ (key : List UInt8) (operations : List (VarOperation Process (List UInt8))),
      Replay.Throughout (follow serverVars key) (Careful serverVars ServerVar.Reliable key)
        KeyHistory.initial operations → GetsLast serverVars key operations) ∧
    ∀ (key : List UInt8 × List UInt8)
      (operations : List (VarOperation Process (List UInt8 × List UInt8))),
      Replay.Throughout (follow sessionVars key) (Careful sessionVars SessionVar.Reliable key)
        KeyHistory.initial operations → GetsLast sessionVars key operations :=
  ⟨fun _ _ careful => getsLast_of_careful lawful_serverVars careful,
    fun _ _ careful => getsLast_of_careful lawful_sessionVars careful⟩

/-- Two processes push under a key, and one of them is restarted in between. -/
def trialOperations (key : Key) : List (VarOperation Bool Key) :=
  [.push false key (octets "1") 5, .restart false none [false, true],
    .push true key (octets "2") 6]

omit [DecidableEq Key] in
theorem complete_both (processes : Processes Bool Key) : Complete processes [false, true] := by
  intro owner _
  cases owner with
  | false => exact List.mem_cons_self
  | true => exact List.mem_cons_of_mem _ List.mem_cons_self

theorem careful_trial {kind : VarKind Key} {Storable : PushedVar Key → Prop} {key : Key}
    (first : Storable ⟨key, octets "1", 5, 5⟩) (second : Storable ⟨key, octets "2", 6, 6⟩)
    (unseen : (((trialOperations key).take 2).foldl (follow kind key)
      KeyHistory.initial).processes.map (fun processes =>
        (processes.caches true).fileVersions true) = some 0) :
    Replay.Throughout (follow kind key) (Careful kind Storable key) KeyHistory.initial
      (trialOperations key) := by
  refine Replay.throughout_cons.mpr ⟨?_, Replay.throughout_cons.mpr ⟨?_,
    Replay.throughout_cons.mpr ⟨?_, Replay.throughout_nil⟩⟩⟩
  · intro processes isProcesses
    cases isProcesses
    rw [KeepsLast, if_pos rfl]
    refine ⟨first, (by decide : 0 + 1 < 2 ^ 64), fun other var isLast => ?_⟩
    cases isLast
  · intro processes _
    refine ⟨fun now isUnloaded => ?_, fun after _ => complete_both after⟩
    cases isUnloaded
  · intro processes isProcesses
    have version : (processes.caches true).fileVersions true = 0 := by
      have known := unseen
      rw [trialOperations, List.take_succ_cons, List.take_succ_cons, List.take_zero,
        List.foldl_cons, List.foldl_cons, List.foldl_nil, isProcesses] at known
      exact Option.some.inj known
    rw [KeepsLast, if_pos rfl, version]
    refine ⟨second, by decide, fun other var isLast => ?_⟩
    rw [follow, follow, lastPush, lastPush, if_pos rfl] at isLast
    cases isLast
    exact (by decide : (5 : Int) < 6)

theorem getsLast_trial : GetsLast serverVars (octets "a") (trialOperations (octets "a")) ∧
    GetsLast sessionVars trialSessionVar.key (trialOperations trialSessionVar.key) := by
  have name : PlainName (octets "a") := plainName_of_all (by decide)
  have sessionName : PlainName trialSessionVar.key.2 := plainName_of_all (by decide)
  have uid : PlainName trialSessionVar.key.1 := plainName_of_all (by decide)
  have length : 31 ≤ trialSessionVar.key.1.length ∧ trialSessionVar.key.1.length ≤ 32 := by
    decide
  have noVersion : trialSessionVar.key.1.headD 0 ≠ 0x23 := by decide
  have nulFree : 0 ∉ trialSessionVar.key.1 ∧ 0 ∉ trialSessionVar.key.2 := by decide
  have session (now : Int) (value : List UInt8) (bounds : -2 ^ 31 ≤ now ∧ now < 2 ^ 31) :
      SessionVar.Reliable ⟨trialSessionVar.key, value, now, now⟩ :=
    ⟨⟨sessionName, bounds, length,
      fun ch member => ⟨(uid.separators ch member).1, (uid.separators ch member).2.2⟩,
      uid.trimmed, noVersion⟩, nulFree, bounds⟩
  refine ⟨getsLast.1 _ _ (careful_trial ?_ ?_ (by decide)),
    getsLast.2 _ _ (careful_trial ?_ ?_ (by decide))⟩
  · exact ⟨⟨name, by decide⟩, by decide, by decide⟩
  · exact ⟨⟨name, by decide⟩, by decide, by decide⟩
  · exact session 5 (octets "1") (by decide)
  · exact session 6 (octets "2") (by decide)

/-- Of two pushes in one second, the process of the first one keeps its own. -/
theorem not_getsLast : ¬GetsLast serverVars (octets "a")
    [.push false (octets "a") (octets "1") 5, .push true (octets "a") (octets "2") 5] := by
  rintro ⟨processes, isProcesses, gets⟩
  have got : ([VarOperation.push false (octets "a") (octets "1") 5,
      .push true (octets "a") (octets "2") 5].foldl (follow serverVars (octets "a"))
        KeyHistory.initial).processes.map (fun processes =>
          processes.getVar serverVars false (octets "a") [false, true]) =
      some (some (some (octets "1"))) := by decide
  rw [isProcesses, Option.map_some, gets false [false, true] (complete_both processes)] at got
  exact absurd got (by decide)

end Cache

end HeapHttpd
