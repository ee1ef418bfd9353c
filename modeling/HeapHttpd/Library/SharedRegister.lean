import Mathlib.Logic.Function.Basic
import Mathlib.Tactic.Common

/-!
# A register in files

Processes share a register: each of them has a copy in memory and a copy in a file of its
own, which it writes with a new version.  A process takes over what is younger in the files of
the others, and does not read a file whose version it has seen.
-/

namespace HeapHttpd

namespace SharedRegister

/-- The copies of the register, the versions of the files, and the versions that each
process has seen. -/
structure Copies (Process Stamp : Type*) where
  memory : Process → Option Stamp
  file : Process → Option Stamp
  version : Process → Nat
  seen : Process → Process → Nat

variable {Process Stamp : Type*}

/-- A value that is there, unless another one is younger. -/
def younger (time : Stamp → Int) : Option Stamp → Option Stamp → Option Stamp
  | none, other => other
  | some own, none => some own
  | some own, some other => if time own < time other then some other else some own

namespace Copies

/-- Nothing is written yet. -/
def initial : Copies Process Stamp :=
  ⟨fun _ => none, fun _ => none, fun _ => 0, fun _ _ => 0⟩

variable [DecidableEq Process]

/-- A process writes its file, with or without its copy. -/
def publish (process : Process) (kept : Bool) (copies : Copies Process Stamp) :
    Copies Process Stamp :=
  { copies with
    file := Function.update copies.file process (if kept then copies.memory process else none)
    version := Function.update copies.version process (copies.seen process process + 1)
    seen := Function.update copies.seen process
      (Function.update (copies.seen process) process (copies.seen process process + 1)) }

/-- A process writes to the register and then its file. -/
def write (process : Process) (stamp : Stamp) (copies : Copies Process Stamp) :
    Copies Process Stamp :=
  publish process true
    { copies with memory := Function.update copies.memory process (some stamp) }

/-- A process reads a file, unless it has seen its version. -/
def absorb (time : Stamp → Int) (reader owner : Process) (copies : Copies Process Stamp) :
    Copies Process Stamp :=
  if copies.seen reader owner = copies.version owner then copies
  else
    { copies with
      memory := Function.update copies.memory reader
        (younger time (copies.memory reader) (copies.file owner))
      seen := Function.update copies.seen reader
        (Function.update (copies.seen reader) owner (copies.version owner)) }

/-- A process starts anew. -/
def forget (process : Process) (copies : Copies Process Stamp) : Copies Process Stamp :=
  { copies with
    memory := Function.update copies.memory process none
    seen := Function.update copies.seen process fun _ => 0 }

end Copies

/-- A value is the latest one, or older. -/
def Behind (time : Stamp → Int) (last : Option (Process × Stamp)) (stamp : Stamp) : Prop :=
  ∃ writer latest, last = some (writer, latest) ∧ (time stamp < time latest ∨ stamp = latest)

/-- No copy is ahead of the last write, and who has seen the version of a file has a copy
that is as young as the one in the file. -/
structure Coherent (time : Stamp → Int) (last : Option (Process × Stamp))
    (copies : Copies Process Stamp) : Prop where
  memory : ∀ process stamp, copies.memory process = some stamp → Behind time last stamp
  file : ∀ process stamp, copies.file process = some stamp → Behind time last stamp
  unwritten : ∀ process, copies.version process = 0 → copies.file process = none
  seen : ∀ reader owner, copies.seen reader owner ≤ copies.version owner
  known : ∀ reader owner stamp, copies.seen reader owner = copies.version owner →
    copies.file owner = some stamp →
    ∃ own, copies.memory reader = some own ∧ time stamp ≤ time own

/-- The copies are coherent, and the file of the last writer has what it wrote. -/
structure Sound (time : Stamp → Int) (last : Option (Process × Stamp))
    (copies : Copies Process Stamp) : Prop extends Coherent time last copies where
  writer : ∀ process latest, last = some (process, latest) → copies.file process = some latest

variable {time : Stamp → Int} {last : Option (Process × Stamp)} {copies : Copies Process Stamp}

theorem sound_initial : Sound time none (Copies.initial : Copies Process Stamp) := by
  refine ⟨⟨?_, ?_, fun _ _ => rfl, fun _ _ => Nat.le_refl 0, ?_⟩, ?_⟩
  · intro process stamp isCopy
    cases isCopy
  · intro process stamp isCopy
    cases isCopy
  · intro reader owner stamp _ isCopy
    cases isCopy
  · intro process latest isLast
    cases isLast

theorem Behind.eq_of_le {stamp latest : Stamp} {writer : Process}
    (behind : Behind time (some (writer, latest)) stamp) (young : time latest ≤ time stamp) :
    stamp = latest := by
  obtain ⟨_, _, isLast, older | same⟩ := behind
  · cases isLast
    omega
  · cases isLast
    exact same

variable [DecidableEq Process]

namespace Coherent

/-- A process that has seen its own file writes it anew. -/
theorem publish (coherent : Coherent time last copies) {process : Process} (kept : Bool)
    (synced : copies.seen process process = copies.version process) :
    Coherent time last (copies.publish process kept) where
  memory := coherent.memory
  file := by
    intro owner stamp isCopy
    simp only [Copies.publish] at isCopy
    by_cases own : owner = process
    · rw [own, Function.update_self] at isCopy
      split at isCopy
      · exact coherent.memory process stamp isCopy
      · cases isCopy
    · rw [Function.update_of_ne own] at isCopy
      exact coherent.file owner stamp isCopy
  unwritten := by
    intro owner isZero
    simp only [Copies.publish] at isZero ⊢
    by_cases own : owner = process
    · rw [own, Function.update_self] at isZero
      omega
    · rw [Function.update_of_ne own] at isZero ⊢
      exact coherent.unwritten owner isZero
  seen := by
    intro reader owner
    simp only [Copies.publish]
    have before := coherent.seen reader owner
    by_cases self : reader = process
    · rw [self, Function.update_self]
      by_cases own : owner = process
      · refine Nat.le_of_eq ?_
        rw [own, Function.update_self, Function.update_self]
      · rw [Function.update_of_ne own, Function.update_of_ne own, ← self]
        exact before
    · rw [Function.update_of_ne self]
      by_cases own : owner = process
      · rw [own] at before ⊢
        rw [Function.update_self]
        omega
      · rw [Function.update_of_ne own]
        exact before
  known := by
    intro reader owner stamp upToDate isCopy
    simp only [Copies.publish] at upToDate isCopy ⊢
    by_cases own : owner = process
    · rw [own, Function.update_self] at upToDate isCopy
      by_cases self : reader = process
      · split at isCopy
        · exact ⟨stamp, self ▸ isCopy, Int.le_refl _⟩
        · cases isCopy
      · rw [Function.update_of_ne self] at upToDate
        have before := coherent.seen reader process
        omega
    · rw [Function.update_of_ne own] at isCopy upToDate
      refine coherent.known reader owner stamp ?_ isCopy
      by_cases self : reader = process
      · rw [self, Function.update_self, Function.update_of_ne own] at upToDate
        rw [self]
        exact upToDate
      · rwa [Function.update_of_ne self] at upToDate

/-- A process changes its copy to a value that is younger than the last one. -/
theorem assign (coherent : Coherent time last copies) {process : Process} {stamp : Stamp}
    (later : ∀ writer latest, last = some (writer, latest) → time latest < time stamp) :
    Coherent time (some (process, stamp))
      { copies with memory := Function.update copies.memory process (some stamp) } := by
  have older {other : Stamp} (behind : Behind time last other) : time other < time stamp := by
    obtain ⟨writer, latest, isLast, before | same⟩ := behind
    · exact Int.lt_trans before (later writer latest isLast)
    · exact same ▸ later writer latest isLast
  refine ⟨?_, ?_, coherent.unwritten, coherent.seen, ?_⟩
  · intro other copy isCopy
    simp only at isCopy
    by_cases own : other = process
    · rw [own, Function.update_self] at isCopy
      cases isCopy
      exact ⟨process, stamp, rfl, .inr rfl⟩
    · rw [Function.update_of_ne own] at isCopy
      exact ⟨process, stamp, rfl, .inl (older (coherent.memory other copy isCopy))⟩
  · intro other copy isCopy
    exact ⟨process, stamp, rfl, .inl (older (coherent.file other copy isCopy))⟩
  · intro reader owner copy upToDate isCopy
    simp only
    by_cases self : reader = process
    · rw [self, Function.update_self]
      exact ⟨stamp, rfl, Int.le_of_lt (older (coherent.file owner copy isCopy))⟩
    · rw [Function.update_of_ne self]
      exact coherent.known reader owner copy upToDate isCopy

/-- A process reads a file. -/
theorem absorb (coherent : Coherent time last copies) (reader owner : Process) :
    Coherent time last (copies.absorb time reader owner) := by
  rw [Copies.absorb]
  split
  · exact coherent
  · have grows {stamp : Stamp} (own : copies.memory reader = some stamp) :
        ∃ merged, younger time (copies.memory reader) (copies.file owner) = some merged ∧
          time stamp ≤ time merged := by
      rw [own]
      cases copies.file owner with
      | none => exact ⟨stamp, rfl, Int.le_refl _⟩
      | some other =>
          rw [younger]
          split
          · rename_i before
            exact ⟨other, rfl, Int.le_of_lt before⟩
          · exact ⟨stamp, rfl, Int.le_refl _⟩
    have reaches {stamp : Stamp} (isCopy : copies.file owner = some stamp) :
        ∃ merged, younger time (copies.memory reader) (copies.file owner) = some merged ∧
          time stamp ≤ time merged := by
      rw [isCopy]
      cases copies.memory reader with
      | none => exact ⟨stamp, rfl, Int.le_refl _⟩
      | some own =>
          rw [younger]
          split
          · exact ⟨stamp, rfl, Int.le_refl _⟩
          · rename_i notBefore
            exact ⟨own, rfl, Int.not_lt.mp notBefore⟩
    have comes {stamp : Stamp}
        (isMerged : younger time (copies.memory reader) (copies.file owner) = some stamp) :
        copies.memory reader = some stamp ∨ copies.file owner = some stamp := by
      cases own : copies.memory reader with
      | none =>
          rw [own] at isMerged
          exact .inr isMerged
      | some mine =>
          cases other : copies.file owner with
          | none =>
              rw [own, other] at isMerged
              exact .inl isMerged
          | some theirs =>
              rw [own, other, younger] at isMerged
              split at isMerged
              · exact .inr isMerged
              · exact .inl isMerged
    refine ⟨?_, coherent.file, coherent.unwritten, ?_, ?_⟩
    · intro other stamp isCopy
      simp only at isCopy
      by_cases self : other = reader
      · rw [self, Function.update_self] at isCopy
        exact (comes isCopy).elim (coherent.memory reader stamp) (coherent.file owner stamp)
      · rw [Function.update_of_ne self] at isCopy
        exact coherent.memory other stamp isCopy
    · intro other process
      simp only
      by_cases self : other = reader
      · rw [self, Function.update_self]
        by_cases own : process = owner
        · refine Nat.le_of_eq ?_
          rw [own, Function.update_self]
        · rw [Function.update_of_ne own]
          exact coherent.seen reader process
      · rw [Function.update_of_ne self]
        exact coherent.seen other process
    · intro other process stamp upToDate isCopy
      simp only at upToDate isCopy ⊢
      by_cases self : other = reader
      · rw [self, Function.update_self] at upToDate ⊢
        by_cases own : process = owner
        · exact reaches (own ▸ isCopy)
        · rw [Function.update_of_ne own] at upToDate
          obtain ⟨mine, isMine, young⟩ := coherent.known reader process stamp upToDate isCopy
          obtain ⟨merged, isMerged, younger'⟩ := grows isMine
          exact ⟨merged, isMerged, Int.le_trans young younger'⟩
      · rw [Function.update_of_ne self] at upToDate ⊢
        exact coherent.known other process stamp upToDate isCopy

/-- A process starts anew. -/
theorem forget (coherent : Coherent time last copies) (process : Process) :
    Coherent time last (copies.forget process) := by
  refine ⟨?_, coherent.file, coherent.unwritten, ?_, ?_⟩
  · intro other stamp isCopy
    simp only [Copies.forget] at isCopy
    by_cases self : other = process
    · rw [self, Function.update_self] at isCopy
      cases isCopy
    · rw [Function.update_of_ne self] at isCopy
      exact coherent.memory other stamp isCopy
  · intro other owner
    simp only [Copies.forget]
    by_cases self : other = process
    · rw [self, Function.update_self]
      exact Nat.zero_le _
    · rw [Function.update_of_ne self]
      exact coherent.seen other owner
  · intro other owner stamp upToDate isCopy
    simp only [Copies.forget] at upToDate isCopy ⊢
    by_cases self : other = process
    · rw [self, Function.update_self] at upToDate
      rw [coherent.unwritten owner upToDate.symm] at isCopy
      cases isCopy
    · rw [Function.update_of_ne self] at upToDate ⊢
      exact coherent.known other owner stamp upToDate isCopy

end Coherent

namespace Sound

omit [DecidableEq Process] in
/-- Who has seen the file of the last writer has the last value. -/
theorem memory_eq (sound : Sound time last copies) {reader writer : Process} {latest : Stamp}
    (isLast : last = some (writer, latest))
    (upToDate : copies.seen reader writer = copies.version writer) :
    copies.memory reader = some latest := by
  obtain ⟨own, isOwn, young⟩ :=
    sound.known reader writer latest upToDate (sound.writer writer latest isLast)
  have behind := sound.memory reader own isOwn
  rw [isLast] at behind
  rw [isOwn, behind.eq_of_le young]

omit [DecidableEq Process] in
theorem memory_eq_none (sound : Sound time (none : Option (Process × Stamp)) copies) (reader : Process) :
    copies.memory reader = none := by
  cases isCopy : copies.memory reader with
  | none => rfl
  | some stamp =>
      obtain ⟨_, _, isLast, -⟩ := sound.memory reader stamp isCopy
      cases isLast

/-- A process that has seen its own file writes it anew.  It keeps its copy if it was the
last one to write. -/
theorem publish (sound : Sound time last copies) {process : Process} {kept : Bool}
    (synced : copies.seen process process = copies.version process)
    (isKept : kept = true ∨ ∀ latest, last ≠ some (process, latest)) :
    Sound time last (copies.publish process kept) where
  toCoherent := sound.toCoherent.publish kept synced
  writer := by
    intro owner latest isLast
    simp only [Copies.publish]
    by_cases own : owner = process
    · subst own
      rw [Function.update_self, if_pos (isKept.resolve_right fun other => other latest isLast)]
      exact sound.memory_eq isLast synced
    · rw [Function.update_of_ne own]
      exact sound.writer owner latest isLast

/-- A process that has seen its own file writes a value that is younger than the last one. -/
theorem write (sound : Sound time last copies) {process : Process} {stamp : Stamp}
    (synced : copies.seen process process = copies.version process)
    (later : ∀ writer latest, last = some (writer, latest) → time latest < time stamp) :
    Sound time (some (process, stamp)) (copies.write process stamp) where
  toCoherent := (sound.toCoherent.assign later).publish true synced
  writer := by
    intro owner latest isLast
    cases isLast
    simp only [Copies.write, Copies.publish, Function.update_self]
    rfl

theorem absorb (sound : Sound time last copies) (reader owner : Process) :
    Sound time last (copies.absorb time reader owner) where
  toCoherent := sound.toCoherent.absorb reader owner
  writer := by
    intro process latest isLast
    rw [Copies.absorb]
    split
    · exact sound.writer process latest isLast
    · exact sound.writer process latest isLast

theorem forget (sound : Sound time last copies) (process : Process) :
    Sound time last (copies.forget process) where
  toCoherent := sound.toCoherent.forget process
  writer := sound.writer

end Sound

/-! ## Reading all files -/

namespace Copies

/-- A process reads some files, one after the other. -/
def absorbAll (time : Stamp → Int) (reader : Process) (owners : List Process)
    (copies : Copies Process Stamp) : Copies Process Stamp :=
  owners.foldl (fun copies owner => copies.absorb time reader owner) copies

theorem version_absorb (reader owner : Process) :
    (copies.absorb time reader owner).version = copies.version := by
  rw [absorb]
  split <;> rfl

theorem seen_absorb (reader owner other process : Process) :
    (copies.absorb time reader owner).seen other process =
      if other = reader ∧ process = owner then copies.version owner
      else copies.seen other process := by
  rw [absorb]
  split
  · rename_i upToDate
    split
    · rename_i both
      rw [both.1, both.2, upToDate]
    · rfl
  · simp only
    by_cases self : other = reader
    · rw [self, Function.update_self]
      by_cases own : process = owner
      · rw [own, Function.update_self, if_pos ⟨rfl, rfl⟩]
      · rw [Function.update_of_ne own, if_neg fun both => own both.2]
    · rw [Function.update_of_ne self, if_neg fun both => self both.1]

theorem version_absorbAll (reader : Process) (owners : List Process) :
    (copies.absorbAll time reader owners).version = copies.version := by
  induction owners generalizing copies with
  | nil => rfl
  | cons owner owners ih =>
      have rest := @ih (copies.absorb time reader owner)
      rw [version_absorb] at rest
      exact rest

theorem seen_absorbAll (reader : Process) (owners : List Process) (other process : Process) :
    (copies.absorbAll time reader owners).seen other process =
      if other = reader ∧ process ∈ owners then copies.version process
      else copies.seen other process := by
  induction owners generalizing copies with
  | nil => rw [if_neg fun both => List.not_mem_nil both.2]; rfl
  | cons owner owners ih =>
      have rest := @ih (copies.absorb time reader owner)
      rw [version_absorb, seen_absorb] at rest
      refine rest.trans ?_
      by_cases self : other = reader
      · by_cases own : process = owner
        · simp [self, own]
        · simp [self, own]
      · simp [self]

end Copies

/-- Every process has seen its own file. -/
def Synced (copies : Copies Process Stamp) : Prop :=
  ∀ process, copies.seen process process = copies.version process

omit [DecidableEq Process] in
theorem synced_initial : Synced (Copies.initial : Copies Process Stamp) :=
  fun _ => rfl

theorem Synced.publish (synced : Synced copies) (process : Process) (kept : Bool) :
    Synced (copies.publish process kept) := by
  intro other
  simp only [Copies.publish]
  by_cases self : other = process
  · rw [self, Function.update_self, Function.update_self, Function.update_self]
  · rw [Function.update_of_ne self, Function.update_of_ne self]
    exact synced other

theorem Synced.absorbAll (synced : Synced copies) (reader : Process) (owners : List Process) :
    Synced (copies.absorbAll time reader owners) := by
  intro process
  rw [Copies.version_absorbAll, Copies.seen_absorbAll]
  split
  · rfl
  · exact synced process

namespace Sound

theorem absorbAll (sound : Sound time last copies) (reader : Process) (owners : List Process) :
    Sound time last (copies.absorbAll time reader owners) := by
  induction owners generalizing copies with
  | nil => exact sound
  | cons owner owners ih => exact ih (sound.absorb reader owner)

/-- Who reads every file that was written has seen all of them. -/
theorem upToDate (sound : Sound time last copies) {owners : List Process}
    (complete : ∀ owner, copies.version owner ≠ 0 → owner ∈ owners) (reader owner : Process) :
    (copies.absorbAll time reader owners).seen reader owner = copies.version owner := by
  rw [Copies.seen_absorbAll]
  split
  · rfl
  · rename_i notRead
    have isZero : copies.version owner = 0 := by
      by_contra written
      exact notRead ⟨rfl, complete owner written⟩
    have seen := sound.seen reader owner
    omega

/-- Who reads every file that was written has the last value. -/
theorem memory_absorbAll (sound : Sound time last copies) {owners : List Process}
    (complete : ∀ owner, copies.version owner ≠ 0 → owner ∈ owners) (reader : Process) :
    (copies.absorbAll time reader owners).memory reader = last.map Prod.snd := by
  have after := sound.absorbAll reader owners
  cases last with
  | none => exact after.memory_eq_none reader
  | some both =>
      obtain ⟨writer, latest⟩ := both
      refine after.memory_eq rfl ?_
      rw [sound.upToDate complete, Copies.version_absorbAll]

/-- A process that starts anew and reads every file has seen its own one. -/
theorem synced_restart (sound : Sound time last copies) (synced : Synced copies)
    {owners : List Process} (complete : ∀ owner, copies.version owner ≠ 0 → owner ∈ owners)
    (process : Process) : Synced ((copies.forget process).absorbAll time process owners) := by
  intro other
  by_cases self : other = process
  · rw [self, (sound.forget process).upToDate complete, Copies.version_absorbAll]
  · rw [Copies.version_absorbAll, Copies.seen_absorbAll, if_neg fun both => self both.1]
    simp only [Copies.forget]
    rw [Function.update_of_ne self]
    exact synced other

end Sound

end SharedRegister

end HeapHttpd
