import HeapHttpd.Cache.VariableRoundTrip
import Mathlib.Logic.Function.Basic

/-!
# Variables of several processes

Processes that share a directory for variables: each one has its `memory_cache` and a file
in it.  Pushing a variable saves the file of the process, getting one reloads the files of
all, and a process that is restarted reloads them when it loads its `memory_cache`.
-/

namespace HeapHttpd

namespace Cache

variable {Process Key : Type} [DecidableEq Process] [DecidableEq Key]

/-- The variables of one kind in a `memory_cache`, and the versions of the files that it
has on record. -/
structure ProcessCache (Process Key : Type) where
  vars : VarMap Key
  fileVersions : Process → Nat

/-- The processes and the files in the directory for variables. -/
structure Processes (Process Key : Type) where
  caches : Process → ProcessCache Process Key
  files : Process → Option (List UInt8)

/-- A `memory_cache` of a new process. -/
def newCache : ProcessCache Process Key :=
  ⟨[], fun _ => 0⟩

/-- No process has pushed a variable yet. -/
def noVars : Processes Process Key :=
  ⟨fun _ => newCache, fun _ => none⟩

/-- What a process does. -/
inductive VarOperation (Process Key : Type)
  | push (process : Process) (key : Key) (value : List UInt8) (now : Int)
  | get (process : Process) (key : Key) (readdir : List Process)
  | restart (process : Process) (unloaded : Option Int) (readdir : List Process)

namespace Processes

variable (kind : VarKind Key)

/-- The `memory_cache` of a process is replaced. -/
def setCache (processes : Processes Process Key) (process : Process)
    (cache : ProcessCache Process Key) : Processes Process Key :=
  { processes with caches := Function.update processes.caches process cache }

omit [DecidableEq Key] in
theorem caches_setCache (processes : Processes Process Key) (process : Process)
    (cache : ProcessCache Process Key) (other : Process) :
    (processes.setCache process cache).caches other =
      if other = process then cache else processes.caches other :=
  Function.update_apply ..

omit [DecidableEq Key] in
theorem setCache_setCache (processes : Processes Process Key) (process : Process)
    (first second : ProcessCache Process Key) :
    (processes.setCache process first).setCache process second =
      processes.setCache process second := by
  simp only [setCache, Function.update_idem]

/-- `_save_server_vars_` or `_save_session_vars_`. -/
def saveVars (process : Process) (now : Int) (processes : Processes Process Key) :
    Option (Processes Process Key) :=
  let cache := processes.caches process
  match kind.save (cache.fileVersions process) now cache.vars with
  | none => none
  | some none => some processes
  | some (some file) =>
      let nVersion := (cache.fileVersions process + 1) % 2 ^ 64
      let versions := Function.update cache.fileVersions process nVersion
      some
        { caches := Function.update processes.caches process { cache with fileVersions := versions }
          files := Function.update processes.files process (some file) }

/-- `push_server_var` or `push_session_var`. -/
def pushVar (process : Process) (key : Key) (value : List UInt8) (now : Int)
    (processes : Processes Process Key) : Option (Processes Process Key) :=
  let cache := processes.caches process
  let pVar := PushedVar.stored ⟨key, value, now, now⟩
  saveVars kind process now (processes.setCache process
    { cache with vars := OrderedMap.set kind.before key pVar cache.vars })

/-- One round of the loop over the files. -/
def reloadFile (files : Process → Option (List UInt8)) (cache : ProcessCache Process Key)
    (owner : Process) : Option (ProcessCache Process Key) :=
  (kind.reload ⟨cache.vars, cache.fileVersions owner⟩ (files owner)).map fun reloaded =>
    { vars := reloaded.vars
      fileVersions := Function.update cache.fileVersions owner reloaded.version }

/-- `_reload_server_vars_` or `_reload_session_vars_`, with the files in the order of
`readdir`. -/
def reloadVars (files : Process → Option (List UInt8)) :
    List Process → ProcessCache Process Key → Option (ProcessCache Process Key)
  | [], cache => some cache
  | owner :: readdir, cache =>
      match reloadFile kind files cache owner with
      | none => none
      | some cache => reloadVars files readdir cache

/-- The loop over the files, with a process that keeps what it read. -/
def reload (process : Process) (readdir : List Process) (processes : Processes Process Key) :
    Option (Processes Process Key) :=
  (reloadVars kind processes.files readdir (processes.caches process)).map fun cache =>
    processes.setCache process cache

/-- What `get_server_var` or `get_session_var` finds. -/
def getVar (process : Process) (key : Key) (readdir : List Process)
    (processes : Processes Process Key) : Option (Option (List UInt8)) :=
  (reload kind process readdir processes).map fun processes =>
    (OrderedMap.find key (processes.caches process).vars).map StoredVar.value

/-- `unload` of a process, unless it is killed. -/
def unload (process : Process) (unloaded : Option Int) (processes : Processes Process Key) :
    Option (Processes Process Key) :=
  match unloaded with
  | none => some processes
  | some now => saveVars kind process now processes

/-- A process ends, and the next one loads its `memory_cache`. -/
def restart (process : Process) (unloaded : Option Int) (readdir : List Process)
    (processes : Processes Process Key) : Option (Processes Process Key) :=
  (unload kind process unloaded processes).bind fun processes =>
    reload kind process readdir (processes.setCache process newCache)

/-- What comes of an operation, unless something is read that was never set. -/
def step (processes : Processes Process Key) : VarOperation Process Key → Option (Processes Process Key)
  | .push process key value now => pushVar kind process key value now processes
  | .get process _ readdir => reload kind process readdir processes
  | .restart process unloaded readdir => restart kind process unloaded readdir processes

end Processes

/-- The value that `SetServerVar` or `SetSessionVar` pushes last under a key, and who does. -/
def lastPush (key : Key) (last : Option (Process × PushedVar Key)) :
    VarOperation Process Key → Option (Process × PushedVar Key)
  | .push process pushed value now =>
      if pushed = key then some (process, ⟨key, value, now, now⟩) else last
  | .get _ _ _ => last
  | .restart _ _ _ => last

end Cache

end HeapHttpd
