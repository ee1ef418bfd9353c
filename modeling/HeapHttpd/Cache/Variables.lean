import HeapHttpd.Http1.Cookies
import HeapHttpd.Http1.Htdoc
import HeapHttpd.Library.Lines

/-!
# Variables and their files

The session variables and server variables of `memory_cache`: the file that
`_save_session_vars_` or `_save_server_vars_` writes, and what `_reload_session_vars_` or
`_reload_server_vars_` takes from it.  The two kinds of variables differ in their keys,
and a line for a session variable starts with the identifier of the session.
-/

namespace HeapHttpd

namespace Cache

open General
open Http1 (isSpace)
open Http1.Htdoc (vSplitString)
open Tunneling (stringBefore atoi)
open Http2 (toInt)

/-- The order of `session_var_key`. -/
def sessionKeyBefore (first second : List UInt8 × List UInt8) : Bool :=
  stringBefore first.1 second.1 || (first.1 == second.1 && stringBefore first.2 second.2)

/-- A variable in a `memory_cache`.  A member that its constructor has not set has no
value. -/
structure StoredVar where
  value : List UInt8
  create : Option Int
  access : Option Int
  deriving DecidableEq

/-- A map with variables. -/
abbrev VarMap (Key : Type) := List (Key × StoredVar)

/-- The times, the name and the value of a line; there is no outcome if a time was never
set. -/
def fieldsText (name : List UInt8) (var : StoredVar) : Option (List UInt8) :=
  match var.create, var.access with
  | some create, some access =>
      some (sprintfD (toInt create) ++ octets ";" ++ (sprintfD (toInt access) ++ octets ";" ++
        (name ++ octets "=" ++ var.value)))
  | _, _ => none

/-- The `memcpy` of an identifier, which may read no more than its NUL. -/
def copyUid (uid : List UInt8) : Option (List UInt8) :=
  if 31 ≤ uid.length then some (uid.take 32) else none

/-- The line of a server variable. -/
def serverLine (entry : List UInt8 × StoredVar) : Option (List UInt8) :=
  fieldsText entry.1 entry.2

/-- The line of a session variable. -/
def sessionLine (entry : (List UInt8 × List UInt8) × StoredVar) : Option (List UInt8) :=
  match copyUid entry.1.1, fieldsText entry.1.2 entry.2 with
  | some uid, some fields => some (uid ++ octets ";" ++ fields)
  | _, _ => none

/-- Whether `_save_session_vars_` saves a variable. -/
def bSave (now : Int) (var : StoredVar) : Bool :=
  match var.access with
  | some access => now - access ≤ 90
  | none => true

/-- The lines of a file: its version, and the variables. -/
def fileLines (nVersion : Nat) (lines : List (List UInt8)) : List (List UInt8) :=
  (octets "#" ++ Decimal.digits ((nVersion + 1) % 2 ^ 64)) :: lines

/-- The file that is written for some lines; without any, none is. -/
def varFile (nVersion : Nat) (lines : List (List UInt8)) : Option (List UInt8) :=
  if lines = [] then none else some (Lines.joined 0x0a (fileLines nVersion lines))

/-! ## Reloading -/

/-- `sscanf` with `"#%lu"`. -/
def scanVersion : List UInt8 → Option Nat
  | [] => none
  | ch :: rest =>
      let text := rest.dropWhile isSpace
      let sign := text.headD 0
      let digits := (if sign = 0x2d ∨ sign = 0x2b then text.tail else text).takeWhile Decimal.isDigit
      let number := Decimal.value digits
      if ch ≠ 0x23 ∨ digits = [] then none
      else if 2 ^ 64 ≤ number then some (2 ^ 64 - 1)
      else if sign = 0x2d then some ((2 ^ 64 - number) % 2 ^ 64)
      else some number

/-- The trimmed fields of a line. -/
def lineFields (szline : List UInt8) : List (List UInt8) :=
  (vSplitString (cString szline) (octets ";") true 0x7fffffff).map strtrim

/-- The name and the variable that a constructor takes from fields. -/
def varOfFields (fields : List (List UInt8)) : List UInt8 × StoredVar :=
  let strField := fields.getD 2 []
  (strtrim (strcutBefore strField 0x3d),
    { value := strtrim (strcutAfter strField 0x3d)
      create := fields[0]?.map atoi
      access := fields[1]?.map atoi })

/-- The key and the variable that `server_var` takes from a line. -/
def readServerVar (szline : List UInt8) : Option (List UInt8 × StoredVar) :=
  some (varOfFields (lineFields szline))

/-- The key and the variable that `session_var` takes from a line, unless its
identifier is not set or is read beyond its end. -/
def readSessionVar (szline : List UInt8) : Option ((List UInt8 × List UInt8) × StoredVar) :=
  match lineFields szline with
  | [] => none
  | uid :: fields =>
      (copyUid uid).map fun uid =>
        ((uid, (varOfFields fields).1), (varOfFields fields).2)

section Reloading

variable {Key : Type} [DecidableEq Key]

/-- The variables of a `memory_cache`, and the version it has on record for a file. -/
structure Reloaded (Key : Type) where
  vars : VarMap Key
  version : Nat
  deriving DecidableEq

/-- A variable is taken over, unless one of its key that is as young is there.  There is
no outcome if a time is read that was never set. -/
def mergeVar (before : Key → Key → Bool) (vars : VarMap Key) (key : Key) (var : StoredVar) :
    Option (VarMap Key) :=
  match OrderedMap.find key vars with
  | none => some (OrderedMap.set before key var vars)
  | some old =>
      match old.create, var.create with
      | some oldCreate, some newCreate =>
          some (if oldCreate < newCreate then OrderedMap.set before key var vars else vars)
      | _, _ => none

/-- The loop over the lines of a file. -/
def reloadLines (before : Key → Key → Bool) (read : List UInt8 → Option (Key × StoredVar))
    (nOldVersion : Nat) : Reloaded Key → List (List UInt8) → Option (Reloaded Key)
  | reloaded, [] => some reloaded
  | reloaded, strline :: lines =>
      if strline = [] then reloadLines before read nOldVersion reloaded lines
      else if strline.headD 0 = 0x23 then
        match scanVersion strline with
        | none => none
        | some nNewVersion =>
            if nOldVersion = nNewVersion then some reloaded
            else reloadLines before read nOldVersion { reloaded with version := nNewVersion } lines
      else
        match read strline with
        | none => none
        | some (key, var) =>
            match mergeVar before reloaded.vars key var with
            | none => none
            | some vars => reloadLines before read nOldVersion { reloaded with vars := vars } lines

end Reloading

/-- The lines that `getline` gives of a file, if there is one. -/
def getlines (file : Option (List UInt8)) : List (List UInt8) :=
  Lines.parted 0x0a [] (file.getD [])

/-! ## The two kinds -/

/-- What the functions for one kind of variables do in their own way: the order of the
keys, which variables are saved, the line of an entry, what is done to a line first, and
how it is read. -/
structure VarKind (Key : Type) where
  before : Key → Key → Bool
  saves : Int → StoredVar → Bool
  line : Key × StoredVar → Option (List UInt8)
  trim : List UInt8 → List UInt8
  read : List UInt8 → Option (Key × StoredVar)

/-- Server variables. -/
def serverVars : VarKind (List UInt8) :=
  { before := stringBefore
    saves := fun _ _ => true
    line := serverLine
    trim := strtrim
    read := readServerVar }

/-- Session variables. -/
def sessionVars : VarKind (List UInt8 × List UInt8) :=
  { before := sessionKeyBefore
    saves := bSave
    line := sessionLine
    trim := id
    read := readSessionVar }

namespace VarKind

variable {Key : Type} [DecidableEq Key] (kind : VarKind Key)

/-- The file that `_save_server_vars_` or `_save_session_vars_` writes, if any, behind
the version on record. -/
def save (nVersion : Nat) (now : Int) (vars : VarMap Key) : Option (Option (List UInt8)) :=
  ((vars.filter fun entry => kind.saves now entry.2).mapM kind.line).map (varFile nVersion)

/-- What `_reload_server_vars_` or `_reload_session_vars_` makes of one file. -/
def reload (reloaded : Reloaded Key) (file : Option (List UInt8)) : Option (Reloaded Key) :=
  reloadLines kind.before kind.read reloaded.version reloaded ((getlines file).map kind.trim)

end VarKind

end Cache

end HeapHttpd
