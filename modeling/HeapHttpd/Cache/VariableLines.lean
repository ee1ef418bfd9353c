import HeapHttpd.Cache.Variables
import HeapHttpd.Tunneling.ContentLength

/-!
# Lines of variables

A line of a variable is read back to the variable if its name has no separator and no
blank around it, and no line is read back to a name with anything else.
-/

namespace HeapHttpd

namespace Cache

open General
open Http1 (isSpace atoll decimal urlFormatEncode encoded_plain)
open Http1.Htdoc (vSplitString splitLoop)
open Tunneling (stringBefore atoi strtrim_inside)
open Http2 (toInt toInt_of_bounds)

/-! ## Variables that were pushed -/

/-- A variable that `SetSessionVar` or `SetServerVar` was called for. -/
structure PushedVar (Key : Type) where
  key : Key
  value : List UInt8
  create : Int
  access : Int

/-- A server variable that was pushed. -/
abbrev ServerVar := PushedVar (List UInt8)

/-- A session variable that was pushed. -/
abbrev SessionVar := PushedVar (List UInt8 × List UInt8)

namespace PushedVar

variable {Key : Type} (var : PushedVar Key)

/-- The value behind `NIU_URLFORMAT_ENCODE`. -/
def encodedValue : List UInt8 :=
  urlFormatEncode var.value.length var.value

/-- What is kept of a variable. -/
def stored : StoredVar :=
  ⟨var.encodedValue, some var.create, some var.access⟩

/-- The entry of a variable. -/
def entry : Key × StoredVar :=
  (var.key, var.stored)

/-- The last field of a line. -/
def keyVal (name : List UInt8) : List UInt8 :=
  name ++ octets "=" ++ var.encodedValue

/-- The part of a line that both kinds of variables have. -/
def text (name : List UInt8) : List UInt8 :=
  sprintfD (toInt var.create) ++ octets ";" ++
    (sprintfD (toInt var.access) ++ octets ";" ++ var.keyVal name)

theorem fieldsText_stored (name : List UInt8) :
    fieldsText name var.stored = some (var.text name) := rfl

end PushedVar

/-! ## Trimming -/

theorem strtrim_strtrim {text : List UInt8} (nulFree : 0 ∉ text) :
    strtrim (strtrim text) = strtrim text := by
  have free : 0 ∉ trimmed text := fun member => nulFree (mem_of_mem_trimmed member)
  rw [strtrim_eq_trimmed nulFree, strtrim_eq_trimmed free, trimmed_trimmed]

/-- A text whose first and last octets are no blanks is trimmed. -/
theorem strtrim_eq_self {first last : UInt8} {text : List UInt8} (front : text.head? = some first)
    (behind : text.getLast? = some last) (firstBlank : isBlank first = false)
    (lastBlank : isBlank last = false) : strtrim text = text := by
  cases text with
  | nil => cases front
  | cons ch text =>
      cases front
      have start : (first :: text).dropWhile isBlank = first :: text := by
        rw [List.dropWhile_cons, firstBlank]
        rfl
      have stop : (first :: text).rdropWhile isBlank = first :: text := by
        rw [List.rdropWhile_eq_self_iff]
        intro nonempty
        rw [List.getLast?_eq_getLast_of_ne_nil nonempty, Option.some.injEq] at behind
        rw [behind, lastBlank]
        exact Bool.false_ne_true
      rw [strtrim, start, stop, List.all_cons, firstBlank]
      split <;> rfl

theorem strtrim_of_unblank {text : List UInt8} (unblank : ∀ ch ∈ text, isBlank ch = false) :
    strtrim text = text := by
  cases text with
  | nil => rfl
  | cons ch text =>
      have last := List.getLast?_eq_getLast_of_ne_nil (List.cons_ne_nil ch text)
      exact strtrim_eq_self rfl last (unblank ch List.mem_cons_self)
        (unblank _ (List.getLast_mem _))

/-! ## Times -/

theorem digits_plain {number : Nat} :
    ∀ ch ∈ Decimal.digits number, 0x30 ≤ ch ∧ ch ≤ 0x39 := by
  intro ch member
  have isDigit := Decimal.isDigit_of_mem_digits member
  simpa only [Decimal.isDigit, Bool.and_eq_true, decide_eq_true_eq] using isDigit

/-- The octets of a time. -/
theorem sprintfD_octets {number : Int} {ch : UInt8} (member : ch ∈ sprintfD number) :
    ch = 0x2d ∨ (0x30 ≤ ch ∧ ch ≤ 0x39) := by
  rw [sprintfD] at member
  split at member
  · exact (List.mem_cons.mp member).imp id (digits_plain ch)
  · exact .inr (digits_plain ch member)

theorem sprintfD_ne_nil (number : Int) : sprintfD number ≠ [] := by
  rw [sprintfD]
  split
  · exact List.cons_ne_nil _ _
  · exact Decimal.digits_ne_nil _

theorem timeOctet_plain (ch : UInt8) : ch = 0x2d ∨ (0x30 ≤ ch ∧ ch ≤ 0x39) →
    ch ≠ 0x3b ∧ ch ≠ 0x3d ∧ ch ≠ 0x0a ∧ ch ≠ 0x23 ∧ ch ≠ 0 ∧ isBlank ch = false := by
  revert ch
  apply forall_octet
  decide +kernel

theorem toInt_bounds (value : Int) : -2 ^ 31 ≤ toInt value ∧ toInt value < 2 ^ 31 := by
  rw [toInt]
  omega

theorem atoll_sprintfD {number : Int} (low : -2 ^ 31 ≤ number) (high : number < 2 ^ 31) :
    atoll (sprintfD number) = number := by
  have whole : decimal (Decimal.digits number.natAbs) = number.natAbs :=
    Decimal.value_digits _
  rw [sprintfD]
  split
  · rename_i negative
    have all : (Decimal.digits number.natAbs).takeWhile (fun ch => 0x30 ≤ ch && ch ≤ 0x39) =
        Decimal.digits number.natAbs := by
      rw [List.takeWhile_eq_self_iff]
      intro ch member
      rw [Bool.and_eq_true, decide_eq_true_eq, decide_eq_true_eq]
      exact digits_plain ch member
    have kept : (0x2d :: Decimal.digits number.natAbs).dropWhile isSpace =
        0x2d :: Decimal.digits number.natAbs := by
      rw [List.dropWhile_cons]
      rfl
    rw [atoll, kept]
    simp only [all, whole]
    omega
  · rename_i positive
    rw [Tunneling.HeaderField.atoll_digits (Decimal.digits_ne_nil _) digits_plain, whole]
    omega

/-- A time is read back if it fits into an `int`. -/
theorem atoi_sprintfD (value : Int) : atoi (sprintfD (toInt value)) = toInt value := by
  obtain ⟨low, high⟩ := toInt_bounds value
  rw [atoi, atoll_sprintfD low high, toInt_of_bounds low high]

/-! ## Fields -/

theorem splitLoop_other {szSeparator : List UInt8} {ch : UInt8} (notSeparator : ch ∉ szSeparator)
    (emptyignore : Bool) (count : Nat) (strTemp rest : List UInt8) :
    splitLoop szSeparator emptyignore count strTemp (ch :: rest) =
      splitLoop szSeparator emptyignore count (strTemp ++ [ch]) rest := by
  cases count with
  | zero => rw [splitLoop, if_neg notSeparator]
  | succ count => rw [splitLoop, if_neg notSeparator]

theorem splitLoop_append {szSeparator front : List UInt8}
    (frontFree : ∀ ch ∈ front, ch ∉ szSeparator) (emptyignore : Bool) (count : Nat)
    (strTemp rest : List UInt8) :
    splitLoop szSeparator emptyignore count strTemp (front ++ rest) =
      splitLoop szSeparator emptyignore count (strTemp ++ front) rest := by
  induction front generalizing strTemp with
  | nil => rw [List.nil_append, List.append_nil]
  | cons ch front ih =>
      rw [List.cons_append, splitLoop_other (frontFree ch List.mem_cons_self),
        ih fun other member => frontFree other (List.mem_cons_of_mem _ member),
        List.append_assoc, List.singleton_append]

theorem not_mem_semicolon {text : List UInt8} (free : 0x3b ∉ text) :
    ∀ ch ∈ text, ch ∉ octets ";" := by
  intro ch member isSeparator
  have isSemicolon : ch = 0x3b := List.mem_singleton.mp isSeparator
  exact free (isSemicolon ▸ member)

/-- A field in front of a separator. -/
theorem splitLoop_field {front : List UInt8} (nonempty : front ≠ []) (free : 0x3b ∉ front)
    (count : Nat) (rest : List UInt8) :
    splitLoop (octets ";") true (count + 1) [] (front ++ octets ";" ++ rest) =
      front :: splitLoop (octets ";") true count [] rest := by
  have isSeparator : (0x3b : UInt8) ∈ octets ";" := List.mem_singleton.mpr rfl
  have separator : octets ";" ++ rest = 0x3b :: rest := rfl
  rw [List.append_assoc, splitLoop_append (not_mem_semicolon free), List.nil_append, separator,
    splitLoop, if_pos isSeparator]
  exact if_neg fun both => nonempty both.1

/-- The last field. -/
theorem splitLoop_last {front : List UInt8} (nonempty : front ≠ []) (free : 0x3b ∉ front)
    (nulFree : 0 ∉ front) (count : Nat) :
    splitLoop (octets ";") true count [] front = [front] := by
  have whole := splitLoop_append (not_mem_semicolon free) true count [] []
  rw [List.append_nil, List.nil_append] at whole
  rw [whole, splitLoop, cString_of_nulFree nulFree, if_neg fun both => nonempty both.1]

theorem mem_splitLoop {szSeparator : List UInt8} {emptyignore : Bool} {count : Nat}
    {strTemp text part : List UInt8}
    (member : part ∈ splitLoop szSeparator emptyignore count strTemp text) :
    part.Sublist (strTemp ++ text) := by
  induction text generalizing count strTemp with
  | nil =>
      rw [splitLoop] at member
      split at member
      · cases member
      · rw [List.mem_singleton.mp member, List.append_nil]
        exact (List.takeWhile_prefix _).sublist
  | cons ch rest ih =>
      by_cases isSeparator : ch ∈ szSeparator
      · cases count with
        | zero =>
            rw [splitLoop, if_pos isSeparator] at member
            simp only at member
            split at member
            · cases member
            · rw [List.mem_singleton.mp member]
              exact (List.takeWhile_prefix _).sublist
        | succ count =>
            have later (isLater : part ∈ splitLoop szSeparator emptyignore count [] rest) :
                part.Sublist (strTemp ++ ch :: rest) := by
              have isPart := ih isLater
              rw [List.nil_append] at isPart
              exact (isPart.cons ch).trans (List.sublist_append_right _ _)
            rw [splitLoop, if_pos isSeparator] at member
            split at member
            · exact later member
            · rcases List.mem_cons.mp member with rfl | isLater
              · exact List.sublist_append_left _ _
              · exact later isLater
      · rw [splitLoop_other isSeparator] at member
        have isPart := ih member
        rwa [List.append_assoc, List.singleton_append] at isPart

/-- A field has a separator only behind all the separators that are honoured. -/
theorem count_splitLoop {emptyignore : Bool} {count : Nat} {strTemp text part : List UInt8}
    (free : strTemp.count 0x3b = 0)
    (member : part ∈ splitLoop (octets ";") emptyignore count strTemp text) :
    part.count 0x3b = 0 ∨ part.count 0x3b + count ≤ text.count 0x3b := by
  induction text generalizing count strTemp with
  | nil =>
      rw [splitLoop] at member
      split at member
      · cases member
      · rw [List.mem_singleton.mp member]
        have fewer := (List.takeWhile_prefix (l := strTemp) (· ≠ 0)).sublist.count_le 0x3b
        exact .inl (by rw [cString]; omega)
  | cons ch rest ih =>
      by_cases isSeparator : ch ∈ octets ";"
      · have isSemicolon : ch = 0x3b := List.mem_singleton.mp isSeparator
        cases count with
        | zero =>
            rw [splitLoop, if_pos isSeparator] at member
            simp only at member
            split at member
            · cases member
            · rw [List.mem_singleton.mp member]
              have fewer := (List.takeWhile_prefix (l := strTemp ++ ch :: rest)
                (· ≠ 0)).sublist.count_le 0x3b
              rw [List.count_append] at fewer
              exact .inr (by rw [cString]; omega)
        | succ count =>
            have later (isLater : part ∈ splitLoop (octets ";") emptyignore count [] rest) :
                part.count 0x3b = 0 ∨
                  part.count 0x3b + (count + 1) ≤ (ch :: rest).count 0x3b := by
              refine (ih List.count_nil isLater).imp_right fun bound => ?_
              rw [isSemicolon, List.count_cons_self]
              omega
            rw [splitLoop, if_pos isSeparator] at member
            split at member
            · exact later member
            · rcases List.mem_cons.mp member with rfl | isLater
              · exact .inl free
              · exact later isLater
      · rw [splitLoop_other isSeparator] at member
        have notSemicolon : ch ≠ 0x3b := fun same =>
          isSeparator (List.mem_singleton.mpr same)
        have free' : (strTemp ++ [ch]).count 0x3b = 0 := by
          rw [List.count_append, free, List.count_singleton, if_neg]
          rwa [beq_iff_eq]
        rw [List.count_cons_of_ne notSemicolon]
        exact ih free' member

/-! ## Reading a line -/

/-- A name without the separators of a file and without blanks around it. -/
structure PlainName (name : List UInt8) : Prop where
  separators : ∀ ch ∈ name, ch ≠ 0x3b ∧ ch ≠ 0x3d ∧ ch ≠ 0x0a
  trimmed : strtrim name = name

theorem not_isBlank_head {ch : UInt8} {text : List UInt8} (nulFree : 0 ∉ ch :: text)
    (trimmed' : strtrim (ch :: text) = ch :: text) : isBlank ch = false := by
  rw [strtrim_eq_trimmed nulFree, trimmed, List.dropWhile_cons] at trimmed'
  by_contra blank
  rw [if_pos (by simpa using blank)] at trimmed'
  have shorter := (List.rdropWhile_prefix isBlank (text.dropWhile isBlank)).length_le
  rw [trimmed', List.length_cons] at shorter
  have dropped := (List.dropWhile_suffix (l := text) isBlank).length_le
  omega

theorem isBlank_equal : isBlank 0x3d = false := rfl

namespace PushedVar

variable {Key : Type} (var : PushedVar Key) {name : List UInt8}

theorem encodedValue_plain :
    ∀ ch ∈ var.encodedValue, ch ≠ 0x3b ∧ ch ≠ 0x3d ∧ ch ≠ 0 ∧ isBlank ch = false :=
  encoded_plain

theorem nulFree_encodedValue : 0 ∉ var.encodedValue := fun member =>
  (var.encodedValue_plain 0 member).2.2.1 rfl

theorem nulFree_keyVal (nulFree : 0 ∉ name) : 0 ∉ var.keyVal name := by
  rw [keyVal, List.mem_append, List.mem_append, not_or, not_or]
  exact ⟨⟨nulFree, by decide⟩, var.nulFree_encodedValue⟩

theorem count_keyVal : (var.keyVal name).count 0x3b = name.count 0x3b := by
  have none : var.encodedValue.count 0x3b = 0 :=
    List.count_eq_zero.mpr fun member => (var.encodedValue_plain _ member).1 rfl
  rw [keyVal, List.count_append, List.count_append, none]
  rfl

theorem getLast?_keyVal (name : List UInt8) :
    ∃ ch, (var.keyVal name).getLast? = some ch ∧ isBlank ch = false := by
  rcases List.eq_nil_or_concat var.encodedValue with empty | ⟨front, ch, value⟩
  · refine ⟨0x3d, ?_, isBlank_equal⟩
    rw [keyVal, empty, List.append_nil]
    exact List.getLast?_concat
  · refine ⟨ch, ?_, (var.encodedValue_plain ch (by simp [value])).2.2.2⟩
    rw [keyVal, value, List.concat_eq_append, ← List.append_assoc]
    exact List.getLast?_concat

theorem strtrim_keyVal (nulFree : 0 ∉ name) (trimmed' : strtrim name = name) :
    strtrim (var.keyVal name) = var.keyVal name := by
  obtain ⟨ch, behind, lastBlank⟩ := var.getLast?_keyVal name
  cases name with
  | nil => exact strtrim_eq_self rfl behind isBlank_equal lastBlank
  | cons first name =>
      exact strtrim_eq_self rfl behind (not_isBlank_head nulFree trimmed') lastBlank

theorem strcut_keyVal (nulFree : 0 ∉ name) (free : 0x3d ∉ name) :
    strcutBefore (var.keyVal name) 0x3d = name ∧
      strcutAfter (var.keyVal name) 0x3d = var.encodedValue := by
  have equal : var.keyVal name = name ++ 0x3d :: var.encodedValue := by
    rw [keyVal, List.append_assoc]
    rfl
  have whole := var.nulFree_keyVal nulFree
  rw [equal] at whole ⊢
  exact strcut_delimiter whole free

theorem strtrim_encodedValue : strtrim var.encodedValue = var.encodedValue :=
  strtrim_of_unblank fun ch member => (var.encodedValue_plain ch member).2.2.2

theorem keyVal_ne_nil : var.keyVal name ≠ [] := by
  intro empty
  have none := congrArg List.length empty
  rw [keyVal, List.length_append, List.length_append] at none
  have one : (octets "=").length = 1 := rfl
  rw [one, List.length_nil] at none
  omega

end PushedVar

theorem not_mem_sprintfD {ch : UInt8} (other : ch ≠ 0x2d ∧ ¬(0x30 ≤ ch ∧ ch ≤ 0x39))
    (number : Int) : ch ∉ sprintfD number := by
  intro member
  rcases sprintfD_octets member with minus | digit
  · exact other.1 minus
  · exact other.2 digit

theorem strtrim_sprintfD (number : Int) : strtrim (sprintfD number) = sprintfD number :=
  strtrim_of_unblank fun ch member =>
    (timeOctet_plain ch (sprintfD_octets member)).2.2.2.2.2

namespace PushedVar

variable {Key : Type} (var : PushedVar Key) {name : List UInt8}

theorem nulFree_text (nulFree : 0 ∉ name) : 0 ∉ var.text name := by
  have time := @not_mem_sprintfD 0 (by decide)
  rw [text, List.mem_append, List.mem_append, List.mem_append, List.mem_append]
  rintro ((inCreate | inEnd) | (inAccess | inEnd) | inKeyVal)
  · exact time _ inCreate
  · exact absurd inEnd (by decide)
  · exact time _ inAccess
  · exact absurd inEnd (by decide)
  · exact var.nulFree_keyVal nulFree inKeyVal

theorem count_text : (var.text name).count 0x3b = 2 + name.count 0x3b := by
  have time (number : Int) : (sprintfD number).count 0x3b = 0 :=
    List.count_eq_zero.mpr (not_mem_sprintfD (by decide) number)
  have separator : (octets ";").count 0x3b = 1 := rfl
  rw [text, List.count_append, List.count_append, List.count_append,
    List.count_append, time, time, separator, count_keyVal]
  omega

theorem not_mem_text (free : 0x0a ∉ name) : 0x0a ∉ var.text name := by
  have time := @not_mem_sprintfD 0x0a (by decide)
  rw [text, keyVal, List.mem_append, List.mem_append, List.mem_append, List.mem_append,
    List.mem_append, List.mem_append]
  rintro ((inCreate | inEnd) | (inAccess | inEnd) | (inName | inEnd) | inValue)
  · exact time _ inCreate
  · exact absurd inEnd (by decide)
  · exact time _ inAccess
  · exact absurd inEnd (by decide)
  · exact free inName
  · exact absurd inEnd (by decide)
  · have notBlank := (var.encodedValue_plain _ inValue).2.2.2
    exact absurd notBlank (by decide)

/-- The ends of the part that both kinds of lines have. -/
theorem ends_text (name : List UInt8) :
    (∃ ch, (var.text name).head? = some ch ∧ ch ≠ 0x23 ∧ isBlank ch = false) ∧
      ∃ ch, (var.text name).getLast? = some ch ∧ isBlank ch = false := by
  obtain ⟨last, behind, lastBlank⟩ := var.getLast?_keyVal name
  obtain ⟨first, rest, create⟩ := List.exists_cons_of_ne_nil (sprintfD_ne_nil (toInt var.create))
  obtain ⟨-, -, -, noVersion, -, firstBlank⟩ :=
    timeOctet_plain first (sprintfD_octets (create ▸ List.mem_cons_self))
  refine ⟨⟨first, ?_, noVersion, firstBlank⟩, last, ?_, lastBlank⟩
  · rw [text, create]
    rfl
  · rw [text, List.getLast?_append, List.getLast?_append, behind]
    rfl

theorem strtrim_text (name : List UInt8) :
    strtrim (var.text name) = var.text name := by
  obtain ⟨⟨first, front, -, firstBlank⟩, last, behind, lastBlank⟩ := var.ends_text name
  exact strtrim_eq_self front behind firstBlank lastBlank

/-- The fields of the part that both kinds of lines have. -/
theorem splitLoop_text (free : 0x3b ∉ name) (nulFree : 0 ∉ name) (count : Nat) :
    splitLoop (octets ";") true (count + 2) [] (var.text name) =
      [sprintfD (toInt var.create), sprintfD (toInt var.access), var.keyVal name] := by
  have time := @not_mem_sprintfD 0x3b (by decide)
  have keyValFree : 0x3b ∉ var.keyVal name := by
    rw [← List.count_eq_zero, count_keyVal, List.count_eq_zero]
    exact free
  rw [text, splitLoop_field (sprintfD_ne_nil _) (time _),
    splitLoop_field (sprintfD_ne_nil _) (time _),
    splitLoop_last var.keyVal_ne_nil keyValFree (var.nulFree_keyVal nulFree)]

/-- What a constructor makes of these fields. -/
theorem varOfFields_text (plain : PlainName name) (nulFree : 0 ∉ name) :
    varOfFields ([sprintfD (toInt var.create), sprintfD (toInt var.access),
        var.keyVal name].map strtrim) =
      (name, ⟨var.encodedValue, some (toInt var.create), some (toInt var.access)⟩) := by
  have free : 0x3d ∉ name := fun member => (plain.separators _ member).2.1 rfl
  obtain ⟨nameCut, valueCut⟩ := var.strcut_keyVal nulFree free
  rw [List.map_cons, List.map_cons, List.map_cons, List.map_nil, strtrim_sprintfD,
    strtrim_sprintfD, var.strtrim_keyVal nulFree plain.trimmed]
  have third : [sprintfD (toInt var.create), sprintfD (toInt var.access),
      var.keyVal name].getD 2 [] = var.keyVal name := rfl
  rw [varOfFields, third, nameCut, valueCut, plain.trimmed, var.strtrim_encodedValue]
  simp only [List.getElem?_cons_zero, List.getElem?_cons_succ, Option.map_some, atoi_sprintfD]

end PushedVar

theorem lineFields_eq {line : List UInt8} (nonempty : line ≠ []) (nulFree : 0 ∉ line) :
    lineFields line = (splitLoop (octets ";") true 0x7fffffff [] line).map strtrim := by
  rw [lineFields, cString_of_nulFree nulFree, vSplitString, if_neg nonempty]

theorem text_ne_nil {Key : Type} (var : PushedVar Key) (name : List UInt8) :
    var.text name ≠ [] := by
  intro empty
  have count := @PushedVar.count_text _ var name
  rw [empty, List.count_nil] at count
  omega

/-- A line of a server variable is read back. -/
theorem readServerVar_line {var : ServerVar} (plain : PlainName var.key) (nulFree : 0 ∉ var.key) :
    readServerVar (var.text var.key) =
      some (var.key, ⟨var.encodedValue, some (toInt var.create), some (toInt var.access)⟩) := by
  have free : 0x3b ∉ var.key := fun member => (plain.separators _ member).1 rfl
  have fields := var.splitLoop_text free nulFree 0x7ffffffd
  rw [readServerVar, lineFields_eq (text_ne_nil _ _)
    (var.nulFree_text nulFree), fields, var.varOfFields_text plain nulFree]

/-- A line of a session variable is read back, less the blanks around the identifier. -/
theorem readSessionVar_line {var : SessionVar} {uid : List UInt8} (uidNonempty : uid ≠ [])
    (uidFree : 0x3b ∉ uid) (uidNulFree : 0 ∉ uid) (plain : PlainName var.key.2)
    (nulFree : 0 ∉ var.key.2) :
    readSessionVar (uid ++ octets ";" ++ var.text var.key.2) =
      (copyUid (strtrim uid)).map fun uid => ((uid, var.key.2),
        ⟨var.encodedValue, some (toInt var.create), some (toInt var.access)⟩) := by
  have free : 0x3b ∉ var.key.2 := fun member => (plain.separators _ member).1 rfl
  have fields := var.splitLoop_text free nulFree 0x7ffffffc
  have lineFree : 0 ∉ uid ++ octets ";" ++ var.text var.key.2 := by
    rw [List.mem_append, List.mem_append, not_or, not_or]
    exact ⟨⟨uidNulFree, by decide⟩, var.nulFree_text nulFree⟩
  have front := splitLoop_field uidNonempty uidFree 0x7ffffffe (var.text var.key.2)
  have nonempty : uid ++ octets ";" ++ var.text var.key.2 ≠ [] := by
    rw [List.append_assoc]
    exact List.append_ne_nil_of_left_ne_nil uidNonempty _
  rw [readSessionVar, lineFields_eq nonempty lineFree, front, fields, List.map_cons]
  simp only [var.varOfFields_text plain nulFree]

/-! ## Whatever is read -/

/-- What is known of a text that was read from a line. -/
structure ReadFrom (line text : List UInt8) : Prop where
  part : text.Sublist line
  nulFree : 0 ∉ text
  trimmed : strtrim text = text
  semicolons : text.count 0x3b = 0 ∨ text.count 0x3b + 0x7fffffff ≤ line.count 0x3b

theorem readFrom_nil (line : List UInt8) : ReadFrom line [] :=
  ⟨List.nil_sublist line, List.not_mem_nil, rfl, .inl rfl⟩

theorem ReadFrom.strtrim_sublist {line text part : List UInt8} (read : ReadFrom line text)
    (inside : part.Sublist text) : ReadFrom line (strtrim part) := by
  have nulFree : 0 ∉ part := fun member => read.nulFree (inside.mem member)
  have fewer := (inside.count_le 0x3b).trans' ((strtrim_inside part).sublist.count_le 0x3b)
  refine ⟨((strtrim_inside part).sublist.trans inside).trans read.part,
    fun member => nulFree ((strtrim_inside part).sublist.mem member),
    strtrim_strtrim nulFree, ?_⟩
  rcases read.semicolons with none | many
  · exact .inl (by omega)
  · exact .inr (by omega)

theorem readFrom_of_mem_lineFields {line field : List UInt8} (member : field ∈ lineFields line) :
    ReadFrom line field := by
  rw [lineFields, vSplitString] at member
  split at member
  · cases member
  · obtain ⟨part, isPart, rfl⟩ := List.mem_map.mp member
    have inside := mem_splitLoop isPart
    rw [List.nil_append] at inside
    have front := (List.takeWhile_prefix (l := line) (· ≠ 0)).sublist
    have nulFree : 0 ∉ part := by
      intro isNul
      have inText := List.mem_takeWhile_imp (inside.mem isNul)
      simp at inText
    have fewer := (strtrim_inside part).sublist.count_le 0x3b
    refine ⟨(strtrim_inside part).sublist.trans (inside.trans front),
      fun isNul => nulFree ((strtrim_inside part).sublist.mem isNul),
      strtrim_strtrim nulFree, ?_⟩
    have fewerInLine := front.count_le 0x3b
    rcases count_splitLoop List.count_nil isPart with none | many
    · exact .inl (by omega)
    · exact .inr (by rw [cString] at many; omega)

theorem strcutBefore_sublist (text : List UInt8) (endOctet : UInt8) :
    (strcutBefore text endOctet).Sublist text :=
  (List.takeWhile_prefix _).sublist.trans (List.takeWhile_prefix _).sublist

theorem not_mem_strcutBefore (text : List UInt8) (endOctet : UInt8) :
    endOctet ∉ strcutBefore text endOctet := by
  intro member
  have other := List.mem_takeWhile_imp member
  simp at other

/-- What is known of a name that was read. -/
theorem readFrom_varOfFields {line : List UInt8} {fields : List (List UInt8)}
    (known : ∀ field ∈ fields, ReadFrom line field) :
    ReadFrom line (varOfFields fields).1 ∧ 0x3d ∉ (varOfFields fields).1 := by
  have third : ReadFrom line (fields.getD 2 []) := by
    rw [List.getD_eq_getElem?_getD]
    cases found : fields[2]? with
    | none => exact readFrom_nil line
    | some field => exact known field (List.mem_of_getElem? found)
  refine ⟨third.strtrim_sublist (strcutBefore_sublist _ _), fun member => ?_⟩
  exact not_mem_strcutBefore _ _ ((strtrim_inside _).sublist.mem member)

/-- A time that was read fits into an `int`. -/
theorem create_varOfFields {fields : List (List UInt8)} {create : Int}
    (set : (varOfFields fields).2.create = some create) : -2 ^ 31 ≤ create ∧ create < 2 ^ 31 := by
  rw [varOfFields, Option.map_eq_some_iff] at set
  obtain ⟨field, -, rfl⟩ := set
  exact toInt_bounds _

theorem readServerVar_known {line name : List UInt8} {var : StoredVar}
    (read : readServerVar line = some (name, var)) :
    ReadFrom line name ∧ 0x3d ∉ name ∧
      ∀ create, var.create = some create → -2 ^ 31 ≤ create ∧ create < 2 ^ 31 := by
  cases read
  have known := readFrom_varOfFields fun field => @readFrom_of_mem_lineFields line field
  exact ⟨known.1, known.2, fun create => create_varOfFields⟩

theorem readSessionVar_known {line : List UInt8} {key : List UInt8 × List UInt8} {var : StoredVar}
    (read : readSessionVar line = some (key, var)) :
    (ReadFrom line key.2 ∧ 0x3d ∉ key.2 ∧
      ∀ create, var.create = some create → -2 ^ 31 ≤ create ∧ create < 2 ^ 31) ∧
      ∃ field, ReadFrom line field ∧ 31 ≤ field.length ∧ key.1 = field.take 32 := by
  rw [readSessionVar] at read
  cases isFields : lineFields line with
  | nil =>
      rw [isFields] at read
      cases read
  | cons field fields =>
      rw [isFields] at read
      simp only [copyUid] at read
      split at read
      · rename_i long
        cases read
        have known other (member : other ∈ field :: fields) : ReadFrom line other :=
          readFrom_of_mem_lineFields (isFields ▸ member)
        have named := readFrom_varOfFields fun other member =>
          known other (List.mem_cons_of_mem _ member)
        exact ⟨⟨named.1, named.2, fun create => create_varOfFields⟩,
          field, known field List.mem_cons_self, long, rfl⟩
      · cases read

end Cache

end HeapHttpd
