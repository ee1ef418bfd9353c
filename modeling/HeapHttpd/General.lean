import HeapHttpd.Library.Decimal
import HeapHttpd.Library.Lines
import Mathlib.Data.List.DropRight
import Mathlib.Data.List.TakeWhile

/-!
# String helpers

The functions of `util/general.h` and of the C library that the header code
uses, on strings of octets.  Letter case is that of the C locale.
-/

namespace HeapHttpd

namespace General

/-- The octets of a literal of the source. -/
def octets (literal : String) : List UInt8 :=
  literal.toList.map fun ch => UInt8.ofNat ch.toNat

/-- `sprintf` with `%d`. -/
def sprintfD (number : Int) : List UInt8 :=
  if number < 0 then 0x2d :: Decimal.digits number.natAbs else Decimal.digits number.natAbs

theorem sprintfD_natCast (number : Nat) : sprintfD number = Decimal.digits number := by
  rw [sprintfD, if_neg (by omega), Int.natAbs_natCast]

/-- A string as seen through its terminating NUL. -/
def cString (bytes : List UInt8) : List UInt8 :=
  bytes.takeWhile (· ≠ 0)

theorem cString_of_nulFree {text : List UInt8} (nulFree : 0 ∉ text) : cString text = text := by
  rw [cString, List.takeWhile_eq_self_iff]
  intro octet member
  simp only [decide_eq_true_eq]
  rintro rfl
  exact nulFree member

theorem nulFree_cString (text : List UInt8) : 0 ∉ cString text := by
  intro nul
  have kept := List.mem_takeWhile_imp nul
  simp at kept

theorem length_cString_lt {text : List UInt8} (nul : 0 ∈ text) :
    (cString text).length < text.length := by
  have shorter := List.takeWhile_prefix (l := text) (· ≠ 0)
  refine lt_of_le_of_ne shorter.length_le fun same => ?_
  have all := List.takeWhile_eq_self_iff.mp (shorter.eq_of_length same) 0 nul
  simp at all

theorem cString_append_nul {text : List UInt8} (nulFree : 0 ∉ text) (rest : List UInt8) :
    cString (text ++ 0 :: rest) = text := by
  have keep : ∀ octet ∈ text, (decide (octet ≠ 0)) = true := by
    intro octet member
    simp only [decide_eq_true_eq]
    rintro rfl
    exact nulFree member
  rw [cString, List.takeWhile_append_of_pos keep]
  simp

/-- The set `" \\r\\n\\t"`. -/
def isBlank (ch : UInt8) : Bool :=
  ch = 0x20 || ch = 0x0d || ch = 0x0a || ch = 0x09

/-- `strtrim` with one argument. -/
def strtrim (src : List UInt8) : List UInt8 :=
  if src.headD 0 = 0 then src
  else if src.all isBlank then []
  else (src.dropWhile isBlank).rdropWhile isBlank

/-- `LOCH`. -/
def loch (ch : UInt8) : UInt8 :=
  if 0x41 ≤ ch ∧ ch ≤ 0x5a then ch - 0x41 + 0x61 else ch

/-- `lowercase`, with the NUL it appends. -/
def lowercase (src : List UInt8) : List UInt8 :=
  (cString src).map loch ++ [0]

/-- Whether `strcasecmp` returns 0. -/
def strcasecmp (first second : List UInt8) : Bool :=
  (cString first).map loch = (cString second).map loch

/-- Whether `strncasecmp` returns 0. -/
def strncasecmp (first second : List UInt8) (count : Nat) : Bool :=
  ((cString first).take count).map loch = ((cString second).take count).map loch

/-- `strcut` up to a delimiter of one octet, from the start. -/
def strcutBefore (text : List UInt8) (endOctet : UInt8) : List UInt8 :=
  (cString text).takeWhile (· ≠ endOctet)

/-- `strcut` from behind a delimiter of one octet, to the end. -/
def strcutAfter (text : List UInt8) (begOctet : UInt8) : List UInt8 :=
  ((cString text).dropWhile (· ≠ begOctet)).tail

/-- Before and behind the first delimiter. -/
theorem strcut_delimiter {before behind : List UInt8} {delimiter : UInt8}
    (nulFree : 0 ∉ before ++ delimiter :: behind) (free : delimiter ∉ before) :
    strcutBefore (before ++ delimiter :: behind) delimiter = before ∧
      strcutAfter (before ++ delimiter :: behind) delimiter = behind := by
  rw [strcutBefore, strcutAfter, cString_of_nulFree nulFree, Lines.takeWhile_until free,
    Lines.dropWhile_until free]
  exact ⟨rfl, rfl⟩

theorem forall_octet {property : UInt8 → Prop} [DecidablePred property]
    (holds : ∀ number < 256, property (UInt8.ofNat number)) (ch : UInt8) : property ch := by
  have := holds ch.toNat ch.toNat_lt
  rwa [UInt8.ofNat_toNat] at this

@[simp]
theorem loch_loch (ch : UInt8) : loch (loch ch) = loch ch := by
  revert ch
  apply forall_octet
  decide +kernel

theorem loch_eq_zero {ch : UInt8} : loch ch = 0 ↔ ch = 0 := by
  revert ch
  apply forall_octet
  decide +kernel

theorem nulFree_map_loch {text : List UInt8} (nulFree : 0 ∉ text) : 0 ∉ text.map loch := by
  intro member
  obtain ⟨ch, inText, isNul⟩ := List.mem_map.mp member
  exact nulFree (loch_eq_zero.mp isNul ▸ inText)

/-- A string without the blanks around it. -/
def trimmed (text : List UInt8) : List UInt8 :=
  (text.dropWhile isBlank).rdropWhile isBlank

theorem strtrim_eq_trimmed {text : List UInt8} (nulFree : 0 ∉ text) :
    strtrim text = trimmed text := by
  unfold strtrim trimmed
  cases text with
  | nil => rfl
  | cons ch text =>
      have notNul : ch ≠ 0 := fun isNul => nulFree (by simp [isNul])
      rw [List.headD_cons, if_neg notNul]
      split
      · rename_i blank
        rw [List.dropWhile_eq_nil_iff.mpr (by simpa using blank), List.rdropWhile_nil]
      · rfl

theorem mem_of_mem_trimmed {text : List UInt8} {ch : UInt8} (member : ch ∈ trimmed text) :
    ch ∈ text :=
  (List.dropWhile_sublist isBlank).mem ((List.rdropWhile_prefix isBlank _).sublist.mem member)

theorem mem_trimmed {text : List UInt8} {ch : UInt8} (member : ch ∈ text)
    (notBlank : isBlank ch = false) : ch ∈ trimmed text := by
  have kept (list : List UInt8) (inList : ch ∈ list) : ch ∈ list.dropWhile isBlank := by
    rw [← List.takeWhile_append_dropWhile (p := isBlank) (l := list)] at inList
    rcases List.mem_append.mp inList with taken | dropped
    · have blank := List.mem_takeWhile_imp taken
      rw [notBlank] at blank
      cases blank
    · exact dropped
  rw [trimmed, List.rdropWhile, List.mem_reverse]
  exact kept _ (List.mem_reverse.mpr (kept _ member))

/-- Trimming removes a blank at the end. -/
theorem trimmed_append_blank {ch : UInt8} (isBlank' : isBlank ch = true) (text : List UInt8) :
    trimmed (text ++ [ch]) = trimmed text := by
  unfold trimmed
  by_cases blank : ∀ ch ∈ text, isBlank ch = true
  · rw [List.dropWhile_append_of_pos blank, List.dropWhile_eq_nil_iff.mpr blank]
    simp [isBlank']
  · have rest : text.dropWhile isBlank ≠ [] := fun empty =>
      blank (List.dropWhile_eq_nil_iff.mp empty)
    rw [List.dropWhile_append, if_neg (by simpa using rest), List.rdropWhile_concat_pos]
    exact isBlank'

theorem trimmed_rdropWhile (text : List UInt8) :
    trimmed (text.rdropWhile isBlank) = trimmed text := by
  induction text using List.reverseRecOn with
  | nil => rfl
  | append_singleton text last ih =>
      by_cases blank : isBlank last = true
      · rw [List.rdropWhile_concat_pos _ _ _ blank, ih, trimmed_append_blank blank]
      · rw [List.rdropWhile_concat_neg _ _ _ blank]

theorem trimmed_trimmed (text : List UInt8) : trimmed (trimmed text) = trimmed text := by
  show trimmed ((text.dropWhile isBlank).rdropWhile isBlank) = trimmed text
  rw [trimmed_rdropWhile, trimmed, List.dropWhile_idempotent, trimmed]

/-- Trimming removes a carriage return at the end. -/
theorem trimmed_append_cr (text : List UInt8) : trimmed (text ++ [0x0d]) = trimmed text :=
  trimmed_append_blank (by decide) text

end General

end HeapHttpd
