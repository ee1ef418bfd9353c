import HeapHttpd.Http1.WebDocBranches
import HeapHttpd.Tunneling.ContentLength

/-!
# Sets of byte ranges

The sets of ranges that a request may ask for, the octets of a file that they stand for, and
which of them `web_doc::Response` answers with these octets.
-/

namespace HeapHttpd

namespace Http1

namespace WebDoc

open General
open Http2 (toInt)

/-! ## What may be asked for -/

/-- A number that is spelled in digits. -/
structure Numeral where
  text : List UInt8
  nonempty : text ≠ []
  digits : ∀ ch ∈ text, 0x30 ≤ ch ∧ ch ≤ 0x39

/-- The number. -/
def Numeral.value (numeral : Numeral) : Nat :=
  decimal numeral.text

/-- One range of octets: `first-last`, `first-` or `-count`. -/
inductive ByteRange
  | firstLast (first last : Numeral) (ordered : first.value ≤ last.value)
  | firstOn (first : Numeral)
  | suffix (count : Numeral)

namespace ByteRange

/-- The digits before the hyphen. -/
def begText : ByteRange → List UInt8
  | firstLast first _ _ => first.text
  | firstOn first => first.text
  | suffix _ => []

/-- The digits behind the hyphen. -/
def endText : ByteRange → List UInt8
  | firstLast _ last _ => last.text
  | firstOn _ => []
  | suffix count => count.text

/-- The octets of a file that are asked for. -/
def wanted (content : List UInt8) : ByteRange → List UInt8
  | firstLast first last _ => (content.take (last.value + 1)).drop first.value
  | firstOn first => content.drop first.value
  | suffix count => content.drop (content.length - count.value)

end ByteRange

/-- Blanks that may stand around a range. -/
def IsOws (text : List UInt8) : Prop :=
  ∀ ch ∈ text, ch = 0x20 ∨ ch = 0x09

/-- A range with blanks around it. -/
structure RangeElement where
  range : ByteRange
  before : List UInt8
  behind : List UInt8
  blankBefore : IsOws before
  blankBehind : IsOws behind

/-- The text of a range with its blanks. -/
def RangeElement.text (element : RangeElement) : List UInt8 :=
  element.before ++ (element.range.begText ++ 0x2d :: (element.range.endText ++ element.behind))

/-- A set of ranges, whose unit may be written in letters of either case. -/
structure RangeSet where
  rangeUnit : List UInt8
  isBytes : rangeUnit.map loch = octets "bytes"
  first : RangeElement
  others : List RangeElement

namespace RangeSet

/-- The value of the field. -/
def text (set : RangeSet) : List UInt8 :=
  set.rangeUnit ++ 0x3d :: (set.first.text ++ set.others.flatMap (0x2c :: ·.text))

/-- The octets of a file that are asked for. -/
def wanted (content : List UInt8) (set : RangeSet) : List UInt8 :=
  set.first.range.wanted content ++ set.others.flatMap (·.range.wanted content)

end RangeSet

/-! ## One range -/

/-- Octets that are digits. -/
def AllDigits (text : List UInt8) : Prop :=
  ∀ ch ∈ text, 0x30 ≤ ch ∧ ch ≤ 0x39

theorem ByteRange.begText_digits (range : ByteRange) : AllDigits range.begText := by
  cases range with
  | firstLast first last _ => exact first.digits
  | firstOn first => exact first.digits
  | suffix count => exact fun ch member => absurd member List.not_mem_nil

theorem ByteRange.endText_digits (range : ByteRange) : AllDigits range.endText := by
  cases range with
  | firstLast first last _ => exact last.digits
  | firstOn first => exact fun ch member => absurd member List.not_mem_nil
  | suffix count => exact count.digits

/-- A digit is no blank, no hyphen, no comma and not NUL. -/
theorem digit_plain (ch : UInt8) : 0x30 ≤ ch ∧ ch ≤ 0x39 →
    isBlank ch = false ∧ ch ≠ 0x2d ∧ ch ≠ 0x2c ∧ ch ≠ 0 := by
  revert ch
  apply forall_octet
  decide +kernel

/-- A blank is one for `strtrim`, and no hyphen, no comma and not NUL. -/
theorem ows_plain (ch : UInt8) : ch = 0x20 ∨ ch = 0x09 →
    isBlank ch = true ∧ ch ≠ 0x2d ∧ ch ≠ 0x2c ∧ ch ≠ 0 := by
  rintro (rfl | rfl) <;> decide

/-- Blanks at the end are trimmed. -/
theorem trimmed_append_ows {behind : List UInt8} (blank : IsOws behind) (text : List UInt8) :
    trimmed (text ++ behind) = trimmed text := by
  induction behind using List.reverseRecOn with
  | nil => rw [List.append_nil]
  | append_singleton behind ch ih =>
      have last := ows_plain ch (blank ch (List.mem_append_right behind List.mem_cons_self))
      rw [← List.append_assoc, trimmed_append_blank last.1,
        ih fun other member => blank other (List.mem_append_left _ member)]

/-- Of digits among blanks the digits are left. -/
theorem trimmed_digits {before digits behind : List UInt8} (blankBefore : IsOws before)
    (allDigits : AllDigits digits) (blankBehind : IsOws behind) :
    trimmed (before ++ (digits ++ behind)) = digits := by
  have frontGoes : ∀ ch ∈ before, isBlank ch = true := fun ch member =>
    (ows_plain ch (blankBefore ch member)).1
  have frontStays : digits.dropWhile isBlank = digits := by
    cases digits with
    | nil => rfl
    | cons ch digits =>
        rw [List.dropWhile_cons_of_neg]
        rw [(digit_plain ch (allDigits ch List.mem_cons_self)).1]
        exact Bool.false_ne_true
  rw [← List.append_assoc, trimmed_append_ows blankBehind, trimmed,
    List.dropWhile_append_of_pos frontGoes, frontStays, List.rdropWhile_eq_self_iff]
  intro nonempty
  rw [(digit_plain _ (allDigits _ (List.getLast_mem nonempty))).1]
  exact Bool.false_ne_true

/-- An octet that stands nowhere in digits and blanks. -/
theorem not_mem_element {ch : UInt8} {front : List UInt8} (frontFree : ch ∉ front)
    (element : RangeElement) (notHyphen : ch ≠ 0x2d)
    (notDigit : ¬(0x30 ≤ ch ∧ ch ≤ 0x39)) (notOws : ¬(ch = 0x20 ∨ ch = 0x09)) :
    ch ∉ front ++ element.text := by
  rw [RangeElement.text]
  simp only [List.mem_append, List.mem_cons, not_or]
  exact ⟨frontFree, fun member => notOws (element.blankBefore ch member),
    fun member => notDigit (element.range.begText_digits ch member), notHyphen,
    fun member => notDigit (element.range.endText_digits ch member),
    fun member => notOws (element.blankBehind ch member)⟩

/-- The two parts of a range behind something without a hyphen. -/
theorem strcut_element {front : List UInt8} (nulFree : 0 ∉ front) (hyphenFree : 0x2d ∉ front)
    (element : RangeElement) :
    strcutBefore (front ++ element.text) 0x2d =
        front ++ (element.before ++ element.range.begText) ∧
      strcutAfter (front ++ element.text) 0x2d = element.range.endText ++ element.behind := by
  have whole : cString (front ++ element.text) = front ++ element.text :=
    cString_of_nulFree (not_mem_element nulFree element (by decide) (by decide) (by decide))
  have free : 0x2d ∉ front ++ (element.before ++ element.range.begText) := by
    intro member
    rcases List.mem_append.mp member with inFront | member
    · exact hyphenFree inFront
    · rcases List.mem_append.mp member with blank | digit
      · exact (ows_plain _ (element.blankBefore _ blank)).2.1 rfl
      · exact (digit_plain _ (element.range.begText_digits _ digit)).2.1 rfl
  have parts : front ++ element.text = (front ++ (element.before ++ element.range.begText)) ++
      0x2d :: (element.range.endText ++ element.behind) := by
    rw [RangeElement.text]
    simp only [List.append_assoc]
  rw [strcutBefore, strcutAfter, whole, parts, Lines.takeWhile_until free,
    Lines.dropWhile_until free, List.tail_cons]
  exact ⟨rfl, rfl⟩

/-- The end of a range, as it is read. -/
def ByteRange.finish (length : Int) : ByteRange → Int
  | .firstLast _ last _ => min last.value (2 ^ 63 - 1)
  | .firstOn _ => length - 1
  | .suffix count => min count.value (2 ^ 63 - 1)

/-- The begin of a range, as it is read, but for the first one. -/
def ByteRange.beg : ByteRange → Int
  | .firstLast first _ _ => min first.value (2 ^ 63 - 1)
  | .firstOn first => min first.value (2 ^ 63 - 1)
  | .suffix _ => 0

theorem Numeral.atoll_text (numeral : Numeral) :
    atoll numeral.text = min (numeral.value : Int) (2 ^ 63 - 1) :=
  Tunneling.HeaderField.atoll_digits numeral.nonempty numeral.digits

theorem atoll_endText (length : Int) (range : ByteRange) :
    (if range.endText ≠ [] then atoll range.endText else length - 1) = range.finish length := by
  cases range with
  | firstLast first last _ => rw [ByteRange.endText, if_pos last.nonempty, last.atoll_text,
      ByteRange.finish]
  | firstOn first => rw [ByteRange.endText, if_neg (fun other => other rfl), ByteRange.finish]
  | suffix count => rw [ByteRange.endText, if_pos count.nonempty, count.atoll_text,
      ByteRange.finish]

theorem atoll_begText (range : ByteRange) :
    (if range.begText ≠ [] then atoll range.begText else 0) = range.beg := by
  cases range with
  | firstLast first last _ => rw [ByteRange.begText, if_pos first.nonempty, first.atoll_text,
      ByteRange.beg]
  | firstOn first => rw [ByteRange.begText, if_pos first.nonempty, first.atoll_text,
      ByteRange.beg]
  | suffix count => rw [ByteRange.begText, if_neg (fun other => other rfl), ByteRange.beg]

/-- A range with the length that follows. -/
def rangeOf (beg finish : Int) : ContentRange :=
  ⟨beg, finish, finish - beg + 1⟩

/-- What is trimmed of the end of a range. -/
theorem strtrim_endText (element : RangeElement) :
    strtrim (element.range.endText ++ element.behind) = element.range.endText := by
  rw [strtrim_eq_trimmed]
  · exact @trimmed_digits [] _ _ (fun ch member => absurd member List.not_mem_nil)
      element.range.endText_digits element.blankBehind
  · rw [List.mem_append, not_or]
    exact ⟨fun member => (digit_plain 0 (element.range.endText_digits 0 member)).2.2.2 rfl,
      fun member => (ows_plain 0 (element.blankBehind 0 member)).2.2.2 rfl⟩

/-- A range behind the first one is read as it is meant, as far as numbers go. -/
theorem contentRange_other (length : Int) (element : RangeElement) :
    contentRange length element.text =
      rangeOf element.range.beg (element.range.finish length) := by
  obtain ⟨before, behind⟩ := @strcut_element [] List.not_mem_nil List.not_mem_nil element
  rw [List.nil_append] at before behind
  rw [List.nil_append] at before
  have begTrimmed : strtrim (element.before ++ element.range.begText) =
      element.range.begText := by
    rw [strtrim_eq_trimmed]
    · have := @trimmed_digits _ _ [] element.blankBefore element.range.begText_digits
        (fun ch member => absurd member List.not_mem_nil)
      rwa [List.append_nil] at this
    · rw [List.mem_append, not_or]
      exact ⟨fun member => (ows_plain 0 (element.blankBefore 0 member)).2.2.2 rfl,
        fun member => (digit_plain 0 (element.range.begText_digits 0 member)).2.2.2 rfl⟩
  rw [contentRange, before, behind, begTrimmed, strtrim_endText]
  simp only [atoll_begText, atoll_endText, rangeOf]

/-! ## The first range -/

/-- What is left of the unit when its first octet is skipped. -/
def RangeSet.skipped (set : RangeSet) : List UInt8 :=
  set.rangeUnit.tail ++ [0x3d]

theorem RangeSet.not_mem_skipped (set : RangeSet) {ch : UInt8} (notEquals : ch ≠ 0x3d)
    (unchanged : loch ch = ch) (notThere : ch ∉ octets "bytes") : ch ∉ set.skipped := by
  intro member
  rcases List.mem_append.mp member with inUnit | isEquals
  · have inBytes := List.mem_map_of_mem (f := loch) (List.mem_of_mem_tail inUnit)
    rw [set.isBytes, unchanged] at inBytes
    exact notThere inBytes
  · exact notEquals (List.mem_singleton.mp isEquals)

/-- A letter that is no blank and no part of a number. -/
theorem letter_plain (ch : UInt8) : loch ch = 0x79 → isBlank ch = false ∧ isSpace ch = false ∧
    ch ≠ 0x2d ∧ ch ≠ 0x2b ∧ (decide (0x30 ≤ ch) && decide (ch ≤ 0x39)) = false := by
  revert ch
  apply forall_octet
  decide +kernel

/-- No number begins with a letter. -/
theorem atoll_letter {ch : UInt8} (isLetter : loch ch = 0x79) (text : List UInt8) :
    atoll (ch :: text) = 0 := by
  obtain ⟨-, notSpace, notHyphen, notPlus, notDigit⟩ := letter_plain ch isLetter
  have kept : (ch :: text).dropWhile isSpace = ch :: text := by
    rw [List.dropWhile_cons, notSpace, if_neg Bool.false_ne_true]
  have noDigits : (ch :: text).takeWhile (fun ch => 0x30 ≤ ch && ch ≤ 0x39) = [] := by
    rw [List.takeWhile_cons, notDigit, if_neg Bool.false_ne_true]
  rw [atoll, kept]
  simp only
  split
  case h_1 isHyphen => exact absurd (List.cons.inj isHyphen).1 notHyphen
  case h_2 isPlus => exact absurd (List.cons.inj isPlus).1 notPlus
  case h_3 =>
    rw [noDigits]
    rfl

/-- What begins with a letter begins with it when it is trimmed. -/
theorem trimmed_letter {ch : UInt8} (isLetter : loch ch = 0x79) (text : List UInt8) :
    ∃ rest, trimmed (ch :: text) = ch :: rest := by
  have notBlank := (letter_plain ch isLetter).1
  have kept : (ch :: text).dropWhile isBlank = ch :: text := by
    rw [List.dropWhile_cons, notBlank, if_neg Bool.false_ne_true]
  rw [trimmed, kept]
  cases trimmed' : (ch :: text).rdropWhile isBlank with
  | nil =>
      have blank := List.rdropWhile_eq_nil_iff.mp trimmed' ch List.mem_cons_self
      rw [notBlank] at blank
      cases blank
  | cons first rest =>
      have front := List.rdropWhile_prefix isBlank (ch :: text)
      rw [trimmed'] at front
      exact ⟨rest, by rw [(List.cons_prefix_cons.mp front).1]⟩

theorem RangeSet.skipped_cons (set : RangeSet) :
    ∃ ch rest, set.skipped = ch :: rest ∧ loch ch = 0x79 := by
  have isBytes := set.isBytes
  rw [skipped]
  cases isUnit : set.rangeUnit with
  | nil =>
      rw [isUnit] at isBytes
      cases isBytes
  | cons first rest =>
      rw [isUnit, List.map_cons] at isBytes
      have isRest : rest.map loch = [0x79, 0x74, 0x65, 0x73] := (List.cons.inj isBytes).2
      cases rest with
      | nil => cases isRest
      | cons ch rest => exact ⟨ch, rest ++ [0x3d], rfl, (List.cons.inj isRest).1⟩

/-- The first range is always read from the begin of the file. -/
theorem contentRange_first (length : Int) (set : RangeSet) :
    contentRange length (set.skipped ++ set.first.text) =
      rangeOf 0 (set.first.range.finish length) := by
  have nulFree := @RangeSet.not_mem_skipped set 0 (by decide) (by decide) (by decide)
  obtain ⟨before, behind⟩ := strcut_element nulFree
    (set.not_mem_skipped (by decide) (by decide) (by decide)) set.first
  obtain ⟨ch, rest, isSkipped, isLetter⟩ := set.skipped_cons
  obtain ⟨left, isLeft⟩ := trimmed_letter isLetter
    (rest ++ (set.first.before ++ set.first.range.begText))
  have isBeg : strtrim (set.skipped ++ (set.first.before ++ set.first.range.begText)) =
      ch :: left := by
    rw [strtrim_eq_trimmed, isSkipped, List.cons_append, isLeft]
    simp only [List.mem_append, not_or]
    exact ⟨nulFree, fun member => (ows_plain 0 (set.first.blankBefore 0 member)).2.2.2 rfl,
      fun member => (digit_plain 0 (set.first.range.begText_digits 0 member)).2.2.2 rfl⟩
  rw [contentRange, before, behind, isBeg, strtrim_endText]
  simp only [atoll_endText, rangeOf]
  rw [if_pos (List.cons_ne_nil ch left), atoll_letter isLetter]

/-! ## All ranges -/

/-- The elements of the field are over one by one. -/
def addAll (nResourceLength : Int) : List (List UInt8) → Ranges → Option Ranges
  | [], parsed => some parsed
  | strRange :: texts, parsed => (parsed.add nResourceLength strRange).bind (addAll nResourceLength texts)

/-- The loop over an element without a comma. -/
theorem rangesLoop_append {length : Int} {text : List UInt8} (commaFree : 0x2c ∉ text)
    (strRange rest : List UInt8) (parsed : Ranges) :
    rangesLoop length strRange parsed (text ++ rest) =
      rangesLoop length (strRange ++ text) parsed rest := by
  induction text generalizing strRange with
  | nil => rw [List.nil_append, List.append_nil]
  | cons ch text ih =>
      rw [List.mem_cons, not_or] at commaFree
      rw [List.cons_append, rangesLoop, if_neg (Ne.symm commaFree.1), ih commaFree.2,
        List.append_assoc, List.singleton_append]

/-- The loop over elements that commas part. -/
theorem rangesLoop_elements {length : Int} {text : List UInt8} {texts : List (List UInt8)}
    (commaFree : ∀ other ∈ text :: texts, 0x2c ∉ other) (parsed : Ranges) :
    rangesLoop length [] parsed (text ++ texts.flatMap (0x2c :: ·)) =
      addAll length (text :: texts) parsed := by
  induction texts generalizing text parsed with
  | nil =>
      rw [rangesLoop_append (commaFree text List.mem_cons_self), List.nil_append,
        List.flatMap_nil, rangesLoop, addAll]
      cases parsed.add length text <;> rfl
  | cons next texts ih =>
      rw [rangesLoop_append (commaFree text List.mem_cons_self), List.nil_append,
        List.flatMap_cons, List.cons_append, rangesLoop, if_pos rfl, addAll]
      cases parsed.add length text with
      | none => rfl
      | some added =>
          exact ih (fun other member => commaFree other (List.mem_cons_of_mem _ member)) added

/-- What a range adds to the length. -/
def gain (range : ContentRange) : Int :=
  if range.beg ≤ range.finish then range.len else 0

/-- What some elements add to the length. -/
def totalGain (length : Int) : List (List UInt8) → Int
  | [] => 0
  | text :: texts => gain (contentRange length text) + totalGain length texts

/-- The ranges of some elements that do not end before their begin. -/
def orderedRanges (length : Int) (texts : List (List UInt8)) : List ContentRange :=
  (texts.map (contentRange length)).filter fun range => range.beg ≤ range.finish

section Add

variable {length : Int} {text : List UInt8} {texts : List (List UInt8)} {parsed result : Ranges}

/-- The length of a range follows from its begin and its end. -/
theorem contentRange_len (length : Int) (text : List UInt8) :
    (contentRange length text).len =
      (contentRange length text).finish - (contentRange length text).beg + 1 :=
  rfl

theorem gain_nonneg (length : Int) (text : List UInt8) : 0 ≤ gain (contentRange length text) := by
  rw [gain, contentRange_len]
  split <;> omega

theorem totalGain_nonneg (length : Int) (texts : List (List UInt8)) :
    0 ≤ totalGain length texts := by
  induction texts with
  | nil => exact Int.le_refl 0
  | cons text texts ih =>
      have first := gain_nonneg length text
      rw [totalGain]
      omega

theorem orderedRanges_single (length : Int) (text : List UInt8) :
    orderedRanges length [text] =
      if (contentRange length text).beg ≤ (contentRange length text).finish then
        [contentRange length text]
      else [] := by
  rw [orderedRanges, List.map_cons, List.map_nil, List.filter_cons, List.filter_nil]
  simp only [decide_eq_true_eq]

theorem orderedRanges_cons (length : Int) (text : List UInt8) (texts : List (List UInt8)) :
    orderedRanges length (text :: texts) =
      orderedRanges length [text] ++ orderedRanges length texts := by
  rw [orderedRanges, orderedRanges, orderedRanges, ← List.filter_append, ← List.map_append,
    List.singleton_append]

/-- An element whose length fits is added. -/
theorem add_eq_some (positive : 0 ≤ parsed.nRangeLength)
    (fits : parsed.nRangeLength + gain (contentRange length text) < 2 ^ 63) :
    ∃ result, parsed.add length text = some result := by
  rw [Ranges.add]
  split
  case isTrue ordered =>
    rw [gain, if_pos ordered] at fits
    rw [if_pos ⟨by omega, fits⟩]
    exact ⟨_, rfl⟩
  case isFalse => exact ⟨parsed, rfl⟩

/-- What an element that is added changes. -/
theorem add_some (added : parsed.add length text = some result) :
    result.nRangeLength = parsed.nRangeLength + gain (contentRange length text) ∧
      result.ranges = parsed.ranges ++ orderedRanges length [text] ∧
      (parsed.nRangeLength < 2 ^ 63 → result.nRangeLength < 2 ^ 63) := by
  rw [Ranges.add] at added
  rw [gain, orderedRanges_single]
  split at added
  case isTrue ordered =>
    split at added
    case isTrue bounds =>
      cases added
      rw [if_pos ordered, if_pos ordered]
      exact ⟨rfl, rfl, fun _ => bounds.2⟩
    case isFalse => cases added
  case isFalse disordered =>
    cases added
    rw [if_neg disordered, if_neg disordered, List.append_nil, Int.add_zero]
    exact ⟨rfl, rfl, id⟩

/-- Elements whose lengths fit are added. -/
theorem addAll_eq_some (positive : 0 ≤ parsed.nRangeLength)
    (fits : parsed.nRangeLength + totalGain length texts < 2 ^ 63) :
    ∃ result, addAll length texts parsed = some result := by
  induction texts generalizing parsed with
  | nil => exact ⟨parsed, rfl⟩
  | cons text texts ih =>
      rw [totalGain] at fits
      have first := gain_nonneg length text
      have others := totalGain_nonneg length texts
      obtain ⟨next, added⟩ := @add_eq_some length text parsed positive (by omega)
      have isLength := (add_some added).1
      obtain ⟨result, rest⟩ := ih (by omega : 0 ≤ next.nRangeLength) (by omega)
      exact ⟨result, by rw [addAll, added, Option.bind_some, rest]⟩

/-- What elements that are added change. -/
theorem addAll_some (added : addAll length texts parsed = some result) :
    result.nRangeLength = parsed.nRangeLength + totalGain length texts ∧
      result.ranges = parsed.ranges ++ orderedRanges length texts ∧
      (parsed.nRangeLength < 2 ^ 63 → result.nRangeLength < 2 ^ 63) := by
  induction texts generalizing parsed with
  | nil =>
      cases added
      exact ⟨(Int.add_zero _).symm, (List.append_nil _).symm, id⟩
  | cons text texts ih =>
      rw [addAll] at added
      obtain ⟨next, first, rest⟩ := Option.bind_eq_some_iff.mp added
      obtain ⟨firstLength, firstRanges, firstBound⟩ := add_some first
      obtain ⟨restLength, restRanges, restBound⟩ := ih rest
      refine ⟨?_, ?_, fun small => restBound (firstBound small)⟩
      · rw [totalGain, restLength, firstLength, Int.add_assoc]
      · rw [restRanges, firstRanges, List.append_assoc, ← orderedRanges_cons]

end Add

/-! ## What is read and what is meant -/

/-- A range behind the first one that is read as it is meant: it has a begin, and its end lies
in the file. -/
def ByteRange.Kept (length : Nat) : ByteRange → Prop
  | .firstLast _ last _ => last.value < length
  | .firstOn _ => True
  | .suffix _ => False

/-- A first range that is read as it is meant: it begins where the file does. -/
def ByteRange.KeptFirst (length : Nat) : ByteRange → Prop
  | .firstLast first last _ => first.value = 0 ∧ last.value < length
  | .firstOn first => first.value = 0 ∨ length = 0
  | .suffix _ => False

/-- A range is read with the length of what is meant. -/
def Exact (content : List UInt8) (range : ByteRange) (read : ContentRange) : Prop :=
  gain read = (range.wanted content).length

section Reading

variable {content : List UInt8}

theorem gain_rangeOf (beg finish : Int) : gain (rangeOf beg finish) = max (finish - beg + 1) 0 := by
  rw [gain, rangeOf]
  simp only
  by_cases ordered : beg ≤ finish
  · rw [if_pos ordered]
    omega
  · rw [if_neg ordered]
    omega

theorem ByteRange.length_wanted (content : List UInt8) (range : ByteRange) :
    (range.wanted content).length =
      match range with
      | .firstLast first last _ => min (last.value + 1) content.length - first.value
      | .firstOn first => content.length - first.value
      | .suffix count => content.length - (content.length - count.value) := by
  cases range with
  | firstLast first last ordered =>
      rw [wanted, List.length_drop, List.length_take]
  | firstOn first => rw [wanted, List.length_drop]
  | suffix count => rw [wanted, List.length_drop]

/-- The octets of a range with a begin and an end. -/
theorem ByteRange.wanted_firstLast (first last : Numeral) (ordered : first.value ≤ last.value) :
    (firstLast first last ordered).wanted content =
      (content.drop first.value).take (last.value + 1 - first.value) := by
  rw [wanted, List.drop_take]

/-- A range behind the first one is read as no less than what is meant. -/
theorem wanted_le_gain (fits : content.length < 2 ^ 32) (range : ByteRange) :
    ((range.wanted content).length : Int) ≤ gain (rangeOf range.beg (range.finish content.length)) := by
  rw [ByteRange.length_wanted]
  cases range with
  | firstLast first last ordered =>
      simp only [gain_rangeOf, ByteRange.beg, ByteRange.finish]
      omega
  | firstOn first =>
      simp only [gain_rangeOf, ByteRange.beg, ByteRange.finish]
      omega
  | suffix count =>
      simp only [gain_rangeOf, ByteRange.beg, ByteRange.finish]
      omega

/-- Which ranges behind the first one are read with the length of what is meant. -/
theorem exact_iff (fits : content.length < 2 ^ 32) (range : ByteRange) :
    Exact content range (rangeOf range.beg (range.finish content.length)) ↔
      range.Kept content.length := by
  rw [Exact, ByteRange.length_wanted]
  cases range with
  | firstLast first last ordered =>
      simp only [gain_rangeOf, ByteRange.beg, ByteRange.finish, ByteRange.Kept]
      omega
  | firstOn first =>
      simp only [gain_rangeOf, ByteRange.beg, ByteRange.finish, ByteRange.Kept, iff_true]
      omega
  | suffix count =>
      simp only [gain_rangeOf, ByteRange.beg, ByteRange.finish, ByteRange.Kept, iff_false]
      omega

/-- The first range is read as no less than what is meant. -/
theorem wanted_le_gain_first (fits : content.length < 2 ^ 32) (range : ByteRange) :
    ((range.wanted content).length : Int) ≤ gain (rangeOf 0 (range.finish content.length)) := by
  rw [ByteRange.length_wanted]
  cases range with
  | firstLast first last ordered =>
      simp only [gain_rangeOf, ByteRange.finish]
      omega
  | firstOn first =>
      simp only [gain_rangeOf, ByteRange.finish]
      omega
  | suffix count =>
      simp only [gain_rangeOf, ByteRange.finish]
      omega

/-- Which first ranges are read with the length of what is meant. -/
theorem exact_first_iff (fits : content.length < 2 ^ 32) (range : ByteRange) :
    Exact content range (rangeOf 0 (range.finish content.length)) ↔
      range.KeptFirst content.length := by
  rw [Exact, ByteRange.length_wanted]
  cases range with
  | firstLast first last ordered =>
      simp only [gain_rangeOf, ByteRange.finish, ByteRange.KeptFirst]
      omega
  | firstOn first =>
      simp only [gain_rangeOf, ByteRange.finish, ByteRange.KeptFirst]
      omega
  | suffix count =>
      simp only [gain_rangeOf, ByteRange.finish, ByteRange.KeptFirst, iff_false]
      omega

/-- The octets that are sent for a range, if its end is not before its begin. -/
def readPart (content : List UInt8) (read : ContentRange) : List UInt8 :=
  if read.beg ≤ read.finish then part content read else []

theorem readPart_rangeOf (beg finish : Int) : readPart content (rangeOf beg finish) =
    if beg ≤ finish then (content.drop beg.toNat).take (finish - beg + 1).toNat else [] :=
  rfl

/-- What is sent for a range with a begin whose end lies in the file. -/
theorem readPart_ordered {first last : Nat} (ordered : first ≤ last) :
    readPart content (rangeOf first last) = (content.drop first).take (last + 1 - first) := by
  have count : ((last : Int) - first + 1).toNat = last + 1 - first := by omega
  rw [readPart_rangeOf, if_pos (Int.ofNat_le.mpr ordered), Int.toNat_natCast, count]

/-- What is sent for a range up to the end of the file. -/
theorem readPart_end (first : Nat) :
    readPart content (rangeOf first (content.length - 1)) = content.drop first := by
  by_cases inside : first < content.length
  · have last : (content.length : Int) - 1 = (content.length - 1 : Nat) := by omega
    rw [last, readPart_ordered (by omega), List.take_of_length_le]
    rw [List.length_drop]
    omega
  · rw [readPart_rangeOf, if_neg (by omega), List.drop_eq_nil_of_le (by omega)]

/-- A range that is kept is sent as it is meant. -/
theorem readPart_other (fits : content.length < 2 ^ 32) {range : ByteRange}
    (kept : range.Kept content.length) :
    readPart content (rangeOf range.beg (range.finish content.length)) =
      range.wanted content := by
  cases range with
  | firstLast first last ordered =>
      have inside : last.value < content.length := kept
      have isBeg : (ByteRange.firstLast first last ordered).beg = (first.value : Int) :=
        Int.min_eq_left (by omega)
      have isFinish : (ByteRange.firstLast first last ordered).finish content.length =
          (last.value : Int) := Int.min_eq_left (by omega)
      rw [isBeg, isFinish, readPart_ordered ordered, ByteRange.wanted_firstLast]
  | firstOn first =>
      rw [ByteRange.finish, ByteRange.wanted]
      by_cases inside : first.value < content.length
      · have isBeg : (ByteRange.firstOn first).beg = (first.value : Int) :=
          Int.min_eq_left (by omega)
        rw [isBeg, readPart_end]
      · have beyond : ¬(ByteRange.firstOn first).beg ≤ (content.length : Int) - 1 := by
          rw [ByteRange.beg]
          omega
        rw [readPart_rangeOf, if_neg beyond, List.drop_eq_nil_of_le (by omega)]
  | suffix count => exact kept.elim

/-- A first range that is kept is sent as it is meant. -/
theorem readPart_first (fits : content.length < 2 ^ 32) {range : ByteRange}
    (kept : range.KeptFirst content.length) :
    readPart content (rangeOf 0 (range.finish content.length)) = range.wanted content := by
  cases range with
  | firstLast first last ordered =>
      obtain ⟨begins, inside⟩ : first.value = 0 ∧ last.value < content.length := kept
      have isFinish : (ByteRange.firstLast first last ordered).finish content.length =
          (last.value : Int) := Int.min_eq_left (by omega)
      have read := @readPart_ordered content 0 last.value (Nat.zero_le last.value)
      rw [isFinish, ByteRange.wanted_firstLast, begins]
      exact read
  | firstOn first =>
      have read := @readPart_end content 0
      rw [ByteRange.finish, ByteRange.wanted]
      refine read.trans ?_
      rcases (kept : first.value = 0 ∨ content.length = 0) with begins | empty
      · rw [begins]
      · rw [List.length_eq_zero_iff.mp empty, List.drop_nil, List.drop_nil]
  | suffix count => exact kept.elim

end Reading

/-! ## The set -/

namespace RangeSet

variable {content : List UInt8}

/-- The texts between the commas, as the loop sees them. -/
def texts (set : RangeSet) : List (List UInt8) :=
  (set.skipped ++ set.first.text) :: set.others.map (·.text)

theorem texts_commaFree (set : RangeSet) : ∀ text ∈ set.texts, 0x2c ∉ text := by
  intro text member
  rcases List.mem_cons.mp member with rfl | member
  · exact not_mem_element (set.not_mem_skipped (by decide) (by decide) (by decide)) set.first
      (by decide) (by decide) (by decide)
  · obtain ⟨element, -, rfl⟩ := List.mem_map.mp member
    exact @not_mem_element 0x2c [] List.not_mem_nil element (by decide) (by decide) (by decide)

/-- The text of a set behind the first octet of its unit. -/
theorem text_cons (set : RangeSet) : ∃ ch, set.text =
    ch :: (set.skipped ++ set.first.text ++ set.others.flatMap (0x2c :: ·.text)) := by
  have isBytes := set.isBytes
  rw [text, skipped]
  cases isUnit : set.rangeUnit with
  | nil =>
      rw [isUnit] at isBytes
      cases isBytes
  | cons ch rest =>
      refine ⟨ch, ?_⟩
      simp only [List.tail_cons, List.cons_append, List.append_assoc, List.nil_append]

theorem text_nulFree (set : RangeSet) : 0 ∉ set.text := by
  have elementFree (element : RangeElement) : 0 ∉ element.text :=
    @not_mem_element 0 [] List.not_mem_nil element (by decide) (by decide) (by decide)
  rw [text]
  simp only [List.mem_append, List.mem_cons, List.mem_flatMap, not_or, not_exists, not_and]
  refine ⟨fun member => ?_, by decide, elementFree set.first, fun element _ =>
    ⟨by decide, elementFree element⟩⟩
  have inBytes := List.mem_map_of_mem (f := loch) member
  rw [set.isBytes] at inBytes
  exact absurd inBytes (by decide)

/-- The loop over a set of ranges. -/
theorem parseRanges_text (set : RangeSet) (length : Int) :
    cString set.text ≠ [] ∧ parseRanges length set.text = addAll length set.texts ⟨[], [], 0⟩ := by
  obtain ⟨ch, isText⟩ := set.text_cons
  have whole := cString_of_nulFree set.text_nulFree
  have loop := @rangesLoop_elements length _ _ set.texts_commaFree ⟨[], [], 0⟩
  rw [List.flatMap_map] at loop
  rw [parseRanges, whole, isText]
  exact ⟨List.cons_ne_nil _ _, loop⟩

/-- The set is read with the lengths that are meant: each of its ranges is kept. -/
def Kept (length : Nat) (set : RangeSet) : Prop :=
  set.first.range.KeptFirst length ∧ ∀ element ∈ set.others, element.range.Kept length

/-- Ranges behind the first one are read as no less than what is meant, and as that if they
are kept. -/
theorem totalGain_others (fits : content.length < 2 ^ 32) (others : List RangeElement) :
    ((others.flatMap (·.range.wanted content)).length : Int) ≤
        totalGain content.length (others.map (·.text)) ∧
      (totalGain content.length (others.map (·.text)) =
          (others.flatMap (·.range.wanted content)).length ↔
        ∀ element ∈ others, element.range.Kept content.length) := by
  induction others with
  | nil => exact ⟨Int.le_refl 0, fun _ element member => absurd member List.not_mem_nil,
      fun _ => rfl⟩
  | cons element others ih =>
      obtain ⟨least, same⟩ := ih
      have first := wanted_le_gain fits element.range
      have exact := exact_iff fits element.range
      rw [Exact] at exact
      rw [List.map_cons, totalGain, contentRange_other, List.flatMap_cons, List.length_append,
        List.forall_mem_cons, ← same, ← exact]
      omega

/-- A set is read as no less than what is meant, and as that if its ranges are kept. -/
theorem totalGain_texts (fits : content.length < 2 ^ 32) (set : RangeSet) :
    totalGain content.length set.texts = (set.wanted content).length ↔ set.Kept content.length := by
  obtain ⟨least, same⟩ := totalGain_others fits set.others
  have first := wanted_le_gain_first fits set.first.range
  have exact := exact_first_iff fits set.first.range
  rw [Exact] at exact
  rw [texts, totalGain, contentRange_first, wanted, List.length_append, Kept, ← same, ← exact]
  omega

/-- What is sent for some ranges that are read. -/
theorem flatMap_orderedRanges (length : Int) (texts : List (List UInt8)) :
    (orderedRanges length texts).flatMap (part content) =
      texts.flatMap fun text => readPart content (contentRange length text) := by
  induction texts with
  | nil => rfl
  | cons text texts ih =>
      rw [orderedRanges_cons, List.flatMap_append, ih, List.flatMap_cons, orderedRanges_single, readPart]
      by_cases ordered : (contentRange length text).beg ≤ (contentRange length text).finish
      · rw [if_pos ordered, if_pos ordered, List.flatMap_cons, List.flatMap_nil, List.append_nil]
      · rw [if_neg ordered, if_neg ordered, List.flatMap_nil]

/-- A set whose ranges are kept is sent as it is meant. -/
theorem flatMap_texts (fits : content.length < 2 ^ 32) {set : RangeSet}
    (kept : set.Kept content.length) :
    (orderedRanges content.length set.texts).flatMap (part content) = set.wanted content := by
  rw [flatMap_orderedRanges, texts, List.flatMap_cons, contentRange_first,
    readPart_first fits kept.1, wanted, List.flatMap_map]
  congr 1
  refine List.flatMap_congr fun element member => ?_
  rw [contentRange_other, readPart_other fits (kept.2 element member)]

end RangeSet

/-! ## What is sent -/

/-- A reply with the octets that are asked for, but for `HEAD`, and their number as the
length. -/
structure Sends (request : FileRequest) (wanted : List UInt8) (reply : FileReply) : Prop where
  body : reply.body = if request.method = .head then [] else wanted
  contentLength : OrderedMap.find (octets "Content-Length") reply.fields =
    some (sprintfD wanted.length)

/-- Both ways to serve a file send what is asked for, unless the client has the file. -/
def SendsRanges (system : FileSystem) (request : FileRequest) (file : ServedFile)
    (set : RangeSet) : Prop :=
  notModified system request file = true ∨
    ((∃ reply, cachedResponse system request file = some reply ∧
        Sends request (set.wanted file.content) reply) ∧
      ∃ rounds reply, streamedResponse system request file rounds = some reply ∧
        Sends request (set.wanted file.content) reply)

/-- Each range is kept, and the lengths fit. -/
def Honoured (request : FileRequest) (file : ServedFile) (set : RangeSet) : Prop :=
  set.Kept file.content.length ∧ (set.wanted file.content).length < 2 ^ 63 ∧
    (request.method = .head ∨ file.content.length < 2 ^ 31)

section Sending

variable {system : FileSystem} {request : FileRequest} {file : ServedFile} {set : RangeSet}
  {parsed : Ranges}

theorem find_set_other {name other value : List UInt8} (isOther : other ≠ name)
    (entries : StringMap) :
    OrderedMap.find name (entries.set other value) = OrderedMap.find name entries := by
  rw [StringMap.set, OrderedMap.find_set, if_neg isOther]

/-- The length that the header names. -/
theorem find_contentLength : OrderedMap.find (octets "Content-Length")
    (header system request file parsed).2 = some (sprintfD parsed.nRangeLength) := by
  have found : OrderedMap.find (octets "Content-Length")
      ((system.responseHeader.set (octets "ETag") file.quotedEtag).set (octets "Content-Length")
        (sprintfD parsed.nRangeLength)) = some (sprintfD parsed.nRangeLength) := by
    rw [StringMap.set, OrderedMap.find_set, if_pos rfl]
  rw [header]
  split
  · rw [find_set_other (by decide), find_set_other (by decide), find_set_other (by decide),
      find_set_other (by decide), find_set_other (by decide), found]
  · rw [find_set_other (by decide), find_set_other (by decide), find_set_other (by decide),
      find_set_other (by decide), found]

theorem sprintfD_eq_natCast {number : Int} (positive : 0 ≤ number) {length : Nat} :
    some (sprintfD number) = some (sprintfD length) ↔ number = length := by
  obtain ⟨natural, rfl⟩ := Int.eq_ofNat_of_zero_le positive
  rw [Option.some.injEq, sprintfD_natCast, sprintfD_natCast, Decimal.digits_inj,
    Int.natCast_inj]

theorem parsed_length_nonneg (isParsed : parseRanges file.content.length set.text = some parsed) :
    0 ≤ parsed.nRangeLength := by
  rw [(set.parseRanges_text file.content.length).2] at isParsed
  rw [(addAll_some isParsed).1, Int.zero_add]
  exact totalGain_nonneg _ _

/-- A set whose lengths fit is read. -/
theorem exists_parsed (kept : set.Kept file.content.length)
    (fits : (set.wanted file.content).length < 2 ^ 63) :
    ∃ parsed, parseRanges file.content.length set.text = some parsed := by
  rw [(set.parseRanges_text file.content.length).2]
  refine addAll_eq_some (Int.le_refl 0) ?_
  rw [Int.zero_add, (RangeSet.totalGain_texts file.fits set).mpr kept]
  omega

/-- The set is read with the length that is meant exactly if each range is kept, and their
lengths fit. -/
theorem parsed_length_iff (isParsed : parseRanges file.content.length set.text = some parsed) :
    parsed.nRangeLength = (set.wanted file.content).length ↔
      set.Kept file.content.length ∧ (set.wanted file.content).length < 2 ^ 63 := by
  rw [(set.parseRanges_text file.content.length).2] at isParsed
  obtain ⟨isLength, -, bound⟩ := addAll_some isParsed
  rw [Int.zero_add] at isLength
  rw [← RangeSet.totalGain_texts file.fits set, ← isLength]
  have small := bound (by decide)
  omega

theorem parsed_ranges (isParsed : parseRanges file.content.length set.text = some parsed) :
    parsed.ranges = orderedRanges file.content.length set.texts := by
  rw [(set.parseRanges_text file.content.length).2] at isParsed
  obtain ⟨-, isRanges, -⟩ := addAll_some isParsed
  rwa [List.nil_append] at isRanges

theorem ByteRange.finish_lt {length : Nat} (fits : length < 2 ^ 32) {range : ByteRange}
    (kept : range.Kept length ∨ range.KeptFirst length) : range.finish length < length := by
  cases range with
  | firstLast first last ordered =>
      have inside : last.value < length := kept.elim id (·.2)
      rw [finish]
      omega
  | firstOn first =>
      rw [finish]
      omega
  | suffix count => exact (kept.elim id id : False).elim

/-- The ranges of a set that is kept lie in the file. -/
theorem parsed_within (isParsed : parseRanges file.content.length set.text = some parsed)
    (kept : set.Kept file.content.length) :
    ∀ range ∈ parsed.ranges, range.beg + range.len ≤ file.content.length := by
  rw [parsed_ranges isParsed]
  intro range member
  obtain ⟨text, inTexts, rfl⟩ := List.mem_map.mp (List.mem_filter.mp member).1
  have finishes : (contentRange file.content.length text).finish < file.content.length := by
    rcases List.mem_cons.mp inTexts with rfl | inOthers
    · rw [contentRange_first, rangeOf]
      exact ByteRange.finish_lt file.fits (.inr kept.1)
    · obtain ⟨element, isOther, rfl⟩ := List.mem_map.mp inOthers
      rw [contentRange_other, rangeOf]
      exact ByteRange.finish_lt file.fits (.inl (kept.2 element isOther))
  rw [contentRange_len]
  omega

/-- Ranges that lie in the file come to an end in a stream. -/
theorem streamable_of_within {length : Nat} {seekLimit : Int} {ranges : List ContentRange}
    (within : ∀ range ∈ ranges, Within length range) : Streamable length seekLimit ranges := by
  induction ranges with
  | nil => trivial
  | cons range ranges ih =>
      exact .inl ⟨within range List.mem_cons_self,
        ih fun other member => within other (List.mem_cons_of_mem _ member)⟩

/-- What is sent for a set that is kept. -/
theorem bodies_of_honoured (isSet : request.range = set.text)
    (known : (file.content.length : Int) ≤ system.seekLimit)
    (isParsed : parseRanges file.content.length set.text = some parsed)
    (honoured : Honoured request file set) :
    cachedBody request file parsed =
        some (if request.method = .head then [] else set.wanted file.content) ∧
      streamedBody system request file parsed (2 ^ 31) =
        some (if request.method = .head then [] else set.wanted file.content) := by
  obtain ⟨kept, -, small⟩ := honoured
  have isRange := (set.parseRanges_text file.content.length).1
  have ranges := parsed_parseRanges isParsed
  have within := parsed_within isParsed kept
  have sent : parsed.ranges.flatMap (part file.content) = set.wanted file.content := by
    rw [parsed_ranges isParsed, RangeSet.flatMap_texts file.fits kept]
  rw [cachedBody, streamedBody, isSet, if_neg isRange, if_neg isRange]
  by_cases head : request.method = .head
  · rw [if_pos head, if_pos head, if_pos head]
    exact ⟨rfl, rfl⟩
  · have short := small.resolve_left head
    rw [if_neg head, if_neg head, if_neg head, ← sent]
    constructor
    · refine cachedRanges_eq ranges fun range member => ?_
      have inside := within range member
      obtain ⟨low, positive⟩ := ranges range member
      rw [Cacheable, if_pos (by omega)]
      omega
    · refine streamedRanges_eq rfl ranges known ?_ (Nat.le_refl _)
      have all : ∀ range ∈ parsed.ranges, Within file.content.length range := by
        intro range member
        have inside := within range member
        obtain ⟨low, positive⟩ := ranges range member
        exact ⟨by omega, inside⟩
      exact streamable_of_within all

/-- A file of 2^31 octets or more is not sent from the cache as it is asked for. -/
theorem small_of_cachedRanges (isParsed : parseRanges file.content.length set.text = some parsed)
    (kept : set.Kept file.content.length)
    (sent : cachedRanges file.content parsed.ranges = some (set.wanted file.content)) :
    file.content.length < 2 ^ 31 := by
  by_cases empty : file.content.length = 0
  · omega
  · have same : (set.wanted file.content).length =
        (parsed.ranges.flatMap (part file.content)).length := by
      rw [parsed_ranges isParsed, RangeSet.flatMap_texts file.fits kept]
    have cacheable :=
      (length_cachedRanges file.fits (parsed_parseRanges isParsed) sent).2 same
    have nonnegative : 0 ≤ set.first.range.finish file.content.length := by
      cases isFirst : set.first.range with
      | firstLast first last ordered =>
          rw [ByteRange.finish]
          omega
      | firstOn first =>
          rw [ByteRange.finish]
          omega
      | suffix count =>
          rw [ByteRange.finish]
          omega
    have member : rangeOf 0 (set.first.range.finish file.content.length) ∈ parsed.ranges := by
      rw [parsed_ranges isParsed, orderedRanges, RangeSet.texts, List.map_cons,
        contentRange_first]
      exact List.mem_filter.mpr ⟨List.mem_cons_self, decide_eq_true nonnegative⟩
    have first := cacheable _ member
    rw [Cacheable, if_pos (by rw [rangeOf]; simp only; omega), rangeOf] at first
    simp only at first
    omega

end Sending

/-- What is asked for is sent exactly if each range is kept and the lengths fit: the first range
begins where the file does, none is a suffix, and every end lies in the file. -/
theorem sendsRanges_iff (system : FileSystem) (request : FileRequest) (file : ServedFile)
    (set : RangeSet) (isSet : request.range = set.text)
    (known : (file.content.length : Int) ≤ system.seekLimit) :
    SendsRanges system request file set ↔
      notModified system request file = true ∨ Honoured request file set := by
  unfold SendsRanges
  by_cases has : notModified system request file = true
  · exact ⟨fun _ => .inl has, fun _ => .inl has⟩
  · rw [or_iff_right has, or_iff_right has]
    unfold streamedResponse cachedResponse response
    simp only [if_neg has, isSet]
    constructor
    case mp =>
      rintro ⟨⟨reply, isReply, sends⟩, -⟩
      cases isParsed : parseRanges file.content.length set.text with
      | none =>
          rw [isParsed] at isReply
          cases isReply
      | some parsed =>
          rw [isParsed] at isReply
          obtain ⟨body, isBody, rfl⟩ := Option.map_eq_some_iff.mp isReply
          have isLength := sends.contentLength
          rw [find_contentLength, sprintfD_eq_natCast (parsed_length_nonneg isParsed)] at isLength
          obtain ⟨kept, fits⟩ := (parsed_length_iff isParsed).mp isLength
          refine ⟨kept, fits, ?_⟩
          by_cases head : request.method = .head
          · exact .inl head
          · have sent := sends.body
            rw [if_neg head] at sent
            rw [cachedBody, if_neg head, isSet,
              if_neg (set.parseRanges_text file.content.length).1] at isBody
            exact .inr (small_of_cachedRanges isParsed kept (isBody.trans (congrArg some sent)))
    case mpr =>
      intro honoured
      obtain ⟨parsed, isParsed⟩ := exists_parsed honoured.1 honoured.2.1
      obtain ⟨cached, streamed⟩ := bodies_of_honoured isSet known isParsed honoured
      have isLength := (parsed_length_iff isParsed).mpr ⟨honoured.1, honoured.2.1⟩
      have sends : Sends request (set.wanted file.content)
          { status := (header system request file parsed).1
            fields := (header system request file parsed).2
            body := if request.method = .head then [] else set.wanted file.content } :=
        ⟨rfl, by rw [find_contentLength, isLength]⟩
      rw [isParsed]
      exact ⟨⟨_, Option.map_eq_some_iff.mpr ⟨_, cached, rfl⟩, sends⟩,
        2 ^ 31, _, Option.map_eq_some_iff.mpr ⟨_, streamed, rfl⟩, sends⟩

/-! ## Trials -/

def trialNumeral (digit : UInt8) (isDigit : 0x30 ≤ digit ∧ digit ≤ 0x39) : Numeral where
  text := [digit]
  nonempty := List.cons_ne_nil digit []
  digits _ member := List.mem_singleton.mp member ▸ isDigit

/-- A range without blanks around it. -/
def ByteRange.element (range : ByteRange) : RangeElement where
  range := range
  before := []
  behind := []
  blankBefore _ member := absurd member List.not_mem_nil
  blankBehind _ member := absurd member List.not_mem_nil

/-- A set of one range. -/
def ByteRange.alone (range : ByteRange) : RangeSet where
  rangeUnit := octets "bytes"
  isBytes := by decide
  first := range.element
  others := []

/-- `0-1`. -/
def trialFront : ByteRange :=
  .firstLast (trialNumeral 0x30 (by decide)) (trialNumeral 0x31 (by decide)) (by decide)

/-- `-1`. -/
def trialSuffix : ByteRange :=
  .suffix (trialNumeral 0x31 (by decide))

theorem sendsRanges_trial : (trialRequest "bytes=0-1").range = trialFront.alone.text ∧
    (trialFile.content.length : Int) ≤ trialSystem.seekLimit ∧
    SendsRanges trialSystem (trialRequest "bytes=0-1") trialFile trialFront.alone :=
  have isSet : (trialRequest "bytes=0-1").range = trialFront.alone.text := by decide
  have known : (trialFile.content.length : Int) ≤ trialSystem.seekLimit := by decide
  ⟨isSet, known, (sendsRanges_iff trialSystem (trialRequest "bytes=0-1") trialFile
    trialFront.alone isSet known).mpr
      (.inr ⟨⟨⟨by decide, by decide⟩, fun element member => absurd member List.not_mem_nil⟩,
        by decide, .inr (by decide)⟩)⟩

/-- Instead of the last octet the first two are sent. -/
theorem not_sendsRanges : (trialRequest "bytes=-1").range = trialSuffix.alone.text ∧
    ¬SendsRanges trialSystem (trialRequest "bytes=-1") trialFile trialSuffix.alone := by
  refine ⟨by decide, ?_⟩
  have isNew : ¬notModified trialSystem (trialRequest "bytes=-1") trialFile = true := by
    decide
  have isReply : (cachedResponse trialSystem (trialRequest "bytes=-1") trialFile).map (·.body) =
      some (octets "ab") := by
    decide
  rintro (has | ⟨⟨reply, isSent, sends⟩, -⟩)
  · exact isNew has
  · rw [isSent, Option.map_some, sends.body] at isReply
    exact absurd isReply (by decide)

end WebDoc

end Http1

end HeapHttpd
