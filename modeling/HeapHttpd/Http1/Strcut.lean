import HeapHttpd.Http1.CHttp
import HeapHttpd.Library.Occurrence
import HeapHttpd.Library.Outcome
import Mathlib.Algebra.Group.Nat.Defs

/-!
# Cutting a text

`strcut` with any markers.  Positions are of `string::size_type`, so that a sum with `npos` and a
difference below zero wrap around.
-/

namespace HeapHttpd

namespace General

open Occurrence (First Absent Starts Between search)

/-- A string with a NUL behind it, in memory. -/
structure CText where
  octets : List UInt8
  nulFree : 0 ∉ octets
  fits : octets.length < 2 ^ 63

/-- `string::npos`. -/
def npos : Nat :=
  2 ^ 64 - 1

/-- A sum of two sizes. -/
def sizeAdd (first second : Nat) : Nat :=
  (first + second) % 2 ^ 64

/-- A difference of two sizes. -/
def sizeSub (first second : Nat) : Nat :=
  (first + (2 ^ 64 - second)) % 2 ^ 64

/-- `string::find` from a position on. -/
def CText.find (strText marker : CText) (pos : Nat) : Nat :=
  (search marker.octets strText.octets pos).getD npos

/-- `string::substr`, which throws for a position behind the end. -/
def CText.substr (strText : CText) (pos count : Nat) : Outcome (List UInt8) :=
  if strText.octets.length < pos then .err else .ok ((strText.octets.drop pos).take count)

/-- `strlen`. -/
def CText.strlen (text : CText) : Nat :=
  text.octets.length

/-- Where the text stops: at `endstring` from a position on, or at its end. -/
def stopsAt (endstring : Option CText) (pos : Nat) (text : CText) : Nat :=
  match endstring with
  | none => text.strlen
  | some endstring => text.find endstring pos

/-- What is between two positions. -/
def cutAt (subfirst ops2 : Nat) (text : CText) : Outcome (List UInt8) :=
  let sublen := if ops2 = npos then sizeSub text.strlen subfirst else sizeSub ops2 subfirst
  if sublen = 0 then .ok [] else text.substr subfirst sublen

/-- `strcut`. -/
def strcut (text : CText) (begstring endstring : Option CText) : Outcome (List UInt8) :=
  match begstring with
  | none =>
      let ops2 := stopsAt endstring 0 text
      cutAt 0 ops2 text
  | some begstring =>
      let ops1 := text.find begstring 0
      let ops2 := stopsAt endstring (sizeAdd ops1 begstring.strlen) text
      let subfirst := if ops1 = npos then text.strlen else sizeAdd ops1 begstring.strlen
      cutAt subfirst ops2 text

variable {text : CText} {begstring endstring : Option CText} {start : Nat}

theorem find_of_first {marker : CText} {pos index : Nat}
    (first : First marker.octets text.octets pos index) : text.find marker pos = index := by
  rw [CText.find, Occurrence.search_eq_some_iff.mpr first, Option.getD_some]

theorem find_of_absent {marker : CText} {pos : Nat}
    (absent : Absent marker.octets text.octets pos) : text.find marker pos = npos := by
  rw [CText.find, Occurrence.search_eq_none_iff.mpr absent, Option.getD_none]

/-- A place in a text is not `npos`. -/
theorem ne_npos (text : CText) {place : Nat} (inside : place ≤ text.octets.length) :
    place ≠ npos := by
  have fits := text.fits
  rw [npos]
  omega

theorem sizeSub_of_le {first second : Nat} (le : second ≤ first) (small : first < 2 ^ 64) :
    sizeSub first second = first - second := by
  rw [sizeSub]
  omega

theorem sizeAdd_of_le {first second : Nat} (inside : first + second ≤ text.octets.length) :
    sizeAdd first second = first + second := by
  have fits := text.fits
  exact Nat.mod_eq_of_lt (by omega)

/-- What is between two places of the text. -/
theorem cutAt_of_le {stop : Nat} (starts : start ≤ stop) (stops : stop ≤ text.octets.length) :
    cutAt start stop text = .ok ((text.octets.take stop).drop start) := by
  have fits := text.fits
  rw [cutAt, if_neg (ne_npos text stops), sizeSub_of_le starts (by omega)]
  split
  · next empty =>
      have short : (text.octets.take stop).length ≤ start := by
        rw [List.length_take]
        omega
      rw [List.drop_of_length_le short]
  · rw [CText.substr, if_neg (by omega), List.drop_take]

theorem cutAt_length (starts : start ≤ text.octets.length) :
    cutAt start text.strlen text = .ok (text.octets.drop start) := by
  rw [CText.strlen, cutAt_of_le starts (Nat.le_refl _), List.take_length]

/-- Without a marker behind it, the text goes to its end. -/
theorem cutAt_npos (starts : start ≤ text.octets.length) :
    cutAt start npos text = .ok (text.octets.drop start) := by
  rw [← cutAt_length starts, cutAt, cutAt, if_pos rfl, ite_self]

/-- What is done behind the first marker. -/
theorem strcut_of_starts (starts : Starts text.octets (begstring.map CText.octets) start) :
    strcut text begstring endstring = cutAt start (stopsAt endstring start text) text := by
  cases begstring with
  | none =>
      cases starts
      rfl
  | some begstring =>
      cases starts with
      | behind _ index first =>
          have sum : sizeAdd index begstring.strlen = index + begstring.octets.length :=
            sizeAdd_of_le first.length_le
          rw [strcut, find_of_first first, if_neg (ne_npos text first.inside), sum]

/-- Where the first marker is missing, the cut is made at the end, and whatever the wrapped length
is, nothing is left. -/
theorem strcut_of_absent {begstring : CText}
    (absent : Absent begstring.octets text.octets 0) :
    strcut text (some begstring) endstring = .ok [] := by
  have empty (count : Nat) : text.substr text.strlen count = .ok [] := by
    rw [CText.substr, CText.strlen, if_neg (Nat.lt_irrefl _), List.drop_length, List.take_nil]
  rw [strcut, find_of_absent absent, if_pos rfl, cutAt, empty, ite_self]

/-- What is behind the first marker is cut where it should be. -/
theorem between_of_starts (endstring : Option CText)
    (starts : Starts text.octets (begstring.map CText.octets) start) :
    ∃ result, strcut text begstring endstring = .ok result ∧
      Between text.octets (begstring.map CText.octets) (endstring.map CText.octets) result := by
  rw [strcut_of_starts starts]
  cases endstring with
  | none => exact ⟨_, cutAt_length starts.le_length, .of_starts starts⟩
  | some endstring =>
      cases found : search endstring.octets text.octets start with
      | none =>
          have absent := Occurrence.search_eq_none_iff.mp found
          rw [stopsAt, find_of_absent absent]
          refine ⟨_, cutAt_npos starts.le_length, .rest start starts ?_⟩
          exact fun part isBack => Option.some.inj isBack ▸ absent
      | some stop =>
          have first := Occurrence.search_eq_some_iff.mp found
          rw [stopsAt, find_of_first first]
          exact ⟨_, cutAt_of_le first.behind first.inside,
            .cut start stop endstring.octets starts rfl first⟩

theorem exists_between (text : CText) (begstring endstring : Option CText) :
    ∃ result, strcut text begstring endstring = .ok result ∧
      Between text.octets (begstring.map CText.octets) (endstring.map CText.octets) result := by
  cases begstring with
  | none => exact between_of_starts endstring .whole
  | some begstring =>
      cases found : search begstring.octets text.octets 0 with
      | none =>
          have absent := Occurrence.search_eq_none_iff.mp found
          exact ⟨[], strcut_of_absent absent, .nothing begstring.octets rfl absent⟩
      | some index =>
          have first := Occurrence.search_eq_some_iff.mp found
          have starts : Starts text.octets ((some begstring).map CText.octets) _ :=
            .behind begstring.octets index first
          exact between_of_starts endstring starts

/-- `strcut` throws nothing, and gives what is between the markers and nothing else. -/
theorem strcut_between (text : CText) (begstring endstring : Option CText) :
    ∃ result, strcut text begstring endstring = .ok result ∧
      ∀ other, Between text.octets (begstring.map CText.octets) (endstring.map CText.octets) other ↔
        other = result := by
  obtain ⟨result, cut, isBetween⟩ := exists_between text begstring endstring
  refine ⟨result, cut, fun other => ⟨fun isBetween' => isBetween'.unique isBetween, ?_⟩⟩
  rintro rfl
  exact isBetween

theorem strcut_of_between {result : List UInt8}
    (isBetween : Between text.octets (begstring.map CText.octets) (endstring.map CText.octets)
      result) : strcut text begstring endstring = .ok result := by
  obtain ⟨result', cut, isBetween'⟩ := exists_between text begstring endstring
  rw [cut, isBetween'.unique isBetween]

/-! ## Single markers -/

/-- Up to a delimiter of one octet. -/
theorem strcut_eq_strcutBefore {delimiter : CText} {endOctet : UInt8}
    (single : delimiter.octets = [endOctet]) (text : CText) :
    strcut text none (some delimiter) = .ok (strcutBefore text.octets endOctet) := by
  have isBack : (some delimiter).map CText.octets = some [endOctet] := congrArg some single
  rw [strcutBefore, cString_of_nulFree text.nulFree]
  refine strcut_of_between ?_
  rw [isBack]
  by_cases member : endOctet ∈ text.octets
  · obtain ⟨front, rest, whole, free⟩ := List.eq_append_cons_of_mem member
    have first : First [endOctet] (front ++ endOctet :: rest) 0 front.length :=
      Occurrence.first_symbol free
    have cut : Between (front ++ endOctet :: rest) none (some [endOctet]) _ :=
      .cut 0 front.length [endOctet] .whole rfl first
    rw [List.take_left, List.drop_zero] at cut
    rw [whole, Lines.takeWhile_until free]
    exact cut
  · have all : text.octets.takeWhile (· ≠ endOctet) = text.octets := by
      rw [List.takeWhile_eq_self_iff]
      exact fun ch isIn => decide_eq_true fun same => member (same ▸ isIn)
    rw [all]
    refine Between.rest 0 .whole fun part isPart => ?_
    cases isPart
    exact Occurrence.absent_symbol member

/-- From behind a delimiter of one octet. -/
theorem strcut_eq_strcutAfter {delimiter : CText} {begOctet : UInt8}
    (single : delimiter.octets = [begOctet]) (text : CText) :
    strcut text (some delimiter) none = .ok (strcutAfter text.octets begOctet) := by
  have isFront : (some delimiter).map CText.octets = some [begOctet] := congrArg some single
  rw [strcutAfter, cString_of_nulFree text.nulFree]
  refine strcut_of_between ?_
  rw [isFront]
  by_cases member : begOctet ∈ text.octets
  · obtain ⟨front, rest, whole, free⟩ := List.eq_append_cons_of_mem member
    have first : First [begOctet] (front ++ begOctet :: rest) 0 front.length :=
      Occurrence.first_symbol free
    have cut : Between (front ++ begOctet :: rest) (some [begOctet]) none _ :=
      .of_starts (.behind [begOctet] front.length first)
    rw [List.length_singleton, ← List.drop_drop, List.drop_left, List.drop_one] at cut
    rw [whole, Lines.dropWhile_until free]
    exact cut
  · have gone : text.octets.dropWhile (· ≠ begOctet) = [] := by
      rw [List.dropWhile_eq_nil_iff]
      exact fun ch isIn => decide_eq_true fun same => member (same ▸ isIn)
    rw [gone]
    exact .nothing [begOctet] rfl (Occurrence.absent_symbol member)

/-- The search from place to place finds the first occurrence, if there is one. -/
theorem strcutFrom_first_or_absent (begString text : List UInt8) :
    (∃ index, First begString text 0 index ∧
        Http1.strcutFrom begString text = text.drop (index + begString.length)) ∨
      Absent begString text 0 ∧ Http1.strcutFrom begString text = [] := by
  induction text with
  | nil =>
      cases begString with
      | nil => exact .inl ⟨0, Occurrence.first_of_prefix List.nil_prefix, rfl⟩
      | cons ch begString =>
          right
          refine ⟨fun index _ _ here => ?_, rfl⟩
          rw [List.drop_nil] at here
          cases List.prefix_nil.mp here
  | cons ch text ih =>
      rw [Http1.strcutFrom]
      split
      · next begins =>
          have here := List.isPrefixOf_iff_prefix.mp begins
          exact .inl ⟨0, Occurrence.first_of_prefix here, by rw [Nat.zero_add]⟩
      · next notHere =>
          rw [List.isPrefixOf_iff_prefix] at notHere
          rcases ih with ⟨index, first, behind⟩ | ⟨absent, none⟩
          · refine .inl ⟨index + 1, first.cons notHere, ?_⟩
            rw [behind, Nat.add_right_comm, List.drop_succ_cons]
          · exact .inr ⟨absent.cons notHere, none⟩

/-- From behind a marker. -/
theorem strcut_eq_strcutFrom (text begstring : CText) :
    strcut text (some begstring) none = .ok (Http1.strcutFrom begstring.octets text.octets) := by
  refine strcut_of_between ?_
  rcases strcutFrom_first_or_absent begstring.octets text.octets with
    ⟨index, first, behind⟩ | ⟨absent, none⟩
  · rw [behind]
    exact .of_starts (.behind begstring.octets index first)
  · rw [none]
    exact .nothing begstring.octets rfl absent

end General

end HeapHttpd
