import HeapHttpd.Library.Calendar
import HeapHttpd.Library.Scan
import HeapHttpd.Tunneling.HttpClient

/-!
# Dates in header fields

The texts of dates of `util/general.h`: how a time is printed for `Last-Modified` and `Expires`,
and how the time of a text is found again.
-/

namespace HeapHttpd

namespace Http1

open General
open Http2 (toInt)
open Tunneling (atoi)
open Scan (Directive Stored scan)

/-- `struct tm`, less what nothing here reads. -/
structure Tm where
  tmYear : Int
  tmMon : Int
  tmMday : Int
  tmHour : Int
  tmMin : Int
  tmSec : Int
  tmWday : Nat
  deriving DecidableEq

/-- `gmtime`, at a time that is not before 1970. -/
def gmtime (clock : Nat) : Tm :=
  let date := Calendar.dateOf (clock / 86400)
  { tmYear := date.year - 1900
    tmMon := date.month
    tmMday := date.day
    tmHour := (clock % 86400 / 3600 : Nat)
    tmMin := (clock % 3600 / 60 : Nat)
    tmSec := (clock % 60 : Nat)
    tmWday := (clock / 86400 + 4) % 7 }

/-- The seconds of normalised fields, whose month gives years. -/
def Tm.seconds (tm : Tm) : Int :=
  let date : Calendar.Date :=
    { year := 1900 + tm.tmYear + tm.tmMon / 12, month := (tm.tmMon % 12).toNat, day := 1 }
  (((date.number + (tm.tmMday - 1)) * 24 + tm.tmHour) * 60 + tm.tmMin) * 60 + tm.tmSec

/-- `timegm`, which fails where the year of the result is no `int`. -/
def timegm (tm : Tm) : Int :=
  if Calendar.daysBeforeYear (1900 - 2 ^ 31) * 86400 ≤ tm.seconds ∧
      tm.seconds < Calendar.daysBeforeYear (1900 + 2 ^ 31) * 86400 then tm.seconds
  else -1

/-- `%a` of `strftime` in the C locale. -/
def weekdayNames : List (List UInt8) :=
  ["Sun", "Mon", "Tue", "Wed", "Thu", "Fri", "Sat"].map octets

/-- The names of `getmonthnumber`, which `%h` of `strftime` prints in the C locale. -/
def monthNames : List (List UInt8) :=
  ["Jan", "Feb", "Mar", "Apr", "May", "Jun", "Jul", "Aug", "Sep", "Oct", "Nov", "Dec"].map octets

/-- `%d` of `strftime`, of a number that is not negative. -/
def twoDigits (number : Nat) : List UInt8 :=
  List.replicate (2 - (Decimal.digits number).length) 0x30 ++ Decimal.digits number

/-- `strftime` with `"%a, %d %h %Y %H:%M:%S "` and a zone. -/
def strftime (zone : String) (tm : Tm) : List UInt8 :=
  weekdayNames.getD tm.tmWday (octets "?") ++ (octets ", " ++ (twoDigits tm.tmMday.toNat ++
    (octets " " ++ (monthNames.getD tm.tmMon.toNat (octets "?") ++ (octets " " ++
      (sprintfD (1900 + tm.tmYear) ++ (octets " " ++ (twoDigits tm.tmHour.toNat ++ (octets ":" ++
        (twoDigits tm.tmMin.toNat ++ (octets ":" ++ (twoDigits tm.tmSec.toNat ++ (octets " " ++
          octets zone)))))))))))))

/-- `OutHTTPGMTDateString`. -/
def outHTTPGMTDateString (nTime : UInt32) : List UInt8 :=
  strftime "GMT" (gmtime nTime.toNat)

/-- `OutHTTPUTCDateString`. -/
def outHTTPUTCDateString (nTime : UInt32) : List UInt8 :=
  strftime "UTC" (gmtime nTime.toNat)

/-- `getmonthnumber`. -/
def getmonthnumber (mstr : List UInt8) : Int :=
  match monthNames.findIdx? (strcasecmp mstr) with
  | some month => month + 1
  | none => atoi mstr

/-- `"%*[^,], %d %[^ ] %d %d:%d:%d %[^ ]"`. -/
def dateFormat : List Directive :=
  [.skipTo 0x2c, .exact 0x2c, .blanks, .number, .blanks, .wordTo 0x20, .blanks, .number,
    .blanks, .number, .exact 0x3a, .number, .exact 0x3a, .number, .blanks, .wordTo 0x20]

/-- The `int` that `%d` of `sscanf` stores. -/
def scannedInt (value : Int) : Int :=
  toInt (max (-2 ^ 63) (min value (2 ^ 63 - 1)))

/-- `ParseGMTorUTCTimeString`. There is a fault where a word does not fit into its array, where
`sz_zone` is read before it is set, and where an `int` overflows. -/
def parseGMTorUTCTimeString (szDateTime : List UInt8) : Outcome Int :=
  if (cString szDateTime).length < 29 then .ok 0
  else
    match scan isSpace dateFormat (cString szDateTime) with
    | [.number day, .word mon, .number year, .number hour, .number min, .number sec,
        .word zone] =>
        if 32 ≤ mon.length ∨ 32 ≤ zone.length then .fault
        else if zone ≠ octets "GMT" ∧ zone ≠ octets "UTC" then .ok 0
        else if getmonthnumber mon = -2 ^ 31 then .fault
        else
          .ok (timegm
            { tmYear := toInt (scannedInt year - 1900)
              tmMon := getmonthnumber mon - 1
              tmMday := scannedInt day
              tmHour := scannedInt hour
              tmMin := scannedInt min
              tmSec := scannedInt sec
              tmWday := 0 })
    | _ => .fault

/-! ## Printed numbers -/

theorem value_lt_pow_length {text : List UInt8}
    (all : ∀ digit ∈ text, Decimal.isDigit digit = true) :
    Decimal.value text < 10 ^ text.length := by
  suffices foldl_lt : ∀ start, text.foldl (fun value digit => value * 10 + (digit.toNat - 0x30))
      start < (start + 1) * 10 ^ text.length by
    have whole := foldl_lt 0
    rwa [Nat.zero_add, Nat.one_mul] at whole
  induction text with
  | nil =>
      intro start
      rw [List.foldl_nil, List.length_nil, Nat.pow_zero]
      omega
  | cons digit text ih =>
      intro start
      have later := ih (fun other member => all other (List.mem_cons_of_mem _ member))
        (start * 10 + (digit.toNat - 0x30))
      have small : digit.toNat - 0x30 ≤ 9 := by
        have isDigit := all digit List.mem_cons_self
        simp only [Decimal.isDigit, Bool.and_eq_true, decide_eq_true_eq,
          UInt8.le_iff_toNat_le] at isDigit
        have : (0x39 : UInt8).toNat = 57 := rfl
        omega
      rw [List.foldl_cons, List.length_cons, Nat.pow_succ]
      refine later.trans_le ?_
      rw [Nat.mul_comm (10 ^ text.length) 10, ← Nat.mul_assoc]
      exact Nat.mul_le_mul_right _ (by omega)

theorem digits_isDigit {number : Nat} :
    ∀ digit ∈ Decimal.digits number, Decimal.isDigit digit = true :=
  fun _ member => Decimal.isDigit_of_mem_digits member

theorem le_length_digits {number width : Nat} (large : 10 ^ width ≤ number) :
    width < (Decimal.digits number).length := by
  have below : Decimal.value (Decimal.digits number) < 10 ^ (Decimal.digits number).length :=
    value_lt_pow_length digits_isDigit
  rw [Decimal.value_digits] at below
  exact (Nat.pow_lt_pow_iff_right (by decide)).mp (Nat.lt_of_le_of_lt large below)

theorem twoDigits_isDigit {number : Nat} :
    ∀ digit ∈ twoDigits number, Decimal.isDigit digit = true := by
  intro digit member
  rcases List.mem_append.mp member with isPadding | inDigits
  · rw [(List.mem_replicate.mp isPadding).2]
    rfl
  · exact Decimal.isDigit_of_mem_digits inDigits

theorem twoDigits_ne_nil (number : Nat) : twoDigits number ≠ [] :=
  List.append_ne_nil_of_right_ne_nil _ (Decimal.digits_ne_nil number)

theorem value_twoDigits (number : Nat) : Decimal.value (twoDigits number) = number := by
  have padding : ∀ count text, Decimal.value (List.replicate count 0x30 ++ text) =
      Decimal.value text := by
    intro count text
    induction count with
    | zero => rfl
    | succ count ih => exact ih
  rw [twoDigits, padding, Decimal.value_digits]

theorem two_le_length_twoDigits (number : Nat) : 2 ≤ (twoDigits number).length := by
  rw [twoDigits, List.length_append, List.length_replicate]
  omega

/-! ## A printed date is scanned -/

theorem startsOutside_cons {inside : UInt8 → Bool} {octet : UInt8} (outside : inside octet = false)
    (text : List UInt8) : Scan.StartsOutside inside (octet :: text) := by
  rintro _ ⟨⟩
  exact outside

theorem startsOutside_append {inside : UInt8 → Bool} {front : List UInt8} (nonempty : front ≠ [])
    (outside : ∀ octet ∈ front, inside octet = false) (text : List UInt8) :
    Scan.StartsOutside inside (front ++ text) := by
  obtain ⟨first, rest, rfl⟩ := List.exists_cons_of_ne_nil nonempty
  exact startsOutside_cons (outside first List.mem_cons_self) (rest ++ text)

theorem isSpace_of_isDigit (digit : UInt8) :
    Decimal.isDigit digit = true → isSpace digit = false := by
  revert digit
  apply forall_octet
  decide +kernel

theorem monthNames_word {month : Nat} (inYear : month < 12) (unknown : List UInt8) :
    monthNames.getD month unknown ≠ [] ∧
      (∀ octet ∈ monthNames.getD month unknown, octet ≠ 0x20 ∧ isSpace octet = false ∧ octet ≠ 0) ∧
      (monthNames.getD month unknown).length = 3 ∧
      getmonthnumber (monthNames.getD month unknown) = month + 1 := by
  have names : ∀ month < 12, monthNames.getD month [] ≠ [] ∧
      (∀ octet ∈ monthNames.getD month [], octet ≠ 0x20 ∧ isSpace octet = false ∧ octet ≠ 0) ∧
      (monthNames.getD month []).length = 3 ∧
      getmonthnumber (monthNames.getD month []) = month + 1 := by
    decide +kernel
  have known : monthNames.getD month unknown = monthNames.getD month [] := by
    rw [List.getD_eq_getElem _ _ (show month < monthNames.length from inYear),
      List.getD_eq_getElem _ _ (show month < monthNames.length from inYear)]
  rw [known]
  exact names month inYear

theorem weekdayNames_word {wday : Nat} (inWeek : wday < 7) (unknown : List UInt8) :
    weekdayNames.getD wday unknown ≠ [] ∧
      (∀ octet ∈ weekdayNames.getD wday unknown, octet ≠ 0x2c ∧ octet ≠ 0) ∧
      (weekdayNames.getD wday unknown).length = 3 := by
  have names : ∀ wday < 7, weekdayNames.getD wday [] ≠ [] ∧
      (∀ octet ∈ weekdayNames.getD wday [], octet ≠ 0x2c ∧ octet ≠ 0) ∧
      (weekdayNames.getD wday []).length = 3 := by
    decide +kernel
  have known : weekdayNames.getD wday unknown = weekdayNames.getD wday [] := by
    rw [List.getD_eq_getElem _ _ (show wday < weekdayNames.length from inWeek),
      List.getD_eq_getElem _ _ (show wday < weekdayNames.length from inWeek)]
  rw [known]
  exact names wday inWeek

theorem scan_twoDigits {format : List Directive} {text : List UInt8} (number : Nat)
    (outside : Scan.StartsOutside Decimal.isDigit text) :
    scan isSpace (.number :: format) (twoDigits number ++ text) =
      .number number :: scan isSpace format text := by
  rw [Scan.scan_number (twoDigits_ne_nil number) twoDigits_isDigit isSpace_of_isDigit outside,
    value_twoDigits]

theorem twoDigits_startsOutside (number : Nat) (text : List UInt8) :
    Scan.StartsOutside isSpace (twoDigits number ++ text) :=
  startsOutside_append (twoDigits_ne_nil number)
    (fun digit member => isSpace_of_isDigit digit (twoDigits_isDigit digit member)) text

/-- Fields that are printed in full. -/
structure Tm.Printable (tm : Tm) : Prop where
  wday : tm.tmWday < 7
  mon : tm.tmMon.toNat < 12
  year : 1000 ≤ 1900 + tm.tmYear

/-- What `sscanf` stores of a printed date. -/
theorem scan_strftime {zone : String} {tm : Tm} (printable : tm.Printable)
    (word : octets zone ≠ [] ∧ ∀ octet ∈ octets zone, octet ≠ 0x20 ∧ isSpace octet = false) :
    scan isSpace dateFormat (strftime zone tm) =
      [.number tm.tmMday.toNat, .word (monthNames.getD tm.tmMon.toNat (octets "?")),
        .number (1900 + tm.tmYear), .number tm.tmHour.toNat, .number tm.tmMin.toNat,
        .number tm.tmSec.toNat, .word (octets zone)] := by
  obtain ⟨namedDay, dayOctets, -⟩ := weekdayNames_word printable.wday (octets "?")
  obtain ⟨namedMonth, monthOctets, -, -⟩ := monthNames_word printable.mon (octets "?")
  obtain ⟨year, isYear⟩ : ∃ year : Nat, 1900 + tm.tmYear = year :=
    ⟨(1900 + tm.tmYear).toNat, by have := printable.year; omega⟩
  have blank (text : List UInt8) : Scan.StartsOutside Decimal.isDigit (0x20 :: text) :=
    startsOutside_cons rfl text
  have colon (text : List UInt8) : Scan.StartsOutside Decimal.isDigit (0x3a :: text) :=
    startsOutside_cons rfl text
  have zoneScanned : scan isSpace [.wordTo 0x20] (octets zone) = [.word (octets zone)] := by
    have ends : Scan.StartsOutside (fun octet => decide (octet ≠ 0x20)) [] := by
      rintro _ ⟨⟩
    have scanned := @Scan.scan_wordTo isSpace [] [] (octets zone) 0x20 word.1
      (fun member => (word.2 _ member).1 rfl) ends
    rwa [List.append_nil] at scanned
  have zoneStarts : Scan.StartsOutside isSpace (octets zone) := by
    have starts := startsOutside_append word.1 (fun octet member => (word.2 octet member).2) []
    rwa [List.append_nil] at starts
  have comma : octets ", " = [0x2c, 0x20] := rfl
  have space : octets " " = [0x20] := rfl
  have colon' : octets ":" = [0x3a] := rfl
  rw [strftime, isYear, sprintfD_natCast, dateFormat]
  simp only [comma, space, colon', List.cons_append, List.nil_append]
  rw [Scan.scan_skipTo namedDay (fun member => (dayOctets _ member).1 rfl)
      (startsOutside_cons rfl _), Scan.scan_exact,
      Scan.scan_blank rfl (twoDigits_startsOutside _ _),
    scan_twoDigits _ (blank _),
    Scan.scan_blank rfl (startsOutside_append namedMonth
      (fun octet member => (monthOctets octet member).2.1) _),
    Scan.scan_wordTo namedMonth (fun member => (monthOctets _ member).1 rfl)
      (startsOutside_cons rfl _),
    Scan.scan_blank rfl (startsOutside_append (Decimal.digits_ne_nil year)
      (fun digit member => isSpace_of_isDigit digit (digits_isDigit digit member)) _),
    Scan.scan_number (Decimal.digits_ne_nil year) digits_isDigit isSpace_of_isDigit (blank _),
    Decimal.value_digits, Scan.scan_blank rfl (twoDigits_startsOutside _ _),
    scan_twoDigits _ (colon _), Scan.scan_exact, scan_twoDigits _ (colon _), Scan.scan_exact,
    scan_twoDigits _ (blank _), Scan.scan_blank rfl zoneStarts, zoneScanned]

theorem nulFree_digits {text : List UInt8}
    (all : ∀ digit ∈ text, Decimal.isDigit digit = true) : 0 ∉ text := by
  intro member
  cases all 0 member

theorem nulFree_strftime {zone : String} {tm : Tm} (printable : tm.Printable)
    (nulFree : 0 ∉ octets zone) : 0 ∉ strftime zone tm := by
  obtain ⟨-, dayOctets, -⟩ := weekdayNames_word printable.wday (octets "?")
  obtain ⟨-, monthOctets, -, -⟩ := monthNames_word printable.mon (octets "?")
  obtain ⟨year, isYear⟩ : ∃ year : Nat, 1900 + tm.tmYear = year :=
    ⟨(1900 + tm.tmYear).toNat, by have := printable.year; omega⟩
  have twoFree (number : Nat) : 0 ∉ twoDigits number := nulFree_digits twoDigits_isDigit
  have yearFree : 0 ∉ Decimal.digits year := nulFree_digits digits_isDigit
  have comma : 0 ∉ octets ", " := by decide
  have blank : 0 ∉ octets " " := by decide
  have colon : 0 ∉ octets ":" := by decide
  rw [strftime, isYear, sprintfD_natCast]
  simp only [List.mem_append, not_or]
  exact ⟨fun member => (dayOctets _ member).2 rfl, comma, twoFree _, blank,
    fun member => (monthOctets _ member).2.2 rfl, blank, yearFree, blank, twoFree _, colon,
    twoFree _, colon, twoFree _, blank, nulFree⟩

theorem length_strftime {zone : String} {tm : Tm} (printable : tm.Printable)
    (long : 3 ≤ (octets zone).length) : 29 ≤ (strftime zone tm).length := by
  obtain ⟨-, -, dayLength⟩ := weekdayNames_word printable.wday (octets "?")
  obtain ⟨-, -, monthLength, -⟩ := monthNames_word printable.mon (octets "?")
  obtain ⟨year, isYear⟩ : ∃ year : Nat, 1900 + tm.tmYear = year :=
    ⟨(1900 + tm.tmYear).toNat, by have := printable.year; omega⟩
  have yearLength : 3 < (Decimal.digits year).length :=
    le_length_digits (by have := printable.year; omega)
  have twoLength := two_le_length_twoDigits
  have := twoLength tm.tmMday.toNat
  have := twoLength tm.tmHour.toNat
  have := twoLength tm.tmMin.toNat
  have := twoLength tm.tmSec.toNat
  have comma : (octets ", ").length = 2 := rfl
  have blank : (octets " ").length = 1 := rfl
  have colon : (octets ":").length = 1 := rfl
  rw [strftime, isYear, sprintfD_natCast]
  simp only [List.length_append, dayLength, monthLength, comma, blank, colon]
  omega

/-! ## The time of a printed date -/

theorem gmtime_printable (clock : Nat) : (gmtime clock).Printable := by
  obtain ⟨later, -, inYear, -, -⟩ := Calendar.dateOf_bounds (clock / 86400)
  exact
    { wday := Nat.mod_lt _ (by decide)
      mon := by
        show ((Calendar.dateOf (clock / 86400)).month : Int).toNat < 12
        omega
      year := by
        show 1000 ≤ 1900 + ((Calendar.dateOf (clock / 86400)).year - 1900)
        omega }

theorem seconds_gmtime (clock : Nat) : (gmtime clock).seconds = clock := by
  obtain ⟨-, -, inYear, fromOne, -⟩ := Calendar.dateOf_bounds (clock / 86400)
  have number := Calendar.number_dateOf (clock / 86400)
  rw [gmtime, Tm.seconds]
  generalize Calendar.dateOf (clock / 86400) = date at *
  have year : 1900 + (date.year - 1900) + (date.month : Int) / 12 = date.year := by omega
  have month : ((date.month : Int) % 12).toNat = date.month := by omega
  dsimp only
  rw [year, month]
  rw [Calendar.Date.number] at number ⊢
  dsimp only
  push_cast
  omega

theorem scannedInt_of_bounds {value : Int} (low : -2 ^ 31 ≤ value) (high : value < 2 ^ 31) :
    scannedInt value = value := by
  have inside : max (-2 ^ 63) (min value (2 ^ 63 - 1)) = value := by omega
  rw [scannedInt, inside, Http2.toInt_of_bounds low high]

/-- The time of a printed date is found again. -/
theorem parse_strftime {zone : String} (isZone : zone = "GMT" ∨ zone = "UTC") (nTime : UInt32) :
    parseGMTorUTCTimeString (strftime zone (gmtime nTime.toNat)) = .ok nTime.toNat := by
  have small : nTime.toNat < 2 ^ 32 := nTime.toNat_lt
  generalize nTime.toNat = clock at small
  have printable := gmtime_printable clock
  have zoneFacts : octets zone ≠ [] ∧
      (∀ octet ∈ octets zone, octet ≠ 0x20 ∧ isSpace octet = false) ∧ 0 ∉ octets zone ∧
      (octets zone).length = 3 ∧ ¬(octets zone ≠ octets "GMT" ∧ octets zone ≠ octets "UTC") := by
    rcases isZone with rfl | rfl
    · decide +kernel
    · decide +kernel
  obtain ⟨named, plain, nulFree, length, known⟩ := zoneFacts
  have whole := cString_of_nulFree (nulFree_strftime printable nulFree)
  have long : 29 ≤ (strftime zone (gmtime clock)).length :=
    length_strftime printable (by omega)
  obtain ⟨-, -, monthLength, isMonth⟩ := monthNames_word printable.mon (octets "?")
  obtain ⟨later, years, inYear, fromOne, inMonth⟩ := Calendar.dateOf_bounds (clock / 86400)
  have year : (gmtime clock).tmYear = (Calendar.dateOf (clock / 86400)).year - 1900 := rfl
  have mon : (gmtime clock).tmMon = (Calendar.dateOf (clock / 86400)).month := rfl
  have mday : (gmtime clock).tmMday = (Calendar.dateOf (clock / 86400)).day := rfl
  have hour : (gmtime clock).tmHour = (clock % 86400 / 3600 : Nat) := rfl
  have min : (gmtime clock).tmMin = (clock % 3600 / 60 : Nat) := rfl
  have sec : (gmtime clock).tmSec = (clock % 60 : Nat) := rfl
  have fits : ¬(32 ≤ (monthNames.getD (gmtime clock).tmMon.toNat (octets "?")).length ∨
      32 ≤ (octets zone).length) := by
    rw [monthLength, length]
    decide
  have noOverflow : ¬getmonthnumber (monthNames.getD (gmtime clock).tmMon.toNat (octets "?")) =
      -2 ^ 31 := by
    rw [isMonth]
    omega
  have fields : (⟨toInt (scannedInt (1900 + (gmtime clock).tmYear) - 1900),
      getmonthnumber (monthNames.getD (gmtime clock).tmMon.toNat (octets "?")) - 1,
      scannedInt (gmtime clock).tmMday.toNat, scannedInt (gmtime clock).tmHour.toNat,
      scannedInt (gmtime clock).tmMin.toNat, scannedInt (gmtime clock).tmSec.toNat, 0⟩ : Tm) =
      { gmtime clock with tmWday := 0 } := by
    rw [isMonth, scannedInt_of_bounds (by omega) (by omega),
      scannedInt_of_bounds (by omega) (by omega), scannedInt_of_bounds (by omega) (by omega),
      scannedInt_of_bounds (by omega) (by omega), scannedInt_of_bounds (by omega) (by omega),
      Http2.toInt_of_bounds (by omega) (by omega), Tm.mk.injEq]
    exact ⟨by omega, by omega, by omega, by omega, by omega, by omega, rfl⟩
  have time : timegm { gmtime clock with tmWday := 0 } = clock := by
    have seconds : ({ gmtime clock with tmWday := 0 } : Tm).seconds = clock := seconds_gmtime clock
    have low : Calendar.daysBeforeYear (1900 - 2 ^ 31) * 86400 ≤ 0 := by decide
    have high : 2 ^ 32 ≤ Calendar.daysBeforeYear (1900 + 2 ^ 31) * 86400 := by decide
    rw [timegm, seconds, if_pos ⟨by omega, by omega⟩]
  rw [parseGMTorUTCTimeString, whole, if_neg (Nat.not_lt.mpr long),
    scan_strftime printable ⟨named, plain⟩]
  dsimp only
  rw [if_neg fits, if_neg known, if_neg noOverflow, fields, time]

/-- Each of the two texts of a time gives the time back. -/
theorem parseGMTorUTCTimeString_printed (nTime : UInt32) :
    parseGMTorUTCTimeString (outHTTPGMTDateString nTime) = .ok nTime.toNat ∧
      parseGMTorUTCTimeString (outHTTPUTCDateString nTime) = .ok nTime.toNat :=
  ⟨parse_strftime (.inl rfl) nTime, parse_strftime (.inr rfl) nTime⟩

example : outHTTPGMTDateString 1623233894 = octets "Wed, 09 Jun 2021 10:18:14 GMT" := by
  decide +kernel

end Http1

end HeapHttpd
