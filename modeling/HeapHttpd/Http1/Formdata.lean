import HeapHttpd.General
import HeapHttpd.Library.Outcome
import HeapHttpd.Tunneling.HttpClient

/-!
# Form data in parts

The constructor of `formdata`, which looks for delimiters at every octet of a body, over
the encodings of parts.
-/

namespace HeapHttpd

namespace Http1

open General
open Tunneling (crlf)

/-! ## The constructor -/

/-- `fbufseg`: the places of the first and the last octet. -/
structure FbufSeg where
  byteBeg : Int
  byteEnd : Int
  deriving DecidableEq, Repr

/-- `formparamter`. -/
structure FormParamter where
  seg : FbufSeg
  header : FbufSeg
  data : FbufSeg
  deriving DecidableEq, Repr

namespace FormParamter

/-- The start of a parameter behind a delimiter. -/
def begun (parmeter : FormParamter) (x : Nat) : FormParamter :=
  { parmeter with seg := ⟨x, parmeter.seg.byteEnd⟩, header := ⟨x, parmeter.header.byteEnd⟩ }

/-- The end of its header at an empty line. -/
def headed (parmeter : FormParamter) (x : Nat) : FormParamter :=
  { parmeter with
    header := ⟨parmeter.header.byteBeg, x - 1⟩
    data := ⟨x + 4, parmeter.data.byteEnd⟩ }

/-- Its end at a delimiter. -/
def ended (parmeter : FormParamter) (x : Nat) : FormParamter :=
  { parmeter with
    seg := ⟨parmeter.seg.byteBeg, x - 1⟩
    data := ⟨parmeter.data.byteBeg, x - 1 - 2⟩ }

end FormParamter

def sboundary (boundary : List UInt8) : List UInt8 :=
  octets "--" ++ cString boundary ++ crlf

def eboundary (boundary : List UInt8) : List UInt8 :=
  octets "--" ++ cString boundary ++ octets "--" ++ crlf

/-- The loop at `buf[x]`, with the octets of the buffer from there on.  Each pass compares
with both delimiters, and a comparison needs as many octets as the delimiter has.  The
first argument bounds the passes. -/
def scanParts (boundary : List UInt8) : Nat → Nat → Bool → FormParamter → List FormParamter →
    List UInt8 → Outcome (List FormParamter)
  | _, _, _, _, paramters, [] => .ok paramters
  | 0, _, _, _, _, _ :: _ => .fault
  | passes + 1, x, isHeader, parmeter, paramters, ch :: rest =>
      if (ch :: rest).length < (eboundary boundary).length then .fault
      else if sboundary boundary <+: ch :: rest ∧ ¬eboundary boundary <+: ch :: rest then
        let next := x + (sboundary boundary).length
        if x = 0 then
          scanParts boundary passes next true (parmeter.begun next) paramters
            ((ch :: rest).drop (sboundary boundary).length)
        else
          scanParts boundary passes next true ((parmeter.ended x).begun next)
            (paramters ++ [parmeter.ended x]) ((ch :: rest).drop (sboundary boundary).length)
      else if eboundary boundary <+: ch :: rest then .ok (paramters ++ [parmeter.ended x])
      else if isHeader = true ∧ crlf ++ crlf <+: ch :: rest then
        scanParts boundary passes (x + 4) false (parmeter.headed x) paramters
          ((ch :: rest).drop 4)
      else scanParts boundary passes (x + 1) isHeader parmeter paramters rest

/-- The constructor of `formdata`: `m_paramters`, unless octets outside of the buffer are
read. -/
def formdata (buf boundary : List UInt8) : Outcome (List FormParamter) :=
  scanParts boundary buf.length 0 false ⟨⟨0, 0⟩, ⟨0, 0⟩, ⟨0, 0⟩⟩ [] buf

/-! ## The encoding -/

/-- A boundary, which is part of a line. -/
structure Boundary where
  text : List UInt8
  plain : ∀ ch ∈ text, ch ≠ 0 ∧ ch ≠ 0x0d ∧ ch ≠ 0x0a

/-- A part: a header without an empty line, and content without a delimiter. -/
structure FormPart (boundary : Boundary) where
  header : List UInt8
  content : List UInt8
  nonempty : header ≠ []
  noEmptyLine : ¬crlf ++ crlf <:+: header ++ [0x0d, 0x0a, 0x0d]
  delimited : ¬crlf ++ octets "--" ++ boundary.text <:+: content

/-- What stands between two delimiters. -/
def FormPart.text {boundary : Boundary} (part : FormPart boundary) : List UInt8 :=
  part.header ++ (crlf ++ crlf ++ (part.content ++ crlf))

/-- Parts, with what may stand in front of the first delimiter and behind the last one. -/
structure Multipart (boundary : Boundary) where
  preamble : Option (List UInt8)
  parts : List (FormPart boundary)
  closed : Bool

/-- A delimiter, less the end of its line. -/
def dashBoundary (boundary : Boundary) : List UInt8 :=
  octets "--" ++ boundary.text

namespace Multipart

variable {boundary : Boundary}

def front (multipart : Multipart boundary) : List UInt8 :=
  match multipart.preamble with
  | none => []
  | some text => text ++ crlf

def encoded (multipart : Multipart boundary) : List UInt8 :=
  multipart.front ++
    (multipart.parts.flatMap fun part => dashBoundary boundary ++ crlf ++ part.text) ++
      (dashBoundary boundary ++ octets "--" ++ if multipart.closed then crlf else [])

end Multipart

/-- The places of the headers and contents of parts, the delimiter of the first of which
is at a position. -/
def segmentsFrom {boundary : Boundary} : Nat → List (FormPart boundary) → List (FbufSeg × FbufSeg)
  | _, [] => []
  | position, part :: parts =>
      let header := position + (dashBoundary boundary).length + 2
      let content := header + part.header.length + 4
      (⟨header, header + part.header.length - 1⟩, ⟨content, content + part.content.length - 1⟩) ::
        segmentsFrom (header + part.text.length) parts

/-- A segment of a buffer is where a text stands. -/
def FbufSeg.Holds (seg : FbufSeg) (buf text : List UInt8) : Prop :=
  ∃ front behind, buf = front ++ text ++ behind ∧ seg.byteBeg = (front.length : Int) ∧
    seg.byteEnd = (front.length : Int) + text.length - 1

/-- These are the places of the headers and the contents. -/
theorem holds_segmentsFrom {boundary : Boundary} (parts : List (FormPart boundary))
    (before behind : List UInt8) :
    List.Forall₂ (fun segs part =>
        segs.1.Holds (before ++ (parts.flatMap fun part =>
          dashBoundary boundary ++ crlf ++ part.text) ++ behind) part.header ∧
        segs.2.Holds (before ++ (parts.flatMap fun part =>
          dashBoundary boundary ++ crlf ++ part.text) ++ behind) part.content)
      (segmentsFrom before.length parts) parts := by
  induction parts generalizing before with
  | nil => exact .nil
  | cons part parts ih =>
      rw [segmentsFrom]
      refine .cons ⟨?_, ?_⟩ ?_
      · refine ⟨before ++ (dashBoundary boundary ++ crlf), crlf ++ crlf ++ (part.content ++ crlf) ++
          ((parts.flatMap fun part => dashBoundary boundary ++ crlf ++ part.text) ++ behind),
          ?_, ?_, ?_⟩
        · simp only [List.flatMap_cons, FormPart.text, List.append_assoc]
        · simp [crlf, Nat.add_assoc]
        · simp [crlf, Nat.add_assoc]
      · refine ⟨before ++ (dashBoundary boundary ++ crlf) ++ (part.header ++ (crlf ++ crlf)),
          crlf ++ ((parts.flatMap fun part => dashBoundary boundary ++ crlf ++ part.text) ++
            behind), ?_, ?_, ?_⟩
        · simp only [List.flatMap_cons, FormPart.text, List.append_assoc]
        · simp [crlf]
          omega
        · simp [crlf]
          omega
      · have later := ih (before ++ (dashBoundary boundary ++ crlf ++ part.text))
        have place : (before ++ (dashBoundary boundary ++ crlf ++ part.text)).length =
            before.length + (dashBoundary boundary).length + 2 + part.text.length := by
          simp only [List.length_append, show crlf.length = 2 from rfl]
          omega
        rw [place, List.append_assoc before] at later
        rw [List.flatMap_cons]
        exact later

/-- There is one parameter for each part, with its header and its content. -/
def ParsesAs {boundary : Boundary} (multipart : Multipart boundary)
    (paramters : Outcome (List FormParamter)) : Prop :=
  ∃ parsed, paramters = .ok parsed ∧
    (parsed.map fun parmeter => (parmeter.header, parmeter.data)) =
      segmentsFrom multipart.front.length multipart.parts

/-- No line of a part reads like a delimiter, wherever it begins. -/
def FormPart.Unmistakable {boundary : Boundary} (part : FormPart boundary) : Prop :=
  ¬dashBoundary boundary ++ crlf <:+: part.text ∧
    ¬dashBoundary boundary ++ octets "--" ++ crlf <:+: part.text

/-! ## Delimiters -/

section Delimiters

variable {boundary : Boundary}

theorem sboundary_eq : sboundary boundary.text = dashBoundary boundary ++ crlf := by
  rw [sboundary, cString_of_nulFree fun nul => (boundary.plain 0 nul).1 rfl, dashBoundary]

theorem eboundary_eq :
    eboundary boundary.text = dashBoundary boundary ++ (octets "--" ++ crlf) := by
  rw [eboundary, cString_of_nulFree fun nul => (boundary.plain 0 nul).1 rfl, dashBoundary,
    List.append_assoc]

theorem length_dashes : (octets "--").length = 2 := by
  decide

theorem length_sboundary :
    (sboundary boundary.text).length = (dashBoundary boundary).length + 2 := by
  rw [sboundary_eq, List.length_append]
  rfl

theorem length_eboundary :
    (eboundary boundary.text).length = (dashBoundary boundary).length + 4 := by
  rw [eboundary_eq, List.length_append, List.length_append, length_dashes]
  rfl

theorem length_dashBoundary_pos : 2 ≤ (dashBoundary boundary).length := by
  rw [dashBoundary, List.length_append, length_dashes]
  omega

/-- No octet in front of the end of its line is a line end. -/
theorem dashBoundary_plain :
    ∀ ch ∈ dashBoundary boundary ++ octets "--", ch ≠ 0x0d ∧ ch ≠ 0x0a := by
  have dashes : ∀ ch ∈ octets "--", ch ≠ 0x0d ∧ ch ≠ 0x0a := by decide +kernel
  exact List.forall_mem_append.mpr ⟨List.forall_mem_append.mpr
    ⟨dashes, fun ch member => (boundary.plain ch member).2⟩, dashes⟩

/-- A delimiter begins with a dash. -/
theorem head_dashBoundary : (dashBoundary boundary).head? = some 0x2d := by
  have dashes : octets "--" = [0x2d, 0x2d] := by decide
  rw [dashBoundary, dashes]
  rfl

/-- No text begins with both delimiters. -/
theorem not_both {text : List UInt8} (plain : sboundary boundary.text <+: text) :
    ¬eboundary boundary.text <+: text := by
  intro closing
  have shorter := List.prefix_of_prefix_length_le plain closing
    (by rw [length_sboundary, length_eboundary]; omega)
  rw [sboundary_eq, eboundary_eq, List.prefix_append_right_inj] at shorter
  exact absurd shorter (by decide)

/-- A text begins with a delimiter. -/
def Matches (boundary : Boundary) (text : List UInt8) : Prop :=
  sboundary boundary.text <+: text ∨ eboundary boundary.text <+: text

/-- A delimiter ends with its line, so that it does not reach beyond the end of another
one. -/
theorem prefix_of_append {line text behind : List UInt8} (noLineEnd : ∀ ch ∈ line, ch ≠ 0x0a)
    (begins : line ++ crlf <+: text ++ [0x0a] ++ behind) : line ++ crlf <+: text ++ [0x0a] := by
  by_cases short : (line ++ crlf).length ≤ (text ++ [0x0a]).length
  · exact List.prefix_of_prefix_length_le begins (List.prefix_append _ _) short
  · have inside := List.prefix_of_prefix_length_le (List.prefix_append (text ++ [0x0a]) behind)
      begins (by omega)
    have whole : line ++ crlf = (line ++ [0x0d]) ++ [0x0a] := by
      rw [List.append_assoc]
      rfl
    have proper : text ++ [0x0a] <+: line ++ [0x0d] := by
      refine List.prefix_of_prefix_length_le inside ⟨[0x0a], whole.symm⟩ ?_
      rw [whole, List.length_append, List.length_singleton] at short
      omega
    have member := proper.subset (List.mem_append_right _ List.mem_cons_self)
    rcases List.mem_append.mp member with inLine | isReturn
    · exact (noLineEnd _ inLine rfl).elim
    · exact absurd isReturn (by decide)

/-- Where a delimiter begins in a text that ends with a line. -/
theorem exists_prefix_iff {line text behind : List UInt8} (noLineEnd : ∀ ch ∈ line, ch ≠ 0x0a) :
    (∃ rest, rest ≠ [] ∧ rest <:+ text ++ [0x0a] ∧ line ++ crlf <+: rest ++ behind) ↔
      line ++ crlf <:+: text ++ [0x0a] := by
  rw [List.infix_iff_prefix_suffix]
  constructor
  · rintro ⟨rest, nonempty, suffix, begins⟩
    obtain ⟨front, last, isConcat⟩ := List.eq_nil_or_concat rest |>.resolve_left nonempty
    rw [List.concat_eq_append] at isConcat
    subst isConcat
    have isLast : last = 0x0a := by
      obtain ⟨before, whole⟩ := suffix
      rw [← List.append_assoc] at whole
      exact List.singleton_inj.mp (List.append_inj_right' whole rfl)
    rw [isLast] at suffix begins
    exact ⟨_, prefix_of_append noLineEnd begins, suffix⟩
  · rintro ⟨rest, begins, suffix⟩
    refine ⟨rest, ?_, suffix, begins.trans (List.prefix_append rest behind)⟩
    rintro rfl
    exact absurd (List.append_eq_nil_iff.mp (List.prefix_nil.mp begins)).2 (by decide)

theorem exists_matches_iff {text behind : List UInt8} :
    (∃ rest, rest ≠ [] ∧ rest <:+ text ++ [0x0a] ∧ Matches boundary (rest ++ behind)) ↔
      dashBoundary boundary ++ crlf <:+: text ++ [0x0a] ∨
        dashBoundary boundary ++ octets "--" ++ crlf <:+: text ++ [0x0a] := by
  have plain (ch : UInt8) (member : ch ∈ dashBoundary boundary ++ octets "--") : ch ≠ 0x0a :=
    (dashBoundary_plain ch member).2
  have plain' (ch : UInt8) (member : ch ∈ dashBoundary boundary) : ch ≠ 0x0a :=
    plain ch (List.mem_append_left _ member)
  rw [← @exists_prefix_iff _ text behind plain, ← @exists_prefix_iff _ text behind plain',
    ← exists_or]
  refine exists_congr fun rest => ?_
  rw [Matches, sboundary_eq, eboundary_eq, ← List.append_assoc, ← and_or_left, ← and_or_left]

end Delimiters

/-! ## Steps of the loop -/

section Steps

variable {boundary : Boundary} {passes x : Nat} {isHeader : Bool} {parmeter : FormParamter}
  {paramters : List FormParamter} {text rest : List UInt8} {ch : UInt8}

theorem scanParts_fault (short : (ch :: rest).length < (eboundary boundary.text).length) :
    scanParts boundary.text passes x isHeader parmeter paramters (ch :: rest) = .fault := by
  cases passes with
  | zero => rfl
  | succ passes => rw [scanParts, if_pos short]

/-- At a delimiter between two parts. -/
theorem scanParts_delimiter (enough : (eboundary boundary.text).length ≤ text.length)
    (begins : sboundary boundary.text <+: text) :
    scanParts boundary.text (passes + 1) x isHeader parmeter paramters text =
      if x = 0 then
        scanParts boundary.text passes (x + (sboundary boundary.text).length) true
          (parmeter.begun (x + (sboundary boundary.text).length)) paramters
          (text.drop (sboundary boundary.text).length)
      else
        scanParts boundary.text passes (x + (sboundary boundary.text).length) true
          ((parmeter.ended x).begun (x + (sboundary boundary.text).length))
          (paramters ++ [parmeter.ended x]) (text.drop (sboundary boundary.text).length) := by
  cases text with
  | nil =>
      rw [length_eboundary] at enough
      simp at enough
  | cons ch rest =>
      rw [scanParts, if_neg (Nat.not_lt.mpr enough), if_pos ⟨begins, not_both begins⟩]

/-- At the delimiter behind the last part. -/
theorem scanParts_closing (closes : eboundary boundary.text <+: text) :
    scanParts boundary.text (passes + 1) x isHeader parmeter paramters text =
      .ok (paramters ++ [parmeter.ended x]) := by
  have enough := closes.length_le
  cases text with
  | nil =>
      rw [length_eboundary] at enough
      simp at enough
  | cons ch rest =>
      rw [scanParts, if_neg (Nat.not_lt.mpr enough), if_neg fun both => both.2 closes,
        if_pos closes]

/-- At an empty line. -/
theorem scanParts_emptyLine (enough : (eboundary boundary.text).length ≤ text.length)
    (free : ¬Matches boundary text) (emptyLine : crlf ++ crlf <+: text) :
    scanParts boundary.text (passes + 1) x true parmeter paramters text =
      scanParts boundary.text passes (x + 4) false (parmeter.headed x) paramters
        (text.drop 4) := by
  rw [Matches, not_or] at free
  cases text with
  | nil =>
      rw [length_eboundary] at enough
      simp at enough
  | cons ch rest =>
      rw [scanParts, if_neg (Nat.not_lt.mpr enough), if_neg fun both => free.1 both.1,
        if_neg free.2, if_pos ⟨rfl, emptyLine⟩]

/-- At another octet. -/
theorem scanParts_other (enough : (eboundary boundary.text).length ≤ (ch :: rest).length)
    (free : ¬Matches boundary (ch :: rest))
    (other : ¬(isHeader = true ∧ crlf ++ crlf <+: ch :: rest)) :
    scanParts boundary.text (passes + 1) x isHeader parmeter paramters (ch :: rest) =
      scanParts boundary.text passes (x + 1) isHeader parmeter paramters rest := by
  rw [Matches, not_or] at free
  rw [scanParts, if_neg (Nat.not_lt.mpr enough), if_neg fun both => free.1 both.1,
    if_neg free.2, if_neg other]

/-- The parameters that are there already stay in front. -/
theorem scanParts_paramters (more : List FormParamter) :
    scanParts boundary.text passes x isHeader parmeter (more ++ paramters) text =
      scanParts boundary.text passes x isHeader parmeter paramters text >>= fun parsed =>
        .ok (more ++ parsed) := by
  induction passes generalizing x isHeader parmeter paramters text with
  | zero =>
      cases text with
      | nil => rfl
      | cons ch rest => rfl
  | succ passes ih =>
      cases text with
      | nil => rfl
      | cons ch rest =>
          by_cases short : (ch :: rest).length < (eboundary boundary.text).length
          · rw [scanParts_fault short, scanParts_fault short]
            rfl
          · have enough := Nat.not_lt.mp short
            by_cases begins : sboundary boundary.text <+: ch :: rest
            · rw [scanParts_delimiter enough begins, scanParts_delimiter enough begins]
              split
              · exact ih
              · rw [List.append_assoc]
                exact ih
            · by_cases closes : eboundary boundary.text <+: ch :: rest
              · rw [scanParts_closing closes, scanParts_closing closes, Outcome.ok_bind,
                  List.append_assoc]
              · have free : ¬Matches boundary (ch :: rest) := not_or.mpr ⟨begins, closes⟩
                by_cases emptyLine : isHeader = true ∧ crlf ++ crlf <+: ch :: rest
                · obtain ⟨rfl, emptyLine⟩ := emptyLine
                  rw [scanParts_emptyLine enough free emptyLine,
                    scanParts_emptyLine enough free emptyLine]
                  exact ih
                · rw [scanParts_other enough free emptyLine, scanParts_other enough free emptyLine]
                  exact ih

/-- What a pass over a text did, from which something was parsed. -/
theorem cases_of_ok {parsed : List FormParamter} (nonempty : text ≠ [])
    (goes : scanParts boundary.text passes x isHeader parmeter [] text = .ok parsed) :
    ∃ passes', passes = passes' + 1 ∧ (eboundary boundary.text).length ≤ text.length ∧
      ((sboundary boundary.text <+: text ∧ ∃ parmeter' more,
          scanParts boundary.text passes' (x + (sboundary boundary.text).length) true parmeter' []
            (text.drop (sboundary boundary.text).length) = .ok more ∧
          (x = 0 ∧ parsed = more ∨ x ≠ 0 ∧ parsed = parmeter.ended x :: more)) ∨
        (eboundary boundary.text <+: text ∧ parsed = [parmeter.ended x]) ∨
        (¬Matches boundary text ∧ ∃ width isHeader' parmeter',
          (width = 1 ∨ width = 4 ∧ crlf ++ crlf <+: text) ∧
          scanParts boundary.text passes' (x + width) isHeader' parmeter' [] (text.drop width) =
            .ok parsed)) := by
  obtain ⟨ch, rest, rfl⟩ := List.exists_cons_of_ne_nil nonempty
  cases passes with
  | zero => cases goes
  | succ passes =>
      refine ⟨passes, rfl, ?_⟩
      by_cases short : (ch :: rest).length < (eboundary boundary.text).length
      · rw [scanParts_fault short] at goes
        cases goes
      · have enough := Nat.not_lt.mp short
        refine ⟨enough, ?_⟩
        by_cases begins : sboundary boundary.text <+: ch :: rest
        · left
          refine ⟨begins, ?_⟩
          rw [scanParts_delimiter enough begins] at goes
          split at goes
          · next start => exact ⟨_, _, goes, .inl ⟨start, rfl⟩⟩
          · next later =>
              rw [← List.append_nil ([] ++ [parmeter.ended x]), scanParts_paramters,
                Outcome.bind_eq_ok] at goes
              obtain ⟨more, goes, isParsed⟩ := goes
              cases isParsed
              exact ⟨_, more, goes, .inr ⟨later, rfl⟩⟩
        · by_cases closes : eboundary boundary.text <+: ch :: rest
          · rw [scanParts_closing closes] at goes
            cases goes
            exact .inr (.inl ⟨closes, rfl⟩)
          · have free : ¬Matches boundary (ch :: rest) := not_or.mpr ⟨begins, closes⟩
            refine .inr (.inr ⟨free, ?_⟩)
            by_cases emptyLine : isHeader = true ∧ crlf ++ crlf <+: ch :: rest
            · obtain ⟨rfl, emptyLine⟩ := emptyLine
              rw [scanParts_emptyLine enough free emptyLine] at goes
              exact ⟨4, _, _, .inr ⟨rfl, emptyLine⟩, goes⟩
            · rw [scanParts_other enough free emptyLine] at goes
              exact ⟨1, _, _, .inl rfl, goes⟩

end Steps

/-! ## Runs of the loop -/

section Runs

variable {boundary : Boundary} {passes x : Nat} {isHeader : Bool} {parmeter : FormParamter}
  {paramters parsed : List FormParamter} {text behind : List UInt8}

/-- A run that stays inside of the buffer ends at a delimiter behind all parts. -/
theorem exists_closing (nonempty : text ≠ [])
    (goes : scanParts boundary.text passes x isHeader parmeter [] text = .ok parsed) :
    ∃ front last distance, parsed = front ++ [last] ∧
      last.data.byteEnd = ((x + distance : Nat) : Int) - 1 - 2 ∧
      eboundary boundary.text <+: text.drop distance := by
  induction passes generalizing x isHeader parmeter text parsed with
  | zero =>
      obtain ⟨passes', absurd', -⟩ := cases_of_ok nonempty goes
      omega
  | succ passes ih =>
      obtain ⟨passes', isPasses, enough, step⟩ := cases_of_ok nonempty goes
      obtain rfl : passes = passes' := by omega
      rw [length_eboundary] at enough
      have further {width x' : Nat} {isHeader' : Bool} {parmeter' : FormParamter}
          {more : List FormParamter} (isNext : x' = x + width) (inside : width < text.length)
          (goes' : scanParts boundary.text passes x' isHeader' parmeter' [] (text.drop width) =
            .ok more) : ∃ front last distance, more = front ++ [last] ∧
          last.data.byteEnd = ((x + distance : Nat) : Int) - 1 - 2 ∧
          eboundary boundary.text <+: text.drop distance := by
        subst isNext
        obtain ⟨front, last, distance, isMore, ends, closes⟩ :=
          ih (List.ne_nil_of_length_pos (by rw [List.length_drop]; omega)) goes'
        refine ⟨front, last, width + distance, isMore, ?_, ?_⟩
        · rw [ends, Nat.add_assoc]
        · rwa [List.drop_drop] at closes
      rcases step with ⟨begins, parmeter', more, goes', isParsed⟩ | ⟨closes, rfl⟩ |
        ⟨-, width, isHeader', parmeter', isWidth, goes'⟩
      · obtain ⟨front, last, distance, isMore, ends, closes⟩ := further rfl
          (by rw [length_sboundary]; omega) goes'
        rcases isParsed with ⟨-, rfl⟩ | ⟨-, rfl⟩
        · exact ⟨front, last, distance, isMore, ends, closes⟩
        · exact ⟨parmeter.ended x :: front, last, distance, by rw [isMore, List.cons_append],
            ends, closes⟩
      · exact ⟨[], parmeter.ended x, 0, rfl, rfl, closes⟩
      · have := @length_dashBoundary_pos boundary
        exact further rfl (by omega) goes'

theorem head_of_matches (begins : Matches boundary text) : text.head? = some 0x2d := by
  have starts (line rest : List UInt8) (isPrefix : dashBoundary boundary ++ line <+: text) :
      text.head? = some 0x2d := by
    obtain ⟨behind, rfl⟩ := isPrefix
    rw [List.append_assoc, List.head?_append, head_dashBoundary]
    rfl
  rcases begins with plain | closing
  · rw [sboundary_eq] at plain
    exact starts _ [] plain
  · rw [eboundary_eq] at closing
    exact starts _ [] closing

/-- No delimiter begins in an empty line. -/
theorem length_of_emptyLine {front : List UInt8} (begins : Matches boundary text)
    (emptyLine : crlf ++ crlf <+: front ++ text) : 4 ≤ front.length := by
  obtain ⟨rest, whole⟩ := emptyLine
  have dash := congrArg (fun list : List UInt8 => list[front.length]?) whole
  rw [List.getElem?_append_right (Nat.le_refl front.length), Nat.sub_self,
    ← List.head?_eq_getElem?, head_of_matches begins] at dash
  by_contra few
  have place : front.length = 0 ∨ front.length = 1 ∨ front.length = 2 ∨ front.length = 3 := by
    omega
  rcases place with isPlace | isPlace | isPlace | isPlace
  · rw [isPlace] at dash
    exact absurd (Option.some.inj dash) (by decide)
  · rw [isPlace] at dash
    exact absurd (Option.some.inj dash) (by decide)
  · rw [isPlace] at dash
    exact absurd (Option.some.inj dash) (by decide)
  · rw [isPlace] at dash
    exact absurd (Option.some.inj dash) (by decide)

/-- Something is parsed up to the last delimiter in a text. -/
theorem exists_first (later : x ≠ 0)
    (stray : ∃ rest, rest ≠ [] ∧ rest <:+ text ∧ Matches boundary (rest ++ behind))
    (goes : scanParts boundary.text passes x isHeader parmeter [] (text ++ behind) = .ok parsed) :
    ∃ first more place, parsed = first :: more ∧
      first.data.byteEnd = ((place : Nat) : Int) - 1 - 2 ∧ place < x + text.length := by
  induction passes generalizing x isHeader parmeter text with
  | zero =>
      obtain ⟨rest, nonempty, suffix, -⟩ := stray
      have longer := suffix.length_le
      have some' := List.length_pos_iff.mpr nonempty
      obtain ⟨passes', absurd', -⟩ := cases_of_ok
        (List.ne_nil_of_length_pos (by rw [List.length_append]; omega)) goes
      omega
  | succ passes ih =>
      obtain ⟨rest, nonempty, ⟨front, rfl⟩, begins⟩ := stray
      have some' := List.length_pos_iff.mpr nonempty
      obtain ⟨passes', isPasses, enough, step⟩ := cases_of_ok
        (List.ne_nil_of_length_pos (by simp only [List.length_append]; omega)) goes
      obtain rfl : passes = passes' := by omega
      have here : x < x + (front ++ rest).length := by
        rw [List.length_append]
        omega
      rcases step with ⟨-, parmeter', more, -, isParsed⟩ | ⟨-, rfl⟩ |
        ⟨free, width, isHeader', parmeter', isWidth, goes'⟩
      · rcases isParsed with ⟨start, -⟩ | ⟨-, rfl⟩
        · exact (later start).elim
        · exact ⟨_, more, x, rfl, rfl, here⟩
      · exact ⟨_, [], x, rfl, rfl, here⟩
      · rw [List.append_assoc] at free isWidth
        have inFront : width ≤ front.length := by
          rcases isWidth with rfl | ⟨rfl, emptyLine⟩
          · cases front with
            | nil => exact (free begins).elim
            | cons ch front => exact Nat.succ_pos _
          · exact length_of_emptyLine begins emptyLine
        have dropped : (front ++ rest ++ behind).drop width =
            front.drop width ++ rest ++ behind := by
          rw [List.append_assoc, List.drop_append_of_le_length inFront, List.append_assoc]
        rw [dropped] at goes'
        obtain ⟨first, more, place, isParsed, ends, inside⟩ := ih (by omega)
          ⟨rest, nonempty, List.suffix_append _ _, begins⟩ goes'
        refine ⟨first, more, place, isParsed, ends, ?_⟩
        rw [List.length_append, List.length_drop] at inside
        rw [List.length_append]
        omega

/-- A run over content in which no delimiter begins. -/
theorem scanParts_content (enough : (eboundary boundary.text).length ≤ behind.length)
    (free : ∀ rest, rest ≠ [] → rest <:+ text → ¬Matches boundary (rest ++ behind))
    (patient : (text ++ behind).length ≤ passes) :
    ∃ passes', behind.length ≤ passes' ∧
      scanParts boundary.text passes x false parmeter paramters (text ++ behind) =
        scanParts boundary.text passes' (x + text.length) false parmeter paramters behind := by
  induction text generalizing passes x with
  | nil => exact ⟨passes, patient, rfl⟩
  | cons ch text ih =>
      rw [List.cons_append, List.length_cons] at patient
      obtain ⟨passes, rfl⟩ : ∃ fewer, passes = fewer + 1 := ⟨passes - 1, by omega⟩
      have here := free (ch :: text) (List.cons_ne_nil _ _) (List.suffix_refl _)
      have room : (eboundary boundary.text).length ≤ (ch :: (text ++ behind)).length := by
        rw [List.length_cons, List.length_append]
        omega
      obtain ⟨passes', patient', goes⟩ := @ih passes (x + 1)
        (fun rest nonempty suffix => free rest nonempty (suffix.trans (List.suffix_cons ch text)))
        (Nat.le_of_succ_le_succ patient)
      refine ⟨passes', patient', ?_⟩
      rw [List.cons_append, scanParts_other room here (by simp), goes, List.length_cons,
        Nat.add_assoc, Nat.add_comm 1]

/-- A run over a header and the empty line behind it. -/
theorem scanParts_header (enough : (eboundary boundary.text).length ≤ behind.length)
    (noEmptyLine : ¬crlf ++ crlf <:+: text ++ [0x0d, 0x0a, 0x0d])
    (free : ∀ rest, rest ≠ [] → rest <:+ text ++ (crlf ++ crlf) →
      ¬Matches boundary (rest ++ behind))
    (patient : (text ++ (crlf ++ crlf) ++ behind).length ≤ passes) :
    ∃ passes', behind.length ≤ passes' ∧
      scanParts boundary.text passes x true parmeter paramters (text ++ (crlf ++ crlf) ++ behind) =
        scanParts boundary.text passes' (x + text.length + 4) false
          (parmeter.headed (x + text.length)) paramters behind := by
  induction text generalizing passes x with
  | nil =>
      rw [List.nil_append, List.length_append] at patient
      have four : (crlf ++ crlf).length = 4 := rfl
      obtain ⟨passes, rfl⟩ : ∃ fewer, passes = fewer + 1 := ⟨passes - 1, by omega⟩
      refine ⟨passes, by omega, ?_⟩
      rw [List.nil_append, scanParts_emptyLine _ _ (List.prefix_append _ _)]
      · rfl
      · rw [List.length_append]
        omega
      · exact free (crlf ++ crlf) (by decide) (List.suffix_refl _)
  | cons ch text ih =>
      rw [List.cons_append, List.cons_append, List.length_cons] at patient
      obtain ⟨passes, rfl⟩ : ∃ fewer, passes = fewer + 1 := ⟨passes - 1, by omega⟩
      have here := free (ch :: (text ++ (crlf ++ crlf))) (List.cons_ne_nil _ _) (List.suffix_refl _)
      have room : (eboundary boundary.text).length ≤
          (ch :: (text ++ (crlf ++ crlf) ++ behind)).length := by
        rw [List.length_cons, List.length_append]
        omega
      have notEmpty : ¬crlf ++ crlf <+: ch :: (text ++ (crlf ++ crlf) ++ behind) := by
        intro emptyLine
        refine noEmptyLine (List.IsPrefix.isInfix ?_)
        refine List.prefix_of_prefix_length_le emptyLine ⟨0x0a :: behind, ?_⟩ ?_
        · simp [crlf]
        · simp [crlf]
      obtain ⟨passes', patient', goes⟩ := @ih passes (x + 1)
        (fun inside => noEmptyLine (inside.trans (List.suffix_cons _ _).isInfix))
        (fun rest nonempty suffix => free rest nonempty (suffix.trans (List.suffix_cons _ _)))
        (Nat.le_of_succ_le_succ patient)
      refine ⟨passes', patient', ?_⟩
      rw [List.cons_append, List.cons_append, scanParts_other room here fun both => notEmpty both.2,
        goes, List.length_cons]
      have place : x + 1 + text.length = x + (text.length + 1) := by omega
      rw [place]

end Runs

/-! ## Parts -/

section Parts

variable {boundary : Boundary} {passes x : Nat} {parmeter : FormParamter}
  {parsed : List FormParamter} {behind : List UInt8}

theorem FormPart.text_eq (part : FormPart boundary) :
    part.text = part.header ++ (crlf ++ crlf ++ (part.content ++ [0x0d])) ++ [0x0a] := by
  simp [FormPart.text, crlf]

theorem FormPart.length_text (part : FormPart boundary) :
    part.text.length = part.header.length + 4 + part.content.length + 2 := by
  simp only [FormPart.text, List.length_append, show crlf.length = 2 from rfl]
  omega

/-- Where no delimiter begins in a part. -/
theorem FormPart.unmistakable_iff (part : FormPart boundary) (behind : List UInt8) :
    part.Unmistakable ↔
      ∀ rest, rest ≠ [] → rest <:+ part.text → ¬Matches boundary (rest ++ behind) := by
  have places := @exists_matches_iff boundary
    (part.header ++ (crlf ++ crlf ++ (part.content ++ [0x0d]))) behind
  rw [← part.text_eq] at places
  rw [Unmistakable, ← not_or, ← places]
  constructor
  · exact fun none rest nonempty suffix begins => none ⟨rest, nonempty, suffix, begins⟩
  · rintro free ⟨rest, nonempty, suffix, begins⟩
    exact free rest nonempty suffix begins

/-- A run over a part without a delimiter in it. -/
theorem scanParts_part {part : FormPart boundary} (unmistakable : part.Unmistakable)
    (enough : (eboundary boundary.text).length ≤ behind.length)
    (patient : (part.text ++ behind).length ≤ passes) :
    ∃ passes', behind.length ≤ passes' ∧
      scanParts boundary.text passes x true parmeter [] (part.text ++ behind) =
        scanParts boundary.text passes' (x + part.text.length) false
          (parmeter.headed (x + part.header.length)) [] behind := by
  have free := (part.unmistakable_iff behind).mp unmistakable
  have split : part.text ++ behind =
      part.header ++ (crlf ++ crlf) ++ (part.content ++ crlf ++ behind) := by
    simp only [FormPart.text, List.append_assoc]
  have whole : part.text = part.header ++ (crlf ++ crlf) ++ (part.content ++ crlf) := by
    simp only [FormPart.text, List.append_assoc]
  have freeHeader (rest : List UInt8) (nonempty : rest ≠ [])
      (suffix : rest <:+ part.header ++ (crlf ++ crlf)) :
      ¬Matches boundary (rest ++ (part.content ++ crlf ++ behind)) := by
    obtain ⟨front, isFront⟩ := suffix
    have inPart := free (rest ++ (part.content ++ crlf))
      (List.append_ne_nil_of_left_ne_nil nonempty _)
      ⟨front, by rw [whole, ← isFront, List.append_assoc]⟩
    rwa [List.append_assoc] at inPart
  have freeContent (rest : List UInt8) (nonempty : rest ≠ [])
      (suffix : rest <:+ part.content ++ crlf) : ¬Matches boundary (rest ++ behind) :=
    free rest nonempty (whole ▸ suffix.trans (List.suffix_append _ _))
  have enoughHeader : (eboundary boundary.text).length ≤
      (part.content ++ crlf ++ behind).length := by
    rw [List.length_append]
    omega
  rw [split] at patient ⊢
  obtain ⟨passes', patient', goes⟩ := @scanParts_header boundary passes x parmeter []
    part.header _ enoughHeader part.noEmptyLine freeHeader patient
  obtain ⟨passes'', patient'', goes'⟩ := @scanParts_content boundary passes'
    (x + part.header.length + 4) (parmeter.headed (x + part.header.length)) []
    (part.content ++ crlf) behind enough freeContent patient'
  refine ⟨passes'', patient'', ?_⟩
  have place : x + part.header.length + 4 + (part.content ++ crlf).length =
      x + part.text.length := by
    rw [part.length_text, List.length_append, show crlf.length = 2 from rfl]
    omega
  rw [goes, goes', place]

/-- The last delimiter, and what stands in front of it behind a part. -/
def tailText (parts : List (FormPart boundary)) : List UInt8 :=
  (parts.flatMap fun part => dashBoundary boundary ++ crlf ++ part.text) ++
    (dashBoundary boundary ++ octets "--" ++ crlf)

theorem tailText_nil : tailText ([] : List (FormPart boundary)) = eboundary boundary.text := by
  rw [tailText, eboundary_eq, List.flatMap_nil, List.nil_append, List.append_assoc]

theorem tailText_cons (part : FormPart boundary) (parts : List (FormPart boundary)) :
    tailText (part :: parts) = sboundary boundary.text ++ (part.text ++ tailText parts) := by
  rw [tailText, tailText, sboundary_eq, List.flatMap_cons]
  simp only [List.append_assoc]

theorem length_tailText (parts : List (FormPart boundary)) :
    (eboundary boundary.text).length ≤ (tailText parts).length := by
  rw [tailText, List.length_append, eboundary_eq, List.append_assoc]
  exact Nat.le_add_left _ _

/-- The places of the header and of the content. -/
def segments (parmeter : FormParamter) : FbufSeg × FbufSeg :=
  (parmeter.header, parmeter.data)

theorem segments_ended (part : FormPart boundary) (begun : parmeter.header.byteBeg = (x : Int)) :
    segments ((parmeter.headed (x + part.header.length)).ended (x + part.text.length)) =
      (⟨x, x + part.header.length - 1⟩,
        ⟨x + part.header.length + 4,
          x + part.header.length + 4 + part.content.length - 1⟩) := by
  rw [part.length_text]
  simp only [segments, FormParamter.headed, FormParamter.ended, begun, Prod.mk.injEq,
    FbufSeg.mk.injEq]
  refine ⟨⟨trivial, ?_⟩, ?_, ?_⟩
  · omega
  · omega
  · omega

theorem segmentsFrom_cons (position : Nat) (part : FormPart boundary)
    (parts : List (FormPart boundary))
    (isPlace : x = position + (dashBoundary boundary).length + 2) :
    segmentsFrom position (part :: parts) =
      (⟨x, x + part.header.length - 1⟩,
        ⟨x + part.header.length + 4,
          x + part.header.length + 4 + part.content.length - 1⟩) ::
        segmentsFrom (x + part.text.length) parts := by
  subst isPlace
  rw [segmentsFrom]
  push_cast
  rfl

/-- A part in which a delimiter begins does not come out as it is. -/
theorem not_parsed {part : FormPart boundary} (mistakable : ¬part.Unmistakable) (later : x ≠ 0)
    (goes : scanParts boundary.text passes x true parmeter [] (part.text ++ behind) = .ok parsed)
    (others : List (FbufSeg × FbufSeg)) :
    parsed.map segments ≠
      (⟨x, x + part.header.length - 1⟩,
        ⟨x + part.header.length + 4,
          x + part.header.length + 4 + part.content.length - 1⟩) :: others := by
  rw [part.unmistakable_iff behind] at mistakable
  have stray : ∃ rest, rest ≠ [] ∧ rest <:+ part.text ∧ Matches boundary (rest ++ behind) := by
    by_contra none'
    exact mistakable fun rest nonempty suffix begins =>
      none' ⟨rest, nonempty, suffix, begins⟩
  obtain ⟨first, more, place, rfl, ends, inside⟩ := exists_first later stray goes
  intro same
  have sameEnd := congrArg FbufSeg.byteEnd (congrArg Prod.snd (List.cons.inj same).1)
  rw [segments, ends] at sameEnd
  rw [part.length_text] at inside
  dsimp only at sameEnd
  omega

/-- A run over parts behind the first delimiter. -/
theorem scanParts_parts_iff (part : FormPart boundary) (parts : List (FormPart boundary))
    {position : Nat} (isPlace : x = position + (dashBoundary boundary).length + 2)
    (begun : parmeter.header.byteBeg = (x : Int))
    (patient : (part.text ++ tailText parts).length ≤ passes) :
    (∃ parsed, scanParts boundary.text passes x true parmeter []
        (part.text ++ tailText parts) = .ok parsed ∧
        parsed.map segments = segmentsFrom position (part :: parts)) ↔
      ∀ part' ∈ part :: parts, part'.Unmistakable := by
  induction parts generalizing part position parmeter passes x with
  | nil =>
      rw [List.forall_mem_singleton, segmentsFrom_cons position part [] isPlace]
      by_cases unmistakable : part.Unmistakable
      · obtain ⟨passes', patient', goes⟩ := @scanParts_part boundary passes x parmeter
          (tailText []) part unmistakable (length_tailText []) patient
        have room := length_tailText ([] : List (FormPart boundary))
        rw [length_eboundary] at room
        obtain ⟨passes', rfl⟩ : ∃ fewer, passes' = fewer + 1 := ⟨passes' - 1, by omega⟩
        have closes : eboundary boundary.text <+: tailText ([] : List (FormPart boundary)) :=
          ⟨[], by rw [tailText_nil, List.append_nil]⟩
        rw [goes, scanParts_closing closes]
        refine iff_of_true ⟨_, rfl, ?_⟩ unmistakable
        rw [List.nil_append, List.map_singleton, segments_ended part begun]
        rfl
      · refine iff_of_false (fun parsed => ?_) unmistakable
        obtain ⟨parsed, goes, same⟩ := parsed
        exact not_parsed unmistakable (by omega) goes _ same
  | cons next parts ih =>
      rw [List.forall_mem_cons, segmentsFrom_cons position part (next :: parts) isPlace]
      by_cases unmistakable : part.Unmistakable
      · obtain ⟨passes', patient', goes⟩ := @scanParts_part boundary passes x parmeter
          (tailText (next :: parts)) part unmistakable (length_tailText _) patient
        have room := length_tailText (next :: parts)
        rw [length_eboundary] at room
        obtain ⟨passes', rfl⟩ : ∃ fewer, passes' = fewer + 1 := ⟨passes' - 1, by omega⟩
        have begins : sboundary boundary.text <+: tailText (next :: parts) := by
          rw [tailText_cons]
          exact List.prefix_append _ _
        rw [and_iff_right unmistakable, goes, scanParts_delimiter (length_tailText _) begins,
          if_neg (by omega), ← List.append_nil ([] ++ _), scanParts_paramters, tailText_cons,
          List.drop_left]
        rw [tailText_cons, List.length_append] at patient'
        have sbLength := @length_sboundary boundary
        have later := @ih passes' (x + part.text.length + (sboundary boundary.text).length)
          (((parmeter.headed (x + part.header.length)).ended (x + part.text.length)).begun
            (x + part.text.length + (sboundary boundary.text).length)) next
          (x + part.text.length) (by omega) rfl (by omega)
        rw [← later]
        simp only [Outcome.bind_eq_ok, List.nil_append, List.singleton_append]
        have first := segments_ended part begun
        constructor
        · rintro ⟨_, ⟨more, goes', isParsed⟩, same⟩
          cases isParsed
          rw [List.map_cons, first, List.cons.injEq] at same
          exact ⟨more, goes', same.2⟩
        · rintro ⟨more, goes', same⟩
          refine ⟨_, ⟨more, goes', rfl⟩, ?_⟩
          rw [List.map_cons, first, same]
      · refine iff_of_false (fun parsed => ?_) fun both => unmistakable both.1
        obtain ⟨parsed, goes, same⟩ := parsed
        exact not_parsed unmistakable (by omega) goes _ same

/-- Where the last part ends. -/
theorem exists_last (position : Nat) {parts : List (FormPart boundary)} (nonempty : parts ≠ []) :
    ∃ front last, segmentsFrom position parts = front ++ [last] ∧
      last.2.byteEnd = ((position + (parts.flatMap fun part =>
        dashBoundary boundary ++ crlf ++ part.text).length : Nat) : Int) - 1 - 2 := by
  induction parts generalizing position with
  | nil => exact (nonempty rfl).elim
  | cons part parts ih =>
      rw [segmentsFrom_cons position part parts rfl]
      have two : crlf.length = 2 := rfl
      cases parts with
      | nil =>
          refine ⟨[], _, rfl, ?_⟩
          simp only [List.flatMap_cons, List.flatMap_nil, List.append_nil, List.length_append,
            part.length_text]
          omega
      | cons next parts =>
          obtain ⟨front, last, isLast, ends⟩ := ih (position + (dashBoundary boundary).length + 2 +
            part.text.length) (List.cons_ne_nil _ _)
          have whole : ((part :: next :: parts).flatMap fun part =>
              dashBoundary boundary ++ crlf ++ part.text).length =
              (dashBoundary boundary).length + 2 + part.text.length +
                ((next :: parts).flatMap fun part =>
                  dashBoundary boundary ++ crlf ++ part.text).length := by
            rw [List.flatMap_cons, List.length_append, List.length_append, List.length_append, two]
          refine ⟨_ :: front, last, by rw [isLast, List.cons_append], ?_⟩
          rw [ends, whole]
          omega

end Parts

/-! ## All encodings -/

section Encodings

variable {boundary : Boundary} {multipart : Multipart boundary}

/-- An encoding without anything in front of its parts. -/
theorem encoded_eq {part : FormPart boundary} {parts : List (FormPart boundary)}
    (noFront : multipart.preamble = none) (isParts : multipart.parts = part :: parts)
    (closed : multipart.closed = true) :
    multipart.encoded = sboundary boundary.text ++ (part.text ++ tailText parts) := by
  rw [← tailText_cons, Multipart.encoded, Multipart.front, noFront, isParts, closed, if_pos rfl,
    List.nil_append, tailText]

/-- Which of these come out. -/
theorem parsesAs_iff {part : FormPart boundary} {parts : List (FormPart boundary)}
    (noFront : multipart.preamble = none) (isParts : multipart.parts = part :: parts)
    (closed : multipart.closed = true) :
    ParsesAs multipart (formdata multipart.encoded boundary.text) ↔
      ∀ part ∈ multipart.parts, part.Unmistakable := by
  have atStart : multipart.front.length = 0 := by
    rw [Multipart.front, noFront]
    rfl
  have length := @length_sboundary boundary
  have room := length_tailText parts
  rw [ParsesAs, formdata, atStart, isParts, encoded_eq noFront isParts closed]
  obtain ⟨passes, isPasses⟩ : ∃ fewer, (sboundary boundary.text ++
      (part.text ++ tailText parts)).length = fewer + 1 :=
    ⟨(sboundary boundary.text ++ (part.text ++ tailText parts)).length - 1, by
      rw [List.length_append]
      omega⟩
  rw [isPasses, scanParts_delimiter _ (List.prefix_append _ _), if_pos rfl, List.drop_left]
  · refine scanParts_parts_iff part parts (by omega) rfl ?_
    rw [List.length_append] at isPasses
    omega
  · rw [List.length_append, List.length_append]
    omega

variable {parsed : List FormParamter}

theorem encoded_ne_nil : multipart.encoded ≠ [] := by
  rw [Multipart.encoded]
  refine List.append_ne_nil_of_right_ne_nil _ (List.append_ne_nil_of_left_ne_nil
    (List.append_ne_nil_of_left_ne_nil ?_ _) _)
  exact List.ne_nil_of_length_pos (by have := @length_dashBoundary_pos boundary; omega)

/-- What comes out has parts and a line end behind the last delimiter. -/
theorem closed_of_parsesAs
    (parses : ParsesAs multipart (formdata multipart.encoded boundary.text)) :
    multipart.parts ≠ [] ∧ multipart.closed = true := by
  obtain ⟨parsed, goes, same⟩ := parses
  obtain ⟨front, last, distance, rfl, ends, closes⟩ := exists_closing encoded_ne_nil goes
  have nonempty : multipart.parts ≠ [] := by
    intro empty
    rw [empty, segmentsFrom] at same
    exact absurd (congrArg List.length same) (by simp)
  refine ⟨nonempty, ?_⟩
  by_contra open'
  obtain ⟨front', last', isLast, ends'⟩ := exists_last multipart.front.length nonempty
  rw [isLast, List.map_append, List.map_singleton] at same
  have sameLast := (List.append_inj' same rfl).2
  have sameEnd : last.data.byteEnd = last'.2.byteEnd := by
    rw [← List.singleton_inj.mp sameLast]
  rw [ends, ends'] at sameEnd
  have place : distance = (multipart.front ++ multipart.parts.flatMap fun part =>
      dashBoundary boundary ++ crlf ++ part.text).length := by
    rw [List.length_append]
    omega
  rw [place, Multipart.encoded, List.drop_left, if_neg open', List.append_nil] at closes
  have tooLong := closes.length_le
  rw [length_eboundary, List.length_append, length_dashes] at tooLong
  omega

theorem exists_encoded_eq {part : FormPart boundary} {parts : List (FormPart boundary)}
    (isParts : multipart.parts = part :: parts) :
    ∃ rest, multipart.encoded = multipart.front ++ (sboundary boundary.text ++ rest) := by
  refine ⟨part.text ++ ((parts.flatMap fun part => dashBoundary boundary ++ crlf ++ part.text) ++
    (dashBoundary boundary ++ octets "--" ++ if multipart.closed then crlf else [])), ?_⟩
  rw [Multipart.encoded, isParts, List.flatMap_cons, sboundary_eq]
  simp only [List.append_assoc]

/-- A parameter that ends no later than the first delimiter begins is not the first part. -/
theorem segments_ne {part : FormPart boundary} {parts : List (FormPart boundary)}
    (isParts : multipart.parts = part :: parts) {first : FormParamter} {place : Nat}
    (ends : first.data.byteEnd = (place : Int) - 1 - 2) (early : place ≤ multipart.front.length)
    (more : List FormParamter) :
    (first :: more).map segments ≠ segmentsFrom multipart.front.length multipart.parts := by
  rw [isParts, segmentsFrom_cons _ part parts rfl, List.map_cons]
  intro same
  have sameEnd := congrArg FbufSeg.byteEnd (congrArg Prod.snd (List.cons.inj same).1)
  rw [segments, ends] at sameEnd
  dsimp only at sameEnd
  omega

/-- A run that goes on in front of the parts meets the first delimiter. -/
theorem segments_ne_of_front {part : FormPart boundary} {parts : List (FormPart boundary)}
    (isParts : multipart.parts = part :: parts) {passes width : Nat} {isHeader : Bool}
    {parmeter : FormParamter} (some' : width ≠ 0) (inside : width ≤ multipart.front.length)
    (goes : scanParts boundary.text passes width isHeader parmeter []
      (multipart.encoded.drop width) = .ok parsed) :
    parsed.map segments ≠ segmentsFrom multipart.front.length multipart.parts := by
  obtain ⟨rest, isRest⟩ := exists_encoded_eq isParts
  have begins : Matches boundary (sboundary boundary.text ++ rest) :=
    .inl (List.prefix_append _ _)
  obtain ⟨behind, isBehind⟩ : ∃ behind, sboundary boundary.text ++ rest = 0x2d :: behind := by
    have dash := head_of_matches begins
    cases whole : sboundary boundary.text ++ rest with
    | nil =>
        rw [whole] at dash
        cases dash
    | cons ch behind =>
        rw [whole] at dash
        cases dash
        exact ⟨behind, rfl⟩
  have dropped : multipart.encoded.drop width =
      multipart.front.drop width ++ [0x2d] ++ behind := by
    rw [isRest, isBehind, List.drop_append_of_le_length inside, List.append_assoc,
      List.singleton_append]
  rw [dropped] at goes
  rw [isBehind] at begins
  obtain ⟨first, more, place, rfl, ends, early⟩ := exists_first some'
    ⟨[0x2d], List.cons_ne_nil _ _, List.suffix_append _ _, begins⟩ goes
  refine segments_ne isParts ends ?_ more
  rw [List.length_append, List.length_drop, List.length_singleton] at early
  omega

theorem preamble_of_parsesAs
    (parses : ParsesAs multipart (formdata multipart.encoded boundary.text)) :
    multipart.preamble = none := by
  obtain ⟨nonempty, -⟩ := closed_of_parsesAs parses
  obtain ⟨part, parts, isParts⟩ := List.exists_cons_of_ne_nil nonempty
  obtain ⟨parsed, goes, same⟩ := parses
  cases isFront : multipart.preamble with
  | none => rfl
  | some preamble =>
      have front : multipart.front = preamble ++ [0x0d] ++ [0x0a] := by
        rw [Multipart.front, isFront, List.append_assoc]
        rfl
      have two : 2 ≤ multipart.front.length := by
        rw [front, List.length_append, List.length_append]
        exact Nat.le_add_left _ _
      obtain ⟨rest, isRest⟩ := exists_encoded_eq isParts
      obtain ⟨passes, -, -, step⟩ := cases_of_ok encoded_ne_nil goes
      rcases step with ⟨begins, parmeter, more, goes', isParsed⟩ | ⟨-, rfl⟩ |
        ⟨-, width, isHeader, parmeter, isWidth, goes'⟩
      · obtain ⟨-, rfl⟩ := isParsed.resolve_right fun later => later.1 rfl
        have inFront : (sboundary boundary.text).length ≤ multipart.front.length := by
          rw [isRest, front, sboundary_eq] at begins
          rw [front, sboundary_eq]
          refine (prefix_of_append (fun ch member => ?_) begins).length_le
          exact (dashBoundary_plain ch (List.mem_append_left _ member)).2
        rw [Nat.zero_add] at goes'
        have some' : (sboundary boundary.text).length ≠ 0 := by
          rw [length_sboundary]
          omega
        exact (segments_ne_of_front isParts some' inFront goes' same).elim
      · exact (segments_ne isParts rfl (Nat.zero_le _) [] same).elim
      · rw [Nat.zero_add] at goes'
        have inFront : width ≠ 0 ∧ width ≤ multipart.front.length := by
          rcases isWidth with rfl | ⟨rfl, emptyLine⟩
          · omega
          · rw [isRest] at emptyLine
            exact ⟨by decide, length_of_emptyLine (.inl (List.prefix_append _ _)) emptyLine⟩
        exact (segments_ne_of_front isParts inFront.1 inFront.2 goes' same).elim

end Encodings

/-- Which encodings come out. -/
theorem parsesAs_formdata_iff (boundary : Boundary) (multipart : Multipart boundary) :
    ParsesAs multipart (formdata multipart.encoded boundary.text) ↔
      multipart.preamble = none ∧ multipart.closed = true ∧ multipart.parts ≠ [] ∧
        ∀ part ∈ multipart.parts, part.Unmistakable := by
  constructor
  · intro parses
    have noFront := preamble_of_parsesAs parses
    obtain ⟨nonempty, closed⟩ := closed_of_parsesAs parses
    obtain ⟨part, parts, isParts⟩ := List.exists_cons_of_ne_nil nonempty
    exact ⟨noFront, closed, nonempty, (parsesAs_iff noFront isParts closed).mp parses⟩
  · rintro ⟨noFront, closed, nonempty, unmistakable⟩
    obtain ⟨part, parts, isParts⟩ := List.exists_cons_of_ne_nil nonempty
    exact (parsesAs_iff noFront isParts closed).mpr unmistakable

/-- Behind the last delimiter the comparison goes beyond the buffer, if it has no line end. -/
theorem not_parsesAs_formdata :
    ¬∀ (boundary : Boundary) (multipart : Multipart boundary),
      ParsesAs multipart (formdata multipart.encoded boundary.text) := by
  intro parses
  have plain : ∀ ch ∈ octets "b", ch ≠ 0 ∧ ch ≠ 0x0d ∧ ch ≠ 0x0a := by decide +kernel
  have noEmptyLine : ¬crlf ++ crlf <:+: octets "a: 1" ++ [0x0d, 0x0a, 0x0d] := by decide
  have delimited : ¬crlf ++ octets "--" ++ octets "b" <:+: octets "text" := by decide
  have closed := closed_of_parsesAs (parses ⟨octets "b", plain⟩
    ⟨none, [⟨octets "a: 1", octets "text", by decide, noEmptyLine, delimited⟩], false⟩)
  cases closed.2

end Http1

end HeapHttpd
