import HeapHttpd.Http1.LineSock
import HeapHttpd.Http1.RequestHeader

/-!
# Reading the header of a request

Both builds read a header in pieces that may begin and end anywhere, and hand each
piece to `LineParse`.  What they make of a stream is what `LineParse` makes of it
in one piece.
-/

namespace HeapHttpd

namespace Http1

open General
open Tunneling (crlf)

/-! ## `LineParse` in pieces -/

section Lines

variable {X : Type} {otherLine : List UInt8 → X → X}

theorem takeLines_noLine {passes : Nat} {text : List UInt8} (noLine : 0x0a ∉ text) :
    takeLines passes text = ([], text) := by
  cases passes with
  | zero => rfl
  | succ passes => rw [takeLines, if_neg noLine]

/-- A text behind its first line. -/
def behindLine (text : List UInt8) : List UInt8 :=
  (text.dropWhile (· ≠ 0x0a)).tail

/-- The first line of a text as `LineParse` looks at it. -/
def firstLine (text : List UInt8) : List UInt8 :=
  normalise true (strtrim (text.takeWhile (· ≠ 0x0a) ++ [0x0a]))

theorem takeLines_succ {passes : Nat} {text : List UInt8} (hasLine : 0x0a ∈ text) :
    takeLines (passes + 1) text =
      if firstLine text = [] then ([[]], behindLine text)
      else
        (firstLine text :: (takeLines passes (behindLine text)).1,
          (takeLines passes (behindLine text)).2) := by
  rw [takeLines, if_pos hasLine]
  rfl

theorem dropWhile_ne_nil {text : List UInt8} (hasLine : 0x0a ∈ text) :
    text.dropWhile (· ≠ 0x0a) ≠ [] := by
  intro empty
  have := List.dropWhile_eq_nil_iff.mp empty 0x0a hasLine
  simp at this

theorem length_behindLine {text : List UInt8} (hasLine : 0x0a ∈ text) :
    (behindLine text).length < text.length := by
  have shorter := (List.dropWhile_sublist (l := text) (· ≠ 0x0a)).length_le
  have := List.length_pos_iff_ne_nil.mpr (dropWhile_ne_nil hasLine)
  rw [behindLine, List.length_tail]
  omega

theorem behindLine_append {text : List UInt8} (hasLine : 0x0a ∈ text) (more : List UInt8) :
    behindLine (text ++ more) = behindLine text ++ more := by
  have nonempty := dropWhile_ne_nil hasLine
  rw [behindLine, List.dropWhile_append, if_neg (by simpa using nonempty),
    List.tail_append_of_ne_nil nonempty, behindLine]

theorem firstLine_append {text : List UInt8} (hasLine : 0x0a ∈ text) (more : List UInt8) :
    firstLine (text ++ more) = firstLine text := by
  have short : (text.takeWhile (· ≠ 0x0a)).length ≠ text.length := by
    intro same
    have split := congrArg List.length
      (List.takeWhile_append_dropWhile (p := (· ≠ 0x0a)) (l := text))
    have := List.length_pos_iff_ne_nil.mpr (dropWhile_ne_nil hasLine)
    rw [List.length_append] at split
    omega
  rw [firstLine, List.takeWhile_append, if_neg short, firstLine]

/-- Patience that is enough makes no difference. -/
theorem takeLines_patience {passes other : Nat} {text : List UInt8}
    (patient : text.length ≤ passes) (alsoPatient : text.length ≤ other) :
    takeLines passes text = takeLines other text := by
  induction passes generalizing other text with
  | zero =>
      have empty : text = [] := List.eq_nil_of_length_eq_zero (by omega)
      subst empty
      rw [takeLines_noLine (by simp), takeLines_noLine (by simp)]
  | succ passes ih =>
      by_cases hasLine : 0x0a ∈ text
      · have shorter := length_behindLine hasLine
        cases other with
        | zero => omega
        | succ other =>
            rw [takeLines_succ hasLine, takeLines_succ hasLine,
              @ih other _ (by omega) (by omega)]
      · rw [takeLines_noLine hasLine, takeLines_noLine hasLine]

/-- The lines of a text in two pieces. -/
theorem takeLines_append {passes later whole : Nat} {text more : List UInt8}
    (patient : text.length ≤ passes)
    (patientLater : ((takeLines passes text).2 ++ more).length ≤ later)
    (patientWhole : (text ++ more).length ≤ whole) :
    takeLines whole (text ++ more) =
      if [] ∈ (takeLines passes text).1 then
        ((takeLines passes text).1, (takeLines passes text).2 ++ more)
      else
        ((takeLines passes text).1 ++ (takeLines later ((takeLines passes text).2 ++ more)).1,
          (takeLines later ((takeLines passes text).2 ++ more)).2) := by
  induction passes generalizing text whole with
  | zero =>
      have empty : text = [] := List.eq_nil_of_length_eq_zero (by omega)
      subst empty
      simp only [takeLines, List.not_mem_nil, if_false, List.nil_append]
      exact takeLines_patience patientWhole patientLater
  | succ passes ih =>
      by_cases hasLine : 0x0a ∈ text
      · have shorter := length_behindLine hasLine
        rw [List.length_append] at patientWhole
        cases whole with
        | zero => omega
        | succ whole =>
            rw [takeLines_succ hasLine] at patientLater ⊢
            rw [takeLines_succ (List.mem_append_left more hasLine), firstLine_append hasLine,
              behindLine_append hasLine]
            by_cases blank : firstLine text = []
            · simp [blank]
            · rw [if_neg blank] at patientLater ⊢
              rw [if_neg blank, ih (by omega) patientLater (by rw [List.length_append]; omega)]
              by_cases blankLater : [] ∈ (takeLines passes (behindLine text)).1
              · simp [blankLater]
              · simp [blankLater, Ne.symm blank]
      · rw [takeLines_noLine hasLine] at patientLater ⊢
        simp only [List.not_mem_nil, if_false, List.nil_append]
        exact takeLines_patience patientWhole patientLater

/-- What is left of a text without a blank line is no line. -/
theorem noLine_of_takeLines {passes : Nat} {text : List UInt8} (patient : text.length ≤ passes)
    (noBlank : [] ∉ (takeLines passes text).1) : 0x0a ∉ (takeLines passes text).2 := by
  induction passes generalizing text with
  | zero =>
      have empty : text = [] := List.eq_nil_of_length_eq_zero (by omega)
      subst empty
      simp [takeLines]
  | succ passes ih =>
      by_cases hasLine : 0x0a ∈ text
      · have shorter := length_behindLine hasLine
        rw [takeLines_succ hasLine] at noBlank ⊢
        by_cases blank : firstLine text = []
        · simp [blank] at noBlank
        · rw [if_neg blank] at noBlank ⊢
          exact ih (by omega) fun blankLater => noBlank (List.mem_cons_of_mem _ blankLater)
      · rwa [takeLines_noLine hasLine]

/-- The lines `LineParse` takes from a text, and what is left of it. -/
def linesOf (text : List UInt8) : List (List UInt8) × List UInt8 :=
  takeLines text.length text

theorem linesOf_append (text more : List UInt8) :
    linesOf (text ++ more) =
      if [] ∈ (linesOf text).1 then ((linesOf text).1, (linesOf text).2 ++ more)
      else
        ((linesOf text).1 ++ (linesOf ((linesOf text).2 ++ more)).1,
          (linesOf ((linesOf text).2 ++ more)).2) :=
  takeLines_append (Nat.le_refl _) (Nat.le_refl _) (Nat.le_refl _)

/-- What `LineParse` does with lines. -/
def readLines (otherLine : List UInt8 → X → X) (lines : List (List UInt8)) (http1 : CHttp X) :
    CHttp X :=
  (lines.filter fun line => !line.isEmpty).foldl
    (fun http1 line => parseLine otherLine line http1) http1

theorem readLines_append (lines more : List (List UInt8)) (http1 : CHttp X) :
    readLines otherLine (lines ++ more) http1 =
      readLines otherLine more (readLines otherLine lines http1) := by
  rw [readLines, List.filter_append, List.foldl_append, readLines, readLines]

theorem parseLine_lineText (line lineText : List UInt8) (http1 : CHttp X) :
    parseLine otherLine line { http1 with lineText } =
      { parseLine otherLine line http1 with lineText } := by
  unfold parseLine parseFieldLine
  cases methodOf line with
  | some method => rfl
  | none =>
      simp only
      split
      · rfl
      · split <;> rfl

theorem readLines_lineText (lines : List (List UInt8)) (lineText : List UInt8)
    (http1 : CHttp X) :
    readLines otherLine lines { http1 with lineText } =
      { readLines otherLine lines http1 with lineText } := by
  unfold readLines
  induction lines.filter fun line => !line.isEmpty generalizing http1 with
  | nil => rfl
  | cons line lines ih => rw [List.foldl_cons, parseLine_lineText, ih, List.foldl_cons]

theorem httpState_readLines (lines : List (List UInt8)) (http1 : CHttp X) :
    (readLines otherLine lines http1).httpState = http1.httpState := by
  unfold readLines
  induction lines.filter fun line => !line.isEmpty generalizing http1 with
  | nil => rfl
  | cons line lines ih =>
      rw [List.foldl_cons, ih]
      unfold parseLine parseFieldLine
      cases methodOf line with
      | some method => rfl
      | none =>
          simp only
          split
          · rfl
          · split <;> rfl

theorem lineParse_eq (text : List UInt8) (http1 : CHttp X) :
    lineParse otherLine text http1 =
      let taken := linesOf (http1.lineText ++ text)
      let http1 := { readLines otherLine taken.1 http1 with lineText := taken.2 }
      if [] ∈ taken.1 then ({ http1 with httpState := .reqData }, true) else (http1, false) := by
  have unfolded : lineParse otherLine text http1 =
      let taken := linesOf (http1.lineText ++ text)
      let http1 := readLines otherLine taken.1 { http1 with lineText := taken.2 }
      if [] ∈ taken.1 then ({ http1 with httpState := .reqData }, true) else (http1, false) :=
    rfl
  rw [unfolded]
  simp only [readLines_lineText]

/-- A text in two pieces. -/
theorem lineParse_append (text more : List UInt8) (http1 : CHttp X) :
    lineParse otherLine (text ++ more) http1 =
      let parsed := lineParse otherLine text http1
      if parsed.2 then ({ parsed.1 with lineText := parsed.1.lineText ++ more }, true)
      else lineParse otherLine more parsed.1 := by
  simp only [lineParse_eq, ← List.append_assoc, linesOf_append (http1.lineText ++ text) more]
  generalize linesOf (http1.lineText ++ text) = taken
  by_cases blank : [] ∈ taken.1
  · simp only [blank, if_true]
  · simp only [blank, if_false, Bool.false_eq_true, readLines_append, readLines_lineText,
      List.mem_append, false_or]

/-- No line is left over behind a text without a blank line. -/
theorem noLine_of_lineParse {text : List UInt8} {http1 : CHttp X}
    (noBlank : (lineParse otherLine text http1).2 = false) :
    0x0a ∉ (lineParse otherLine text http1).1.lineText := by
  rw [lineParse_eq] at noBlank ⊢
  simp only at noBlank ⊢
  split at noBlank
  · cases noBlank
  · rename_i blank
    rw [if_neg blank]
    exact noLine_of_takeLines (Nat.le_refl _) blank

end Lines

/-! ## The readers -/

/-- `CHttp::Processing` up to a blank line. -/
def CHttp.processing (site : Site) :
    Nat → CHttp RequestHeader → LineSock → CHttp RequestHeader × LineSock
  | 0, http1, sock => (http1, sock)
  | passes + 1, http1, sock =>
      match sock.lrecv 4095 with
      | none => (http1, sock)
      | some (szHttpData, sock) =>
          let (http1, blank) := http1.lineParse site (cString szHttpData)
          if blank then (http1, sock) else processing site passes http1 sock

/-- The loop of `CHttp::AsyncProcessing` over a header, with `m_async_recv_buf`. -/
def CHttp.asyncReqHeader (site : Site) :
    Nat → CHttp RequestHeader → List UInt8 → CHttp RequestHeader × List UInt8
  | 0, http1, asyncRecvBuf => (http1, asyncRecvBuf)
  | passes + 1, http1, asyncRecvBuf =>
      if http1.httpState = .reqHeader then
        let (szHttpData, left) := asyncProtRecv 4095 asyncRecvBuf
        if szHttpData.isEmpty then (http1, left)
        else asyncReqHeader site passes (http1.lineParse site (cString szHttpData)).1 left
      else (http1, asyncRecvBuf)

/-- A wakeup for one segment: `AsyncRecv`, and `AsyncProcessing` up to the body. -/
def CHttp.headerWakeup (site : Site) (current : CHttp RequestHeader × List UInt8)
    (segment : List UInt8) : CHttp RequestHeader × List UInt8 :=
  let asyncRecvBuf := current.2 ++ segment
  current.1.asyncReqHeader site (asyncRecvBuf.length + 1) asyncRecvBuf

/-- The parse state: all members but the text of a line that is not complete. -/
def CHttp.parseState (http1 : CHttp RequestHeader) : CHttp RequestHeader :=
  { http1 with lineText := [] }

/-- What the synchronous build makes of the segments of a stream. -/
def syncHeader (site : Site) (rest : RequestHeader) (segments : List (List UInt8))
    (ending : Option Ending) : CHttp RequestHeader :=
  ((CHttp.new rest).processing site (segments.flatten.length + 1)
    { recvBuf := [], arriving := segments, ending }).1.parseState

/-- What the asynchronous build makes of the segments of a stream. -/
def asyncHeader (site : Site) (rest : RequestHeader) (segments : List (List UInt8)) :
    CHttp RequestHeader :=
  (segments.foldl (CHttp.headerWakeup site) (CHttp.new rest, [])).1.parseState

/-- What `LineParse` makes of a stream in one piece. -/
def headerOf (site : Site) (rest : RequestHeader) (stream : List UInt8) : CHttp RequestHeader :=
  ((CHttp.new rest).lineParse site stream).1.parseState

section Readers

variable {site : Site} {http1 : CHttp RequestHeader}

namespace CHttp

theorem lineParse_append (text more : List UInt8) :
    http1.lineParse site (text ++ more) =
      let parsed := http1.lineParse site text
      if parsed.2 then ({ parsed.1 with lineText := parsed.1.lineText ++ more }, true)
      else parsed.1.lineParse site more := by
  simp only [lineParse, Http1.lineParse_append text more]
  by_cases blank : (Http1.lineParse (RequestHeader.readLine site) text http1).2 = true
  · simp only [blank, if_true]
  · simp only [blank, Bool.false_eq_true, if_false]

theorem noLine_of_lineParse {text : List UInt8}
    (noBlank : (http1.lineParse site text).2 = false) :
    0x0a ∉ (http1.lineParse site text).1.lineText := by
  unfold lineParse at noBlank ⊢
  simp only at noBlank ⊢
  split at noBlank
  · cases noBlank
  · rename_i blank
    rw [if_neg blank]
    exact Http1.noLine_of_lineParse noBlank

/-- The state stays the one of a header until the blank line. -/
theorem httpState_lineParse (text : List UInt8) :
    (http1.lineParse site text).1.httpState =
      if (http1.lineParse site text).2 then .reqData else http1.httpState := by
  simp only [lineParse, lineParse_eq]
  generalize linesOf (http1.lineText ++ text) = taken
  by_cases blank : [] ∈ taken.1
  · simp only [blank, if_true]
  · simp only [blank, if_false, Bool.false_eq_true, httpState_readLines]

/-- Text without a line end is kept, and nothing else happens. -/
theorem lineParse_of_noLine {text : List UInt8} (noLine : 0x0a ∉ http1.lineText ++ text) :
    http1.lineParse site text = ({ http1 with lineText := http1.lineText ++ text }, false) := by
  have nothing : linesOf (http1.lineText ++ text) = ([], http1.lineText ++ text) :=
    takeLines_noLine noLine
  rw [lineParse, lineParse_eq, nothing]
  rfl

/-- `Processing` makes of a stream what `LineParse` makes of it in one piece. -/
theorem processing_parseState {passes : Nat} {sock : LineSock} (noLine : 0x0a ∉ http1.lineText)
    (nulFree : 0 ∉ sock.octets) (patient : sock.octets.length < passes) :
    (http1.processing site passes sock).1.parseState =
      (http1.lineParse site sock.octets).1.parseState := by
  induction passes generalizing http1 sock with
  | zero => omega
  | succ passes ih =>
      rw [processing]
      cases read : sock.lrecv 4095 with
      | none =>
          have noLineLeft : 0x0a ∉ http1.lineText ++ sock.octets := by
            rw [List.mem_append, not_or]
            exact ⟨noLine, LineSock.noLine_of_lrecv read⟩
          rw [lineParse_of_noLine noLineLeft]
          rfl
      | some result =>
          obtain ⟨szHttpData, left⟩ := result
          have split := LineSock.lrecv_append read
          have nonempty := List.length_pos_iff_ne_nil.mpr
            (LineSock.lrecv_ne_nil (by decide) read)
          rw [split, List.mem_append, not_or] at nulFree
          rw [split, List.length_append] at patient
          simp only [cString_of_nulFree nulFree.1, split, lineParse_append]
          cases blank : (http1.lineParse site szHttpData).2 with
          | true => rfl
          | false =>
              simp only [Bool.false_eq_true, if_false]
              exact ih (noLine_of_lineParse blank) nulFree.2 (by omega)

theorem asyncReqHeader_of_done (passes : Nat) (asyncRecvBuf : List UInt8)
    (done : http1.httpState ≠ .reqHeader) :
    http1.asyncReqHeader site passes asyncRecvBuf = (http1, asyncRecvBuf) := by
  cases passes with
  | zero => rfl
  | succ passes => rw [asyncReqHeader, if_neg done]

/-- The loop over a header takes a buffer to its end, or up to a blank line. -/
theorem asyncReqHeader_eq {passes : Nat} {asyncRecvBuf : List UInt8}
    (reading : http1.httpState = .reqHeader) (noLine : 0x0a ∉ http1.lineText)
    (nulFree : 0 ∉ asyncRecvBuf) (patient : asyncRecvBuf.length < passes) :
    (http1.asyncReqHeader site passes asyncRecvBuf).1.parseState =
        (http1.lineParse site asyncRecvBuf).1.parseState ∧
      ((http1.lineParse site asyncRecvBuf).2 = false →
        http1.asyncReqHeader site passes asyncRecvBuf =
          ((http1.lineParse site asyncRecvBuf).1, [])) := by
  induction passes generalizing http1 asyncRecvBuf with
  | zero => omega
  | succ passes ih =>
      rw [asyncReqHeader, if_pos reading]
      by_cases empty : asyncRecvBuf = []
      · subst empty
        rw [lineParse_of_noLine (by simpa using noLine)]
        simp [asyncProtRecv, cutLine]
      · have split := cutLine_append 4095 asyncRecvBuf
        have nonempty := @cutLine_ne_nil 4095 _ (by decide) empty
        rw [asyncProtRecv]
        cases cut : cutLine 4095 asyncRecvBuf with | mk szHttpData left
        rw [cut] at split nonempty
        simp only at split nonempty ⊢
        subst split
        have someRead := List.length_pos_iff_ne_nil.mpr nonempty
        rw [List.mem_append, not_or] at nulFree
        rw [List.length_append] at patient
        rw [if_neg (by simpa using nonempty), cString_of_nulFree nulFree.1]
        simp only [lineParse_append]
        have state := @httpState_lineParse site http1 szHttpData
        cases blank : (http1.lineParse site szHttpData).2 with
        | true =>
            rw [blank, if_pos rfl] at state
            rw [asyncReqHeader_of_done passes left (by rw [state]; decide)]
            exact ⟨rfl, fun impossible => Bool.noConfusion impossible⟩
        | false =>
            rw [blank, if_neg (by decide)] at state
            simp only [Bool.false_eq_true, if_false]
            exact ih (state.trans reading) (noLine_of_lineParse blank) nulFree.2 (by omega)

theorem headerWakeup_of_done (segments : List (List UInt8)) (asyncRecvBuf : List UInt8)
    (done : http1.httpState ≠ .reqHeader) :
    (segments.foldl (headerWakeup site) (http1, asyncRecvBuf)).1 = http1 := by
  induction segments generalizing asyncRecvBuf with
  | nil => rfl
  | cons segment segments ih =>
      rw [List.foldl_cons, headerWakeup, asyncReqHeader_of_done _ _ done]
      exact ih _

/-- The wakeups make of a stream what `LineParse` makes of it in one piece. -/
theorem headerWakeup_parseState {segments : List (List UInt8)}
    (reading : http1.httpState = .reqHeader) (noLine : 0x0a ∉ http1.lineText)
    (nulFree : 0 ∉ segments.flatten) :
    (segments.foldl (headerWakeup site) (http1, [])).1.parseState =
      (http1.lineParse site segments.flatten).1.parseState := by
  induction segments generalizing http1 with
  | nil =>
      rw [List.flatten_nil, lineParse_of_noLine (by simpa using noLine)]
      rfl
  | cons segment segments ih =>
      rw [List.flatten_cons, List.mem_append, not_or] at nulFree
      obtain ⟨parsed, read⟩ := @asyncReqHeader_eq site _ _ _ reading noLine nulFree.1
        (Nat.lt_succ_self segment.length)
      have state := @httpState_lineParse site http1 segment
      rw [List.foldl_cons, List.flatten_cons, lineParse_append]
      simp only [headerWakeup, List.nil_append]
      cases blank : (http1.lineParse site segment).2 with
      | true =>
          rw [blank, if_pos rfl] at state
          have done : (http1.asyncReqHeader site (segment.length + 1) segment).1.httpState ≠
              .reqHeader := by
            have same := congrArg CHttp.httpState parsed
            simp only [parseState] at same
            rw [same, state]
            decide
          rw [headerWakeup_of_done segments _ done, parsed]
          rfl
      | false =>
          rw [blank, if_neg (by decide)] at state
          rw [read blank]
          simp only [Bool.false_eq_true, if_false]
          exact ih (state.trans reading) (noLine_of_lineParse blank) nulFree.2

end CHttp

/-- The parse state of a header depends neither on the build nor on how the header
comes in segments. -/
theorem header_eq (site : Site) (rest : RequestHeader) (segments : List (List UInt8))
    (ending : Option Ending) (nulFree : 0 ∉ segments.flatten) :
    syncHeader site rest segments ending = headerOf site rest segments.flatten ∧
      asyncHeader site rest segments = headerOf site rest segments.flatten := by
  constructor
  · exact CHttp.processing_parseState (by simp [CHttp.new]) nulFree
      (by simp [LineSock.octets])
  · exact CHttp.headerWakeup_parseState rfl (by simp [CHttp.new]) nulFree

theorem header_eq_get :
    let site : Site := ⟨false, [], fun _ _ _ _ => ⟨false, [], []⟩⟩
    let segments := [octets "GET /index.html HT", octets "TP/1.1\r\nHost: a\r", octets "\n\r\n"]
    syncHeader site (.new true []) segments none =
        headerOf site (.new true []) segments.flatten ∧
      asyncHeader site (.new true []) segments = headerOf site (.new true []) segments.flatten :=
  header_eq _ _ _ _ (by decide)

end Readers

end Http1

end HeapHttpd
