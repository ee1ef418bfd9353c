import HeapHttpd.Tunneling.ResponseHeader
import Mathlib.Algebra.Group.Nat.Defs

/-!
# Relaying a chunked body

`http_chunk`: it passes a chunked body on to the client as the segments of it arrive,
and tells when the body has ended.
-/

namespace HeapHttpd

namespace Tunneling

open General
open Http1 (isSpace)

/-! ## The source -/

/-- `isxdigit`. -/
def isHexDigit (ch : UInt8) : Bool :=
  (0x30 ≤ ch && ch ≤ 0x39) || (0x41 ≤ ch && ch ≤ 0x46) || (0x61 ≤ ch && ch ≤ 0x66)

def hexDigitValue (ch : UInt8) : Nat :=
  if ch ≤ 0x39 then ch.toNat - 0x30
  else if ch ≤ 0x46 then ch.toNat - 0x37
  else ch.toNat - 0x57

/-- The number of a sequence of hexadecimal digits. -/
def hexadecimal (digits : List UInt8) : Nat :=
  digits.foldl (fun value ch => value * 16 + hexDigitValue ch) 0

/-- The digits that `%x` reads behind a sign.  A prefix `0x` is a digit already. -/
def hexDigits (text : List UInt8) : List UInt8 :=
  if text.take 2 = octets "0x" ∨ text.take 2 = octets "0X" then
    0x30 :: (text.drop 2).takeWhile isHexDigit
  else text.takeWhile isHexDigit

/-- `sscanf` with `%x`, which stops at the bound of `unsigned long` and keeps the low
half of it. -/
def scanHex (text : List UInt8) : Option Nat :=
  let text := text.dropWhile isSpace
  let negative := text.head? = some 0x2d
  let signed := negative || text.head? = some 0x2b
  let digits := hexDigits (if signed then text.drop 1 else text)
  let value := hexadecimal digits
  if digits = [] then none
  else if 2 ^ 64 ≤ value then some (2 ^ 32 - 1)
  else if negative then some ((2 ^ 64 - value) % 2 ^ 32)
  else some (value % 2 ^ 32)

/-- `HTTP_Client_Parse_State`, less the states of `http_client`. -/
inductive ChunkState
  | chunkHeader
  | chunkContent
  | chunkFooter
  deriving DecidableEq

/-- `http_chunk`. -/
structure HttpChunk where
  chunkLen : Nat
  sentChunk : Nat
  state : ChunkState

/-- `http_chunk`, the buffer it shares with `http_client`, and what `client_send` has
been given. -/
structure ChunkRelay where
  chunk : HttpChunk
  buf : List UInt8
  sent : List (List UInt8)

/-- The constructor. -/
def HttpChunk.start : HttpChunk :=
  { chunkLen := 0, sentChunk := 0, state := .chunkHeader }

def ChunkRelay.start : ChunkRelay :=
  { chunk := HttpChunk.start, buf := [], sent := [] }

/-- Where a buffer has its first `CRLF`. -/
def findCrlf : List UInt8 → Option Nat
  | [] => none
  | ch :: rest =>
      if (octets "\r\n").isPrefixOf (ch :: rest) then some 0
      else (findCrlf rest).map (· + 1)

namespace ChunkRelay

variable (sendFails : Nat → Bool)

def clientSend (data : List UInt8) (relay : ChunkRelay) : ChunkRelay × Bool :=
  ({ relay with sent := relay.sent ++ [data] }, !sendFails relay.sent.length)

/-- As much of the chunk as the buffer has is sent.  Behind the whole chunk comes the
next size. -/
def sendData (relay : ChunkRelay) : ChunkRelay × Bool :=
  let left := (relay.chunk.chunkLen + 2 ^ 32 - relay.chunk.sentChunk) % 2 ^ 32
  let shouldSendLen := min relay.buf.length left
  let (relay, sent) := relay.clientSend sendFails (relay.buf.take shouldSendLen)
  if sent then
    let sentChunk := (relay.chunk.sentChunk + shouldSendLen) % 2 ^ 32
    let chunk :=
      if sentChunk = relay.chunk.chunkLen then HttpChunk.start
      else { relay.chunk with sentChunk }
    ({ relay with chunk, buf := relay.buf.drop shouldSendLen }, true)
  else (relay, false)

/-- The end of the body is sent once the buffer has it, and the call returns. -/
def sendFooter (relay : ChunkRelay) : ChunkRelay × Bool :=
  match HttpClient.findHeaderEnd relay.buf with
  | none => (relay, true)
  | some pos =>
      let (relay, sent) := relay.clientSend sendFails (relay.buf.take (pos + 4))
      if sent then ({ relay with buf := relay.buf.drop (pos + 4) }, false) else (relay, false)

/-- A size is read, and its line sent.  The result is what the call returns, or
nothing where its loop goes on. -/
def sendHeader (relay : ChunkRelay) : ChunkRelay × Option Bool :=
  match findCrlf relay.buf with
  | none => (relay, some true)
  | some pos =>
      match scanHex (relay.buf.take (min pos 31)) with
      | none => (relay, some false)
      | some size =>
          if 0 < size then
            let relay := { relay with chunk.chunkLen := (size + 2) % 2 ^ 32 }
            let (relay, sent) := relay.clientSend sendFails (relay.buf.take (pos + 2))
            if sent then
              let relay :=
                { relay with chunk.state := .chunkContent, buf := relay.buf.drop (pos + 2) }
              if relay.buf = [] then (relay, none)
              else
                let (relay, sent) := relay.sendData sendFails
                (relay, if sent then none else some false)
            else (relay, some false)
          else
            let relay := { relay with chunk.chunkLen := 0 }
            let (relay, sent) := relay.clientSend sendFails (relay.buf.take pos)
            if sent then
              let relay :=
                { relay with chunk.state := .chunkFooter, buf := relay.buf.drop pos }
              let (relay, continues) := relay.sendFooter sendFails
              (relay, some continues)
            else (relay, some false)

/-- One pass of the loop of `processing`. -/
def pass (relay : ChunkRelay) : ChunkRelay × Option Bool :=
  match relay.chunk.state with
  | .chunkHeader => relay.sendHeader sendFails
  | .chunkContent =>
      let (relay, sent) := relay.sendData sendFails
      (relay, if sent then none else some false)
  | .chunkFooter =>
      let (relay, continues) := relay.sendFooter sendFails
      (relay, some continues)

/-- The loop of `processing`. -/
def processLoop : Nat → ChunkRelay → ChunkRelay × Bool
  | 0, relay => (relay, true)
  | passes + 1, relay =>
      if relay.buf = [] then (relay, true)
      else
        let (relay, result) := relay.pass sendFails
        match result with
        | some result => (relay, result)
        | none => processLoop passes relay

/-- `http_chunk::processing` on the buffer, to which `http_client` has added a segment.
Only the first pass can leave the buffer as it is. -/
def processing (segment : List UInt8) (relay : ChunkRelay) : ChunkRelay × Bool :=
  let relay := { relay with buf := relay.buf ++ segment }
  relay.processLoop sendFails (relay.buf.length + 1)

/-- The calls for the segments of a body, and their results. -/
def processSegments : List (List UInt8) → ChunkRelay → ChunkRelay × List Bool
  | [], relay => (relay, [])
  | segment :: segments, relay =>
      let (relay, result) := relay.processing sendFails segment
      let (relay, results) := processSegments segments relay
      (relay, result :: results)

end ChunkRelay

/-! ## Chunked bodies -/

/-- A chunk size with its extensions. -/
structure SizeLine where
  digits : List UInt8
  extensions : List UInt8
  nonempty : digits ≠ []
  isDigits : ∀ ch ∈ digits, isHexDigit ch = true
  begins : ∀ ch ∈ extensions.head?, ch ∈ octets "; \t"
  plain : Plain extensions
  short : (digits ++ extensions).length ≤ 31

def SizeLine.text (line : SizeLine) : List UInt8 :=
  line.digits ++ line.extensions

def SizeLine.size (line : SizeLine) : Nat :=
  hexadecimal line.digits

structure Chunk where
  line : SizeLine
  data : List UInt8
  size : line.size = data.length
  nonempty : data ≠ []
  bounded : data.length + 2 < 2 ^ 32

def Chunk.text (chunk : Chunk) : List UInt8 :=
  chunk.line.text ++ crlf ++ chunk.data ++ crlf

structure ChunkedBody where
  chunks : List Chunk
  last : SizeLine
  isLast : last.size = 0
  trailers : List HeaderField

def ChunkedBody.text (body : ChunkedBody) : List UInt8 :=
  body.chunks.flatMap Chunk.text ++ body.last.text ++ crlf ++
    headerText (body.trailers.map HeaderField.text)

/-! ## Reading a size -/

theorem isHexDigit_plain (ch : UInt8) : isHexDigit ch = true →
    isSpace ch = false ∧ ch ≠ 0x2d ∧ ch ≠ 0x2b ∧ ch ≠ 0x78 ∧ ch ≠ 0x58 ∧
      ch ≠ 0 ∧ ch ≠ 0x0d ∧ ch ≠ 0x0a := by
  intro isDigit
  simp only [isHexDigit, isSpace, Bool.or_eq_true, Bool.and_eq_true, decide_eq_true_eq,
    Bool.or_eq_false_iff, Bool.and_eq_false_iff, decide_eq_false_iff_not, ne_eq,
    ← UInt8.toNat_inj, UInt8.le_iff_toNat_le] at isDigit ⊢
  simp only [UInt8.reduceToNat] at isDigit ⊢
  omega

theorem begins_plain (ch : UInt8) (begins : ch ∈ octets "; \t") :
    isHexDigit ch = false ∧ ch ≠ 0x78 ∧ ch ≠ 0x58 := by
  have same : octets "; \t" = [0x3b, 0x20, 0x09] := by decide
  rw [same] at begins
  simp only [List.mem_cons, List.not_mem_nil, or_false] at begins
  rcases begins with rfl | rfl | rfl <;> decide

namespace SizeLine

variable (line : SizeLine)

theorem plain_text : Plain line.text := by
  intro ch member
  rcases List.mem_append.mp member with inDigits | inExtensions
  · obtain ⟨-, -, -, -, -, plain⟩ := isHexDigit_plain ch (line.isDigits ch inDigits)
    exact plain
  · exact line.plain ch inExtensions

/-- The digits end where the extensions begin. -/
theorem takeWhile_text : line.text.takeWhile isHexDigit = line.digits := by
  rw [text, List.takeWhile_append_of_pos line.isDigits]
  cases shape : line.extensions with
  | nil => simp
  | cons ch rest =>
      have isNot := (begins_plain ch (line.begins ch (by simp [shape]))).1
      simp [isNot]

theorem hexDigits_text : hexDigits line.text = line.digits := by
  obtain ⟨first, rest, shape⟩ := List.exists_cons_of_ne_nil line.nonempty
  have second : ∀ ch ∈ (rest ++ line.extensions).head?, ch ≠ 0x78 ∧ ch ≠ 0x58 := by
    intro ch isSecond
    cases rest with
    | nil => exact (begins_plain ch (line.begins ch isSecond)).2
    | cons other rest =>
        obtain rfl : other = ch := by simpa using isSecond
        obtain ⟨-, -, -, noX, noCapital, -⟩ :=
          isHexDigit_plain other (line.isDigits other (by simp [shape]))
        exact ⟨noX, noCapital⟩
  have noPrefix (ch : UInt8) (isX : ch = 0x78 ∨ ch = 0x58) : line.text.take 2 ≠ [0x30, ch] := by
    intro taken
    rw [text, shape, List.cons_append] at taken
    cases tail : rest ++ line.extensions with
    | nil => simp [tail] at taken
    | cons other more =>
        have isOther := second other (by simp [tail])
        obtain ⟨-, rfl⟩ : first = 0x30 ∧ other = ch := by simpa [tail] using taken
        rcases isX with rfl | rfl
        · exact isOther.1 rfl
        · exact isOther.2 rfl
  have lower : octets "0x" = [0x30, 0x78] := by decide
  have upper : octets "0X" = [0x30, 0x58] := by decide
  rw [hexDigits, lower, upper, if_neg, takeWhile_text]
  exact not_or.mpr ⟨noPrefix 0x78 (.inl rfl), noPrefix 0x58 (.inr rfl)⟩

/-- The size is read where it is below the bound of an `unsigned int`. -/
theorem scanHex_text (bounded : line.size < 2 ^ 32) : scanHex line.text = some line.size := by
  obtain ⟨first, rest, shape⟩ := List.exists_cons_of_ne_nil line.nonempty
  obtain ⟨noSpace, noMinus, noPlus, -⟩ :=
    isHexDigit_plain first (line.isDigits first (by simp [shape]))
  have begins : line.text = first :: (rest ++ line.extensions) := by simp [text, shape]
  have kept : line.text.dropWhile isSpace = line.text := by
    rw [begins, List.dropWhile_cons_of_neg (by simp [noSpace])]
  have minus : line.text.head? ≠ some 0x2d := by simp [begins, noMinus]
  have plus : line.text.head? ≠ some 0x2b := by simp [begins, noPlus]
  have small : ¬ 2 ^ 64 ≤ hexadecimal line.digits := by
    rw [← size]
    omega
  simp only [scanHex, kept, minus, plus, decide_false, Bool.or_false, Bool.false_eq_true,
    if_false, hexDigits_text, line.nonempty, small]
  rw [← size, Nat.mod_eq_of_lt bounded]

end SizeLine

/-! ## Finding the ends -/

theorem findCrlf_text {line : List UInt8} (plain : Plain line) (rest : List UInt8) :
    findCrlf (line ++ crlf ++ rest) = some line.length := by
  induction line with
  | nil => exact if_pos (by simp [octets, List.isPrefixOf])
  | cons ch line ih =>
      have isPlain := plain ch List.mem_cons_self
      have starts : ¬ (octets "\r\n").isPrefixOf (ch :: (line ++ crlf ++ rest)) = true := by
        rw [List.isPrefixOf_iff_prefix]
        intro begins
        exact isPlain.2.1 (List.cons_prefix_cons.mp begins).1.symm
      rw [List.cons_append, List.cons_append, findCrlf, if_neg starts,
        ih fun ch member => plain ch (List.mem_cons_of_mem _ member)]
      rfl

theorem findCrlf_inside {text : List UInt8} {pos : Nat} (found : findCrlf text = some pos) :
    pos + 2 ≤ text.length := by
  induction text generalizing pos with
  | nil => cases found
  | cons ch rest ih =>
      simp only [findCrlf] at found
      split at found
      · rename_i starts
        cases found
        exact (List.isPrefixOf_iff_prefix.mp starts).length_le
      · obtain ⟨before, inRest, rfl⟩ := Option.map_eq_some_iff.mp found
        have := ih inRest
        simp only [List.length_cons]
        omega

theorem findCrlf_append {text : List UInt8} {pos : Nat} (found : findCrlf text = some pos)
    (rest : List UInt8) : findCrlf (text ++ rest) = some pos := by
  induction text generalizing pos with
  | nil => cases found
  | cons ch text ih =>
      simp only [findCrlf] at found
      rw [List.cons_append, findCrlf]
      split at found
      · rename_i starts
        have longer : (octets "\r\n").isPrefixOf (ch :: (text ++ rest)) = true := by
          have := List.isPrefixOf_iff_prefix.mp starts
          exact List.isPrefixOf_iff_prefix.mpr (this.trans (List.prefix_append (ch :: text) rest))
        rw [if_pos longer]
        exact found
      · rename_i starts
        obtain ⟨before, inRest, rfl⟩ := Option.map_eq_some_iff.mp found
        have long := findCrlf_inside inRest
        have shorter : ¬ (octets "\r\n").isPrefixOf (ch :: (text ++ rest)) = true := by
          intro longer
          apply starts
          have begins := List.isPrefixOf_iff_prefix.mp longer
          rw [List.isPrefixOf_iff_prefix]
          exact List.prefix_of_prefix_length_le begins (List.prefix_append (ch :: text) rest)
            (by simp [octets]; omega)
        rw [if_neg shorter, ih inRest]
        rfl

/-- A buffer has the line end of the text that it begins, or not even the whole line. -/
theorem findCrlf_begins {buf future line rest : List UInt8} (plain : Plain line)
    (whole : buf ++ future = line ++ crlf ++ rest) :
    (findCrlf buf = none ∧ future ≠ []) ∨
      (findCrlf buf = some line.length ∧
        ∃ later, buf = line ++ crlf ++ later ∧ later ++ future = rest) := by
  have inWhole : findCrlf (buf ++ future) = some line.length := by
    rw [whole, findCrlf_text plain]
  cases found : findCrlf buf with
  | none =>
      refine .inl ⟨rfl, ?_⟩
      rintro rfl
      rw [List.append_nil, found] at inWhole
      cases inWhole
  | some pos =>
      obtain rfl : pos = line.length :=
        Option.some.inj ((findCrlf_append found future).symm.trans inWhole)
      have long : (line ++ crlf).length ≤ buf.length := by
        have := findCrlf_inside found
        simpa [crlf] using this
      obtain ⟨later, rfl⟩ : line ++ crlf <+: buf :=
        List.prefix_of_prefix_length_le ⟨rest, whole.symm⟩ (List.prefix_append buf future) long
      exact .inr ⟨rfl, later, rfl, by simpa using whole⟩

/-- What follows the last size. -/
def footerText (trailers : List HeaderField) : List UInt8 :=
  crlf ++ headerText (trailers.map HeaderField.text)

theorem length_footerText (trailers : List HeaderField) : 4 ≤ (footerText trailers).length := by
  simp [footerText, headerText, crlf]

theorem findHeaderEnd_footerText (trailers : List HeaderField) :
    HttpClient.findHeaderEnd (footerText trailers) =
      some ((footerText trailers).length - 4) := by
  cases trailers with
  | nil => exact findHeaderEnd_blank []
  | cons field trailers =>
      have isLines : ∀ line ∈ field.text :: trailers.map HeaderField.text, IsLine line := by
        intro line member
        obtain ⟨other, -, rfl⟩ := List.mem_map.mp (List.map_cons ▸ member)
        exact other.isLine
      obtain ⟨ch, tail, shape, notCr⟩ := field.isLine.cons
      have ends := findHeaderEnd_headerText isLines []
      have long : 4 ≤ (headerText (field.text :: trailers.map HeaderField.text)).length := by
        simp [headerText, crlf]
        omega
      have begins : headerText (field.text :: trailers.map HeaderField.text) =
          ch :: (tail ++ crlf ++ headerText (trailers.map HeaderField.text)) := by
        simp [shape]
      rw [List.append_nil] at ends
      rw [footerText, List.map_cons]
      rw [begins] at ends long ⊢
      rw [findHeaderEnd_crlf notCr, ends]
      simp only [Option.map_some, List.length_append, crlf, List.length_cons,
        List.length_nil] at long ⊢
      congr 1
      omega

/-- A buffer has the end of the footer that it begins only with the whole footer. -/
theorem findHeaderEnd_begins {buf future : List UInt8} {trailers : List HeaderField}
    (whole : buf ++ future = footerText trailers) :
    (HttpClient.findHeaderEnd buf = none ∧ future ≠ []) ∨
      (HttpClient.findHeaderEnd buf = some (buf.length - 4) ∧ 4 ≤ buf.length ∧ future = []) := by
  have inWhole := findHeaderEnd_footerText trailers
  have long := length_footerText trailers
  rw [← whole] at inWhole long
  cases found : HttpClient.findHeaderEnd buf with
  | none =>
      refine .inl ⟨rfl, ?_⟩
      rintro rfl
      rw [List.append_nil, found] at inWhole
      cases inWhole
  | some pos =>
      have same : pos = (buf ++ future).length - 4 :=
        Option.some.inj ((findHeaderEnd_append found future).symm.trans inWhole)
      have inside := findHeaderEnd_inside found
      rw [List.length_append] at same long
      have ended : future = [] := List.length_eq_zero_iff.mp (by omega)
      subst ended
      exact .inr ⟨by simp [same], by omega, rfl⟩

/-! ## One pass -/

/-- What a chunk still has to see, by its state. -/
inductive Expects : HttpChunk → List UInt8 → Prop
  | header {chunk : HttpChunk} (body : ChunkedBody) (state : chunk.state = .chunkHeader)
      (unsent : chunk.sentChunk = 0) : Expects chunk body.text
  | content {chunk : HttpChunk} (data : List UInt8) (body : ChunkedBody)
      (state : chunk.state = .chunkContent) (nonempty : data ≠ [])
      (count : chunk.sentChunk + data.length = chunk.chunkLen)
      (bounded : chunk.chunkLen < 2 ^ 32) : Expects chunk (data ++ body.text)
  | footer {chunk : HttpChunk} (trailers : List HeaderField)
      (state : chunk.state = .chunkFooter) : Expects chunk (footerText trailers)

theorem Expects.ne_nil {chunk : HttpChunk} {text : List UInt8} (expects : Expects chunk text) :
    text ≠ [] := by
  cases expects with
  | header body => simp [ChunkedBody.text, headerText, crlf]
  | content data body state nonempty => simp [nonempty]
  | footer trailers => simp [footerText, crlf]

/-- What a pass does that has the buffer of `relay`, where the body goes on with
`future`. -/
structure Passed (relay next : ChunkRelay) (result : Option Bool) (future : List UInt8) :
    Prop where
  kept : next.sent.flatten ++ next.buf = relay.sent.flatten ++ relay.buf
  expects : result ≠ some false → Expects next.chunk (next.buf ++ future)
  shorter : result = none → next.buf.length < relay.buf.length
  waits : result = some true → future ≠ []
  ended : result = some false → future = [] ∧ next.buf = []

namespace ChunkRelay

variable {sendFails : Nat → Bool} (sends : ∀ call, sendFails call = false)

include sends

theorem clientSend_eq (data : List UInt8) (relay : ChunkRelay) :
    relay.clientSend sendFails data = ({ relay with sent := relay.sent ++ [data] }, true) := by
  simp [clientSend, sends]

theorem sendData_passed {relay : ChunkRelay} {data future : List UInt8} {body : ChunkedBody}
    (state : relay.chunk.state = .chunkContent) (nonempty : data ≠ [])
    (count : relay.chunk.sentChunk + data.length = relay.chunk.chunkLen)
    (bounded : relay.chunk.chunkLen < 2 ^ 32)
    (whole : relay.buf ++ future = data ++ body.text) (buffered : relay.buf ≠ []) :
    (relay.sendData sendFails).2 = true ∧
      Passed relay (relay.sendData sendFails).1 none future := by
  have moreData := List.length_pos_iff.mpr nonempty
  have moreBuf := List.length_pos_iff.mpr buffered
  have left : (relay.chunk.chunkLen + 2 ^ 32 - relay.chunk.sentChunk) % 2 ^ 32 =
      data.length := by
    omega
  simp only [sendData, left, clientSend_eq sends, if_true, true_and]
  refine ⟨by simp, fun _ => ?_, fun _ => ?_, by simp, by simp⟩
  · by_cases all : data.length ≤ relay.buf.length
    · have sent : (relay.chunk.sentChunk + min relay.buf.length data.length) % 2 ^ 32 =
          relay.chunk.chunkLen := by
        rw [Nat.min_eq_right all, count, Nat.mod_eq_of_lt bounded]
      obtain ⟨more, shape⟩ : data <+: relay.buf :=
        List.prefix_of_prefix_length_le ⟨body.text, whole.symm⟩
          (List.prefix_append relay.buf future) all
      have rest : more ++ future = body.text := by
        rw [← shape, List.append_assoc] at whole
        exact List.append_cancel_left whole
      rw [if_pos sent, Nat.min_eq_right all]
      show Expects HttpChunk.start (relay.buf.drop data.length ++ future)
      rw [← shape, List.drop_left, rest]
      exact .header body rfl rfl
    · have less : relay.buf.length < data.length := Nat.lt_of_not_le all
      have sent : (relay.chunk.sentChunk + min relay.buf.length data.length) % 2 ^ 32 =
          relay.chunk.sentChunk + relay.buf.length := by
        rw [Nat.min_eq_left less.le, Nat.mod_eq_of_lt (by omega)]
      obtain ⟨more, shape⟩ : relay.buf <+: data :=
        List.prefix_of_prefix_length_le ⟨future, whole⟩
          (List.prefix_append data body.text) less.le
      have rest : future = more ++ body.text := by
        rw [← shape, List.append_assoc] at whole
        exact List.append_cancel_left whole
      have length := congrArg List.length shape
      rw [List.length_append] at length
      rw [if_neg (by omega), Nat.min_eq_left less.le]
      show Expects _ (relay.buf.drop relay.buf.length ++ future)
      rw [List.drop_length, List.nil_append, rest]
      refine .content more body state ?_ ?_ bounded
      · rintro rfl
        simp at length
        omega
      · show (relay.chunk.sentChunk + relay.buf.length) % 2 ^ 32 + more.length =
          relay.chunk.chunkLen
        omega
  · show (relay.buf.drop (min relay.buf.length data.length)).length < relay.buf.length
    rw [List.length_drop]
    omega

theorem sendFooter_passed {relay : ChunkRelay} {trailers : List HeaderField}
    {future : List UInt8} (state : relay.chunk.state = .chunkFooter)
    (whole : relay.buf ++ future = footerText trailers) :
    Passed relay (relay.sendFooter sendFails).1 (some (relay.sendFooter sendFails).2) future := by
  rcases findHeaderEnd_begins whole with ⟨missing, more⟩ | ⟨found, long, ended⟩
  · rw [sendFooter, missing]
    exact ⟨rfl, fun _ => whole ▸ .footer trailers state, by simp, fun _ => more, by simp⟩
  · have all : relay.buf.length - 4 + 4 = relay.buf.length := by omega
    simp only [sendFooter, found, clientSend_eq sends, if_true, all]
    exact ⟨by simp, fun going => absurd rfl going, by simp, by simp, fun _ => ⟨ended, by simp⟩⟩

omit sends in
/-- What a pass does where it first sends the start of the buffer. -/
theorem passed_after {relay mid next : ChunkRelay} {result : Option Bool} {future : List UInt8}
    (kept : mid.sent.flatten ++ mid.buf = relay.sent.flatten ++ relay.buf)
    (shorter : mid.buf.length ≤ relay.buf.length) (passed : Passed mid next result future) :
    Passed relay next result future :=
  { kept := passed.kept.trans kept
    expects := passed.expects
    shorter := fun going => Nat.lt_of_lt_of_le (passed.shorter going) shorter
    waits := passed.waits
    ended := passed.ended }

/-- The relay behind the line of a size. -/
def opened (line : SizeLine) (later : List UInt8) (relay : ChunkRelay) : ChunkRelay :=
  { chunk :=
      { chunkLen := line.size + 2
        sentChunk := relay.chunk.sentChunk
        state := .chunkContent }
    buf := later
    sent := relay.sent ++ [line.text ++ crlf] }

/-- The relay behind the last size, whose line end belongs to the footer. -/
def closing (line : SizeLine) (later : List UInt8) (relay : ChunkRelay) : ChunkRelay :=
  { chunk :=
      { chunkLen := 0
        sentChunk := relay.chunk.sentChunk
        state := .chunkFooter }
    buf := crlf ++ later
    sent := relay.sent ++ [line.text] }

omit sends in
theorem take_line (line : SizeLine) (rest : List UInt8) :
    (line.text ++ rest).take (min line.text.length 31) = line.text := by
  have short : line.text.length ≤ 31 := line.short
  rw [Nat.min_eq_left short, List.take_left]

theorem sendHeader_chunk {relay : ChunkRelay} {line : SizeLine} {later : List UInt8}
    (shape : relay.buf = line.text ++ crlf ++ later) (sized : 0 < line.size)
    (bounded : line.size + 2 < 2 ^ 32) :
    relay.sendHeader sendFails =
      if later = [] then (relay.opened line later, none)
      else
        (((relay.opened line later).sendData sendFails).1,
          if ((relay.opened line later).sendData sendFails).2 then none else Option.some false) := by
  have found : findCrlf relay.buf = some line.text.length := by
    rw [shape, findCrlf_text line.plain_text]
  have taken : relay.buf.take (min line.text.length 31) = line.text := by
    rw [shape, List.append_assoc, take_line]
  have scanned := line.scanHex_text (by omega)
  have sent : relay.buf.take (line.text.length + 2) = line.text ++ crlf := by
    rw [shape]
    exact List.take_left' (by simp [crlf])
  have left : relay.buf.drop (line.text.length + 2) = later := by
    rw [shape]
    exact List.drop_left' (by simp [crlf])
  simp only [sendHeader, found, taken, scanned, if_pos sized, clientSend_eq sends, if_true,
    sent, left, Nat.mod_eq_of_lt bounded, opened]
  rfl

theorem sendHeader_last {relay : ChunkRelay} {line : SizeLine} {later : List UInt8}
    (shape : relay.buf = line.text ++ crlf ++ later) (isLast : line.size = 0) :
    relay.sendHeader sendFails =
      (((relay.closing line later).sendFooter sendFails).1,
        some ((relay.closing line later).sendFooter sendFails).2) := by
  have found : findCrlf relay.buf = some line.text.length := by
    rw [shape, findCrlf_text line.plain_text]
  have taken : relay.buf.take (min line.text.length 31) = line.text := by
    rw [shape, List.append_assoc, take_line]
  have scanned := line.scanHex_text (by rw [isLast]; decide)
  have sent : relay.buf.take line.text.length = line.text := by
    rw [shape, List.append_assoc, List.take_left]
  have left : relay.buf.drop line.text.length = crlf ++ later := by
    rw [shape, List.append_assoc, List.drop_left]
  simp only [sendHeader, found, taken, scanned, isLast, Nat.lt_irrefl, if_false,
    clientSend_eq sends, if_true, sent, left, closing]

theorem sendHeader_passed {relay : ChunkRelay} {future : List UInt8} {body : ChunkedBody}
    (state : relay.chunk.state = .chunkHeader) (unsent : relay.chunk.sentChunk = 0)
    (whole : relay.buf ++ future = body.text) :
    Passed relay (relay.sendHeader sendFails).1 (relay.sendHeader sendFails).2 future := by
  have waiting (missing : findCrlf relay.buf = none) (more : future ≠ []) :
      Passed relay (relay.sendHeader sendFails).1 (relay.sendHeader sendFails).2 future := by
    rw [sendHeader, missing]
    exact ⟨rfl, fun _ => whole ▸ .header body state unsent, by simp, fun _ => more, by simp⟩
  obtain ⟨chunks, last, isLast, trailers⟩ := body
  cases chunks with
  | nil =>
      have split : relay.buf ++ future =
          last.text ++ crlf ++ headerText (trailers.map HeaderField.text) := by
        simpa [ChunkedBody.text] using whole
      rcases findCrlf_begins last.plain_text split with ⟨missing, more⟩ | ⟨-, later, shape, rest⟩
      · exact waiting missing more
      · have footer : (relay.closing last later).buf ++ future = footerText trailers := by
          rw [closing, List.append_assoc, rest, footerText]
        rw [sendHeader_last sends shape isLast]
        refine passed_after ?_ ?_ (sendFooter_passed sends rfl footer)
        · simp [closing, shape]
        · simp [closing, shape]
  | cons chunk chunks =>
      have split : relay.buf ++ future = chunk.line.text ++ crlf ++
          (chunk.data ++ crlf ++ ChunkedBody.text ⟨chunks, last, isLast, trailers⟩) := by
        simpa [ChunkedBody.text, Chunk.text] using whole
      rcases findCrlf_begins chunk.line.plain_text split with
        ⟨missing, more⟩ | ⟨-, later, shape, rest⟩
      · exact waiting missing more
      · have moreData := List.length_pos_iff.mpr chunk.nonempty
        have bounded : chunk.line.size + 2 < 2 ^ 32 := chunk.size ▸ chunk.bounded
        have nonempty : chunk.data ++ crlf ≠ [] := by simp [chunk.nonempty]
        have count : (relay.opened chunk.line later).chunk.sentChunk +
            (chunk.data ++ crlf).length = (relay.opened chunk.line later).chunk.chunkLen := by
          simp [opened, unsent, chunk.size, crlf]
        have kept : (relay.opened chunk.line later).sent.flatten ++
            (relay.opened chunk.line later).buf = relay.sent.flatten ++ relay.buf := by
          simp [opened, shape]
        rw [sendHeader_chunk sends shape (by rw [chunk.size]; exact moreData) bounded]
        by_cases emptied : later = []
        · rw [if_pos emptied]
          refine ⟨kept, fun _ => ?_, fun _ => ?_, by simp, by simp⟩
          · show Expects _ (later ++ future)
            rw [rest]
            exact .content _ _ rfl nonempty count bounded
          · simp [opened, emptied, shape, crlf]
        · obtain ⟨sent, passed⟩ := sendData_passed sends rfl nonempty count bounded rest emptied
          rw [if_neg emptied, sent, if_pos rfl]
          refine passed_after kept ?_ passed
          show later.length ≤ relay.buf.length
          rw [shape, List.length_append]
          exact Nat.le_add_left _ _

theorem pass_passed {relay : ChunkRelay} {future : List UInt8} (buffered : relay.buf ≠ [])
    (expects : Expects relay.chunk (relay.buf ++ future)) :
    Passed relay (relay.pass sendFails).1 (relay.pass sendFails).2 future := by
  generalize whole : relay.buf ++ future = text at expects
  cases expects with
  | header body state unsent =>
      rw [pass, state]
      exact sendHeader_passed sends state unsent whole
  | content data body state nonempty count bounded =>
      obtain ⟨sent, passed⟩ :=
        sendData_passed sends state nonempty count bounded whole buffered
      simp only [pass, state, sent, if_true]
      exact passed
  | footer trailers state =>
      simp only [pass, state]
      exact sendFooter_passed sends state whole

end ChunkRelay

/-! ## The calls for a body -/

/-- What a call does that finds the buffer of `relay`, where the body goes on with
`future`. -/
structure Answered (relay next : ChunkRelay) (result : Bool) (future : List UInt8) : Prop where
  kept : next.sent.flatten ++ next.buf = relay.sent.flatten ++ relay.buf
  waits : result = true → future ≠ [] ∧ Expects next.chunk (next.buf ++ future)
  ended : result = false → future = [] ∧ next.buf = []

theorem answered_waiting {relay : ChunkRelay} {future : List UInt8} (emptied : relay.buf = [])
    (expects : Expects relay.chunk (relay.buf ++ future)) : Answered relay relay true future := by
  refine ⟨rfl, fun _ => ⟨?_, expects⟩, by simp⟩
  rintro rfl
  exact expects.ne_nil (by simp [emptied])

theorem answered_result {relay next : ChunkRelay} {result : Bool} {future : List UInt8}
    (answered : Answered relay next result future) : result = decide (future ≠ []) := by
  cases result with
  | true => simp [(answered.waits rfl).1]
  | false => simp [(answered.ended rfl).1]

namespace ChunkRelay

variable {sendFails : Nat → Bool} (sends : ∀ call, sendFails call = false)

include sends

/-- A pass for each octet of the buffer is enough. -/
theorem processLoop_answered {relay : ChunkRelay} {future : List UInt8} (passes : Nat)
    (enough : relay.buf.length ≤ passes)
    (expects : Expects relay.chunk (relay.buf ++ future)) :
    Answered relay (relay.processLoop sendFails passes).1 (relay.processLoop sendFails passes).2
      future := by
  induction passes generalizing relay with
  | zero =>
      have emptied := List.length_eq_zero_iff.mp (Nat.le_zero.mp enough)
      exact answered_waiting emptied expects
  | succ passes ih =>
      rw [processLoop]
      by_cases emptied : relay.buf = []
      · rw [if_pos emptied]
        exact answered_waiting emptied expects
      · have passed := pass_passed sends emptied expects
        rw [if_neg emptied]
        generalize relay.pass sendFails = outcome at passed
        obtain ⟨next, result⟩ := outcome
        cases result with
        | none =>
            have shorter : next.buf.length < relay.buf.length := passed.shorter rfl
            have fewer : next.buf.length ≤ passes := by omega
            have answered := ih fewer (passed.expects (by simp))
            exact ⟨answered.kept.trans passed.kept, answered.waits, answered.ended⟩
        | some result =>
            refine ⟨passed.kept, fun (going : result = true) => ?_, fun ends => ?_⟩
            · exact ⟨passed.waits (congrArg some going), passed.expects (by simp [going])⟩
            · exact passed.ended (congrArg some ends)

theorem processing_answered {relay : ChunkRelay} {segment future : List UInt8}
    (expects : Expects relay.chunk (relay.buf ++ (segment ++ future))) :
    Answered { relay with buf := relay.buf ++ segment } (relay.processing sendFails segment).1
      (relay.processing sendFails segment).2 future :=
  processLoop_answered sends _ (Nat.le_succ _) (by simpa using expects)

/-- The calls before the last octet keep what has come, in order, and wait. -/
theorem processSegments_answered {relay : ChunkRelay} {last : List UInt8} (nonempty : last ≠ [])
    (init : List (List UInt8))
    (expects : Expects relay.chunk (relay.buf ++ (init ++ [last]).flatten)) :
    (relay.processSegments sendFails (init ++ [last])).1.sent.flatten =
        relay.sent.flatten ++ relay.buf ++ (init ++ [last]).flatten ∧
      (relay.processSegments sendFails (init ++ [last])).2 =
        List.replicate init.length true ++ [false] := by
  induction init generalizing relay with
  | nil =>
      have answered := @processing_answered sendFails sends relay last [] (by simpa using expects)
      have result := answered_result answered
      have kept := answered.kept
      rw [(answered.ended result).2, List.append_nil] at kept
      simp only [List.nil_append, processSegments, result, kept]
      simp
  | cons segment init ih =>
      have future : (init ++ [last]).flatten ≠ [] := by simp [nonempty]
      have answered := @processing_answered sendFails sends relay segment (init ++ [last]).flatten
        (by simpa using expects)
      have result := answered_result answered
      rw [decide_eq_true future] at result
      obtain ⟨sent, results⟩ := ih (answered.waits result).2
      simp only [List.cons_append, processSegments, result, sent, results]
      rw [answered.kept]
      simp [List.replicate_succ]

end ChunkRelay

/-- Whatever the segments of a chunked body, `http_chunk` passes the body on as it is,
waits before its last octet, and ends with it. -/
theorem relays_chunkedBody {sendFails : Nat → Bool} (sends : ∀ call, sendFails call = false)
    (body : ChunkedBody) (init : List (List UInt8)) (last : List UInt8) (nonempty : last ≠ [])
    (segmented : (init ++ [last]).flatten = body.text) :
    (ChunkRelay.start.processSegments sendFails (init ++ [last])).1.sent.flatten = body.text ∧
      (ChunkRelay.start.processSegments sendFails (init ++ [last])).2 =
        List.replicate init.length true ++ [false] := by
  have expects : Expects ChunkRelay.start.chunk
      (ChunkRelay.start.buf ++ (init ++ [last]).flatten) := by
    rw [segmented]
    exact .header body rfl rfl
  obtain ⟨sent, results⟩ := ChunkRelay.processSegments_answered sends nonempty init expects
  refine ⟨?_, results⟩
  rw [sent, segmented]
  rfl

theorem trialExtensions : ∀ ch ∈ (octets ";a").head?, ch ∈ octets "; \t" := by
  intro ch member
  obtain rfl : 0x3b = ch := Option.some.inj member
  decide

theorem trialNoExtensions : ∀ ch ∈ ([] : List UInt8).head?, ch ∈ octets "; \t" := by
  intro ch member
  cases member

/-- `5;a` and its data, and the last size, in pieces that end at a carriage return, in
the data and in the last line ends. -/
def trialBody : ChunkedBody :=
  { chunks :=
      [{ line :=
          { digits := octets "5"
            extensions := octets ";a"
            nonempty := by decide
            isDigits := List.all_eq_true.mp (by decide)
            begins := trialExtensions
            plain := by decide
            short := by decide }
         data := octets "hello"
         size := by decide
         nonempty := by decide
         bounded := by decide }]
    last :=
      { digits := octets "0"
        extensions := []
        nonempty := by decide
        isDigits := List.all_eq_true.mp (by decide)
        begins := trialNoExtensions
        plain := by decide
        short := by decide }
    isLast := by decide
    trailers := [] }

theorem relays_chunkedBody_trial :
    let segments := [octets "5;a\r", octets "\nhel", octets "lo\r\n0\r\n\r"] ++ [octets "\n"]
    (ChunkRelay.start.processSegments (fun _ => false) segments).1.sent.flatten =
        trialBody.text ∧
      (ChunkRelay.start.processSegments (fun _ => false) segments).2 =
        List.replicate 3 true ++ [false] :=
  relays_chunkedBody (fun _ => rfl) trialBody
    [octets "5;a\r", octets "\nhel", octets "lo\r\n0\r\n\r"] (octets "\n") (by decide) (by decide)

end Tunneling

end HeapHttpd
