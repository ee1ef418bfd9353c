import HeapHttpd.Library.Lines
import HeapHttpd.Tunneling.HttpClient
import Mathlib.Data.List.Infix

/-!
# Reading the header of a response

Well formed response headers, and what `http_client::parse` makes of one: the lines
are examined in their order, each is passed on, and the blank line decides about the
cache.
-/

namespace HeapHttpd

namespace Tunneling

open General
open Http1 (normalise strcutFrom contains atoll)

/-- The octets of a token. -/
def isTchar (ch : UInt8) : Bool :=
  (0x30 ≤ ch && ch ≤ 0x39) || (0x41 ≤ ch && ch ≤ 0x5a) || (0x61 ≤ ch && ch ≤ 0x7a) ||
    decide (ch ∈ octets "!#$%&'*+-.^_|~") || ch = 0x60

/-- No NUL and no line end. -/
def Plain (text : List UInt8) : Prop :=
  ∀ ch ∈ text, ch ≠ 0 ∧ ch ≠ 0x0d ∧ ch ≠ 0x0a

instance (text : List UInt8) : Decidable (Plain text) :=
  List.decidableBAll (fun ch => ch ≠ 0 ∧ ch ≠ 0x0d ∧ ch ≠ 0x0a) text

/-- A header field. -/
structure HeaderField where
  name : List UInt8
  value : List UInt8
  nameNonempty : name ≠ []
  nameToken : ∀ ch ∈ name, isTchar ch = true
  valuePlain : Plain value

/-- A status line. -/
structure StatusLine where
  minor : Bool
  code : List UInt8
  reason : List UInt8
  codeDigits : code.length = 3 ∧ ∀ ch ∈ code, 0x30 ≤ ch ∧ ch ≤ 0x39
  reasonPlain : Plain reason

/-- The header of a response. -/
structure ResponseHeader where
  status : StatusLine
  fields : List HeaderField

def HeaderField.text (header : HeaderField) : List UInt8 :=
  header.name ++ octets ":" ++ header.value

def StatusLine.text (status : StatusLine) : List UInt8 :=
  octets (if status.minor then "HTTP/1.1 " else "HTTP/1.0 ") ++ status.code ++ octets " " ++
    status.reason

def ResponseHeader.lines (header : ResponseHeader) : List (List UInt8) :=
  header.status.text :: header.fields.map HeaderField.text

/-- Lines as they are sent, with the blank line behind them. -/
def headerText (lines : List (List UInt8)) : List UInt8 :=
  lines.flatMap (· ++ crlf) ++ crlf

/-- A line as the loop of `parse` looks at it. -/
def seen (line : List UInt8) : List UInt8 :=
  normalise true (trimmed line)

/-- A line that `parse` takes for a line of the header. -/
def IsLine (line : List UInt8) : Prop :=
  Plain line ∧ seen line ≠ []

/-- The branches of `parseField`. -/
inductive LineKind
  | status
  | contentLength
  | transferEncoding
  | cacheControl
  | etag
  | server
  | allow
  | encoding
  | language
  | lastModified
  | expires
  | contentType
  | via
  | inert
  | other
  deriving DecidableEq

/-- The branch that a line takes. -/
def lineKind (strtext : List UInt8) : LineKind :=
  if isField "HTTP/1.0 " strtext || isField "HTTP/1.1 " strtext then .status
  else if isField "Content-Length:" strtext then .contentLength
  else if isField "Transfer-Encoding:" strtext then .transferEncoding
  else if isField "Cache-Control:" strtext then .cacheControl
  else if isField "ETag:" strtext then .etag
  else if isField "Server:" strtext then .server
  else if isField "Allow:" strtext then .allow
  else if isField "Content-Encoding:" strtext then .encoding
  else if isField "Content-Language:" strtext then .language
  else if isField "Last-Modified:" strtext then .lastModified
  else if isField "Expires:" strtext then .expires
  else if isField "Content-Type:" strtext then .contentType
  else if isField "Via:" strtext then .via
  else if isField "Connection:" strtext || isField "Accept-Ranges:" strtext ||
      isField "Date:" strtext then .inert
  else .other

/-- The content length that a line gives. -/
def declaredLength (setting : Setting) (strtext : List UInt8) : Int :=
  if setting.isHead then 0 else atoll (fieldValue "Content-Length:" strtext)

namespace HeaderInfo

/-- What a branch of `parseField` does. -/
def readLine (setting : Setting) (strtext : List UInt8) (info : HeaderInfo) :
    LineKind → HeaderInfo
  | .status =>
      if contains (strtext.drop 8) (octets " 200 OK") then { info with is200Ok := true } else info
  | .contentLength =>
      { info with
        contentLength := declaredLength setting strtext
        hasContentLength :=
          info.hasContentLength || decide (0 ≤ declaredLength setting strtext) }
  | .transferEncoding =>
      if contains (fieldValue "Transfer-Encoding:" strtext) (octets "chunked") then
        { info with isChunked := true, useCache := false }
      else info
  | .cacheControl => info.parseCacheControl setting strtext
  | .etag =>
      { info with fields.etag := strtrimSet (octets "\" ") (strcutFrom (octets "ETag:") strtext) }
  | .server => { info with fields.server := fieldValue "Server:" strtext }
  | .allow => { info with fields.allow := fieldValue "Allow:" strtext }
  | .encoding => { info with fields.encoding := fieldValue "Content-Encoding:" strtext }
  | .language => { info with fields.language := fieldValue "Content-Language:" strtext }
  | .lastModified => { info with fields.lastModified := fieldValue "Last-Modified:" strtext }
  | .expires => info.parseExpires setting strtext
  | .contentType => { info with fields.contentType := fieldValue "Content-Type:" strtext }
  | .via => { info with fields.via := fieldValue "Server:" strtext, hasVia := true }
  | .inert => info
  | .other => { info with outOfCacheHeaderScope := true }

theorem parseField_eq (setting : Setting) (strtext : List UInt8) (info : HeaderInfo) :
    info.parseField setting strtext = info.readLine setting strtext (lineKind strtext) := by
  rw [lineKind]
  repeat rw [apply_ite (info.readLine setting strtext)]
  rfl

end HeaderInfo
namespace HttpClient

/-- What one pass of the loop of `parse` does with a line that is not blank. -/
def feedLine (setting : Setting) (strtext : List UInt8) (client : HttpClient) :
    HttpClient × Bool :=
  let client : HttpClient :=
    { client with
      info := client.info.parseField setting strtext
      header := client.header ++ relayedLine setting strtext ++ crlf }
  if 4096 < client.header.length then
    if setting.sendFails client.sent.length then
      ({ client with sent := client.sent ++ [client.header] }, false)
    else ({ client with sent := client.sent ++ [client.header], header := [] }, true)
  else (client, true)

/-- The loop of `parse` over lines that are cut already. -/
def feed (setting : Setting) : List (List UInt8) → HttpClient → HttpClient × Bool
  | [], client => (client, true)
  | strtext :: rest, client =>
      let fed := client.feedLine setting strtext
      if fed.2 then feed setting rest fed.1 else fed

end HttpClient

theorem Plain.nulFree {text : List UInt8} (plain : Plain text) : 0 ∉ text :=
  fun member => (plain 0 member).1 rfl

theorem trimmed_append_crlf (text : List UInt8) : trimmed (text ++ crlf) = trimmed text := by
  have split : text ++ crlf = (text ++ [0x0d]) ++ [0x0a] := by simp [crlf]
  rw [split, trimmed_append_blank (by decide), trimmed_append_cr]

/-- Behind a line, its trimmed form is all that is looked at. -/
theorem normalise_strtrim {line : List UInt8} (plain : Plain line) :
    normalise true (strtrim (line ++ crlf)) = seen line := by
  have nulFree : 0 ∉ line ++ crlf := by
    simp [crlf, plain.nulFree]
  rw [strtrim_eq_trimmed nulFree, trimmed_append_crlf, seen]

theorem split_line (line rest : List UInt8) :
    line ++ crlf ++ rest = (line ++ [0x0d]) ++ 0x0a :: rest := by
  simp [crlf]

theorem lineFeedFree {line : List UInt8} (plain : Plain line) : 0x0a ∉ line ++ [0x0d] := by
  intro member
  rcases List.mem_append.mp member with inLine | isCr
  · exact (plain _ inLine).2.2 rfl
  · exact absurd (List.mem_singleton.mp isCr) (by decide)

/-- The first line of a text. -/
theorem takeWhile_line {line : List UInt8} (plain : Plain line) (rest : List UInt8) :
    (line ++ crlf ++ rest).takeWhile (· ≠ 0x0a) ++ [0x0a] = line ++ crlf := by
  rw [split_line, Lines.takeWhile_until (lineFeedFree plain), List.append_assoc]
  rfl

theorem tail_dropWhile_line {line : List UInt8} (plain : Plain line) (rest : List UInt8) :
    ((line ++ crlf ++ rest).dropWhile (· ≠ 0x0a)).tail = rest := by
  rw [split_line, Lines.dropWhile_until (lineFeedFree plain), List.tail_cons]

namespace HttpClient

/-- What is left of the text does not matter to a line that is cut. -/
theorem feedLine_lineText (setting : Setting) (strtext : List UInt8) (client : HttpClient)
    (lineText : List UInt8) :
    feedLine setting strtext { client with lineText } =
      ({ (feedLine setting strtext client).1 with lineText },
        (feedLine setting strtext client).2) := by
  simp only [feedLine]
  split
  · split <;> rfl
  · rfl

theorem feed_lineText (setting : Setting) (strtexts : List (List UInt8)) (client : HttpClient)
    (lineText : List UInt8) :
    feed setting strtexts { client with lineText } =
      ({ (feed setting strtexts client).1 with lineText }, (feed setting strtexts client).2) := by
  induction strtexts generalizing client with
  | nil => rfl
  | cons strtext rest ih =>
      simp only [feed, feedLine_lineText]
      split
      · exact ih _
      · rfl

/-- One pass of the loop over a line that is not blank. -/
theorem parseLoop_line (setting : Setting) {line : List UInt8} (isLine : IsLine line)
    (passes : Nat) (client : HttpClient) (rest : List UInt8)
    (text : client.lineText = line ++ crlf ++ rest) :
    client.parseLoop setting (passes + 1) =
      let fed := feedLine setting (seen line) { client with lineText := rest }
      if fed.2 then fed.1.parseLoop setting passes else fed := by
  have ended : 0x0a ∈ client.lineText := by
    rw [text]
    simp [crlf]
  have strtext : normalise true (strtrim (client.lineText.takeWhile (· ≠ 0x0a) ++ [0x0a])) =
      seen line := by
    rw [text, takeWhile_line isLine.1, normalise_strtrim isLine.1]
  have left : (client.lineText.dropWhile (· ≠ 0x0a)).tail = rest := by
    rw [text, tail_dropWhile_line isLine.1]
  simp only [parseLoop]
  rw [if_pos ended, strtext, if_neg isLine.2, left]
  simp only [feedLine, clientSend]
  by_cases long : 4096 < (client.header ++ relayedLine setting (seen line) ++ crlf).length
  · by_cases fails : setting.sendFails client.sent.length = true <;>
      simp only [if_pos long, fails, Bool.not_true, Bool.not_false, if_true] <;> simp
  · simp only [if_neg long, if_true]

/-- The pass of the loop over the blank line. -/
theorem parseLoop_blank (setting : Setting) (passes : Nat) (client : HttpClient)
    (rest : List UInt8) (text : client.lineText = crlf ++ rest) :
    client.parseLoop setting (passes + 1) =
      { client with lineText := rest }.endHeader setting := by
  simp only [parseLoop]
  rw [text]
  rfl

/-- The loop over the lines of a header. -/
theorem parseLoop_header (setting : Setting) {lines : List (List UInt8)}
    (isLines : ∀ line ∈ lines, IsLine line) {passes : Nat} (enough : lines.length < passes)
    (client : HttpClient) (rest : List UInt8)
    (text : client.lineText = headerText lines ++ rest) :
    ∃ left, client.parseLoop setting passes =
      let fed := client.feed setting (lines.map seen)
      if fed.2 then { fed.1 with lineText := rest }.endHeader setting
      else ({ fed.1 with lineText := left }, false) := by
  induction lines generalizing passes client with
  | nil =>
      obtain ⟨passes, rfl⟩ : ∃ less, passes = less + 1 := ⟨passes - 1, by simp at enough; omega⟩
      exact ⟨[], parseLoop_blank setting passes client rest text⟩
  | cons line lines ih =>
      obtain ⟨passes, rfl⟩ : ∃ less, passes = less + 1 := ⟨passes - 1, by simp at enough; omega⟩
      have isLine := isLines line List.mem_cons_self
      have text' : client.lineText = line ++ crlf ++ (headerText lines ++ rest) := by
        rw [text]
        simp [headerText]
      rw [parseLoop_line setting isLine passes client _ text']
      simp only [List.map_cons, feed, feedLine_lineText]
      cases ok : (feedLine setting (seen line) client).2 with
      | false => exact ⟨headerText lines ++ rest, by simp [ok]⟩
      | true =>
          obtain ⟨left, later⟩ := ih (fun line member => isLines line (List.mem_cons_of_mem _ member))
            (show lines.length < passes by simp at enough; omega)
            { (feedLine setting (seen line) client).1 with lineText := headerText lines ++ rest } rfl
          refine ⟨left, ?_⟩
          rw [if_pos rfl, later]
          simp only [feed_lineText]
          rfl

/-- What the lines of a header leave of a client, if nothing fails. -/
structure Fed (setting : Setting) (strtexts : List (List UInt8)) (client fed : HttpClient) :
    Prop where
  info : fed.info = strtexts.foldl (fun info strtext => info.parseField setting strtext) client.info
  relayed : fed.sent.flatten ++ fed.header = client.sent.flatten ++ client.header ++
    strtexts.flatMap fun strtext => relayedLine setting strtext ++ crlf

/-- What the lines of a header never touch. -/
structure Untouched (client fed : HttpClient) : Prop where
  cacheCompleted : fed.cacheCompleted = client.cacheCompleted
  state : fed.state = client.state
  buf : fed.buf = client.buf
  httpTunnelingUrl : fed.httpTunnelingUrl = client.httpTunnelingUrl
  cacheBuf : fed.cacheBuf = client.cacheBuf
  cached : fed.cached = client.cached
  chunks : fed.chunks = client.chunks

theorem feedLine_untouched (setting : Setting) (strtext : List UInt8) (client : HttpClient) :
    Untouched client (client.feedLine setting strtext).1 := by
  simp only [feedLine]
  split
  · split <;> constructor <;> rfl
  · constructor <;> rfl

theorem Untouched.trans {first second third : HttpClient} (before : Untouched first second)
    (behind : Untouched second third) : Untouched first third where
  cacheCompleted := behind.cacheCompleted.trans before.cacheCompleted
  state := behind.state.trans before.state
  buf := behind.buf.trans before.buf
  httpTunnelingUrl := behind.httpTunnelingUrl.trans before.httpTunnelingUrl
  cacheBuf := behind.cacheBuf.trans before.cacheBuf
  cached := behind.cached.trans before.cached
  chunks := behind.chunks.trans before.chunks

theorem feed_untouched (setting : Setting) (strtexts : List (List UInt8)) (client : HttpClient) :
    Untouched client (client.feed setting strtexts).1 := by
  induction strtexts generalizing client with
  | nil => constructor <;> rfl
  | cons strtext rest ih =>
      have first := feedLine_untouched setting strtext client
      simp only [feed]
      split
      · exact first.trans (ih _)
      · exact first

theorem feed_fed {setting : Setting} {strtexts : List (List UInt8)} {client : HttpClient}
    (ok : (client.feed setting strtexts).2 = true) :
    Fed setting strtexts client (client.feed setting strtexts).1 := by
  induction strtexts generalizing client with
  | nil => exact ⟨rfl, by simp [feed]⟩
  | cons strtext rest ih =>
      simp only [feed] at ok ⊢
      split at ok
      · rename_i first
        rw [if_pos first]
        have later := ih ok
        have info : (client.feedLine setting strtext).1.info =
            client.info.parseField setting strtext := by
          simp only [feedLine]
          split
          · split <;> rfl
          · rfl
        have relayed : (client.feedLine setting strtext).1.sent.flatten ++
            (client.feedLine setting strtext).1.header =
            client.sent.flatten ++ client.header ++ relayedLine setting strtext ++ crlf := by
          simp only [feedLine] at first ⊢
          split at first
          · rename_i long
            rw [if_pos long]
            split at first
            · cases first
            · rename_i sends
              rw [if_neg sends]
              simp
          · rename_i short
            rw [if_neg short]
            simp
        refine ⟨by rw [later.info, info]; rfl, ?_⟩
        rw [later.relayed, relayed]
        simp
      · rename_i failed
        exact absurd ok failed

/-- If no call of `client_send` fails, every line is passed on. -/
theorem feed_ok {setting : Setting} (sends : ∀ count, setting.sendFails count = false)
    (strtexts : List (List UInt8)) (client : HttpClient) :
    (client.feed setting strtexts).2 = true := by
  induction strtexts generalizing client with
  | nil => rfl
  | cons strtext rest ih =>
      have first : (client.feedLine setting strtext).2 = true := by
        simp only [feedLine, sends]
        split <;> rfl
      simp only [feed]
      rw [if_pos first]
      exact ih _

end HttpClient

/-- The members behind the lines of a header. -/
def readHeader (setting : Setting) (lines : List (List UInt8)) : HeaderInfo :=
  (lines.map seen).foldl (fun info strtext => info.parseField setting strtext) .new

/-- The members behind the blank line: a line that cannot be cached settles the
decision. -/
def HeaderInfo.settled (info : HeaderInfo) : HeaderInfo :=
  if info.outOfCacheHeaderScope then { info with useCache := false } else info

/-- Whether the blank line admits a response to the cache. -/
def HeaderInfo.admits (setting : Setting) (info : HeaderInfo) : Bool :=
  setting.enableHttpTunnelingCache && info.settled.useCache && info.hasContentLength &&
    decide (info.contentLength ≤ setting.singleTunnelingCacheSize) &&
    decide (0 < info.contentLength)

/-- What is passed on in front of the blank line when no `Via` line has been. -/
def ownVia (setting : Setting) (info : HeaderInfo) : List UInt8 :=
  if info.hasVia then [] else octets "Via: " ++ viaEntry setting ++ crlf

/-- The header as it is passed on. -/
def relayedHeader (setting : Setting) (lines : List (List UInt8)) : List UInt8 :=
  (lines.map seen).flatMap (fun strtext => relayedLine setting strtext ++ crlf) ++
    ownVia setting (readHeader setting lines) ++ crlf

namespace HttpClient

/-- The client behind the blank line, and whether the header could be sent. -/
theorem endHeader_eq (setting : Setting) (client : HttpClient) :
    client.endHeader setting =
      ({ client with
          info := client.info.settled
          cacheBuf :=
            if client.info.admits setting then some (client.info.contentLength.toNat + 1)
            else client.cacheBuf
          cached := if client.info.admits setting then [] else client.cached
          header := client.header ++ ownVia setting client.info ++ crlf
          sent := client.sent ++ [client.header ++ ownVia setting client.info ++ crlf] },
        !setting.sendFails client.sent.length) := by
  have settledLength : client.info.settled.contentLength = client.info.contentLength := by
    unfold HeaderInfo.settled
    split <;> rfl
  have settledHas : client.info.settled.hasContentLength = client.info.hasContentLength := by
    unfold HeaderInfo.settled
    split <;> rfl
  have settledVia : client.info.settled.hasVia = client.info.hasVia := by
    unfold HeaderInfo.settled
    split <;> rfl
  have client' : (if client.info.outOfCacheHeaderScope then
      { client with info.useCache := false } else client) =
      { client with info := client.info.settled } := by
    unfold HeaderInfo.settled
    split <;> rfl
  simp only [endHeader]
  rw [client']
  simp only [settledLength, settledHas, ← HeaderInfo.admits.eq_1]
  by_cases admitted : client.info.admits setting = true <;>
    by_cases via : client.info.hasVia = true <;>
      simp [admitted, via, settledVia, ownVia, clientSend]

end HttpClient

theorem findHeaderEnd_inside {text : List UInt8} {pos : Nat}
    (found : HttpClient.findHeaderEnd text = some pos) : pos + 4 ≤ text.length := by
  induction text generalizing pos with
  | nil => cases found
  | cons ch rest ih =>
      simp only [HttpClient.findHeaderEnd] at found
      split at found
      · rename_i starts
        cases found
        exact (List.isPrefixOf_iff_prefix.mp starts).length_le
      · obtain ⟨before, inRest, rfl⟩ := Option.map_eq_some_iff.mp found
        have := ih inRest
        simp only [List.length_cons]
        omega

theorem findHeaderEnd_append {text : List UInt8} {pos : Nat}
    (found : HttpClient.findHeaderEnd text = some pos) (rest : List UInt8) :
    HttpClient.findHeaderEnd (text ++ rest) = some pos := by
  induction text generalizing pos with
  | nil => cases found
  | cons ch text ih =>
      simp only [HttpClient.findHeaderEnd] at found
      rw [List.cons_append, HttpClient.findHeaderEnd]
      split at found
      · rename_i starts
        have longer : (octets "\r\n\r\n").isPrefixOf (ch :: (text ++ rest)) = true := by
          have := List.isPrefixOf_iff_prefix.mp starts
          exact List.isPrefixOf_iff_prefix.mpr (this.trans (List.prefix_append (ch :: text) rest))
        rw [if_pos longer]
        exact found
      · rename_i starts
        obtain ⟨before, inRest, rfl⟩ := Option.map_eq_some_iff.mp found
        have long := findHeaderEnd_inside inRest
        have shorter : ¬ (octets "\r\n\r\n").isPrefixOf (ch :: (text ++ rest)) = true := by
          intro longer
          apply starts
          have begins := List.isPrefixOf_iff_prefix.mp longer
          rw [List.isPrefixOf_iff_prefix]
          exact List.prefix_of_prefix_length_le begins (List.prefix_append (ch :: text) rest)
            (by simp [octets]; omega)
        rw [if_neg shorter, ih inRest]
        rfl

theorem findHeaderEnd_plain {line : List UInt8} (plain : Plain line) (rest : List UInt8) :
    HttpClient.findHeaderEnd (line ++ rest) =
      (HttpClient.findHeaderEnd rest).map (· + line.length) := by
  induction line with
  | nil => simp
  | cons ch line ih =>
      have isPlain := plain ch List.mem_cons_self
      have starts : ¬ (octets "\r\n\r\n").isPrefixOf (ch :: (line ++ rest)) = true := by
        rw [List.isPrefixOf_iff_prefix]
        intro begins
        exact isPlain.2.1 (List.cons_prefix_cons.mp begins).1.symm
      rw [List.cons_append, HttpClient.findHeaderEnd, if_neg starts,
        ih fun ch member => plain ch (List.mem_cons_of_mem _ member), Option.map_map]
      rfl

theorem octets_crlfcrlf : octets "\r\n\r\n" = [0x0d, 0x0a, 0x0d, 0x0a] := by
  decide

/-- The end of a line that another line follows. -/
theorem findHeaderEnd_crlf {ch : UInt8} (notCr : ch ≠ 0x0d) (rest : List UInt8) :
    HttpClient.findHeaderEnd (crlf ++ ch :: rest) =
      (HttpClient.findHeaderEnd (ch :: rest)).map (· + 2) := by
  have first : ¬ (octets "\r\n\r\n").isPrefixOf (0x0d :: 0x0a :: ch :: rest) = true := by
    simp [octets_crlfcrlf, List.isPrefixOf, notCr.symm]
  have second : ¬ (octets "\r\n\r\n").isPrefixOf (0x0a :: ch :: rest) = true := by
    simp [octets_crlfcrlf, List.isPrefixOf]
  show HttpClient.findHeaderEnd (0x0d :: 0x0a :: ch :: rest) = _
  rw [HttpClient.findHeaderEnd, if_neg first, HttpClient.findHeaderEnd, if_neg second,
    Option.map_map]
  rfl

theorem findHeaderEnd_blank (rest : List UInt8) :
    HttpClient.findHeaderEnd (crlf ++ crlf ++ rest) = some 0 := by
  show HttpClient.findHeaderEnd (0x0d :: 0x0a :: 0x0d :: 0x0a :: rest) = _
  rw [HttpClient.findHeaderEnd, if_pos (by simp [octets_crlfcrlf, List.isPrefixOf])]

theorem IsLine.cons {line : List UInt8} (isLine : IsLine line) :
    ∃ ch rest, line = ch :: rest ∧ ch ≠ 0x0d := by
  cases line with
  | nil => exact absurd rfl isLine.2
  | cons ch rest => exact ⟨ch, rest, rfl, (isLine.1 ch List.mem_cons_self).2.1⟩

@[simp]
theorem headerText_cons (line : List UInt8) (lines : List (List UInt8)) :
    headerText (line :: lines) = line ++ crlf ++ headerText lines := by
  simp [headerText]

/-- The header of a response ends where its blank line does. -/
theorem findHeaderEnd_headerText {line : List UInt8} {lines : List (List UInt8)}
    (isLines : ∀ other ∈ line :: lines, IsLine other) (rest : List UInt8) :
    HttpClient.findHeaderEnd (headerText (line :: lines) ++ rest) =
      some ((headerText (line :: lines)).length - 4) := by
  have isLine := isLines line List.mem_cons_self
  induction lines generalizing line with
  | nil =>
      have split : headerText [line] ++ rest = line ++ (crlf ++ crlf ++ rest) := by
        simp [headerText]
      rw [split, findHeaderEnd_plain isLine.1, findHeaderEnd_blank]
      simp [headerText, crlf]
  | cons second lines ih =>
      have isSecond := isLines second (by simp)
      have later := @ih second
        (fun other member => isLines other (List.mem_cons_of_mem _ member)) isSecond
      obtain ⟨ch, tail, rfl, notCr⟩ := isSecond.cons
      have split : headerText (line :: (ch :: tail) :: lines) ++ rest =
          line ++ (crlf ++ ch :: (tail ++ crlf ++ headerText lines ++ rest)) := by
        simp
      have same : ch :: (tail ++ crlf ++ headerText lines ++ rest) =
          headerText ((ch :: tail) :: lines) ++ rest := by
        simp
      have long : 4 ≤ (headerText ((ch :: tail) :: lines)).length := by
        simp [crlf, headerText]
        omega
      rw [split, findHeaderEnd_plain isLine.1, findHeaderEnd_crlf notCr, same, later]
      simp only [Option.map_some, headerText_cons line, List.length_append, crlf,
        List.length_cons, List.length_nil] at long ⊢
      congr 1
      omega

theorem normalise_ne_nil (high : Bool) (ch : UInt8) (rest : List UInt8) :
    normalise high (ch :: rest) ≠ [] := by
  simp only [normalise]
  split_ifs <;> simp

theorem isLine_of_mem {line : List UInt8} (plain : Plain line) {ch : UInt8}
    (member : ch ∈ line) (notBlank : isBlank ch = false) : IsLine line := by
  refine ⟨plain, ?_⟩
  have inTrimmed := mem_trimmed member notBlank
  rw [seen]
  cases text : trimmed line with
  | nil => simp [text] at inTrimmed
  | cons first rest => exact normalise_ne_nil true first rest

theorem tchar_plain (ch : UInt8) :
    isTchar ch = true →
      isBlank ch = false ∧ (ch ≠ 0 ∧ ch ≠ 0x0d ∧ ch ≠ 0x0a) ∧ ch ≠ 0x3a ∧ ch ≠ 0x20 ∧ ch ≠ 0x2f := by
  revert ch
  apply forall_octet
  decide +kernel

theorem HeaderField.isLine (field : HeaderField) : IsLine field.text := by
  obtain ⟨first, rest, shape⟩ := List.exists_cons_of_ne_nil field.nameNonempty
  have inName : first ∈ field.name := by simp [shape]
  have plain : Plain field.text := by
    intro ch member
    rw [HeaderField.text, List.append_assoc, List.mem_append] at member
    rcases member with inName | behind
    · exact (tchar_plain ch (field.nameToken ch inName)).2.1
    · rcases List.mem_append.mp behind with isColon | inValue
      · rw [List.mem_singleton.mp isColon]
        decide
      · exact field.valuePlain ch inValue
  refine isLine_of_mem plain ?_ (tchar_plain first (field.nameToken first inName)).1
  rw [HeaderField.text]
  simp [inName]

theorem StatusLine.isLine (status : StatusLine) : IsLine status.text := by
  have version : Plain (octets (if status.minor then "HTTP/1.1 " else "HTTP/1.0 ")) := by
    cases status.minor <;> decide
  have plain : Plain status.text := by
    intro ch member
    simp only [StatusLine.text, List.mem_append] at member
    rcases member with ((inVersion | inCode) | isSpace) | inReason
    · exact version ch inVersion
    · have digit := status.codeDigits.2 ch inCode
      refine ⟨?_, ?_, ?_⟩ <;> rintro rfl <;> exact absurd digit.1 (by decide)
    · rw [List.mem_singleton.mp isSpace]
      decide
    · exact status.reasonPlain ch inReason
  refine @isLine_of_mem _ plain 0x48 ?_ (by decide)
  have starts : (0x48 : UInt8) ∈ octets (if status.minor then "HTTP/1.1 " else "HTTP/1.0 ") := by
    cases status.minor <;> decide
  simp only [StatusLine.text, List.mem_append]
  exact .inl (.inl (.inl starts))

theorem ResponseHeader.isLines (header : ResponseHeader) :
    ∀ line ∈ header.lines, IsLine line := by
  intro line member
  rcases List.mem_cons.mp member with rfl | inFields
  · exact header.status.isLine
  · obtain ⟨field, _, rfl⟩ := List.mem_map.mp inFields
    exact field.isLine

/-- The octets of a response header. -/
def ResponseHeader.text (header : ResponseHeader) : List UInt8 :=
  headerText header.lines

theorem nulFree_headerText {lines : List (List UInt8)} (isLines : ∀ line ∈ lines, IsLine line) :
    0 ∉ headerText lines := by
  intro member
  rcases List.mem_append.mp member with inLines | inEnd
  · obtain ⟨line, isMember, inLine⟩ := List.mem_flatMap.mp inLines
    rcases List.mem_append.mp inLine with inside | inEnd
    · exact (isLines line isMember).1.nulFree inside
    · exact absurd inEnd (by decide)
  · exact absurd inEnd (by decide)

/-- The string in a buffer that begins with a header. -/
theorem cString_headerText {lines : List (List UInt8)} (isLines : ∀ line ∈ lines, IsLine line)
    (rest : List UInt8) : cString (headerText lines ++ rest) = headerText lines ++ cString rest := by
  rw [cString, cString, List.takeWhile_append_of_pos]
  intro ch member
  have notNul : ch ≠ 0 := fun isNul => nulFree_headerText isLines (isNul ▸ member)
  simpa using notNul

/-- The size of the cache buffer that the blank line allocates. -/
def HeaderInfo.allocated (setting : Setting) (info : HeaderInfo) : Option Nat :=
  if info.admits setting then some (info.contentLength.toNat + 1) else none

namespace HttpClient

/-- A client that has not read its header yet. -/
def waiting (httpUrl buf : List UInt8) : HttpClient :=
  { new httpUrl with buf }

/-- What `parse` makes of a header, and whether it could send it. -/
structure Parsed (setting : Setting) (lines : List (List UInt8)) (before client : HttpClient)
    (ok : Bool) : Prop where
  cacheCompleted : client.cacheCompleted = before.cacheCompleted
  state : client.state = before.state
  buf : client.buf = before.buf
  httpTunnelingUrl : client.httpTunnelingUrl = before.httpTunnelingUrl
  admitted : client.cacheBuf.isSome → (readHeader setting lines).admits setting
  info : ok = true → client.info = (readHeader setting lines).settled
  cacheBuf : ok = true → client.cacheBuf = (readHeader setting lines).allocated setting
  cached : ok = true → client.cached = []
  sent : ok = true → client.sent.flatten = relayedHeader setting lines

theorem length_lt_headerText (lines : List (List UInt8)) :
    lines.length < (headerText lines).length := by
  induction lines with
  | nil => simp [headerText, crlf]
  | cons line lines ih =>
      rw [headerText_cons]
      simp [crlf]
      omega

/-- `parse` over a header that a client has waited for. -/
theorem parse_waiting (setting : Setting) {lines : List (List UInt8)}
    (isLines : ∀ line ∈ lines, IsLine line) (httpUrl buf rest : List UInt8)
    (short : (headerText lines ++ rest).length ≤ 64 * 1024) :
    ∃ left, (waiting httpUrl buf).parse setting (headerText lines ++ rest) =
      let fed := (waiting httpUrl buf).feed setting (lines.map seen)
      if fed.2 then { fed.1 with lineText := rest }.endHeader setting
      else ({ fed.1 with lineText := left }, false) := by
  have enough : lines.length < (headerText lines ++ rest).length := by
    have long := length_lt_headerText lines
    rw [List.length_append]
    omega
  obtain ⟨left, loop⟩ := parseLoop_header setting isLines enough
    { waiting httpUrl buf with lineText := headerText lines ++ rest } rest rfl
  refine ⟨left, ?_⟩
  rw [feed_lineText] at loop
  rw [parse]
  simp only [waiting, new, List.nil_append]
  exact (if_neg (Nat.not_lt.mpr short)).trans loop

theorem parse_header (setting : Setting) {lines : List (List UInt8)}
    (isLines : ∀ line ∈ lines, IsLine line) (httpUrl buf rest : List UInt8)
    (short : (headerText lines ++ rest).length ≤ 64 * 1024) :
    Parsed setting lines (waiting httpUrl buf)
      ((waiting httpUrl buf).parse setting (headerText lines ++ rest)).1
      ((waiting httpUrl buf).parse setting (headerText lines ++ rest)).2 := by
  obtain ⟨left, parsed⟩ := parse_waiting setting isLines httpUrl buf rest short
  have untouched := feed_untouched setting (lines.map seen) (waiting httpUrl buf)
  rw [parsed]
  simp only
  split
  · rename_i ok
    have fed := feed_fed ok
    have info : ((waiting httpUrl buf).feed setting (lines.map seen)).1.info =
        readHeader setting lines := fed.info
    have relayed := fed.relayed
    rw [endHeader_eq]
    constructor
    case cacheCompleted => exact untouched.cacheCompleted
    case state => exact untouched.state
    case buf => exact untouched.buf
    case httpTunnelingUrl => exact untouched.httpTunnelingUrl
    case admitted =>
      intro allocated
      simp only [info, untouched.cacheBuf] at allocated
      split at allocated
      · assumption
      · cases allocated
    case info =>
      intro _
      simp only [info]
    case cacheBuf =>
      intro _
      simp only [info, untouched.cacheBuf]
      rfl
    case cached =>
      intro _
      simp only [untouched.cached]
      exact ite_self _
    case sent =>
      intro _
      simp only [info, List.flatten_append, List.flatten_cons, List.flatten_nil,
        List.append_nil]
      rw [← List.append_assoc, ← List.append_assoc, relayed]
      rfl
  · constructor
    case cacheCompleted => exact untouched.cacheCompleted
    case state => exact untouched.state
    case buf => exact untouched.buf
    case httpTunnelingUrl => exact untouched.httpTunnelingUrl
    case admitted =>
      simp only [untouched.cacheBuf]
      intro allocated
      cases allocated
    all_goals
      intro ok
      cases ok

/-- If no call of `client_send` fails, the header is read. -/
theorem parse_ok {setting : Setting} (sends : ∀ count, setting.sendFails count = false)
    {lines : List (List UInt8)} (isLines : ∀ line ∈ lines, IsLine line)
    (httpUrl buf rest : List UInt8) (short : (headerText lines ++ rest).length ≤ 64 * 1024) :
    ((waiting httpUrl buf).parse setting (headerText lines ++ rest)).2 = true := by
  obtain ⟨left, parsed⟩ := parse_waiting setting isLines httpUrl buf rest short
  rw [parsed]
  simp only [feed_ok sends, if_true, endHeader_eq, sends]
  rfl

end HttpClient

end Tunneling

end HeapHttpd
