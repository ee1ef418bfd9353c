import HeapHttpd.General
import Mathlib.Algebra.Group.Int.Defs
import Mathlib.Algebra.Group.Nat.Defs

/-!
# Requests behind a stream

What `http.cpp` does for an HTTP/2 stream: the lines of a request header and the
data of its body.  Members of `CHttp` that only the response depends on are one
opaque value, which a line may change.
-/

namespace HeapHttpd

namespace Http1

open General

/-- `Http_Method`. -/
inductive HttpMethod
  | options
  | get
  | head
  | post
  | put
  | delete
  | trace
  | connect
  deriving DecidableEq, Repr

/-- `Http_State`, less the names that stand for the same number. -/
inductive HttpState
  | reqHeader
  | reqData
  | authentication
  | response
  | responding
  | respondingExtensionComplete1
  | respondingExtensionComplete2
  | respondingDocComplete
  | responseComplete
  | tunnling
  | tunnlingExtensionComplete
  | tunnlingComplete
  | complete
  deriving DecidableEq, Repr

/-- `Post_Content_Type`. -/
inductive PostContentType
  | applicationXWwwFormUrlencoded
  | multipartFormData
  deriving DecidableEq, Repr

/-- `MAX_APPLICATION_X_WWW_FORM_URLENCODED_LEN`. -/
def maxApplicationXWwwFormUrlencodedLen : Nat := 1024 * 1024 * 4

/-- The members of `CHttp` that lines and data change. -/
structure CHttp (X : Type) where
  httpMethod : HttpMethod
  httpState : HttpState
  contentType : PostContentType
  contentLength : Int
  lineText : List UInt8
  postdata : List UInt8
  postdataEx : Option (List UInt8)
  rest : X

/-- A new `CHttp`. -/
def CHttp.new {X : Type} (rest : X) : CHttp X :=
  { httpMethod := .get
    httpState := .reqHeader
    contentType := .applicationXWwwFormUrlencoded
    contentLength := 0
    lineText := []
    postdata := []
    postdataEx := none
    rest }

/-- `HICH`. -/
def hich (ch : UInt8) : UInt8 :=
  if 0x61 ≤ ch ∧ ch ≤ 0x7a then ch + 0x41 - 0x61 else ch

/-- The loop that normalises the name in a line. -/
def normalise (high : Bool) : List UInt8 → List UInt8
  | [] => []
  | ch :: rest =>
      let ch := if high then hich ch else ch
      if ch = 0x3a ∨ ch = 0x20 then ch :: rest
      else ch :: normalise (ch = 0x2d) rest

/-- `strcut` from behind a string, to the end. -/
def strcutFrom (begString : List UInt8) : List UInt8 → List UInt8
  | [] => []
  | ch :: rest =>
      if begString.isPrefixOf (ch :: rest) then (ch :: rest).drop begString.length
      else strcutFrom begString rest

/-- Whether `string::find` finds a string. -/
def contains (text literal : List UInt8) : Bool :=
  text.tails.any fun rest => literal.isPrefixOf rest

/-- `isspace` in the C locale. -/
def isSpace (ch : UInt8) : Bool :=
  ch = 0x20 || (0x09 ≤ ch && ch ≤ 0x0d)

/-- The number of a sequence of digits. -/
def decimal (digits : List UInt8) : Nat :=
  digits.foldl (fun value ch => value * 10 + (ch.toNat - 0x30)) 0

/-- `atoll`, which stops at the bounds of `long long`. -/
def atoll (text : List UInt8) : Int :=
  let text := text.dropWhile isSpace
  let digitsOf (text : List UInt8) : Nat :=
    decimal (text.takeWhile fun ch => 0x30 ≤ ch && ch ≤ 0x39)
  match text with
  | 0x2d :: rest => max (-(digitsOf rest : Int)) (-(2 ^ 63))
  | 0x2b :: rest => min (digitsOf rest : Int) (2 ^ 63 - 1)
  | text => min (digitsOf text : Int) (2 ^ 63 - 1)

/-- The method whose name a line begins with. -/
def methodOf (line : List UInt8) : Option HttpMethod :=
  if strncasecmp line (octets "GET ") 4 then some .get
  else if strncasecmp line (octets "POST ") 5 then some .post
  else if strncasecmp line (octets "PUT ") 4 then some .put
  else if strncasecmp line (octets "HEAD ") 5 then some .head
  else if strncasecmp line (octets "DELETE ") 7 then some .delete
  else if strncasecmp line (octets "OPTIONS ") 8 then some .options
  else if strncasecmp line (octets "TRACE ") 6 then some .trace
  else if strncasecmp line (octets "CONNECT ") 8 then some .connect
  else none

/-- What a header line changes besides the opaque value. -/
def parseFieldLine {X : Type} (line : List UInt8) (http1 : CHttp X) : CHttp X :=
  if strncasecmp line (octets "Content-Length:") 15 then
    { http1 with
      contentLength :=
        if http1.httpMethod = .head then 0
        else atoll (strtrim (strcutFrom (octets "Content-Length:") line)) }
  else if strncasecmp line (octets "Content-Type:") 13 then
    { http1 with
      contentType :=
        if contains line (octets "application/x-www-form-urlencoded") then
          .applicationXWwwFormUrlencoded
        else if contains line (octets "multipart/form-data") then .multipartFormData
        else .applicationXWwwFormUrlencoded }
  else http1

/-- A line that is not blank, with `otherLine` for what it does to the opaque
value. -/
def parseLine {X : Type} (otherLine : List UInt8 → X → X) (line : List UInt8)
    (http1 : CHttp X) : CHttp X :=
  let http1 := { http1 with rest := otherLine line http1.rest }
  match methodOf line with
  | some method => { http1 with httpMethod := method }
  | none => parseFieldLine line http1

/-- The lines `CHttp::LineParse` takes from its text, each trimmed and with its
name normalised, up to a blank one, and what is left. -/
def takeLines : Nat → List UInt8 → List (List UInt8) × List UInt8
  | 0, lineText => ([], lineText)
  | passes + 1, lineText =>
      if 0x0a ∈ lineText then
        let line := normalise true (strtrim (lineText.takeWhile (· ≠ 0x0a) ++ [0x0a]))
        let rest := (lineText.dropWhile (· ≠ 0x0a)).tail
        if line = [] then ([[]], rest)
        else
          let (lines, left) := takeLines passes rest
          (line :: lines, left)
      else ([], lineText)

/-- `CHttp::LineParse` up to a blank line, and whether it met one. -/
def lineParse {X : Type} (otherLine : List UInt8 → X → X) (text : List UInt8)
    (http1 : CHttp X) : CHttp X × Bool :=
  let lineText := http1.lineText ++ text
  let (lines, left) := takeLines lineText.length lineText
  let http1 := { http1 with lineText := left }
  let http1 := (lines.filter fun line => !line.isEmpty).foldl (fun http1 line =>
    parseLine otherLine line http1) http1
  if [] ∈ lines then ({ http1 with httpState := .reqData }, true) else (http1, false)

/-- `CHttp::PushPostData`. -/
def pushPostData {X : Type} (buf : List UInt8) (http1 : CHttp X) : CHttp X × Bool :=
  match http1.contentType with
  | .applicationXWwwFormUrlencoded =>
      if maxApplicationXWwwFormUrlencodedLen < http1.postdata.length then (http1, false)
      else
        let postdata := http1.postdata ++ cString buf
        ({ http1 with postdata },
          !decide (http1.contentLength % 2 ^ 64 ≤ postdata.length))
  | .multipartFormData =>
      let postdataEx := http1.postdataEx.getD [] ++ buf
      ({ http1 with postdataEx := some postdataEx },
        !decide (http1.contentLength ≤ (postdataEx.length % 2 ^ 32 : Nat)))

/-- `CHttp::RecvPostData`, with what is left of the octets to come. -/
def recvPostData {X : Type} (incoming : List UInt8) (http1 : CHttp X) :
    CHttp X × List UInt8 :=
  let count := http1.contentLength.toNat
  let http1' := { http1 with httpState := .authentication }
  if http1.contentLength ≤ 0 then (http1', incoming)
  else
    match http1.contentType with
    | .applicationXWwwFormUrlencoded =>
        if http1.contentLength < maxApplicationXWwwFormUrlencodedLen then
          ({ http1' with postdata := http1.postdata ++ cString (incoming.take count) },
            incoming.drop count)
        else (http1', incoming)
    | .multipartFormData =>
        ({ http1' with
            postdataEx := some (http1.postdataEx.getD [] ++ incoming.take count) },
          incoming.drop count)

end Http1

end HeapHttpd
