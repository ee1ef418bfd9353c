import HeapHttpd.Cgi.Fastcgi
import HeapHttpd.Http1.CHttp

/-!
# What comes from an application

The three ways in which `Htdoc::Response` receives what an application puts out, and
the response to the client that it makes of it.
-/

namespace HeapHttpd

namespace Cgi

open General Http1

/-- `fastcgi::RecvAppData`, with the response and `continue_recv`.  Where no record
comes any more, `Recv` fails. -/
def recvAppData : List Record → (List UInt8 × Bool) × List Record
  | [] => (([], false), [])
  | record :: records =>
      if record.type = RecordType.stdout then ((record.content, true), records)
      else (([], decide (record.type = RecordType.stderr)), records)

/-- The loop of `forkcgi::ReadAppData` and `scgi::RecvAppData`, with the octets that each
call of `Recv` is for.  `Recv` returns fewer at the end only. -/
def recvBlocks (block : Nat) :
    Nat → List UInt8 → List UInt8 → (List UInt8 × Bool) × List UInt8
  | 0, binaryResponse, stream => ((binaryResponse, false), stream)
  | fuel + 1, binaryResponse, stream =>
      if stream = [] then ((binaryResponse, false), [])
      else
        let binaryResponse := binaryResponse ++ stream.take block
        let stream := stream.drop block
        if 1024 * 64 ≤ binaryResponse.length then ((binaryResponse, true), stream)
        else recvBlocks block fuel binaryResponse stream

/-- An application with what is still to come from it. -/
inductive Application
  | forkcgi (stream : List UInt8)
  | fastcgi (records : List Record)
  | scgi (stream : List UInt8)
  deriving DecidableEq

namespace Application

/-- One call for data of the application. -/
def recv : Application → (List UInt8 × Bool) × Application
  | forkcgi stream =>
      let (data, stream) := recvBlocks 4095 (stream.length + 1) [] stream
      (data, forkcgi stream)
  | fastcgi records =>
      let (data, records) := recvAppData records
      (data, fastcgi records)
  | scgi stream =>
      let (data, stream) := recvBlocks 1500 (stream.length + 1) [] stream
      (data, scgi stream)

/-- A bound on the calls that return something. -/
def size : Application → Nat
  | forkcgi stream | scgi stream => stream.length
  | fastcgi records => records.length

/-- The loop `while (continue_recv)`: the octets that come. -/
def recvRest : Nat → Application → Bool → Option (List UInt8 × Application)
  | _, application, false => some ([], application)
  | 0, _, true => none
  | fuel + 1, application, true =>
      let ((binaryResponse, continueRecv), application) := application.recv
      (recvRest fuel application continueRecv).map fun (rest, application) =>
        (binaryResponse ++ rest, application)

end Application

/-- The first occurrence of a separator, with what is in front and what is behind. -/
def memsplit (sepstr : List UInt8) : List UInt8 → Option (List UInt8 × List UInt8)
  | [] => none
  | octet :: buf =>
      if sepstr.isPrefixOf (octet :: buf) then some ([], (octet :: buf).drop sepstr.length)
      else (memsplit sepstr buf).map fun (left, right) => (octet :: left, right)

/-- `memsplit2str`, which makes a C string of what is in front. -/
def memsplit2str (sepstr buf : List UInt8) : List UInt8 × List UInt8 :=
  match memsplit sepstr buf with
  | none => ([], [])
  | some (left, right) => (cString left, right)

/-- The codes of `HttpStatusText`. -/
def httpStatusCodes : List Nat :=
  [100, 101, 102, 200, 201, 202, 203, 204, 205, 206, 207, 300, 301, 302, 303, 304, 305, 306,
    307, 400, 401, 402, 403, 404, 405, 406, 407, 408, 409, 410, 411, 412, 413, 414, 415, 416,
    417, 422, 423, 424, 500, 501, 502, 503, 504, 505, 507]

/-- `SetStatusCode` of a text. -/
def setStatusCode (strStatusCode : List UInt8) : Nat :=
  (httpStatusCodes.find? fun code => octets (toString code) = strStatusCode.take 3).getD 200

/-- `sscanf` with `"Status: %d %*"`, behind the name. -/
def scanStatus (text : List UInt8) : Nat :=
  let text := text.dropWhile isSpace
  let digits := if text.head? = some 0x2d ∨ text.head? = some 0x2b then text.tail else text
  if (digits.head?.map fun ch => decide (0x30 ≤ ch ∧ ch ≤ 0x39)) = some true then
    (atoll text % 2 ^ 32).toNat
  else 200

/-- The status of a response, and the fields of its own that are behind it. -/
def readStatus (strHeader : List UInt8) : Nat × List UInt8 :=
  if strncasecmp strHeader (octets "Status: ") 8 then
    let statusCode :=
      if (octets "Status:").isPrefixOf strHeader then scanStatus (strHeader.drop 7) else 200
    (setStatusCode (octets (toString statusCode)), strcutFrom (octets "\r\n") strHeader)
  else (200, strHeader)

/-- What the client is sent: the status, the fields of the application, a
`Content-Length` that is added, and the body. -/
structure Reply where
  status : Nat
  fields : List UInt8
  contentLength : Option Nat
  body : List UInt8
  deriving DecidableEq

/-- The `Content-Length` that is added: with SCGI the length of what is there of the body. -/
def addedLength (pbody : List UInt8) : Application → Option Nat
  | .scgi _ => some pbody.length
  | .forkcgi _ | .fastcgi _ => none

/-- What is made of the first data, and of the rest. -/
def replyOf (isHead : Bool) (application : Application) (binaryResponse rest : List UInt8) :
    Reply :=
  let (strHeader, pbody) := memsplit2str (octets "\r\n\r\n") binaryResponse
  let strHeader := if strHeader = [] then [] else strHeader ++ octets "\r\n"
  let (status, fields) := readStatus strHeader
  ⟨status, fields, addedLength pbody application, if isHead then [] else pbody ++ rest⟩

/-- The end of `Htdoc::Response` for an application that has got its request: `none` is
the page for an internal server error.  What is left of the application goes with it. -/
def response (isHead : Bool) (application : Application) :
    Option (Option Reply × Application) :=
  let ((binaryResponse, continueRecv), left) := application.recv
  if binaryResponse = [] then some (none, left)
  else
    (left.recvRest (application.size + 1) continueRecv).map fun (rest, left) =>
      (some (replyOf isHead application binaryResponse rest), left)

end Cgi

end HeapHttpd
