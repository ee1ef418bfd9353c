import HeapHttpd.Http1.Htdoc
import HeapHttpd.Http1.RequestHeader
import Mathlib.Data.List.Basic

/-!
# Serving a static file

What `web_doc::Response` answers for a file that is there: the checks that may save the
body, the parsing of the `Range` field, the header, and the two ways to send the body, from
the file cache and from an `ifstream`.  There is no answer where a `long long` overflows,
memory is read outside a buffer or a number of octets to read is negative.
-/

namespace HeapHttpd

namespace Http1

namespace WebDoc

open General
open Http2 (toInt)

/-- `HTTP_CONTENT_RANGE`. -/
structure ContentRange where
  beg : Int
  finish : Int
  len : Int
  deriving DecidableEq

/-- The fields of a request that matter for a file. -/
structure FileRequest where
  method : HttpMethod
  resource : List UInt8
  cacheControl : List UInt8
  pragma : List UInt8
  ifModifiedSince : List UInt8
  ifNoneMatch : List UInt8
  range : List UInt8

/-- A file that the file cache can hold, whose lengths are of type `unsigned int`, with what
both ways to serve it know about it. -/
structure ServedFile where
  content : List UInt8
  etag : List UInt8
  tLastModifyTime : Int
  fits : content.length < 2 ^ 32

/-- The process and its system: the response header so far, `m_type_table`, the texts of
dates, the time, and the largest offset that a file can be set to. -/
structure FileSystem where
  responseHeader : StringMap
  typeTable : List UInt8 → Option (List UInt8)
  gmtDate : Nat → List UInt8
  now : Int
  seekLimit : Int

/-- What is sent. -/
structure FileReply where
  status : Nat
  fields : StringMap
  body : List UInt8
  deriving DecidableEq

/-- `OutHTTPGMTDateString`, whose argument is an `unsigned int`. -/
def FileSystem.dateString (system : FileSystem) (time : Int) : List UInt8 :=
  system.gmtDate (time % 2 ^ 32).toNat

/-- `szQETagQ`. -/
def ServedFile.quotedEtag (file : ServedFile) : List UInt8 :=
  octets "\"" ++ file.etag ++ octets "\""

/-! ## Without a body -/

/-- Whether the request allows an answer without a body. -/
def FileRequest.mayUseCache (request : FileRequest) : Bool :=
  cString request.cacheControl ≠ octets "no-cache" && cString request.pragma ≠ octets "no-cache"

/-- Whether the client has the file already. -/
def notModified (system : FileSystem) (request : FileRequest) (file : ServedFile) : Bool :=
  request.mayUseCache &&
    ((cString request.ifModifiedSince ≠ [] &&
        cString request.ifModifiedSince = system.dateString file.tLastModifyTime) ||
      (cString request.ifNoneMatch ≠ [] && cString request.ifNoneMatch = file.quotedEtag))

/-- The answer to a client that has the file. -/
def notModifiedReply (system : FileSystem) : FileReply :=
  { status := 304
    fields := system.responseHeader.set (octets "Content-Length") (sprintfD 0)
    body := [] }

/-! ## Ranges -/

/-- The range of one element of the field. -/
def contentRange (nResourceLength : Int) (strRange : List UInt8) : ContentRange :=
  let strbeg := strtrim (strcutBefore strRange 0x2d)
  let strend := strtrim (strcutAfter strRange 0x2d)
  let beg := if strbeg ≠ [] then atoll strbeg else 0
  let finish := if strend ≠ [] then atoll strend else nResourceLength - 1
  { beg := beg, finish := finish, len := finish - beg + 1 }

/-- The ranges, their text and the sum of their lengths. -/
structure Ranges where
  ranges : List ContentRange
  strContentRangeResponse : List UInt8
  nRangeLength : Int
  deriving DecidableEq

/-- An element of the field is over. -/
def Ranges.add (nResourceLength : Int) (strRange : List UInt8) (parsed : Ranges) :
    Option Ranges :=
  let ra := contentRange nResourceLength strRange
  if ra.beg ≤ ra.finish then
    if ra.len < 2 ^ 63 ∧ parsed.nRangeLength + ra.len < 2 ^ 63 then
      some
        { ranges := parsed.ranges ++ [ra]
          strContentRangeResponse :=
            (if parsed.strContentRangeResponse = [] then octets "bytes "
              else parsed.strContentRangeResponse) ++
              (sprintfD ra.beg ++ octets "-" ++ sprintfD ra.finish ++ octets "/" ++
                sprintfD ra.len ++ octets ",")
          nRangeLength := parsed.nRangeLength + ra.len }
    else none
  else some parsed

/-- The loop over the field behind its first octet. -/
def rangesLoop (nResourceLength : Int) : List UInt8 → Ranges → List UInt8 → Option Ranges
  | strRange, parsed, [] => parsed.add nResourceLength strRange
  | strRange, parsed, ch :: rest =>
      if ch = 0x2c then
        match parsed.add nResourceLength strRange with
        | none => none
        | some parsed => rangesLoop nResourceLength [] parsed rest
      else rangesLoop nResourceLength (strRange ++ [ch]) parsed rest

/-- The ranges of the field `Range`, if there is one. -/
def parseRanges (nResourceLength : Int) (field : List UInt8) : Option Ranges :=
  match cString field with
  | [] => some ⟨[], [], nResourceLength⟩
  | _ :: rest => rangesLoop nResourceLength [] ⟨[], [], 0⟩ rest

/-! ## The header -/

/-- How long a file may be kept, by its extension. -/
def maxAge (strExtName : List UInt8) : Int :=
  let isOneOf (names : List String) : Bool :=
    names.any fun name => strcasecmp strExtName (octets name)
  if isOneOf ["css", "js"] then 31536000
  else if isOneOf ["jpg", "jpeg", "png", "gif", "bmp"] then 86400
  else 28800

/-- The extension of a resource. -/
def strExtName (resource : List UInt8) : List UInt8 :=
  Htdoc.getExtendName (lowercase resource)

/-- The status and the fields, which both branches set alike. -/
def header (system : FileSystem) (request : FileRequest) (file : ServedFile) (parsed : Ranges) :
    Nat × StringMap :=
  let partialContent := cString request.range ≠ [] ∧ parsed.strContentRangeResponse ≠ []
  let strExtName := strExtName request.resource
  let age := maxAge strExtName
  let fields := system.responseHeader
    |>.set (octets "ETag") file.quotedEtag
    |>.set (octets "Content-Length") (sprintfD parsed.nRangeLength)
    |>.set (octets "Cache-Control") (octets "public, max-age=" ++ sprintfD age)
    |>.set (octets "Expires") (system.dateString (system.now + age))
    |>.set (octets "Last-Modified") (system.dateString file.tLastModifyTime)
    |>.set (octets "Content-Type") ((system.typeTable strExtName).getD (octets "application/*"))
  if partialContent then
    (206, fields.set (octets "Content-Range") parsed.strContentRangeResponse)
  else (200, fields)

/-! ## The body from the cache -/

/-- `SendContent` with a part of a buffer; a length that is not positive sends nothing. -/
def sendContent (buffer : List UInt8) (start len : Int) : Option (List UInt8) :=
  if len ≤ 0 then some []
  else if 0 ≤ start ∧ start + len ≤ buffer.length then
    some ((buffer.drop start.toNat).take len.toNat)
  else none

/-- The part of the file cache that is sent for a range. -/
def cachedRange (fileCacheBuf : List UInt8) (range : ContentRange) : Option (List UInt8) :=
  let restLength := toInt (fileCacheBuf.length - range.beg)
  if restLength ≤ 0 then some []
  else
    sendContent fileCacheBuf range.beg
      (toInt (if range.len < restLength then range.len else restLength))

/-- The parts that are sent for some ranges. -/
def cachedRanges (fileCacheBuf : List UInt8) : List ContentRange → Option (List UInt8)
  | [] => some []
  | range :: ranges =>
      match cachedRange fileCacheBuf range, cachedRanges fileCacheBuf ranges with
      | some part, some parts => some (part ++ parts)
      | _, _ => none

/-- What the cached branch sends behind the header. -/
def cachedBody (request : FileRequest) (file : ServedFile) (parsed : Ranges) :
    Option (List UInt8) :=
  if request.method = .head then some []
  else if cString request.range = [] then
    sendContent file.content 0 (toInt file.content.length)
  else cachedRanges file.content parsed.ranges

/-! ## The body from a stream -/

/-- An `ifstream`. -/
structure Stream where
  position : Nat
  eofbit : Bool
  failbit : Bool
  deriving DecidableEq

/-- A stream that was just opened. -/
def Stream.opened : Stream :=
  ⟨0, false, false⟩

/-- `read`: the octets that are read, whose number is `gcount`. -/
def Stream.read (content : List UInt8) (count : Int) (stream : Stream) :
    Option (List UInt8 × Stream) :=
  if stream.eofbit ∨ stream.failbit then some ([], { stream with failbit := true })
  else if count < 0 then none
  else
    let data := (content.drop stream.position).take count.toNat
    let short : Bool := (data.length : Int) < count
    some (data, ⟨stream.position + data.length, short, short⟩)

/-- `seekg` from the start of the file. -/
def Stream.seekg (seekLimit offset : Int) (stream : Stream) : Stream :=
  if stream.failbit then { stream with eofbit := false }
  else if 0 ≤ offset ∧ offset ≤ seekLimit then ⟨offset.toNat, false, false⟩
  else { stream with eofbit := false, failbit := true }

/-- The loop over a whole file, for some rounds at most, behind what was sent. -/
def wholeLoop (content : List UInt8) : Nat → Stream → List UInt8 → Option (List UInt8)
  | 0, _, _ => none
  | rounds + 1, stream, sent =>
      if stream.eofbit then some sent
      else
        match stream.read content 1448 with
        | none => none
        | some (rbuf, stream) => wholeLoop content rounds stream (sent ++ rbuf)

/-- The loop over a range, for some rounds at most, with the length that was sent. -/
def rangeLoop (content : List UInt8) (len : Int) :
    Nat → Stream → Int → List UInt8 → Option (List UInt8 × Stream)
  | 0, _, _, _ => none
  | rounds + 1, stream, lenSum, sent =>
      if stream.eofbit then some (sent, stream)
      else
        let restLen := toInt (len - lenSum)
        match stream.read content (if 1448 < restLen then 1448 else restLen) with
        | none => none
        | some (rbuf, stream) =>
            if lenSum + rbuf.length = len then some (sent ++ rbuf, stream)
            else rangeLoop content len rounds stream (lenSum + rbuf.length) (sent ++ rbuf)

/-- The loop over the ranges. -/
def streamedRanges (content : List UInt8) (seekLimit : Int) (rounds : Nat) :
    Stream → List ContentRange → Option (List UInt8)
  | _, [] => some []
  | stream, range :: ranges =>
      match rangeLoop content range.len rounds (stream.seekg seekLimit range.beg) 0 [] with
      | none => none
      | some (part, stream) =>
          (streamedRanges content seekLimit rounds stream ranges).map (part ++ ·)

/-- What the branch for files sends behind the header, with loops of some rounds at most. -/
def streamedBody (system : FileSystem) (request : FileRequest) (file : ServedFile)
    (parsed : Ranges) (rounds : Nat) : Option (List UInt8) :=
  if request.method = .head then some []
  else if cString request.range = [] then wholeLoop file.content rounds Stream.opened []
  else streamedRanges file.content system.seekLimit rounds Stream.opened parsed.ranges

/-! ## The answer -/

/-- `web_doc::Response`, with the body from one of the branches. -/
def response (system : FileSystem) (request : FileRequest) (file : ServedFile)
    (bodyOf : Ranges → Option (List UInt8)) : Option FileReply :=
  if notModified system request file then some (notModifiedReply system)
  else
    match parseRanges file.content.length request.range with
    | none => none
    | some parsed =>
        (bodyOf parsed).map fun body =>
          { status := (header system request file parsed).1
            fields := (header system request file parsed).2
            body := body }

/-- `web_doc::Response` for a file in the file cache. -/
def cachedResponse (system : FileSystem) (request : FileRequest) (file : ServedFile) :
    Option FileReply :=
  response system request file (cachedBody request file)

/-- `web_doc::Response` for a file that is not cached, with loops of some rounds at most. -/
def streamedResponse (system : FileSystem) (request : FileRequest) (file : ServedFile)
    (rounds : Nat) : Option FileReply :=
  response system request file fun parsed => streamedBody system request file parsed rounds

end WebDoc

end Http1

end HeapHttpd
