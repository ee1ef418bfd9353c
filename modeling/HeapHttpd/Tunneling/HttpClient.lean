import HeapHttpd.Http1.CHttp
import HeapHttpd.Http2.Comm

/-!
# The client for backend responses

`http_client`: it reads the response of a backend, passes it on to the client of the
proxy, and decides whether the response goes into the tunneling cache.
-/

namespace HeapHttpd

namespace Tunneling

open General
open Http1 (normalise strcutFrom contains atoll)
open Http2 (toInt)

def crlf : List UInt8 := [0x0d, 0x0a]

/-- `HTTP_CLIENT_BUF_LEN`. -/
def httpClientBufLen : Nat := 4096

/-- `VERSION_STRING`. -/
def versionString : List UInt8 := octets "Heaphttpd/1.1"

/-- What `http_chunk` does with a buffer: what it sends, what it leaves in the buffer,
and its result. -/
structure ChunkAnswer where
  sent : List (List UInt8)
  left : List UInt8
  continues : Bool

/-- What a response meets: the configuration, the method of the request, how many
seconds a date lies ahead, what memory holds 14 octets behind the start of a shorter
string, which calls of `client_send` fail, and what `http_chunk` does after the
buffers it has seen. -/
structure Setting where
  enableHttpTunnelingCache : Bool
  singleTunnelingCacheSize : Nat
  localhostname : List UInt8
  isHead : Bool
  expiresIn : List UInt8 → Int
  beyond : List UInt8 → List UInt8
  sendFails : Nat → Bool
  chunk : List (List UInt8) → ChunkAnswer

/-- `HTTP_Client_Parse_State`, less the states of `http_chunk`. -/
inductive ParseState
  | header
  | content
  deriving DecidableEq

/-- The header fields that go into the cache. -/
structure CachedFields where
  cacheControl : List UInt8
  contentType : List UInt8
  allow : List UInt8
  encoding : List UInt8
  language : List UInt8
  etag : List UInt8
  lastModified : List UInt8
  expires : List UInt8
  server : List UInt8
  via : List UInt8
  deriving DecidableEq

/-- The members of `http_client` that header lines change, and whether it has read
behind the end of a header value. -/
structure HeaderInfo where
  outOfCacheHeaderScope : Bool
  hasVia : Bool
  hasContentLength : Bool
  contentLength : Int
  is200Ok : Bool
  useCache : Bool
  cacheMaxAge : Int
  cacheSharedMaxAge : Int
  fields : CachedFields
  isChunked : Bool
  strayed : Bool

/-- The members as the constructor sets them. -/
def HeaderInfo.new : HeaderInfo :=
  { outOfCacheHeaderScope := false
    hasVia := false
    hasContentLength := true
    contentLength := -1
    is200Ok := false
    useCache := false
    cacheMaxAge := 300
    cacheSharedMaxAge := -1
    fields :=
      { cacheControl := [], contentType := [], allow := [], encoding := [], language := []
        etag := [], lastModified := [], expires := [], server := [], via := [] }
    isChunked := false
    strayed := false }

/-- `http_client`, with what it has sent and the buffers `http_chunk` has seen.  The
cache buffer is its allocated size and the octets that were put into it. -/
structure HttpClient where
  info : HeaderInfo
  lineText : List UInt8
  cacheCompleted : Bool
  state : ParseState
  buf : List UInt8
  sentContentLength : Int
  httpTunnelingUrl : List UInt8
  cacheBuf : Option Nat
  cached : List UInt8
  header : List UInt8
  sent : List (List UInt8)
  chunks : List (List UInt8)

namespace HttpClient

def new (httpUrl : List UInt8) : HttpClient :=
  { info := .new
    lineText := []
    cacheCompleted := false
    state := .header
    buf := []
    sentContentLength := 0
    httpTunnelingUrl := strtrim (cString httpUrl)
    cacheBuf := none
    cached := []
    header := []
    sent := []
    chunks := [] }

/-- `client_send`, and whether it returns a length. -/
def clientSend (setting : Setting) (data : List UInt8) (client : HttpClient) :
    HttpClient × Bool :=
  ({ client with sent := client.sent ++ [data] }, !setting.sendFails client.sent.length)

end HttpClient

/-- The value of a field: `strcut` behind its name and `strtrim`. -/
def fieldValue (name : String) (strtext : List UInt8) : List UInt8 :=
  strtrim (strcutFrom (octets name) strtext)

/-- `strtrim` with a set of octets. -/
def strtrimSet (aim src : List UInt8) : List UInt8 :=
  (src.dropWhile (· ∈ aim)).rdropWhile (· ∈ aim)

/-- `atoi`. -/
def atoi (text : List UInt8) : Int :=
  toInt (atoll text)

/-- An age that a header lowers. -/
def lowerAge (age lowered : Int) : Int :=
  if lowered < age then (if lowered < 0 then 0 else lowered) else age

/-- What `strstr` is given of the value of `Cache-Control`: the string 14 octets
behind its start, wherever it ends. -/
def cacheControlView (setting : Setting) (value : List UInt8) : List UInt8 :=
  if 14 ≤ value.length then value.drop 14 else setting.beyond value

/-- Whether a text of `Cache-Control` keeps a response out of the cache. -/
def forbidsCache (view : List UInt8) : Bool :=
  contains view (octets "no-cache") || contains view (octets "no-store") ||
    contains view (octets "proxy-revalidate") || contains view (octets "must-revalidate") ||
    contains view (octets "private")

/-- Whether a line has a name, whatever its letter case. -/
def isField (name : String) (strtext : List UInt8) : Bool :=
  strncasecmp strtext (octets name) name.length

namespace HeaderInfo

/-- The decision that a fresh age makes. -/
def decideCache (age : Int) (info : HeaderInfo) : HeaderInfo :=
  { info with useCache := 0 < age && info.is200Ok && !info.isChunked }

/-- The branch for `Cache-Control`. -/
def parseCacheControl (setting : Setting) (strtext : List UInt8) (info : HeaderInfo) :
    HeaderInfo :=
  let value := fieldValue "Cache-Control:" strtext
  let view := cacheControlView setting value
  let info :=
    { info with
      fields.cacheControl := value
      strayed := info.strayed || decide (value.length < 14) }
  if forbidsCache view then { info with useCache := false }
  else
    let info :=
      if contains view (octets "max-age=") then
        let nMaxAge := atoi (fieldValue "max-age=" view)
        let info := { info with cacheMaxAge := lowerAge info.cacheMaxAge nMaxAge }
        info.decideCache info.cacheMaxAge
      else info
    if contains view (octets "s-maxage=") then
      let nSharedMaxAge := atoi (fieldValue "s-maxage=" view)
      let info :=
        { info with cacheSharedMaxAge := lowerAge info.cacheSharedMaxAge nSharedMaxAge }
      info.decideCache info.cacheSharedMaxAge
    else info

/-- The branch for `Expires`. -/
def parseExpires (setting : Setting) (strtext : List UInt8) (info : HeaderInfo) : HeaderInfo :=
  let value := fieldValue "Expires:" strtext
  let info :=
    { info with
      fields.expires := value
      cacheMaxAge := lowerAge info.cacheMaxAge (toInt (setting.expiresIn value)) }
  info.decideCache info.cacheMaxAge

/-- The branches for a line that is not blank. -/
def parseField (setting : Setting) (strtext : List UInt8) (info : HeaderInfo) : HeaderInfo :=
  if isField "HTTP/1.0 " strtext || isField "HTTP/1.1 " strtext then
    if contains (strtext.drop 8) (octets " 200 OK") then { info with is200Ok := true }
    else info
  else if isField "Content-Length:" strtext then
    let contentLength :=
      if setting.isHead then 0 else atoll (fieldValue "Content-Length:" strtext)
    { info with
      contentLength
      hasContentLength := info.hasContentLength || decide (0 ≤ contentLength) }
  else if isField "Transfer-Encoding:" strtext then
    if contains (fieldValue "Transfer-Encoding:" strtext) (octets "chunked") then
      { info with isChunked := true, useCache := false }
    else info
  else if isField "Cache-Control:" strtext then info.parseCacheControl setting strtext
  else if isField "ETag:" strtext then
    { info with fields.etag := strtrimSet (octets "\" ") (strcutFrom (octets "ETag:") strtext) }
  else if isField "Server:" strtext then
    { info with fields.server := fieldValue "Server:" strtext }
  else if isField "Allow:" strtext then
    { info with fields.allow := fieldValue "Allow:" strtext }
  else if isField "Content-Encoding:" strtext then
    { info with fields.encoding := fieldValue "Content-Encoding:" strtext }
  else if isField "Content-Language:" strtext then
    { info with fields.language := fieldValue "Content-Language:" strtext }
  else if isField "Last-Modified:" strtext then
    { info with fields.lastModified := fieldValue "Last-Modified:" strtext }
  else if isField "Expires:" strtext then info.parseExpires setting strtext
  else if isField "Content-Type:" strtext then
    { info with fields.contentType := fieldValue "Content-Type:" strtext }
  else if isField "Via:" strtext then
    { info with fields.via := fieldValue "Server:" strtext, hasVia := true }
  else if isField "Connection:" strtext || isField "Accept-Ranges:" strtext ||
      isField "Date:" strtext then
    info
  else { info with outOfCacheHeaderScope := true }

end HeaderInfo

/-- What is added to a `Via` line. -/
def viaEntry (setting : Setting) : List UInt8 :=
  octets "HTTP/1.1 " ++ setting.localhostname ++ octets "(" ++ versionString ++ octets ")"

/-- The line that is passed on: the branch for `Via` lengthens it. -/
def relayedLine (setting : Setting) (strtext : List UInt8) : List UInt8 :=
  if isField "Via:" strtext then strtext ++ octets ", " ++ viaEntry setting else strtext

namespace HttpClient

/-- The branch for the blank line. -/
def endHeader (setting : Setting) (client : HttpClient) : HttpClient × Bool :=
  let client :=
    if client.info.outOfCacheHeaderScope then { client with info.useCache := false } else client
  let client :=
    if setting.enableHttpTunnelingCache && client.info.useCache &&
        client.info.hasContentLength &&
        decide (client.info.contentLength ≤ setting.singleTunnelingCacheSize) &&
        decide (0 < client.info.contentLength) then
      { client with cacheBuf := some (client.info.contentLength.toNat + 1), cached := [] }
    else client
  let client :=
    if client.info.hasVia then client
    else { client with header := client.header ++ octets "Via: " ++ viaEntry setting ++ crlf }
  let client := { client with header := client.header ++ crlf }
  client.clientSend setting client.header

/-- The loop over the lines of `m_line_text`. -/
def parseLoop (setting : Setting) : Nat → HttpClient → HttpClient × Bool
  | 0, client => (client, true)
  | passes + 1, client =>
      if 0x0a ∈ client.lineText then
        let strtext :=
          normalise true (strtrim (client.lineText.takeWhile (· ≠ 0x0a) ++ [0x0a]))
        let client :=
          { client with lineText := (client.lineText.dropWhile (· ≠ 0x0a)).tail }
        if strtext = [] then client.endHeader setting
        else
          let client : HttpClient :=
            { client with
              info := client.info.parseField setting strtext
              header := client.header ++ relayedLine setting strtext ++ crlf }
          if 4096 < client.header.length then
            let (client, sent) := client.clientSend setting client.header
            if sent then parseLoop setting passes { client with header := [] }
            else (client, false)
          else parseLoop setting passes client
      else (client, true)

/-- `http_client::parse`. -/
def parse (setting : Setting) (text : List UInt8) (client : HttpClient) : HttpClient × Bool :=
  let client := { client with lineText := client.lineText ++ text }
  if 64 * 1024 < client.lineText.length then (client, false)
  else client.parseLoop setting client.lineText.length

/-- Where a buffer has its first `CRLF CRLF`. -/
def findHeaderEnd : List UInt8 → Option Nat
  | [] => none
  | ch :: rest =>
      if (octets "\r\n\r\n").isPrefixOf (ch :: rest) then some 0
      else (findHeaderEnd rest).map (· + 1)

/-- The content in the buffer is copied to the cache and passed on. -/
def relayContent (setting : Setting) (client : HttpClient) : HttpClient × Bool :=
  let client :=
    if client.info.useCache && client.cacheBuf.isSome then
      { client with cached := client.cached ++ client.buf }
    else client
  let (client, sent) := client.clientSend setting client.buf
  if sent then
    let client :=
      { client with
        sentContentLength := client.sentContentLength + client.buf.length
        buf := [] }
    if client.info.hasContentLength &&
        decide (client.sentContentLength = client.info.contentLength) then
      ({ client with cacheCompleted := true }, false)
    else (client, true)
  else (client, false)

/-- The buffer is given to `http_chunk`. -/
def relayChunk (setting : Setting) (client : HttpClient) : HttpClient × Bool :=
  let chunks := client.chunks ++ [client.buf]
  let answer := setting.chunk chunks
  ({ client with chunks, buf := answer.left, sent := client.sent ++ answer.sent },
    answer.continues)

/-- `http_client::processing`.  What follows the octets in the buffer is never looked
at, since `parse` ends at the blank line or at a NUL. -/
def processing (setting : Setting) (data : List UInt8) (client : HttpClient) :
    HttpClient × Bool :=
  let client := { client with buf := client.buf ++ data }
  match client.state with
  | .header =>
      match findHeaderEnd client.buf with
      | none => (client, true)
      | some pos =>
          let (client, parsed) := client.parse setting (cString client.buf)
          if !parsed then (client, false)
          else if !client.info.hasContentLength && !client.info.isChunked then (client, false)
          else
            let client :=
              { client with
                buf := client.buf.drop (pos + 4)
                state := .content
                sentContentLength := 0 }
            if client.info.isChunked then client.relayChunk setting
            else if client.info.hasContentLength && decide (client.info.contentLength = 0) then
              (client, false)
            else if client.buf = [] then (client, true)
            else client.relayContent setting
  | .content =>
      if client.info.isChunked then client.relayChunk setting
      else if client.buf = [] then (client, true)
      else client.relayContent setting

/-- The calls of `processing` for the segments of a response, until one returns
`false`. -/
def processSegments (setting : Setting) : List (List UInt8) → HttpClient → HttpClient × Bool
  | [], client => (client, true)
  | segment :: segments, client =>
      let (client, continues) := client.processing setting segment
      if continues then processSegments setting segments client else (client, false)

/-- Whether the destructor puts the response into the cache. -/
def stores (setting : Setting) (client : HttpClient) : Bool :=
  setting.enableHttpTunnelingCache && client.info.useCache && client.cacheCompleted &&
    client.cacheBuf.isSome && decide (client.cached ≠ []) &&
    decide (client.httpTunnelingUrl ≠ [])

section Url

variable (setting : Setting)

@[simp] theorem clientSend_httpTunnelingUrl (data : List UInt8) (client : HttpClient) :
    (client.clientSend setting data).1.httpTunnelingUrl = client.httpTunnelingUrl :=
  rfl

theorem endHeader_httpTunnelingUrl (client : HttpClient) :
    (client.endHeader setting).1.httpTunnelingUrl = client.httpTunnelingUrl := by
  simp only [endHeader, clientSend_httpTunnelingUrl]
  split <;> split <;> split <;> rfl

theorem parseLoop_httpTunnelingUrl (passes : Nat) (client : HttpClient) :
    (parseLoop setting passes client).1.httpTunnelingUrl = client.httpTunnelingUrl := by
  induction passes generalizing client with
  | zero => rfl
  | succ passes ih =>
      simp only [parseLoop]
      split
      · split
        · exact endHeader_httpTunnelingUrl setting _
        · split
          · split
            · exact ih _
            · rfl
          · exact ih _
      · rfl

theorem parse_httpTunnelingUrl (text : List UInt8) (client : HttpClient) :
    (client.parse setting text).1.httpTunnelingUrl = client.httpTunnelingUrl := by
  simp only [parse]
  split
  · rfl
  · exact parseLoop_httpTunnelingUrl setting _ _

theorem relayContent_httpTunnelingUrl (client : HttpClient) :
    (client.relayContent setting).1.httpTunnelingUrl = client.httpTunnelingUrl := by
  simp only [relayContent]
  split <;> split <;> (try split) <;> rfl

theorem processing_httpTunnelingUrl (data : List UInt8) (client : HttpClient) :
    (client.processing setting data).1.httpTunnelingUrl = client.httpTunnelingUrl := by
  simp only [processing]
  split
  · split
    · rfl
    · have parsed := parse_httpTunnelingUrl setting (cString (client.buf ++ data))
        { client with buf := client.buf ++ data }
      split
      · exact parsed
      · split
        · exact parsed
        · split
          · exact parsed
          · split
            · exact parsed
            · split
              · exact parsed
              · exact (relayContent_httpTunnelingUrl setting _).trans parsed
  · split
    · rfl
    · split
      · rfl
      · exact relayContent_httpTunnelingUrl setting _

/-- A client keeps the URL that it was made with. -/
theorem processSegments_httpTunnelingUrl (segments : List (List UInt8)) (client : HttpClient) :
    (processSegments setting segments client).1.httpTunnelingUrl = client.httpTunnelingUrl := by
  induction segments generalizing client with
  | nil => rfl
  | cons segment segments ih =>
      simp only [processSegments]
      split
      · exact (ih _).trans (processing_httpTunnelingUrl setting segment client)
      · exact processing_httpTunnelingUrl setting segment client

end Url

end HttpClient

end Tunneling

end HeapHttpd
