import HeapHttpd.Http1.CHttp
import HeapHttpd.Tunneling.HeaderFields
import HeapHttpd.Tunneling.TunnelingCache

/-!
# The header of a request

What `CHttp::LineParse` and `CHttp::ParseMethod` make of the lines of a request:
the members that the model of `CHttp` leaves open.
-/

namespace HeapHttpd

namespace Http1

open General
open Tunneling (fieldValue isField stringBefore crlf)

/-- `AUTH_SCHEME`. -/
inductive AuthScheme
  | none
  | basic
  | digest
  deriving DecidableEq, Repr

/-- `HTTPTunneling`. -/
inductive TunnelingConnection
  | none
  | withoutConnect
  | withoutConnectSsl
  | withConnect
  deriving DecidableEq, Repr

/-- `WebSocket_HandShake`. -/
inductive WebSocketHandShake
  | none
  | sync
  | ack
  | nak
  deriving DecidableEq, Repr

/-- `m_http_tunneling_backend_address` and its companions. -/
structure Backend where
  address : List UInt8
  port : Nat
  url : List UInt8
  deriving DecidableEq

/-- What `WWW_Auth` returns and leaves in its arguments. -/
structure AuthAnswer where
  passed : Bool
  username : List UInt8
  keywords : List UInt8
  deriving DecidableEq

/-- A call of `WWW_Auth`: for which of the two headers, and its result. -/
structure AuthCall where
  proxy : Bool
  passed : Bool
  deriving DecidableEq

/-- A `map<string, string>`. -/
abbrev StringMap := List (List UInt8 × List UInt8)

def StringMap.set (name value : List UInt8) (entries : StringMap) : StringMap :=
  OrderedMap.set stringBefore name value entries

/-- The members of `CHttp` that the lines of a header set, with the calls of
`WWW_Auth` they led to. -/
structure RequestHeader where
  requestMethod : HttpMethod
  metaVars : StringMap
  requestHdr : StringMap
  headerContent : List UInt8
  resource : List UInt8
  uri : List UInt8
  querystring : List UInt8
  tunnelingConnection : TunnelingConnection
  backend : Backend
  backup1 : Backend
  backup2 : Backend
  keepAlive : Bool
  protocolUpgrade : Bool
  upgradeProtocol : List UInt8
  webSocketHandShake : WebSocketHandShake
  boundary : List UInt8
  cookie : List UInt8
  hostAddr : List UInt8
  hostPort : Nat
  username : List UInt8
  passedWwwauth : Bool
  passedProxyauth : Bool
  requestNoCache : Bool
  authCalls : List AuthCall
  deriving DecidableEq

/-- The members as the constructor sets them, with what it knows of the server. -/
def RequestHeader.new (keepAlive : Bool) (metaVars : StringMap) : RequestHeader :=
  { requestMethod := .get
    metaVars
    requestHdr := []
    headerContent := []
    resource := []
    uri := []
    querystring := []
    tunnelingConnection := .none
    backend := ⟨[], 0, []⟩
    backup1 := ⟨[], 0, []⟩
    backup2 := ⟨[], 0, []⟩
    keepAlive
    protocolUpgrade := false
    upgradeProtocol := []
    webSocketHandShake := .none
    boundary := []
    cookie := []
    hostAddr := []
    hostPort := 0
    username := []
    passedWwwauth := false
    passedProxyauth := false
    requestNoCache := false
    authCalls := [] }

/-- What the lines of a request meet: the configuration of the reverse proxy, with
what its extensions make of a line and whether they end the search, and `WWW_Auth`
on the scheme, the credentials, the user name it finds and the method. -/
structure Site where
  enableHttpReverseProxy : Bool
  reverseExtList : List (List UInt8 → List UInt8 × Bool)
  wwwAuth : AuthScheme → List UInt8 → List UInt8 → HttpMethod → AuthAnswer

/-! ## The request line -/

/-- `val`. -/
def hexValue (ch : UInt8) : UInt8 :=
  if 0x30 ≤ ch ∧ ch ≤ 0x39 then ch - 0x30
  else if 0x41 ≤ ch ∧ ch ≤ 0x46 then ch - 0x41 + 0x0a
  else if 0x61 ≤ ch ∧ ch ≤ 0x66 then ch - 0x61 + 0x0a
  else 0x3f

/-- Two digits of an escape, on what the variable `cint` held. -/
def escaped (cint high low : UInt8) : UInt8 :=
  (((cint <<< 4) ||| hexValue high) <<< 4) ||| hexValue low

/-- The loop of `NIU_URLFORMAT_DECODE` on a little-endian machine.  Behind the end
of its argument lie zeros. -/
def urlFormatDecode : Nat → List UInt8 → List UInt8
  | 0, _ => []
  | _ + 1, [] => []
  | passes + 1, ch :: rest =>
      if ch = 0x2b then 0x20 :: urlFormatDecode passes rest
      else if ch = 0x25 then
        let digit (index : Nat) := rest.getD index 0
        if digit 0 ≠ 0x75 then
          escaped 0 (digit 0) (digit 1) :: urlFormatDecode passes (rest.drop 2)
        else
          let first := escaped 0 (digit 3) (digit 4)
          first :: escaped first (digit 1) (digit 2) :: urlFormatDecode passes (rest.drop 5)
      else ch :: urlFormatDecode passes rest

/-- `reverse_delivery` of the extensions, one after another. -/
def reverseDelivery : List (List UInt8 → List UInt8 × Bool) → List UInt8 → List UInt8
  | [], strtext => strtext
  | extension :: reverseExtList, strtext =>
      let (newMethodUrl, skip) := extension strtext
      if skip then cString newMethodUrl
      else reverseDelivery reverseExtList (cString newMethodUrl)

/-- `atoi` into an `unsigned short`. -/
def portOf (text : List UInt8) : Nat :=
  (atoll text % 65536).toNat

/-- The address and the port of a host, with the port that stands for none. -/
def hostOf (port : Nat) (szHost : List UInt8) : Backend :=
  { address := strtrim (szHost.takeWhile (· ≠ 0x3a))
    port :=
      if 0x3a ∈ szHost then portOf (szHost.dropWhile (· ≠ 0x3a)).tail else port
    url := [] }

/-- The URL of a backend behind the reverse proxy. -/
def backendUrl (ssl : Bool) (backend : Backend) (relatived : List UInt8) : List UInt8 :=
  octets (if ssl then "https://" else "http://") ++ backend.address ++ octets ":" ++
    octets (toString backend.port) ++ relatived

namespace RequestHeader

/-- `ParseMethod` on an absolute URL for the reverse proxy, behind its first seven
octets: up to three hosts, and the path. -/
def reverseProxyUrl (ssl : Bool) (behind : List UInt8) (header : RequestHeader) :
    RequestHeader × List UInt8 :=
  let isHost (ch : UInt8) : Bool := ch ≠ 0x2f && ch ≠ 0x7c
  let named (backend : Backend) (relatived : List UInt8) : Backend :=
    if backend.address = [] then backend
    else { backend with url := backendUrl ssl backend relatived }
  let first := { hostOf 80 (behind.takeWhile isHost) with url := header.backend.url }
  let relatived := behind.dropWhile isHost
  if relatived.head? = some 0x7c then
    let second := { hostOf 80 (relatived.tail.takeWhile isHost) with url := header.backup1.url }
    let relatived := relatived.tail.dropWhile isHost
    if relatived.head? = some 0x7c then
      let third := { hostOf 80 (relatived.tail.takeWhile isHost) with url := header.backup2.url }
      let relatived := relatived.tail.dropWhile isHost
      ({ header with
          backend := { first with url := backendUrl ssl first relatived }
          backup1 := named second relatived
          backup2 := named third relatived }, relatived)
    else
      ({ header with
          backend := { first with url := backendUrl ssl first relatived }
          backup1 := named second relatived
          backup2 := named header.backup2 relatived }, relatived)
  else
    ({ header with
        backend := { first with url := backendUrl ssl first relatived }
        backup1 := named header.backup1 relatived
        backup2 := named header.backup2 relatived }, relatived)

/-- `ParseMethod` on a path. -/
def parsePath (strtext : List UInt8) (header : RequestHeader) : RequestHeader :=
  let ends (ch : UInt8) : Bool := ch = 0x20 || ch = 0x09 || ch = 0x0d || ch = 0x0a
  let path := if strtext.head? = some 0x2f then [] else strtext.dropWhile (· ≠ 0x2f)
  let szResource := path.takeWhile fun ch => ch ≠ 0x3f && !ends ch
  let behind := path.drop szResource.length
  let querystring :=
    if behind.head? = some 0x3f then behind.tail.takeWhile fun ch => !ends ch else []
  let resource := urlFormatDecode szResource.length szResource
  let uri := if querystring = [] then resource else resource ++ octets "?" ++ querystring
  { header with
    resource, uri, querystring
    metaVars := (header.metaVars.set (octets "REQUEST_URI") (cString uri)).set
      (octets "QUERY_STRING") querystring }

/-- `CHttp::ParseMethod`, with what it makes of the line. -/
def parseMethod (site : Site) (strtext : List UInt8) (header : RequestHeader) :
    RequestHeader × List UInt8 :=
  let isMethod (ch : UInt8) : Bool := (0x41 ≤ ch && ch ≤ 0x5a) || ch = 0x20 || ch = 0x09
  let szMethod := strtext.takeWhile isMethod
  if strncasecmp szMethod (octets "CONNECT ") 8 then
    let szHost := (strtext.drop szMethod.length).takeWhile (· ≠ 0x20)
    ({ header with
        tunnelingConnection := .withConnect
        backend := { hostOf 443 szHost with url := header.backend.url } }, strtext)
  else
    let strtext :=
      if site.enableHttpReverseProxy then reverseDelivery site.reverseExtList strtext
      else strtext
    let pTemp := strtext.drop szMethod.length
    if strncasecmp pTemp (octets "http://") 7 || strncasecmp pTemp (octets "https://") 8 then
      let ssl : Bool := pTemp[4]? = some 0x73
      let header := { header with
        tunnelingConnection := if ssl then .withoutConnectSsl else .withoutConnect }
      let behind := pTemp.drop 7
      if site.enableHttpReverseProxy then
        let (header, relatived) := header.reverseProxyUrl ssl behind
        (header, szMethod ++ relatived)
      else
        let szHost := behind.takeWhile (· ≠ 0x2f)
        ({ header with
            backend := { hostOf 80 szHost with url := strtrim (pTemp.takeWhile (· ≠ 0x20)) } },
          szMethod ++ behind.drop szHost.length)
    else (header.parsePath strtext, strtext)

end RequestHeader

/-- The name of a method. -/
def methodName : HttpMethod → List UInt8
  | .options => octets "OPTIONS"
  | .get => octets "GET"
  | .head => octets "HEAD"
  | .post => octets "POST"
  | .put => octets "PUT"
  | .delete => octets "DELETE"
  | .trace => octets "TRACE"
  | .connect => octets "CONNECT"

/-! ## Header fields -/

/-- Whether `strcasestr` finds a string. -/
def strcasestr (text literal : List UInt8) : Bool :=
  contains (text.map loch) (literal.map loch)

/-- The branches of `LineParse` for a header field. -/
inductive FieldKind
  | connection
  | upgrade
  | contentLength
  | contentType
  | cookie
  | host
  | authorization (scheme : AuthScheme)
  | proxyAuthorization (scheme : AuthScheme)
  | cacheControl
  | pragma
  | other
  deriving DecidableEq, Repr

/-- The branch that a line takes. -/
def fieldKind (strtext : List UInt8) : FieldKind :=
  if isField "Connection:" strtext then .connection
  else if isField "Upgrade:" strtext then .upgrade
  else if isField "Content-Length:" strtext then .contentLength
  else if isField "Content-Type:" strtext then .contentType
  else if isField "Cookie:" strtext then .cookie
  else if isField "Host:" strtext then .host
  else if isField "Authorization: Basic" strtext then .authorization .basic
  else if isField "Authorization: Digest" strtext then .authorization .digest
  else if isField "Proxy-Authorization: Basic" strtext then .proxyAuthorization .basic
  else if isField "Proxy-Authorization: Digest" strtext then .proxyAuthorization .digest
  else if isField "Cache-Control:" strtext then .cacheControl
  else if isField "Pragma:" strtext then .pragma
  else .other

/-- How the credentials of a scheme are introduced. -/
def schemeName : AuthScheme → String
  | .none => ""
  | .basic => "Basic"
  | .digest => "Digest"

namespace RequestHeader

/-- `Connection:`. -/
def readConnection (strConnection : List UInt8) (header : RequestHeader) : RequestHeader :=
  let header := { header with
    keepAlive :=
      if strcasestr strConnection (octets "Close") then false
      else if strcasestr strConnection (octets "Keep-Alive") then true
      else header.keepAlive }
  if strcasestr strConnection (octets "Upgrade") then
    { header with
      protocolUpgrade := true
      webSocketHandShake :=
        if strcasecmp header.upgradeProtocol (octets "websocket") then .sync
        else header.webSocketHandShake }
  else header

/-- `Upgrade:`. -/
def readUpgrade (upgradeProtocol : List UInt8) (header : RequestHeader) : RequestHeader :=
  if header.protocolUpgrade then
    { header with
      upgradeProtocol
      webSocketHandShake :=
        if strcasecmp upgradeProtocol (octets "websocket") then .sync
        else header.webSocketHandShake }
  else header

/-- `Content-Type:`, less the type. -/
def readContentType (strtext : List UInt8) (header : RequestHeader) : RequestHeader :=
  let header := { header with
    metaVars := header.metaVars.set (octets "CONTENT_TYPE") (fieldValue "Content-Type:" strtext) }
  if contains strtext (octets "application/x-www-form-urlencoded") then header
  else if contains strtext (octets "multipart/form-data") then
    { header with boundary := fieldValue "boundary=" strtext }
  else header

/-- `Host:`. -/
def readHost (value : List UInt8) (header : RequestHeader) : RequestHeader :=
  let hostAddr := strcutBefore value 0x3a
  { header with hostAddr, hostPort := portOf (strcutAfter hostAddr 0x3a) }

/-- `Authorization:`, with the credentials. -/
def readAuthorization (site : Site) (scheme : AuthScheme) (strauth : List UInt8)
    (header : RequestHeader) : RequestHeader :=
  let answer := site.wwwAuth scheme strauth header.username header.requestMethod
  let metaVars := header.metaVars.set (octets "AUTH_TYPE") (octets (schemeName scheme))
  let metaVars :=
    if answer.passed then metaVars.set (octets "REMOTE_USER") answer.username else metaVars
  { header with
    username := answer.username
    passedWwwauth := header.passedWwwauth || answer.passed
    authCalls := header.authCalls ++ [⟨false, answer.passed⟩]
    metaVars :=
      match scheme with
      | .digest => metaVars.set (octets "PHP_AUTH_DIGEST") answer.keywords
      | _ =>
          (metaVars.set (octets "PHP_AUTH_USER") answer.username).set
            (octets "PHP_AUTH_UPW") answer.keywords }

/-- `Proxy-Authorization:`, with the credentials. -/
def readProxyAuthorization (site : Site) (scheme : AuthScheme) (strauth : List UInt8)
    (header : RequestHeader) : RequestHeader :=
  let answer := site.wwwAuth scheme strauth header.username header.requestMethod
  { header with
    username := answer.username
    passedProxyauth := header.passedProxyauth || answer.passed
    authCalls := header.authCalls ++ [⟨true, answer.passed⟩] }

/-- `Cache-Control:`. -/
def readCacheControl (strcache : List UInt8) (header : RequestHeader) : RequestHeader :=
  { header with
    requestNoCache := header.requestNoCache ||
      (strcasecmp strcache (octets "no-cache") || strcasecmp strcache (octets "no-store")) }

/-- `Pragma:`. -/
def readPragma (strcache : List UInt8) (header : RequestHeader) : RequestHeader :=
  { header with
    requestNoCache := header.requestNoCache || strcasecmp strcache (octets "no-cache") }

/-- The branch of a line. -/
def readField (site : Site) (strtext : List UInt8) (header : RequestHeader) :
    FieldKind → RequestHeader
  | .connection => header.readConnection (fieldValue "Connection:" strtext)
  | .upgrade => header.readUpgrade (fieldValue "Upgrade:" strtext)
  | .contentType => header.readContentType strtext
  | .cookie =>
      { header with cookie := header.cookie ++ fieldValue "Cookie:" strtext ++ octets "; " }
  | .host => header.readHost (strcutFrom (octets "Host: ") strtext)
  | .authorization scheme =>
      header.readAuthorization site scheme
        (strcutFrom (octets ("Authorization: " ++ schemeName scheme ++ " ")) strtext)
  | .proxyAuthorization scheme =>
      header.readProxyAuthorization site scheme
        (strcutFrom (octets ("Proxy-Authorization: " ++ schemeName scheme ++ " ")) strtext)
  | .cacheControl => header.readCacheControl (fieldValue "Cache-Control:" strtext)
  | .pragma => header.readPragma (fieldValue "Pragma:" strtext)
  | .contentLength | .other => header

/-- A line is kept, and its value put under its name. -/
def storeField (strtext : List UInt8) (header : RequestHeader) : RequestHeader :=
  let header := { header with
    headerContent :=
      if isField "Proxy-Authorization:" strtext then header.headerContent
      else header.headerContent ++ strtext ++ crlf }
  let strSpecVarName := strtrim (strcutBefore strtext 0x3a)
  if strSpecVarName = [] then header
  else
    let strSpecVarValue := strtrim (strcutAfter strtext 0x3a)
    let metaName := (octets "HTTP_" ++ strSpecVarName).map fun ch =>
      hich (if ch = 0x2d then 0x5f else ch)
    { header with
      requestHdr := header.requestHdr.set strSpecVarName strSpecVarValue
      metaVars := header.metaVars.set metaName strSpecVarValue }

/-- A line that is not blank. -/
def readLine (site : Site) (strtext : List UInt8) (header : RequestHeader) : RequestHeader :=
  match methodOf strtext with
  | some method =>
      let header := { header with
        requestMethod := method
        metaVars := header.metaVars.set (octets "REQUEST_METHOD") (methodName method) }
      let (header, strtext) := header.parseMethod site strtext
      { header with headerContent := header.headerContent ++ strtext ++ crlf }
  | none => (header.storeField strtext).readField site strtext (fieldKind strtext)

end RequestHeader

/-- `CHttp::LineParse` up to a blank line, and whether it met one. -/
def CHttp.lineParse (site : Site) (text : List UInt8) (http1 : CHttp RequestHeader) :
    CHttp RequestHeader × Bool :=
  let parsed := Http1.lineParse (RequestHeader.readLine site) text http1
  if parsed.2 then
    ({ parsed.1 with
        rest := { parsed.1.rest with headerContent := parsed.1.rest.headerContent ++ crlf } },
      true)
  else parsed

end Http1

end HeapHttpd
