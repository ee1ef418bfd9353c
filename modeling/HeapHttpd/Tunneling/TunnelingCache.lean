import HeapHttpd.Library.OrderedMap
import HeapHttpd.Tunneling.HttpClient

/-!
# The tunneling cache

The entries of `memory_cache` for relayed responses, what `http_client` puts into them
when it is destroyed, and the header and content that are sent from an entry.
-/

namespace HeapHttpd

namespace Tunneling

open General

/-- `std::string`'s order. -/
def stringBefore : List UInt8 → List UInt8 → Bool
  | [], [] => false
  | [], _ :: _ => true
  | _ :: _, [] => false
  | first :: rest, second :: others =>
      first < second || (first = second && stringBefore rest others)

/-- `CHttpResponseHdr`, less the texts that do not go into its header: a map from names
to values, and the entry of `HttpStatusText`, once it is set. -/
structure CHttpResponseHdr where
  mapHeader : List (List UInt8 × List UInt8)
  statusText : Option (List UInt8 × List UInt8)

/-- The names that the constructor puts into the map without a value. -/
def blankNames : List String :=
  ["Accept-Ranges", "Access-Control-Allow-Origin", "Accept-Patch", "Age", "Allow",
    "Cache-Control", "Connection", "Content-Disposition", "Content-Encoding",
    "Content-Language", "Content-Length", "Content-Location", "Content-MD5", "Content-Range",
    "Content-Type", "ETag", "Expires", "Last-Modified", "Link", "Location", "P3P", "Pragma",
    "Proxy-Authenticate", "Public-Key-Pins", "Refresh", "Retry-After", "Set-Cookie",
    "Strict-Transport-Security", "Trailer", "Transfer-Encoding", "Upgrade", "Vary", "Via",
    "Warning", "WWW-Authenticate", "X-Frame-Options", "X-Powered-By"]

/-- `map::insert`, for names that differ. -/
def insertNames (names : List (List UInt8 × List UInt8)) : List (List UInt8 × List UInt8) :=
  names.foldr (fun entry entries => OrderedMap.set stringBefore entry.1 entry.2 entries) []

/-- What the constructor puts into the map, at a date. -/
def initialNames (date : List UInt8) : List (List UInt8 × List UInt8) :=
  (octets "Date", date) :: (octets "Server", versionString) ::
    blankNames.map fun name => (octets name, [])

namespace CHttpResponseHdr

/-- The constructor, at a date. -/
def new (date : List UInt8) : CHttpResponseHdr :=
  { mapHeader := insertNames (initialNames date), statusText := none }

/-- `SetField`. -/
def setField (name : String) (value : List UInt8) (hdr : CHttpResponseHdr) : CHttpResponseHdr :=
  { hdr with mapHeader := OrderedMap.set stringBefore (octets name) value hdr.mapHeader }

/-- `SetField` behind the test for an empty value. -/
def setGiven (name : String) (value : List UInt8) (hdr : CHttpResponseHdr) : CHttpResponseHdr :=
  if value ≠ [] then hdr.setField name value else hdr

/-- `SetStatusCode` with `SC200`. -/
def setStatusCode200 (hdr : CHttpResponseHdr) : CHttpResponseHdr :=
  { hdr.setField "Accept-Ranges" (octets "bytes") with
    statusText := some (octets "200", octets "OK") }

/-- `Text`: values that are empty are left out. -/
def text (hdr : CHttpResponseHdr) : List UInt8 :=
  let (code, reason) := hdr.statusText.getD ([], [])
  octets "HTTP/1.1 " ++ code ++ octets " " ++ reason ++ crlf ++
    hdr.mapHeader.flatMap fun entry =>
      if entry.2 ≠ [] then entry.1 ++ octets ": " ++ entry.2 ++ crlf else []

end CHttpResponseHdr

/-- `TUNNELING_CACHE_DATA`, less its access time, which every look at an entry sets
anew. -/
structure TunnelingCacheData where
  buf : List UInt8
  type : List UInt8
  allow : List UInt8
  encoding : List UInt8
  language : List UInt8
  cache : List UInt8
  etag : List UInt8
  expires : List UInt8
  lastModified : List UInt8
  server : List UInt8
  via : List UInt8
  deriving DecidableEq

/-- `tunneling_cache`. -/
structure TunnelingCache where
  cacheData : TunnelingCacheData
  cacheMaxTime : Int
  deriving DecidableEq

/-- The constructor of `tunneling_cache`, at a time. -/
def TunnelingCache.new (now : Int) (buf type cache allow encoding language etag lastModified expires
    server via : List UInt8) (maxAge : Nat) : TunnelingCache :=
  { cacheData :=
      { buf, type, cache, allow, encoding, language, etag, lastModified, expires, server, via }
    cacheMaxTime := now + maxAge }

/-- `tunneling_fresh`. -/
def TunnelingCache.fresh (now : Int) (entry : TunnelingCache) : Bool :=
  !decide (entry.cacheMaxTime < now)

/-- `memory_cache`, as far as it is about relayed responses. -/
structure MemoryCache where
  tunnelingCache : List (List UInt8 × TunnelingCache)
  tunnelingCacheSize : Nat

namespace MemoryCache

/-- `_find_oldest_tunneling_`: both entries are locked, which makes their access times
the same, before they are compared, so the smaller one is found. -/
def findOldest : List (List UInt8 × TunnelingCache) → Option (List UInt8 × TunnelingCache)
  | [] => none
  | first :: entries =>
      some (entries.foldl
        (fun oldest entry =>
          if entry.2.cacheData.buf.length < oldest.2.cacheData.buf.length then entry else oldest)
        first)

/-- `_find_tunneling_`. -/
def findTunneling (now : Int) (name : List UInt8) (cache : MemoryCache) :
    Option TunnelingCache :=
  match OrderedMap.find name cache.tunnelingCache with
  | none => none
  | some entry => if entry.fresh now then some entry else none

/-- `_push_tunneling_`.  A cache without entries that is full all the same has no
oldest entry to remove, which the source does not look at. -/
def pushTunneling (totalTunnelingCacheSize : Nat) (now : Int) (name buf type cache allow encoding
    language lastModify etag expires server via : List UInt8) (maxAge : Nat)
    (memory : MemoryCache) : MemoryCache :=
  let entry := TunnelingCache.new now buf type cache allow encoding language etag lastModify
    expires server via maxAge
  match OrderedMap.find name memory.tunnelingCache with
  | some old =>
      { tunnelingCache := OrderedMap.set stringBefore name entry memory.tunnelingCache
        tunnelingCacheSize :=
          memory.tunnelingCacheSize - old.cacheData.buf.length + buf.length }
  | none =>
      let memory :=
        if memory.tunnelingCacheSize < totalTunnelingCacheSize then memory
        else
          match findOldest memory.tunnelingCache with
          | none => memory
          | some oldest =>
              { tunnelingCache := OrderedMap.erase oldest.1 memory.tunnelingCache
                tunnelingCacheSize :=
                  memory.tunnelingCacheSize - oldest.2.cacheData.buf.length }
      { tunnelingCache := OrderedMap.set stringBefore name entry memory.tunnelingCache
        tunnelingCacheSize := memory.tunnelingCacheSize + buf.length }

end MemoryCache

namespace HttpClient

/-- The entry that the destructor makes. -/
def entry (now : Int) (client : HttpClient) : TunnelingCache :=
  let fields := client.info.fields
  TunnelingCache.new now client.cached fields.contentType fields.cacheControl fields.allow
    fields.encoding fields.language fields.etag fields.lastModified fields.expires fields.server
    fields.via
    (if 0 < client.info.cacheSharedMaxAge then client.info.cacheSharedMaxAge
      else client.info.cacheMaxAge).toNat

/-- The destructor. -/
def destroy (setting : Setting) (totalTunnelingCacheSize : Nat) (now : Int)
    (client : HttpClient) (memory : MemoryCache) : MemoryCache :=
  if client.stores setting then
    let fields := client.info.fields
    memory.pushTunneling totalTunnelingCacheSize now client.httpTunnelingUrl client.cached
      fields.contentType fields.cacheControl fields.allow fields.encoding fields.language
      fields.lastModified fields.etag fields.expires fields.server fields.via
      (if 0 < client.info.cacheSharedMaxAge then client.info.cacheSharedMaxAge
        else client.info.cacheMaxAge).toNat
  else memory

end HttpClient

/-- A stored response is found under the URL of the client. -/
theorem HttpClient.find_destroy {setting : Setting} {client : HttpClient}
    (stores : client.stores setting = true) (totalTunnelingCacheSize : Nat) (now : Int)
    (memory : MemoryCache) :
    OrderedMap.find client.httpTunnelingUrl
        (client.destroy setting totalTunnelingCacheSize now memory).tunnelingCache =
      some (client.entry now) := by
  rw [HttpClient.destroy, if_pos stores]
  simp only [MemoryCache.pushTunneling]
  split <;> rw [OrderedMap.find_set, if_pos rfl] <;> rfl

/-- The header that `acquire_cache_relay_to_client` makes of an entry, at a date. -/
def cacheHeader (setting : Setting) (date : List UInt8) (cacheData : TunnelingCacheData) :
    CHttpResponseHdr :=
  let hdr := (CHttpResponseHdr.new date).setStatusCode200
  let hdr := hdr.setGiven "Content-Type" cacheData.type
  let hdr := hdr.setGiven "Cache-Control" cacheData.cache
  let hdr := hdr.setGiven "Allow" cacheData.allow
  let hdr := hdr.setGiven "Content-Encoding" cacheData.encoding
  let hdr := hdr.setGiven "Content-Language" cacheData.language
  let hdr := hdr.setGiven "ETag" cacheData.etag
  let hdr := hdr.setField "Content-Length" (octets (toString cacheData.buf.length))
  let hdr := hdr.setGiven "Expires" cacheData.expires
  let hdr := hdr.setGiven "Last-Modified" cacheData.lastModified
  let hdr := hdr.setField "Connection" (octets "Keep-Alive")
  hdr.setField "Via"
    (if cacheData.via = [] then viaEntry setting
    else cacheData.via ++ octets ", " ++ viaEntry setting)

/-- What `acquire_cache_relay_to_client` hands to `client_send`, until a call fails, and
whether none failed. -/
def sendCache (setting : Setting) (date : List UInt8) (cacheData : TunnelingCacheData)
    (sent : List (List UInt8)) : List (List UInt8) × Bool :=
  let header := (cacheHeader setting date cacheData).text ++ crlf
  if setting.sendFails sent.length then (sent ++ [header], false)
  else if cacheData.buf = [] then (sent ++ [header], true)
  else (sent ++ [header] ++ [cacheData.buf], !setting.sendFails (sent.length + 1))

end Tunneling

end HeapHttpd
