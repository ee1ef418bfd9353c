import HeapHttpd.General

/-!
# The static table

`CHttp2::init_header_table`, with the entries in the order of their keys.
-/

namespace HeapHttpd

namespace Hpack

open General

/-- A key of a header table with its name and value. -/
abbrev Row := Nat × List UInt8 × List UInt8

/-- `m_header_static_table`. -/
def headerStaticTable : List Row := [
  (1, octets ":authority", octets ""),
  (2, octets ":method", octets "GET"),
  (3, octets ":method", octets "POST"),
  (4, octets ":path", octets "/"),
  (5, octets ":path", octets "/index.html"),
  (6, octets ":scheme", octets "http"),
  (7, octets ":scheme", octets "https"),
  (8, octets ":status", octets "200"),
  (9, octets ":status", octets "204"),
  (10, octets ":status", octets "206"),
  (11, octets ":status", octets "304"),
  (12, octets ":status", octets "400"),
  (13, octets ":status", octets "404"),
  (14, octets ":status", octets "500"),
  (15, octets "accept-charset", octets ""),
  (16, octets "accept-encoding", octets "gzip, deflate"),
  (17, octets "accept-language", octets ""),
  (18, octets "accept-ranges", octets ""),
  (19, octets "accept", octets ""),
  (20, octets "access-control-allow-origin", octets ""),
  (21, octets "age", octets ""),
  (22, octets "allow", octets ""),
  (23, octets "authorization", octets ""),
  (24, octets "cache-control", octets ""),
  (25, octets "content-disposition", octets ""),
  (26, octets "content-encoding", octets ""),
  (27, octets "content-language", octets ""),
  (28, octets "content-length", octets ""),
  (29, octets "content-location", octets ""),
  (30, octets "content-range", octets ""),
  (31, octets "content-type", octets ""),
  (32, octets "cookie", octets ""),
  (33, octets "date", octets ""),
  (34, octets "etag", octets ""),
  (35, octets "expect", octets ""),
  (36, octets "expires", octets ""),
  (37, octets "from", octets ""),
  (38, octets "host", octets ""),
  (39, octets "if-match", octets ""),
  (40, octets "if-modified-since", octets ""),
  (41, octets "if-none-match", octets ""),
  (42, octets "if-range", octets ""),
  (43, octets "if-unmodified-since", octets ""),
  (44, octets "last-modified", octets ""),
  (45, octets "link", octets ""),
  (46, octets "location", octets ""),
  (47, octets "max-forwards", octets ""),
  (48, octets "proxy-authenticate", octets ""),
  (49, octets "proxy-authorization", octets ""),
  (50, octets "range", octets ""),
  (51, octets "referer", octets ""),
  (52, octets "refresh", octets ""),
  (53, octets "retry-after", octets ""),
  (54, octets "server", octets ""),
  (55, octets "set-cookie", octets ""),
  (56, octets "strict-transport-security", octets ""),
  (57, octets "transfer-encoding", octets ""),
  (58, octets "user-agent", octets ""),
  (59, octets "vary", octets ""),
  (60, octets "via", octets ""),
  (61, octets "www-authenticate", octets "")]

end Hpack

end HeapHttpd
