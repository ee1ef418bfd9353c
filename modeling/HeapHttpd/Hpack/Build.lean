import HeapHttpd.Hpack.Parse
import HeapHttpd.Hpack.StaticTable

/-!
# Building of header blocks

`hpack::build` and what it calls, as in `hpack.cpp`.  A reported failure stands
for a `break` out of the loop over the text.
-/

namespace HeapHttpd

namespace Hpack

open General PrefixInteger

/-- The loop of `encode_integer`, with `room` octets before `buf_end`. -/
def encodeIntegerLoop : Nat → Nat → Option (List UInt8)
  | 0, _ => none
  | room + 1, value =>
      if 128 ≤ value then
        (encodeIntegerLoop room (value / 128)).map
          fun more => UInt8.ofNat (value % 128 + 128) :: more
      else if room = 0 then none
      else some [UInt8.ofNat value]

/-- `encode_integer`; `none` is the result -1. -/
def encodeInteger (room value n : Nat) : Option (List UInt8) :=
  if room = 0 then none
  else if value < 2 ^ n - 1 then some [UInt8.ofNat value]
  else
    (encodeIntegerLoop (room - 1) (value - (2 ^ n - 1))).map
      fun more => UInt8.ofNat (2 ^ n - 1) :: more

/-- `encode_http2_header_index`. -/
def encodeHttp2HeaderIndex ( nprefix length : Nat) : Option (List UInt8) :=
  encodeInteger maxBytesOfLength length nprefix

/-- `encode_http2_header_string`. -/
def encodeHttp2HeaderString (length : Nat) : Option (List UInt8) :=
  encodeInteger maxBytesOfLength length 7

/-- Set the bits of the first octet above its `width` low ones. -/
def withCode (width code : Nat) : List UInt8 → List UInt8
  | [] => []
  | first :: rest => UInt8.ofNat (code * 2 ^ width + first.toNat % 2 ^ width) :: rest

/-- A string in Huffman code behind its length.  The output buffer has
`MAX_HUFFMAN_BUFF_LEN` octets, computed as an `int`. -/
def buildString (text : List UInt8) : Outcome (List UInt8) :=
  if 2 ^ 31 ≤ text.length * 8 + 1 then .fault
  else do
    let outBuff ← Huffman.hfStringEncode text
    match encodeHttp2HeaderString outBuff.length with
    | none => .fault
    | some length => .ok (withCode 7 1 length ++ outBuff)

/-- The loop over the static table: the index type and the tag found so far. -/
def scanTable (name value : List UInt8) :
    List Row → IndexType × Option (List UInt8) → IndexType × Option (List UInt8)
  | [], found => found
  | (key, entryName, entryValue) :: rest, found =>
      if strcasecmp entryName name then
        match encodeHttp2HeaderIndex 6 key with
        | none => (.withIndexingIndexedName, none)
        | some tag =>
            if strcasecmp entryValue value then
              (.indexed, (encodeHttp2HeaderIndex 7 key).map (withCode 7 1))
            else scanTable name value rest (.withIndexingIndexedName, some (withCode 6 1 tag))
      else scanTable name value rest found

/-- The set `0-9`. -/
def isDigit (ch : UInt8) : Bool :=
  0x30 ≤ ch && ch ≤ 0x39

/-- `sscanf` with `"http/1.1%*[^0-9]%[0-9]%*[^0-9]"` into sixteen octets that
are zero. -/
def scanStatusCode (strtextlow : List UInt8) : Outcome (List UInt8) :=
  let text := (cString strtextlow).drop 8
  if text.takeWhile (fun ch => !isDigit ch) = [] then .ok []
  else
    let digits := (text.dropWhile fun ch => !isDigit ch).takeWhile isDigit
    if 16 ≤ digits.length then .fault else .ok digits

/-- The name of a header line. -/
def lineName (currentLine : List UInt8) : List UInt8 :=
  if currentLine.headD 0 = 0x3a then
    0x3a :: strcutBefore (currentLine.drop 1) 0x3a
  else strcutBefore currentLine 0x3a

/-- The value of a header line. -/
def lineValue (currentLine : List UInt8) : List UInt8 :=
  if currentLine.headD 0 = 0x3a then strcutAfter (currentLine.drop 1) 0x3a
  else strcutAfter currentLine 0x3a

/-- The field of one line as it is copied behind the earlier ones. -/
def buildLine (headerStaticTable : List Row) (currentLine : List UInt8) :
    Outcome (List UInt8) :=
  match encodeHttp2HeaderIndex 4 0 with
  | none => .err
  | some tag =>
      let start := (IndexType.neverIndexedNewName, some (withCode 4 1 tag))
      if strncasecmp currentLine (octets "HTTP/1.1") 8 then do
        let statusCode ← scanStatusCode (lowercase currentLine)
        let (indexType, tag) := scanTable (octets ":status") statusCode headerStaticTable start
        let hdrString ←
          if indexType = .withIndexingIndexedName then buildString statusCode else .ok []
        match tag with
        | none => .fault
        | some tag => .ok (tag ++ hdrString)
      else do
        let strName := strtrim (lineName currentLine)
        let strValue := strtrim (lineValue currentLine)
        let strNameLow := lowercase strName
        let (indexType, tag) := scanTable strNameLow strValue headerStaticTable start
        let hdrString ←
          if indexType = .withIndexingIndexedName then buildString strValue
          else if indexType = .neverIndexedNewName then do
            let name ← buildString strNameLow
            let value ← buildString strValue
            .ok (name ++ value)
          else .ok []
        match tag with
        | none => .fault
        | some tag => .ok (tag ++ hdrString)

/-- The loop of `hpack::build` over the index `x` of the text, for the given
number of passes.  The text is cut into strings by overwriting its line ends,
and `lineHeader` is the index `line_header` points to. -/
def buildLoop (headerStaticTable : List Row) :
    Nat → Nat → Nat → List UInt8 → List UInt8 → Outcome (List UInt8)
  | 0, _, _, _, fields => .ok fields
  | passes + 1, x, lineHeader, lines, fields =>
      if lines.getD x 0 = 0x0a ∨ lines.getD x 0 = 0 then
        let lines := lines.set x 0
        if lines.getD lineHeader 0 ≠ 0 then
          let currentLine := strtrim (cString (lines.drop lineHeader))
          if currentLine = [] then
            buildLoop headerStaticTable passes (x + 1) (x + 1) lines fields
          else
            match buildLine headerStaticTable currentLine with
            | .ok field =>
                if 2 ^ 32 ≤ fields.length + field.length then .fault
                else
                  buildLoop headerStaticTable passes (x + 1) (x + 1) lines (fields ++ field)
            | .err => .ok fields
            | .fault => .fault
        else buildLoop headerStaticTable passes (x + 1) lineHeader lines fields
      else buildLoop headerStaticTable passes (x + 1) lineHeader lines fields

/-- `m_field` and `m_len` after `hpack::build`; the length is converted to
`int`. -/
structure Built where
  field : List UInt8
  len : Int
  deriving DecidableEq, Repr

/-- `hpack::build`. -/
def build (http1Headers : List UInt8) (headerStaticTable : List Row) : Outcome Built := do
  if 2 ^ 31 ≤ http1Headers.length + 1 then .fault
  else
    let field ← buildLoop headerStaticTable (http1Headers.length + 1) 0 0 (http1Headers ++ [0]) []
    .ok { field, len := if field.length < 2 ^ 31 then field.length else field.length - 2 ^ 32 }

end Hpack

end HeapHttpd
