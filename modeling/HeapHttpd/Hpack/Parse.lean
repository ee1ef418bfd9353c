import HeapHttpd.General
import HeapHttpd.Huffman.Coder
import HeapHttpd.Library.PrefixInteger

/-!
# Parsing of header blocks

`hpack::parse` and what it calls, as in `hpack.cpp`.  A pointer is the list of
bytes that can be read from it on.  Lengths and positions are held in C `int`s,
and their overflow is a fault.
-/

namespace HeapHttpd

namespace Hpack

open General PrefixInteger

/-- `MAX_BYTES_OF_LENGTH`. -/
def maxBytesOfLength : Nat := 256

/-- The continuation loop of `decode_integer`, with `room` octets before
`buf_end`; `added_value` is shifted by `m` bits. -/
def decodeIntegerLoop : Nat → List UInt8 → Nat → Nat → Nat → Outcome (Nat × Nat)
  | 0, _, _, _, _ => .err
  | _ + 1, [], _, _, _ => .fault
  | room + 1, p :: memory, m, dst, length =>
      let addedValue := p.toNat % 128
      if 32 ≤ m then .fault
      else if (2 ^ 32 - 1) >>> m < addedValue then .err
      else
        let dst := (dst + addedValue <<< m) % 2 ^ 32
        if 0x80 ≤ p.toNat then decodeIntegerLoop room memory (m + 7) dst (length + 1)
        else .ok (dst, length + 1)

/-- `decode_integer`: the number and the count of octets it takes. -/
def decodeInteger (memory : List UInt8) (room n : Nat) : Outcome (Nat × Nat) :=
  if room = 0 then .err
  else
    match memory with
    | [] => .fault
    | p :: rest =>
        let dst := p.toNat % 2 ^ n
        if dst = 2 ^ n - 1 then decodeIntegerLoop (room - 1) rest 0 dst 1
        else .ok (dst, 1)

/-- `decode_http2_header_index`. -/
def decodeHttp2HeaderIndex (memory : List UInt8) ( nprefix : Nat) : Outcome (Nat × Nat) :=
  decodeInteger memory maxBytesOfLength nprefix

/-- `decode_http2_header_string`: the length of the string and the count of
octets before it. -/
def decodeHttp2HeaderString (memory : List UInt8) : Outcome (Nat × Nat) :=
  decodeInteger memory maxBytesOfLength 7

/-- `parsed += …`. -/
def advance (parsed count : Nat) : Outcome Nat :=
  if parsed + count < 2 ^ 31 then .ok (parsed + count) else .fault

/-- The octets of a string literal as copied into `out_buff`.  A raw string is
copied with the octet behind it. -/
def readString (huffman : Bool) (stringPtr : List UInt8) (stringLen : Nat) :
    Outcome (List UInt8) :=
  if huffman then
    if 2 ^ 31 ≤ stringLen * 8 + 1 then .fault
    else do
      let out ← Huffman.hfStringDecode Huffman.hfInit stringPtr stringLen (stringLen * 8 + 1)
      .ok (cString out)
  else if 2 ^ 31 ≤ stringLen + 1 ∨ stringPtr.length < stringLen + 1 then .fault
  else .ok (cString (stringPtr.take stringLen))

/-- One string literal at `memory`, and the position behind it. -/
def parseString (memory : List UInt8) (parsed : Nat) : Outcome (List UInt8 × Nat) := do
  let (stringLen, integerLen) ← decodeHttp2HeaderString memory
  let parsed ← advance parsed (integerLen + stringLen)
  let out ← readString (0x80 ≤ firstOctet memory) (memory.drop integerLen) stringLen
  .ok (out, parsed)

/-- `index_type_e`. -/
inductive IndexType
  | indexed
  | withIndexingIndexedName
  | withIndexingNewName
  | withoutIndexingIndexedName
  | withoutIndexingNewName
  | neverIndexedIndexedName
  | neverIndexedNewName
  | error
  deriving DecidableEq, Repr

/-- `HTTP2_Header`. -/
structure Header where
  indexType : IndexType
  index : Nat
  name : List UInt8
  value : List UInt8
  deriving DecidableEq, Repr

/-- The tag of a literal: its index type, its index and the position behind it. -/
def parseLiteralTag (memory : List UInt8) (parsed : Nat) :
    Outcome (IndexType × Nat × Nat) :=
  let tag := firstOctet memory
  if tag / 64 = 1 then do
    let (fIndex, integerLen) ← decodeHttp2HeaderIndex memory 6
    let parsed ← advance parsed integerLen
    .ok (if 0 < tag % 64 then .withIndexingIndexedName else .withIndexingNewName,
      fIndex, parsed)
  else do
    let (fIndex, integerLen) ← decodeHttp2HeaderIndex memory 4
    let parsed ← advance parsed integerLen
    if tag / 16 = 0 then
      .ok (if 0 < tag % 16 then .withoutIndexingIndexedName else .withoutIndexingNewName,
        tag % 16, parsed)
    else if tag / 16 = 1 then
      .ok (if 0 < tag % 16 then .neverIndexedIndexedName else .neverIndexedNewName,
        fIndex, parsed)
    else .err

/-- One pass of the loop of `hpack::parse`: the header at `parsed` and the
position behind it. -/
def parseField (field : List UInt8) (parsed : Nat) : Outcome (Header × Nat) :=
  let currentField := field.drop parsed
  match currentField with
  | [] => .fault
  | tag :: _ =>
      if 0x80 ≤ tag.toNat then do
        let (fIndex, integerLen) ← decodeHttp2HeaderIndex currentField 7
        let parsed ← advance parsed integerLen
        .ok ({ indexType := .indexed, index := fIndex, name := [], value := [] }, parsed)
      else do
        let (indexType, index, parsed) ← parseLiteralTag currentField parsed
        if 0 < index then
          let (value, parsed) ← parseString (field.drop parsed) parsed
          .ok ({ indexType, index, name := [], value }, parsed)
        else
          let (name, parsed) ← parseString (field.drop parsed) parsed
          let (value, parsed) ← parseString (field.drop parsed) parsed
          .ok ({ indexType, index, name, value }, parsed)

/-- What a call of `hpack::parse` returns, and the headers it has appended to
`m_decoded_headers`. -/
structure Parsed where
  code : Int
  headers : List Header
  deriving DecidableEq, Repr

/-- The loop of `hpack::parse`.  Every pass consumes an octet, so `len` passes
are enough. -/
def parseLoop (field : List UInt8) (len : Nat) :
    Nat → Nat → List Header → Outcome Parsed
  | 0, parsed, headers => if parsed < len then .fault else .ok ⟨0, headers⟩
  | passes + 1, parsed, headers =>
      if parsed < len then
        match parseField field parsed with
        | .ok (header, parsed) => parseLoop field len passes parsed (headers ++ [header])
        | .err => .ok ⟨-1, headers⟩
        | .fault => .fault
      else .ok ⟨0, headers⟩

/-- `hpack::parse` of `len` bytes of the memory `field`. -/
def parse (field : List UInt8) (len : Nat) : Outcome Parsed :=
  parseLoop field len len 0 []

end Hpack

end HeapHttpd
