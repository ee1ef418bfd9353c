import HeapHttpd.General
import HeapHttpd.Library.Wire

/-!
# What goes to a FastCGI application

The octets that `fastcgi` sends for a request, and the rules by which an application
takes records and name-value pairs from them.
-/

namespace HeapHttpd

namespace Cgi

open Wire

/-! ## The rules -/

namespace RecordType

def beginRequest : UInt8 := 1
def endRequest : UInt8 := 3
def params : UInt8 := 4
def stdin : UInt8 := 5
def stdout : UInt8 := 6
def stderr : UInt8 := 7

end RecordType

/-- A record as it is read from a connection. -/
structure Record where
  type : UInt8
  requestId : Nat
  content : List UInt8
  padding : List UInt8
  deriving DecidableEq, Repr

/-- The octets that a record takes up. -/
def Record.size (record : Record) : Nat :=
  8 + record.content.length + record.padding.length

/-- The content and the padding of a record. -/
def readContent (type : UInt8) (requestId contentLength paddingLength : Nat)
    (rest : List UInt8) : Option (Record × List UInt8) :=
  match split contentLength rest with
  | none => none
  | some (content, rest) =>
      match split paddingLength rest with
      | none => none
      | some (padding, rest) => some (⟨type, requestId, content, padding⟩, rest)

/-- A record of version 1 is a header, the content and the padding. -/
def readRecord : List UInt8 → Option (Record × List UInt8)
  | version :: type :: idB1 :: idB0 :: lengthB1 :: lengthB0 :: paddingLength :: _ :: rest =>
      if version = 1 then
        readContent type (read [idB1, idB0]) (read [lengthB1, lengthB0]) paddingLength.toNat rest
      else none
  | _ => none

/-- A length is one octet, or four of which the first has its high bit set. -/
def readLength : List UInt8 → Option (Nat × List UInt8)
  | [] => none
  | first :: rest =>
      if first < 0x80 then some (first.toNat, rest)
      else
        match rest with
        | second :: third :: fourth :: rest =>
            some (read [first &&& 0x7f, second, third, fourth], rest)
        | _ => none

/-- The length of the name, that of the value, the name and the value. -/
def readPair (text : List UInt8) : Option ((List UInt8 × List UInt8) × List UInt8) :=
  match readLength text with
  | none => none
  | some (nameLength, rest) =>
      match readLength rest with
      | none => none
      | some (valueLength, rest) =>
          match split nameLength rest with
          | none => none
          | some (name, rest) =>
              match split valueLength rest with
              | none => none
              | some (value, rest) => some ((name, value), rest)

/-! ## The code -/

/-- `FCGI_Header`. -/
def fcgiHeader (type : UInt8) (requestId : UInt16) (contentLength paddingLength : Nat) :
    List UInt8 :=
  [1, type] ++ write 2 requestId.toNat ++ write 2 contentLength ++
    [UInt8.ofNat paddingLength, 0]

/-- `contentLength_16bit`. -/
def contentLength16bit (length : Nat) : Nat :=
  if 0xffff < length then 0xffff else length

/-- `paddingLength`. -/
def paddingLength (contentLength : Nat) : Nat :=
  (8 - contentLength % 8) % 8

/-- What a parameter adds to the length of the content. -/
def paramLength (nameLen valueLen : Nat) : Nat :=
  if 0 < nameLen ∧ 0 < valueLen then
    if nameLen < 0x80 ∧ valueLen < 0x80 then 2 + nameLen + valueLen
    else if nameLen < 0x80 ∧ 0x80 < valueLen then 5 + nameLen + valueLen
    else if 0x80 < nameLen ∧ valueLen < 0x80 then 5 + nameLen + valueLen
    else if 0x80 < nameLen ∧ 0x80 < valueLen then 8 + nameLen + valueLen
    else 0
  else 0

/-- A length in four octets. -/
def longLength (length : Nat) : List UInt8 :=
  (UInt8.ofNat (length / 2 ^ 24) ||| 0x80) :: write 3 length

/-- A parameter as it is sent. -/
def param (name value : List UInt8) : List UInt8 :=
  if 0 < name.length ∧ 0 < value.length then
    if name.length < 0x80 ∧ value.length < 0x80 then
      [UInt8.ofNat name.length, UInt8.ofNat value.length] ++ name ++ value
    else if name.length < 0x80 ∧ 0x80 < value.length then
      UInt8.ofNat name.length :: longLength value.length ++ name ++ value
    else if 0x80 < name.length ∧ value.length < 0x80 then
      longLength name.length ++ [UInt8.ofNat value.length] ++ name ++ value
    else if 0x80 < name.length ∧ 0x80 < value.length then
      longLength name.length ++ longLength value.length ++ name ++ value
    else []
  else []

/-- `contentLength_32bit`. -/
def paramsLength (paramsMap : List (List UInt8 × List UInt8)) : Nat :=
  total (fun entry => paramLength entry.1.length entry.2.length) paramsMap

/-- `SendParams`. -/
def sendParams (requestId : UInt16) (paramsMap : List (List UInt8 × List UInt8)) : List UInt8 :=
  let contentLength := contentLength16bit (paramsLength paramsMap)
  fcgiHeader RecordType.params requestId contentLength (paddingLength contentLength) ++
    paramsMap.flatMap (fun entry => param entry.1 entry.2) ++
    List.replicate (paddingLength contentLength) 0

/-- `SendRequestData`. -/
def sendRequestData (requestId : UInt16) (inbuf : List UInt8) : List UInt8 :=
  let contentLength := contentLength16bit inbuf.length
  fcgiHeader RecordType.stdin requestId contentLength (paddingLength contentLength) ++
    inbuf ++ List.replicate (paddingLength contentLength) 0

/-- `SendEmptyRequestData`. -/
def sendEmptyRequestData (requestId : UInt16) : List UInt8 :=
  fcgiHeader RecordType.stdin requestId 0 0

/-- The body of a request, as `Htdoc::Response` and `SendParamsAndData` send it. -/
def sendBody (requestId : UInt16) (body : List UInt8) : List UInt8 :=
  (if 0 < body.length then sendRequestData requestId body else []) ++
    sendEmptyRequestData requestId

end Cgi

end HeapHttpd
