import HeapHttpd.Huffman.Encoding
import HeapHttpd.Library.PrefixInteger

/-!
# The header block format

The representations drawn in `hpack.h` and the dynamic table size update, as
RFC 7541 defines them: as a relation between octets and what they represent,
and as the encoding a sender produces.
-/

namespace HeapHttpd

namespace Hpack

open PrefixInteger BitString Huffman

/-- Integers of at most 32 bits and at most five octets behind the prefix. -/
def IntegerCode (n : Nat) (bytes : List UInt8) (value : Nat) : Prop :=
  Code n bytes value ∧ bytes.length ≤ 6 ∧ value < 2 ^ 32

/-- String literals, raw or Huffman coded in fewer than `limit` octets. -/
inductive StringLiteral (limit : Nat) : List UInt8 → List UInt8 → Bool → Prop
  | raw (lengthCode text : List UInt8) (length : IntegerCode 7 lengthCode text.length)
      (flag : firstOctet lengthCode < 0x80) :
      StringLiteral limit (lengthCode ++ text) text true
  | huffman (lengthCode enc text : List UInt8) (length : IntegerCode 7 lengthCode enc.length)
      (flag : 0x80 ≤ firstOctet lengthCode) (codes : HuffmanString enc text)
      (short : enc.length < limit) : StringLiteral limit (lengthCode ++ enc) text false

/-- The three kinds of literals. -/
inductive LiteralForm
  | withIndexing
  | withoutIndexing
  | neverIndexed
  deriving DecidableEq, Repr

/-- The width of the index of a literal. -/
def LiteralForm.width : LiteralForm → Nat
  | withIndexing => 6
  | withoutIndexing => 4
  | neverIndexed => 4

/-- The bits in front of the index of a literal. -/
def LiteralForm.mark : LiteralForm → Nat
  | withIndexing => 1
  | withoutIndexing => 0
  | neverIndexed => 1

/-- A header field in one of the seven representations. -/
inductive Field
  | indexed (index : Nat) (positive : 0 < index)
  | indexedName (form : LiteralForm) (index : Nat) (positive : 0 < index) (value : List UInt8)
  | newName (form : LiteralForm) (name value : List UInt8)

/-- The octets that represent a field, and whether they end in a raw string. -/
inductive Representation (limit : Nat) : List UInt8 → Field → Bool → Prop
  | indexed (tag : List UInt8) (index : Nat) (positive : 0 < index)
      (code : IntegerCode 7 tag index) (mark : firstOctet tag / 2 ^ 7 = 1) :
      Representation limit tag (.indexed index positive) false
  | indexedName (form : LiteralForm) (tag valueCode : List UInt8) (index : Nat)
      (positive : 0 < index) (value : List UInt8) (raw : Bool)
      (code : IntegerCode form.width tag index)
      (mark : firstOctet tag / 2 ^ form.width = form.mark)
      (valued : StringLiteral limit valueCode value raw) :
      Representation limit (tag ++ valueCode) (.indexedName form index positive value) raw
  | newName (form : LiteralForm) (tag nameCode valueCode : List UInt8)
      (name value : List UInt8) (nameRaw raw : Bool) (code : IntegerCode form.width tag 0)
      (mark : firstOctet tag / 2 ^ form.width = form.mark)
      (named : StringLiteral limit nameCode name nameRaw)
      (valued : StringLiteral limit valueCode value raw) :
      Representation limit (tag ++ (nameCode ++ valueCode)) (.newName form name value) raw

/-- The octets of a dynamic table size update. -/
def SizeUpdate (bytes : List UInt8) : Prop :=
  ∃ size, IntegerCode 5 bytes size ∧ firstOctet bytes / 2 ^ 5 = 1

/-- Blocks of complete representations and size updates. -/
inductive WellFormed : List UInt8 → Prop
  | nil : WellFormed []
  | field (limit : Nat) (bytes rest : List UInt8) (field : Field) (raw : Bool)
      (represented : Representation limit bytes field raw) (following : WellFormed rest) :
      WellFormed (bytes ++ rest)
  | sizeUpdate (bytes rest : List UInt8) (update : SizeUpdate bytes)
      (following : WellFormed rest) : WellFormed (bytes ++ rest)

/-- Blocks of complete header fields only, and whether they end in a raw
string. -/
inductive FieldBlock (limit : Nat) : List UInt8 → List Field → Bool → Prop
  | nil : FieldBlock limit [] [] false
  | cons (bytes rest : List UInt8) (field : Field) (fields : List Field) (raw behind : Bool)
      (represented : Representation limit bytes field raw)
      (following : FieldBlock limit rest fields behind) :
      FieldBlock limit (bytes ++ rest) (field :: fields) (if fields = [] then raw else behind)

theorem FieldBlock.wellFormed {limit : Nat} {block : List UInt8} {fields : List Field}
    {raw : Bool} (fieldBlock : FieldBlock limit block fields raw) : WellFormed block := by
  induction fieldBlock with
  | nil => exact .nil
  | cons bytes rest field fields raw behind represented _ ih =>
      exact .field limit bytes rest field raw represented ih

/-- A string literal as a sender writes it. -/
def encodeString (huffman : Bool) (text : List UInt8) : List UInt8 :=
  if huffman then
    encode 7 1 (huffmanEncode text).length ++ huffmanEncode text
  else encode 7 0 text.length ++ text

/-- A field and the coding its sender chooses for its strings. -/
structure Transmitted where
  field : Field
  huffmanName : Bool
  huffmanValue : Bool

/-- A field as a sender writes it. -/
def Transmitted.encode (sent : Transmitted) : List UInt8 :=
  match sent.field with
  | .indexed index _ => PrefixInteger.encode 7 1 index
  | .indexedName form index _ value =>
      PrefixInteger.encode form.width form.mark index ++ encodeString sent.huffmanValue value
  | .newName form name value =>
      PrefixInteger.encode form.width form.mark 0 ++
        (encodeString sent.huffmanName name ++ encodeString sent.huffmanValue value)

/-- A sequence of fields as a sender writes it. -/
def encodeFields (fields : List Transmitted) : List UInt8 :=
  fields.flatMap Transmitted.encode

end Hpack

end HeapHttpd
