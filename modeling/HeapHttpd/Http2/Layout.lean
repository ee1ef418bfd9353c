import HeapHttpd.Http2.Comm
import HeapHttpd.Library.Wire

/-!
# Bit-fields of a frame

The words of `http2comm.h` with their bit-fields, in the memory of a little-endian machine,
and the functions that convert numbers to them and from them.  The low bit of the first octet
of an identifier is the bit-field `r`.
-/

namespace HeapHttpd

namespace Http2

namespace Layout

/-! ## Words -/

/-- The octets of a word in memory. -/
def stored (width word : Nat) : List UInt8 :=
  (Wire.write width word).reverse

/-- The word of some octets in memory. -/
def loaded (octets : List UInt8) : Nat :=
  Wire.read octets.reverse

/-- `htonl`, and `ntohl` alike. -/
def htonlWord (word : Nat) : Nat :=
  loaded (Wire.write 4 word)

/-- A bit-field of one bit, which the code names `r` or `e`, and one of 31 bits behind it. -/
structure BitFields where
  r : Bool
  identifier : Nat
  fits : identifier < 2 ^ 31

namespace BitFields

/-- The octets of both in memory. -/
def octets (fields : BitFields) : List UInt8 :=
  stored 4 (fields.r.toNat + 2 * fields.identifier)

/-- Both from the octets in memory. -/
def ofOctets (octets : List UInt8) : BitFields where
  r := loaded octets % 2 = 1
  identifier := loaded octets / 2 % 2 ^ 31
  fits := Nat.mod_lt _ (Nat.two_pow_pos 31)

/-- `http2_set_identifier`, and every other `htonl(identifier) >> 1`. -/
def http2SetIdentifier (fields : BitFields) (identifier : Nat) : BitFields where
  r := fields.r
  identifier := htonlWord identifier / 2 % 2 ^ 31
  fits := Nat.mod_lt _ (Nat.two_pow_pos 31)

/-- `http2_get_identifier`. -/
def http2GetIdentifier (fields : BitFields) : Nat :=
  htonlWord (fields.identifier * 2 % 2 ^ 32)

/-- `ntohl(identifier << 1) & 0x7FFFFFFFU`. -/
def streamInd (fields : BitFields) : Nat :=
  htonlWord (fields.identifier * 2 % 2 ^ 32) % 2 ^ 31

end BitFields

/-- `len24`. -/
structure Len24 where
  length : Nat
  fits : length < 2 ^ 24

namespace Len24

/-- The octets of a length in memory. -/
def octets (len24 : Len24) : List UInt8 :=
  stored 3 len24.length

/-- A length from the octets in memory. -/
def ofOctets (octets : List UInt8) : Len24 where
  length := loaded octets % 2 ^ 24
  fits := Nat.mod_lt _ (Nat.two_pow_pos 24)

/-- `http2_set_length`, and every other `htonl(length) >> 8`. -/
def http2SetLength (length : Nat) : Len24 where
  length := htonlWord length / 2 ^ 8 % 2 ^ 24
  fits := Nat.mod_lt _ (Nat.two_pow_pos 24)

/-- `http2_get_length`. -/
def http2GetLength (len24 : Len24) : Nat :=
  htonlWord (len24.length * 2 ^ 8 % 2 ^ 32)

/-- `ntohl(len24 << 8) & 0x00FFFFFFU`. -/
def payloadLen (len24 : Len24) : Nat :=
  htonlWord (len24.length * 2 ^ 8 % 2 ^ 32) % 2 ^ 24

end Len24

/-! ## Octets -/

theorem loaded_lt {octets : List UInt8} (width : octets.length = 4) : loaded octets < 2 ^ 32 := by
  have bound := Wire.read_lt octets.reverse
  rw [List.length_reverse, width] at bound
  exact bound

/-- What is stored of the word of some octets. -/
theorem stored_loaded {octets : List UInt8} {width : Nat} (isWidth : octets.length = width) :
    stored width (loaded octets) = octets := by
  rw [stored, loaded, Wire.write_read (by rw [List.length_reverse, isWidth]),
    List.reverse_reverse]

/-- The word of octets in network order, after `htonl`. -/
theorem htonlWord_read {octets : List UInt8} (width : octets.length = 4) :
    htonlWord (Wire.read octets) = loaded octets := by
  rw [htonlWord, Wire.write_read width]

theorem htonlWord_loaded {octets : List UInt8} (width : octets.length = 4) :
    htonlWord (loaded octets) = Wire.read octets := by
  rw [loaded, htonlWord_read (by rw [List.length_reverse, width]), loaded, List.reverse_reverse]

/-- An octet without its low bit. -/
theorem toNat_and (octet : UInt8) : (octet &&& 0xfe).toNat = octet.toNat / 2 * 2 := by
  revert octet
  apply General.forall_octet
  decide +kernel

/-- The word of octets without its low bit, which is the low bit of the first octet. -/
theorem loaded_even (first : UInt8) (rest : List UInt8) :
    loaded (first :: rest) / 2 * 2 = loaded ((first &&& 0xfe) :: rest) := by
  rw [loaded, loaded, List.reverse_cons, List.reverse_cons, Wire.read_append_octet,
    Wire.read_append_octet, toNat_and]
  omega

/-! ## Identifiers -/

theorem write_four_eq_htonl (number : Nat) : Wire.write 4 number = htonl number := by
  have third : number / 256 / 256 = number / 2 ^ 16 := by omega
  have fourth : number / 256 / 256 / 256 = number / 2 ^ 24 := by omega
  rw [htonl, hton24, ← third, ← fourth]
  rfl

theorem length_htonl (number : Nat) : (htonl number).length = 4 :=
  rfl

/-- An identifier is sent without the low bit of its first octet. -/
theorem octets_http2SetIdentifier {fields : BitFields} (unset : fields.r = false)
    (identifier : Nat) : (fields.http2SetIdentifier identifier).octets = hton31 identifier := by
  have small := loaded_lt (length_htonl identifier)
  have even := loaded_even (UInt8.ofNat (identifier / 2 ^ 24)) (hton24 identifier)
  have isWord : (fields.http2SetIdentifier identifier).r.toNat +
      2 * (fields.http2SetIdentifier identifier).identifier =
      loaded (hton31 identifier) := by
    rw [BitFields.http2SetIdentifier]
    simp only [unset, Bool.toNat_false]
    rw [htonlWord, write_four_eq_htonl, Nat.mod_eq_of_lt (by omega), Nat.zero_add, Nat.mul_comm]
    exact even
  have width : (hton31 identifier).length = 4 := rfl
  rw [BitFields.octets, isWord, stored_loaded width]

/-- An identifier is received without the low bit of its first octet. -/
theorem http2GetIdentifier_ofOctets {octets : List UInt8} (width : octets.length = 4) :
    (BitFields.ofOctets octets).http2GetIdentifier = ntoh31 octets := by
  have small := loaded_lt width
  cases octets with
  | nil => cases width
  | cons first rest =>
      rw [BitFields.http2GetIdentifier, BitFields.ofOctets]
      simp only
      rw [Nat.mod_eq_of_lt (by omega : loaded (first :: rest) / 2 < 2 ^ 31), loaded_even,
        Nat.mod_eq_of_lt (@loaded_lt ((first &&& 0xfe) :: rest) width),
        @htonlWord_loaded ((first &&& 0xfe) :: rest) width]
      rfl

/-- The first octet of a number loses nothing if the number lacks its bit 24. -/
theorem hton31_eq_iff {number : Nat} (small : number < 2 ^ 31) :
    hton31 number = htonl number ↔ number / 2 ^ 24 % 2 = 0 := by
  have isFirst : (UInt8.ofNat (number / 2 ^ 24)).toNat = number / 2 ^ 24 := by
    rw [UInt8.toNat_ofNat']
    omega
  rw [hton31, htonl]
  simp only [List.cons.injEq, and_true]
  rw [← UInt8.toNat_inj, toNat_and, isFirst]
  omega

/-- A number below 2^31 in the 31 bits behind a bit that is not set. -/
structure CarriesIdentifier (number : Nat) : Prop where
  sent : ∀ fields : BitFields, fields.r = false →
    (fields.http2SetIdentifier number).octets = Wire.write 4 number
  received : (BitFields.ofOctets (Wire.write 4 number)).http2GetIdentifier = number
  masked : (BitFields.ofOctets (Wire.write 4 number)).streamInd = number

/-- Which numbers the 31 bits carry. -/
theorem carriesIdentifier_iff {number : Nat} (small : number < 2 ^ 31) :
    CarriesIdentifier number ↔ number / 2 ^ 24 % 2 = 0 := by
  rw [← hton31_eq_iff small]
  constructor
  case mp =>
    intro carries
    have sent := carries.sent ⟨false, 0, Nat.two_pow_pos 31⟩ rfl
    rwa [octets_http2SetIdentifier rfl, write_four_eq_htonl] at sent
  case mpr =>
    intro same
    have received : (BitFields.ofOctets (Wire.write 4 number)).http2GetIdentifier = number := by
      rw [http2GetIdentifier_ofOctets (Wire.length_write 4 number), write_four_eq_htonl]
      have whole : ntoh31 (htonl number) = Wire.read (hton31 number) := rfl
      rw [whole, same, ← write_four_eq_htonl, Wire.read_write, Nat.mod_eq_of_lt (by omega)]
    refine ⟨fun fields unset => ?_, received, ?_⟩
    · rw [octets_http2SetIdentifier unset, same, write_four_eq_htonl]
    · have masked : (BitFields.ofOctets (Wire.write 4 number)).streamInd =
          (BitFields.ofOctets (Wire.write 4 number)).http2GetIdentifier % 2 ^ 31 := rfl
      rw [masked, received, Nat.mod_eq_of_lt small]

/-! ## Lengths -/

/-- A length in the 24 bits of the field. -/
structure CarriesLength (length : Nat) : Prop where
  sent : (Len24.http2SetLength length).octets = Wire.write 3 length
  received : (Len24.ofOctets (Wire.write 3 length)).http2GetLength = length
  masked : (Len24.ofOctets (Wire.write 3 length)).payloadLen = length

theorem loaded_zero_cons (rest : List UInt8) : loaded (0 :: rest) = loaded rest * 2 ^ 8 := by
  have zero : (0 : UInt8).toNat = 0 := rfl
  rw [loaded, loaded, List.reverse_cons, Wire.read_append_octet, zero,
    Nat.add_zero]
  omega

theorem write_four_of_lt {length : Nat} (small : length < 2 ^ 24) :
    Wire.write 4 length = 0 :: Wire.write 3 length := by
  have zero : length / 256 / 256 / 256 = 0 := by omega
  have isFirst : Wire.write 4 length =
      UInt8.ofNat (length / 256 / 256 / 256) :: Wire.write 3 length := rfl
  rw [isFirst, zero]
  rfl

/-- Every length of 24 bits is carried. -/
theorem carriesLength {length : Nat} (small : length < 2 ^ 24) : CarriesLength length := by
  have bound : loaded (Wire.write 3 length) < 2 ^ 24 := by
    have bound := Wire.read_lt (Wire.write 3 length).reverse
    rw [List.length_reverse, Wire.length_write] at bound
    exact bound
  have isLength : (Len24.ofOctets (Wire.write 3 length)).http2GetLength = length := by
    rw [Len24.http2GetLength, Len24.ofOctets]
    simp only
    rw [Nat.mod_eq_of_lt bound, Nat.mod_eq_of_lt (by omega)]
    have shifted := loaded_zero_cons (Wire.write 3 length)
    rw [← write_four_of_lt small] at shifted
    have fits : length < 256 ^ 4 := Nat.lt_trans small (by decide)
    rw [← shifted, htonlWord_loaded (Wire.length_write 4 length), Wire.read_write,
      Nat.mod_eq_of_lt fits]
  refine ⟨?_, isLength, ?_⟩
  · rw [Len24.octets, Len24.http2SetLength]
    simp only
    rw [htonlWord, write_four_of_lt small, loaded_zero_cons, Nat.mul_div_cancel _ (Nat.two_pow_pos 8),
      Nat.mod_eq_of_lt bound, stored_loaded (Wire.length_write 3 length)]
  · have masked : (Len24.ofOctets (Wire.write 3 length)).payloadLen =
        (Len24.ofOctets (Wire.write 3 length)).http2GetLength % 2 ^ 24 := rfl
    rw [masked, isLength, Nat.mod_eq_of_lt small]

/-- Lengths are carried always, and the other numbers if they lack bit 24, which is the low bit
of their first octet. -/
theorem carries_iff (number length : Nat) (small : number < 2 ^ 31) (short : length < 2 ^ 24) :
    (CarriesIdentifier number ∧ CarriesLength length) ↔ number / 2 ^ 24 % 2 = 0 := by
  rw [carriesIdentifier_iff small]
  exact and_iff_left (carriesLength short)

theorem carries_one : 1 < 2 ^ 31 ∧ 8 < 2 ^ 24 ∧ CarriesIdentifier 1 ∧ CarriesLength 8 :=
  ⟨by decide, by decide, (carries_iff 1 8 (by decide) (by decide)).mpr (by decide)⟩

/-- An increment of 2^24 is sent as zero. -/
theorem not_carries : ¬(CarriesIdentifier (2 ^ 24) ∧ CarriesLength 4) := by
  rintro ⟨carries, -⟩
  have sent := carries.sent ⟨false, 0, Nat.two_pow_pos 31⟩ rfl
  exact absurd sent (by decide)

end Layout

end Http2

end HeapHttpd
