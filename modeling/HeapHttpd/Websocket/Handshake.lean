import HeapHttpd.Http1.Base64
import HeapHttpd.Http1.ResponseHdr
import HeapHttpd.Security.Encryption
import HeapHttpd.Security.Sha1

/-!
# The handshake of a web socket

The part of `Htdoc::Response` that answers the key of a client: with the digest of the key and of a
fixed identifier, encoded, in the header that switches the protocol.
-/

namespace HeapHttpd

namespace Websocket

open General
open Security
open Http1 (base64 encode encodeOutputMaxLen HeaderMap HdrConstructor CHttpResponseHdr statusLine
  fieldLines)

/-! ## The source -/

/-- The fixed identifier. -/
def fixedUuid : List UInt8 :=
  octets "258EAFA5-E914-47DA-95CA-C5AB0DC85B11"

/-- The digest encoded, with a zero behind it in a buffer that is as long as the macro says. -/
def encodeDigest (messageDigest : List UInt8) : Outcome (List UInt8) :=
  encodeOutputMaxLen messageDigest.length >>= fun outlen =>
    encode messageDigest (Allocation.fresh outlen) outlen >>= fun encoded =>
      encoded.2.2.write encoded.2.1.toNat [0] >>= fun buffer => assignBuffer buffer.stored

/-- The value that is sent back for a trimmed key; without a digest there is nothing to encode. -/
def acceptValue (strwskey : List UInt8) : Outcome (List UInt8) :=
  Sha1.inputs Sha1.reset [strwskey ++ fixedUuid] >>= fun sha =>
    Sha1.result sha >>= fun result =>
      match result.2.1 with
      | none => .fault
      | some messageDigest => encodeDigest messageDigest

/-- `SC101`. -/
def sc101 : Nat := 1

/-- The answer to the field `Sec-WebSocket-Key`, if it has a value. -/
def handshake (mapHeader : HeaderMap) (field : List UInt8) :
    Outcome (Option (List UInt8 × CHttpResponseHdr)) :=
  let strwskey := strtrim field
  if strwskey = [] then .ok none
  else
    acceptValue strwskey >>= fun strwsaccept =>
      (HdrConstructor.copy mapHeader).new.setStatusCode sc101 >>= fun header =>
        header.setField (octets "Upgrade") (octets "websocket") >>= fun header =>
          header.setField (octets "Connection") (octets "Upgrade") >>= fun header =>
            header.setField (octets "Sec-WebSocket-Accept") strwsaccept >>= fun header =>
              header.text >>= fun text => .ok (some text)

/-! ## The value -/

/-- The buffer has room for the encoding of a digest and the zero. -/
theorem encodeDigest_eq_ok {messageDigest : List UInt8} (length : messageDigest.length = 20) :
    encodeDigest messageDigest = .ok (base64 messageDigest) := by
  have letters : (base64 messageDigest).length = 28 := by
    rw [Http1.length_base64, length]
  have none' : ([] : List UInt8).length = 0 := rfl
  have needed : encodeOutputMaxLen 20 = .ok 29 := rfl
  have size : (Allocation.fresh 29 : Allocation UInt8).size = 29 := rfl
  obtain ⟨encoded, rest, stored, result⟩ := @Http1.encodeLoop_eq_ok 29 messageDigest [] []
    (Allocation.fresh 29) rfl (by omega) (by omega) (by omega)
  rw [List.nil_append] at stored result
  have fits := encoded.fits
  obtain ⟨behind, isLast, ends⟩ := encodeLoop_ends result
  have isBehind : behind = 28 := by omega
  rw [isBehind] at ends
  have inside : 28 < encoded.stored.length := (List.getElem?_eq_some_iff.mp ends).1
  have room : (base64 messageDigest).length + [(0 : UInt8)].length ≤ encoded.size := by
    rw [letters, List.length_singleton]
    omega
  obtain ⟨buffer, written, -, stored'⟩ := Allocation.write_behind stored room
  have zero : 0 ∈ buffer.stored := by
    rw [stored']
    exact List.mem_append_left _ (List.mem_append_right _ List.mem_cons_self)
  have assigned : assignBuffer buffer.stored = .ok (base64 messageDigest) := by
    rw [assignBuffer, if_pos zero, stored', List.append_assoc]
    exact congrArg Outcome.ok (cString_append_nul (Http1.nulFree_base64 messageDigest) _)
  have copied : ∀ first : Outcome (Int × Int × Allocation UInt8),
      first = .ok (0, ((base64 messageDigest).length : Int), encoded) →
      (first >>= fun encoded => encoded.2.2.write encoded.2.1.toNat [0] >>= fun buffer =>
        assignBuffer buffer.stored) = .ok (base64 messageDigest) := by
    rintro _ rfl
    rw [Outcome.ok_bind, Int.toNat_natCast, written]
    exact assigned
  rw [encodeDigest, length, needed]
  exact copied _ result

theorem acceptValue_eq_ok {strwskey : List UInt8} (short : strwskey.length + 36 < 2 ^ 32) :
    acceptValue strwskey = .ok (base64 (Sha1.digest (strwskey ++ fixedUuid))) := by
  have uuid : fixedUuid.length = 36 := rfl
  have length : (strwskey ++ fixedUuid).length = strwskey.length + 36 := by
    rw [List.length_append, uuid]
  have fresh : Sha1.Tracks Sha1.reset [] := Sha1.holds_reset
  obtain ⟨context, taken, tracks⟩ := Sha1.tracks_inputs fresh
    (List.forall_mem_singleton.mpr (by omega : (strwskey ++ fixedUuid).length < 2 ^ 32))
  rw [List.nil_append, List.flatten_singleton] at tracks
  obtain ⟨context', result⟩ := Sha1.result_eq_ok tracks
  rw [if_pos (by omega)] at result
  rw [acceptValue, taken, Outcome.ok_bind, result, Outcome.ok_bind]
  exact encodeDigest_eq_ok rfl

/-! ## The header -/

theorem length_strtrim_le (text : List UInt8) : (strtrim text).length ≤ text.length := by
  unfold strtrim
  split
  · exact le_rfl
  · split
    · exact Nat.zero_le _
    · exact ((List.rdropWhile_prefix _ _).length_le).trans (List.dropWhile_suffix _).length_le

/-- A copy has the values of the map that was copied. -/
theorem value_copy {mapHeader : HeaderMap} (distinct : mapHeader.Distinct) (name : List UInt8) :
    (HdrConstructor.copy mapHeader).fields.value name = mapHeader.value name := by
  have copied : OrderedMap.find name (HdrConstructor.copy mapHeader).fields =
      OrderedMap.find name (mapHeader.map fun entry => (entry.1, entry.2)) :=
    OrderedMap.find_foldl_set_nil distinct name
  rw [HeaderMap.value, HeaderMap.value, copied]
  exact congrArg (fun entries => (OrderedMap.find name entries).getD []) (List.map_id' mapHeader)

/-- A field that is not `Location`, whose name and value are handed over as C strings. -/
theorem setField_eq_ok {name value : List UInt8} (hdr : CHttpResponseHdr)
    (other : strcasecmp name (octets "Location") = false) (nulFree : 0 ∉ name)
    (nulFree' : 0 ∉ value) : hdr.setField name value = .ok (hdr.assignField name value) := by
  rw [CHttpResponseHdr.setField, other, cString_of_nulFree nulFree, cString_of_nulFree nulFree']
  rfl

/-- The text of a changed header with nothing of the user in it. -/
theorem text_eq_ok {hdr : CHttpResponseHdr} (status : hdr.statusCode = some sc101)
    (updated : hdr.isHdrUpdated = some true) (plain : hdr.strUserDefined = []) :
    ∃ header, hdr.text = .ok (statusLine (octets "101", octets "Switching Protocols") ++
        fieldLines hdr.mapHeader, header) ∧ header.mapHeader = hdr.mapHeader := by
  have row : Http1.httpStatusText[sc101]? = some (octets "101", octets "Switching Protocols") := rfl
  simp only [CHttpResponseHdr.text, CHttpResponseHdr.updateHeader, updated, status,
    Option.bind_some,
    row, Outcome.ok_bind, plain, List.append_nil]
  exact ⟨_, rfl, rfl⟩

/-- The fields that the answer sets. -/
def answered (mapHeader : HeaderMap) (strwskey name : List UInt8) : List UInt8 :=
  if octets "Sec-WebSocket-Accept" = name then base64 (Sha1.digest (strwskey ++ fixedUuid))
  else if octets "Connection" = name then octets "Upgrade"
  else if octets "Upgrade" = name then octets "websocket"
  else mapHeader.value name

/-- A client that sends a key gets the header that switches the protocol, with the value for its
key, and with the fields that the session has for its answers. -/
theorem handshake_eq_ok {mapHeader : HeaderMap} (distinct : mapHeader.Distinct)
    {field : List UInt8} (given : strtrim field ≠ []) (short : field.length + 36 < 2 ^ 32) :
    ∃ header, handshake mapHeader field =
        .ok (some (statusLine (octets "101", octets "Switching Protocols") ++
          fieldLines header.mapHeader, header)) ∧
      ∀ name, header.mapHeader.value name = answered mapHeader (strtrim field) name := by
  have short' : (strtrim field).length + 36 < 2 ^ 32 := by
    have trimmed := length_strtrim_le field
    omega
  have nulFree := Http1.nulFree_base64 (Sha1.digest (strtrim field ++ fixedUuid))
  have accept (hdr : CHttpResponseHdr) : hdr.setField (octets "Sec-WebSocket-Accept") _ = _ :=
    setField_eq_ok hdr (by decide +kernel) (by decide +kernel) nulFree
  have status (hdr : CHttpResponseHdr) : hdr.setStatusCode sc101 =
      .ok { hdr with statusCode := some sc101 } := rfl
  rw [handshake, if_neg given, acceptValue_eq_ok short', Outcome.ok_bind, status, Outcome.ok_bind,
    setField_eq_ok _ (by decide +kernel) (by decide +kernel) (by decide +kernel), Outcome.ok_bind,
    setField_eq_ok _ (by decide +kernel) (by decide +kernel) (by decide +kernel), Outcome.ok_bind,
    accept, Outcome.ok_bind]
  generalize isHeader : CHttpResponseHdr.assignField (octets "Sec-WebSocket-Accept") _ _ = hdr
  have isMap : hdr.mapHeader = (((HdrConstructor.copy mapHeader).fields.assign (octets "Upgrade")
      (octets "websocket")).assign (octets "Connection") (octets "Upgrade")).assign
        (octets "Sec-WebSocket-Accept")
        (base64 (Sha1.digest (strtrim field ++ fixedUuid))) := by
    rw [← isHeader]
    rfl
  obtain ⟨header, made, same⟩ := @text_eq_ok hdr (by rw [← isHeader]; rfl) (by rw [← isHeader]; rfl)
    (by rw [← isHeader]; rfl)
  refine ⟨header, ?_, fun name => ?_⟩
  · rw [made, Outcome.ok_bind, same]
  · rw [same, isMap, HeaderMap.value_assign, HeaderMap.value_assign, HeaderMap.value_assign,
      value_copy distinct, answered]

theorem handshake_eq_ok_sample :
    ∃ header, handshake [] (octets " dGhlIHNhbXBsZSBub25jZQ==") =
        .ok (some (statusLine (octets "101", octets "Switching Protocols") ++
          fieldLines header.mapHeader, header)) ∧
      ∀ name, header.mapHeader.value name =
        answered [] (strtrim (octets " dGhlIHNhbXBsZSBub25jZQ==")) name :=
  @handshake_eq_ok [] List.nodup_nil _ (by decide +kernel) (by decide +kernel)

example : acceptValue (octets "dGhlIHNhbXBsZSBub25jZQ==") =
    .ok (octets "s3pPLMBiTxaQ9kYGzzhZRbK+xOo=") := by
  decide +kernel

end Websocket

end HeapHttpd
