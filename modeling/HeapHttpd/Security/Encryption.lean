import HeapHttpd.Http1.Base64
import HeapHttpd.Library.Blocks
import HeapHttpd.Security.Des

/-!
# Passwords that are kept enciphered

`Security`: a text is filled up with zeros to blocks of eight octets, enciphered block by block, and
encoded.  The tool for the administrator does it, and the server undoes it.
-/

namespace HeapHttpd

namespace Security

open General
open Http1 (base64 encode decode encodeOutputMaxLen decodeOutputMaxLen)
open Http2 (toInt)

/-! ## The source -/

/-- `ALIGN_8` of an `int` that is not negative. -/
def align8 (length : Nat) : Outcome Nat :=
  if length % 8 = 0 then .ok length
  else if (length / 8 + 1) * 8 < 2 ^ 31 then .ok ((length / 8 + 1) * 8)
  else .fault

/-- `COOKIE_DES_KEY`. -/
def cookieDesKey : List UInt8 :=
  octets "THJ$%gty"

/-- What `strOut` becomes: the octets before the first zero. -/
def assignBuffer (buffer : List UInt8) : Outcome (List UInt8) :=
  if 0 ∈ buffer then .ok (cString buffer) else .fault

/-- `Encrypt`, with the text that comes out. -/
def encrypt (srcBuf : List UInt8) (srcLen : Int) : Outcome (List UInt8) :=
  -- memory for a negative length is not to be had, and `memcpy` is given it all the same
  if srcLen < 0 then .fault
  else
    align8 srcLen.toNat >>= fun ntmp1 =>
      let ptmp1 := srcBuf.take srcLen.toNat ++ List.replicate (ntmp1 - srcLen.toNat) 0
      (Des.init 1).setKey cookieDesKey >>= fun des =>
        let ptmp1 := Blocks.replace 8 des.encode (ntmp1 / 8) ptmp1
        encodeOutputMaxLen ntmp1 >>= fun ntmp2 =>
          encode ptmp1 (Allocation.filled ntmp2 0) ntmp2 >>= fun encoded =>
            if encoded.1 = -1 then .err else assignBuffer encoded.2.2.stored

/-- `Decrypt`, with the text that comes out. -/
def decrypt (srcBuf : List UInt8) (srcLen : Int) : Outcome (List UInt8) :=
  let ntmp1 := decodeOutputMaxLen srcLen.toNat
  decode srcBuf srcLen (Allocation.filled ntmp1 0) ntmp1 >>= fun decoded =>
    if decoded.1 = -1 then .err
    else if decoded.2.1 % 8 ≠ 0 then .err
    else
      (Des.init 1).setKey cookieDesKey >>= fun des =>
        assignBuffer (Blocks.replace 8 des.decode (decoded.2.1 / 8).toNat decoded.2.2.stored)

/-! ## Buffers -/

theorem align8_eq_ok {length : Nat} (short : length ≤ 1610612728) :
    ∃ count, align8 length = .ok (8 * count) ∧ length ≤ 8 * count ∧ 8 * count ≤ 1610612728 := by
  rw [align8]
  by_cases whole : length % 8 = 0
  · exact ⟨length / 8, by rw [if_pos whole]; congr 1; omega, by omega, by omega⟩
  · rw [if_neg whole, if_pos (by omega)]
    exact ⟨length / 8 + 1, by rw [Nat.mul_comm], by omega, by omega⟩

/-- `Encode` ends its output with a zero. -/
theorem encodeLoop_ends {outlen : Int} {data : List UInt8} {index : Nat}
    {out encoded : Allocation UInt8}
    {last : Int} (result : Http1.encodeLoop outlen data index out = .ok (0, last, encoded)) :
    ∃ behind : Nat, last = behind ∧ encoded.stored[behind]? = some 0 := by
  induction data, index, out using Http1.encodeLoop.induct outlen with
  | case1 index out =>
      rw [Http1.encodeLoop, Outcome.bind_eq_ok] at result
      obtain ⟨written, stores, isLast⟩ := result
      cases isLast
      refine ⟨index, rfl, ?_⟩
      unfold Allocation.write at stores
      split at stores
      · cases stores
        rename_i room
        have front : (out.stored.take index).length = index := by
          rw [List.length_take]
          omega
        simp [front]
      · cases stores
  | case2 a rest index out full =>
      rw [Http1.encodeLoop, if_pos full] at result
      cases result
  | case3 a rest index out goesOn ih =>
      rw [Http1.encodeLoop, if_neg goesOn, Outcome.bind_eq_ok] at result
      obtain ⟨written, -, behind⟩ := result
      split at behind
      · cases behind
      · exact ih written behind

theorem cString_append_zeros (text : List UInt8) (count : Nat) :
    cString (text ++ List.replicate count 0) = cString text := by
  unfold cString
  induction text with
  | nil => cases count <;> simp [List.replicate_succ]
  | cons octet text ih =>
      rw [List.cons_append, List.takeWhile_cons, List.takeWhile_cons, ih]

theorem assignBuffer_zeros {text : List UInt8} {count : Nat} (terminated : 0 < count) :
    assignBuffer (text ++ List.replicate count 0) = .ok (cString text) := by
  have ends : 0 ∈ text ++ List.replicate count 0 :=
    List.mem_append_right _ (List.mem_replicate.mpr ⟨by omega, rfl⟩)
  rw [assignBuffer, if_pos ends, cString_append_zeros]

/-! ## Both ways -/

theorem setKey_cookieDesKey : ∃ des, (Des.init 1).setKey cookieDesKey = .ok des :=
  ⟨_, rfl⟩

/-- What `Encrypt` makes of a text. -/
theorem encrypt_eq_ok {des : Des} (set : (Des.init 1).setKey cookieDesKey = .ok des)
    {srcBuf : List UInt8} (short : srcBuf.length ≤ 1610612728) :
    ∃ filling count, (srcBuf ++ List.replicate filling 0).length = 8 * count ∧
      8 * count ≤ 1610612728 ∧
      encrypt srcBuf srcBuf.length =
        .ok (base64 (Blocks.replace 8 des.encode count (srcBuf ++ List.replicate filling 0))) := by
  obtain ⟨count, aligned, room, bound⟩ := align8_eq_ok short
  have whole : (srcBuf ++ List.replicate (8 * count - srcBuf.length) 0).length = 8 * count := by
    rw [List.length_append, List.length_replicate]
    omega
  refine ⟨8 * count - srcBuf.length, count, whole, bound, ?_⟩
  have permuting := Des.permuting_of_setKey set (Des.permuting_init 1)
  have length := Blocks.length_replace (fun block _ => Des.length_encode permuting block) whole
  generalize isCipher : Blocks.replace 8 des.encode count
    (srcBuf ++ List.replicate (8 * count - srcBuf.length) 0) = cipher at *
  have counted : cipher.length = 8 * count := length.trans whole
  have inRange : cipher.length ≤ 1610612733 := by omega
  obtain ⟨ntmp2, needed, fits⟩ := Http1.encodeOutputMaxLen_eq_ok inRange
  have small := Http1.base64_lt cipher inRange
  have size : (Allocation.filled ntmp2 0 : Allocation UInt8).size = ntmp2 := rfl
  have none' : ([] : List UInt8).length = 0 := rfl
  obtain ⟨encoded, rest, stored, result⟩ := @Http1.encodeLoop_eq_ok ntmp2 cipher [] _
    (Allocation.filled ntmp2 0) rfl (by omega) (by omega) (by omega)
  rw [List.nil_append] at stored result
  obtain ⟨behind, isLast, ends⟩ := encodeLoop_ends result
  have isBehind : behind = (base64 cipher).length := by omega
  obtain ⟨others, rfl⟩ : ∃ others, rest = 0 :: others := by
    rw [stored, isBehind, List.getElem?_append_right le_rfl, Nat.sub_self] at ends
    exact ⟨rest.tail, (List.cons_head?_tail (by rwa [List.head?_eq_getElem?])).symm⟩
  have assigned : assignBuffer encoded.stored = .ok (base64 cipher) := by
    have ends : 0 ∈ encoded.stored := by
      rw [stored]
      exact List.mem_append_right _ List.mem_cons_self
    rw [assignBuffer, if_pos ends, stored, cString_append_nul (Http1.nulFree_base64 cipher)]
  have notNegative : ¬(srcBuf.length : Int) < 0 := by omega
  have blocks : 8 * count / 8 = count := by omega
  rw [encrypt, if_neg notNegative, Int.toNat_natCast, aligned, Outcome.ok_bind, set,
    Outcome.ok_bind,
    List.take_length, blocks, isCipher, ← counted, needed, Outcome.ok_bind, encode]
  refine (congrArg (· >>= _) result).trans ?_
  have succeeds : ¬(0 : Int) = -1 := by omega
  rw [Outcome.ok_bind, if_neg succeeds]
  exact assigned

/-- What `Decrypt` makes of an encoding of whole blocks. -/
theorem decrypt_base64 {des : Des} (set : (Des.init 1).setKey cookieDesKey = .ok des)
    {cipher : List UInt8} {count : Nat} (whole : cipher.length = 8 * count)
    (short : cipher.length ≤ 1610612733) :
    decrypt (base64 cipher) (base64 cipher).length =
      .ok (cString (Blocks.replace 8 des.decode count cipher)) := by
  have more := Http1.length_lt_decodeOutputMaxLen cipher
  have size : (Allocation.filled (decodeOutputMaxLen (base64 cipher).length) 0 :
      Allocation UInt8).size = decodeOutputMaxLen (base64 cipher).length := rfl
  obtain ⟨decoded, result, stored⟩ := Http1.decode_base64 short size more
  rw [Allocation.filled, List.drop_replicate] at stored
  have aligned : ¬(cipher.length : Int) % 8 ≠ 0 := by omega
  have blocks : ((cipher.length : Int) / 8).toNat = count := by omega
  have succeeds : ¬(0 : Int) = -1 := by omega
  rw [decrypt, Int.toNat_natCast, result, Outcome.ok_bind, if_neg succeeds, if_neg aligned, set,
    Outcome.ok_bind, blocks, stored,
    Blocks.replace_append whole, assignBuffer_zeros (by omega)]

/-- What was enciphered comes back, up to its first zero. -/
theorem decrypt_encrypt {srcBuf : List UInt8} (short : srcBuf.length ≤ 1610612728) :
    ∃ encrypted, encrypt srcBuf srcBuf.length = .ok encrypted ∧
      decrypt encrypted encrypted.length = .ok (cString srcBuf) ∧
      0 ∉ encrypted ∧ encrypted.length < 2 ^ 31 := by
  obtain ⟨des, set⟩ := setKey_cookieDesKey
  have permuting := Des.permuting_of_setKey set (Des.permuting_init 1)
  have keeps (block : List UInt8) (_ : block.length = 8) : (des.encode block).length = 8 :=
    Des.length_encode permuting block
  obtain ⟨filling, count, whole, bound, result⟩ := encrypt_eq_ok set short
  have length := (Blocks.length_replace keeps whole).trans whole
  have inRange := Http1.base64_lt _ (le_of_eq_of_le length (by omega : 8 * count ≤ 1610612733))
  refine ⟨_, result, ?_, Http1.nulFree_base64 _, by omega⟩
  rw [decrypt_base64 set length (by omega),
    Blocks.replace_replace keeps (fun block eight => Des.decode_encode permuting eight) whole,
    cString_append_zeros]

end Security

end HeapHttpd
