import HeapHttpd.Huffman.Decoding

/-!
# Encoding of Huffman strings

`hf_string_encode` writes the codes of a string of ASCII octets, padded with
ones.  Its tables are indexed by `char`, and it leaves them at any other octet.
-/

namespace HeapHttpd

namespace Huffman

open BitString

/-- The bits written into the open byte, of which `remain` are still free. -/
def openBits (cur remain : Nat) : List Bool :=
  bitsOf (8 - remain) (cur / 2 ^ remain)

/-- The open byte: its free bits are zero. -/
structure OpenByte (cur remain : Nat) : Prop where
  free : 0 < remain
  within : remain ≤ 8
  byte : cur < 2 ^ 8
  clear : 2 ^ remain ∣ cur

theorem openByte_zero : OpenByte 0 8 :=
  ⟨by omega, le_rfl, by omega, Nat.dvd_zero _⟩

@[simp]
theorem openBits_zero : openBits 0 8 = [] :=
  rfl

theorem lor_eq_add {cur part remain : Nat} (clear : 2 ^ remain ∣ cur) (small : part < 2 ^ remain) :
    cur ||| part = cur + part := by
  obtain ⟨high, rfl⟩ := clear
  rw [Nat.mul_comm, ← Nat.shiftLeft_eq, Nat.shiftLeft_add_eq_or_of_lt small]

/-- Writing `count` free bits of the open byte. -/
theorem openBits_write {cur remain count number : Nat} (isOpen : OpenByte cur remain)
    (fits : count ≤ remain) (small : number < 2 ^ count) :
    bitsOf (8 - remain + count) ((cur ||| number * 2 ^ (remain - count)) / 2 ^ (remain - count)) =
      openBits cur remain ++ bitsOf count number := by
  obtain ⟨high, rfl⟩ := isOpen.clear
  have power : 2 ^ remain = 2 ^ count * 2 ^ (remain - count) := by
    rw [← Nat.pow_add, Nat.add_sub_cancel' fits]
  have positive := Nat.two_pow_pos (remain - count)
  have part : number * 2 ^ (remain - count) < 2 ^ remain := by
    rw [power]
    exact Nat.mul_lt_mul_of_pos_right small positive
  have value : (2 ^ remain * high ||| number * 2 ^ (remain - count)) / 2 ^ (remain - count) =
      high * 2 ^ count + number := by
    rw [lor_eq_add (Nat.dvd_mul_right _ _) part, power,
      show 2 ^ count * 2 ^ (remain - count) * high + number * 2 ^ (remain - count) =
        (high * 2 ^ count + number) * 2 ^ (remain - count) by ring,
      Nat.mul_div_cancel _ positive]
  have quotient : (high * 2 ^ count + number) / 2 ^ count = high := by
    rw [Nat.add_comm, Nat.add_mul_div_right _ _ (Nat.two_pow_pos _), Nat.div_eq_of_lt small,
      Nat.zero_add]
  have low : bitsOf count (high * 2 ^ count + number) = bitsOf count number := by
    rw [← bitsOf_mod le_rfl, Nat.mul_add_mod_self_right, bitsOf_mod le_rfl]
  rw [value, bitsOf_add, quotient, low, openBits, Nat.mul_div_cancel_left _ (Nat.two_pow_pos _)]

theorem OpenByte.write {cur remain count number : Nat} (isOpen : OpenByte cur remain)
    (fits : count < remain) (small : number < 2 ^ count) :
    OpenByte (cur ||| number * 2 ^ (remain - count)) (remain - count) := by
  have power : 2 ^ remain = 2 ^ count * 2 ^ (remain - count) := by
    rw [← Nat.pow_add, Nat.add_sub_cancel' fits.le]
  have part : number * 2 ^ (remain - count) < 2 ^ remain := by
    rw [power]
    exact Nat.mul_lt_mul_of_pos_right small (Nat.two_pow_pos _)
  refine ⟨by omega, (Nat.sub_le _ _).trans isOpen.within, ?_, ?_⟩
  · exact Nat.or_lt_two_pow isOpen.byte
      (part.trans_le (Nat.pow_le_pow_right (by omega) isOpen.within))
  · rw [lor_eq_add isOpen.clear part]
    refine Nat.dvd_add (Dvd.dvd.trans ?_ isOpen.clear) (Nat.dvd_mul_left _ _)
    rw [power]
    exact Nat.dvd_mul_left _ _

/-- `hf_byte_encode` appends the low bits of a code to the bits written. -/
theorem hfByteEncode_spec (codes : Nat) {passes nbits remain cur : Nat}
    (enough : nbits ≤ passes) (isOpen : OpenByte cur remain)
    (whole : codes < 2 ^ nbits ∨ remain = 8) {completed : List UInt8} {cur' remain' : Nat}
    (run : hfByteEncode codes passes nbits remain cur = (completed, cur', remain')) :
    OpenByte cur' remain' ∧
      bytesBits completed ++ openBits cur' remain' =
        openBits cur remain ++ bitsOf nbits codes := by
  induction passes generalizing nbits remain cur completed cur' remain' with
  | zero =>
      obtain rfl : nbits = 0 := by omega
      simp only [hfByteEncode, Prod.mk.injEq] at run
      obtain ⟨rfl, rfl, rfl⟩ := run
      exact ⟨isOpen, by simp⟩
  | succ passes ih =>
      have within := isOpen.within
      have free := isOpen.free
      rw [hfByteEncode] at run
      by_cases partial' : nbits < remain
      · have cut : (codes <<< (remain - nbits)) % 256 =
            codes % 2 ^ nbits * 2 ^ (remain - nbits) := by
          rw [Nat.shiftLeft_eq]
          rcases whole with small | rfl
          · rw [Nat.mod_eq_of_lt small, Nat.mod_eq_of_lt]
            calc codes * 2 ^ (remain - nbits) < 2 ^ nbits * 2 ^ (remain - nbits) :=
                  Nat.mul_lt_mul_of_pos_right small (Nat.two_pow_pos _)
              _ = 2 ^ remain := by rw [← Nat.pow_add, Nat.add_sub_cancel' partial'.le]
              _ ≤ 2 ^ 8 := Nat.pow_le_pow_right (by omega) within
          · rw [show 256 = 2 ^ nbits * 2 ^ (8 - nbits) by
              rw [← Nat.pow_add, Nat.add_sub_cancel' partial'.le]]
            exact Nat.mul_mod_mul_right _ _ _
        have small : codes % 2 ^ nbits < 2 ^ nbits := Nat.mod_lt _ (Nat.two_pow_pos _)
        have written := openBits_write isOpen partial'.le small
        rw [if_pos partial', cut, Prod.mk.injEq, Prod.mk.injEq] at run
        obtain ⟨rfl, rfl, rfl⟩ := run
        refine ⟨isOpen.write partial' small, ?_⟩
        rw [← bitsOf_mod le_rfl codes, ← written, openBits, bytesBits_nil, List.nil_append]
        congr 1
        omega
      · have high : (codes >>> (nbits - remain)) % 256 =
            codes / 2 ^ (nbits - remain) % 2 ^ remain := by
          rw [Nat.shiftRight_eq_div_pow]
          rcases whole with small | rfl
          · have bound : codes / 2 ^ (nbits - remain) < 2 ^ remain := by
              rw [Nat.div_lt_iff_lt_mul (Nat.two_pow_pos _), ← Nat.pow_add,
                Nat.add_sub_cancel' (by omega)]
              exact small
            have octet : 2 ^ remain ≤ 256 :=
              Nat.pow_le_pow_right (show 2 > 0 by omega) within
            rw [Nat.mod_eq_of_lt bound, Nat.mod_eq_of_lt (by omega)]
          · rfl
        have small : codes / 2 ^ (nbits - remain) % 2 ^ remain < 2 ^ remain :=
          Nat.mod_lt _ (Nat.two_pow_pos _)
        have written := openBits_write isOpen le_rfl small
        rw [Nat.sub_self, Nat.pow_zero, Nat.mul_one, Nat.div_one, Nat.sub_add_cancel within,
          bitsOf_mod le_rfl] at written
        have split := bitsOf_add remain (nbits - remain) codes
        rw [Nat.add_sub_cancel' (by omega)] at split
        rw [if_neg partial', high] at run
        dsimp only at run
        by_cases done : nbits - remain = 0
        · rw [if_pos done, Prod.mk.injEq, Prod.mk.injEq] at run
          obtain ⟨rfl, rfl, rfl⟩ := run
          refine ⟨openByte_zero, ?_⟩
          rw [bytesBits_cons, bytesBits_nil, byteBits_ofNat, written, split, done]
          simp
        · rw [if_neg done, Prod.mk.injEq, Prod.mk.injEq] at run
          obtain ⟨rfl, rfl, rfl⟩ := run
          have fewer : nbits - remain ≤ passes := by omega
          obtain ⟨isOpen', bits⟩ := ih fewer openByte_zero (Or.inr rfl) rfl
          refine ⟨isOpen', ?_⟩
          rw [bytesBits_cons, byteBits_ofNat, written, split, List.append_assoc, bits,
            openBits_zero]
          simp

/-- The bits of the bytes written so far. -/
theorem hfEncodeLoop_spec {text out : List UInt8} {cur remain : Nat}
    (isOpen : OpenByte cur remain) (ascii : ∀ ch ∈ text, ch.toNat < 0x80) :
    ∃ out' cur' remain', hfEncodeLoop text out cur remain = .ok (out', cur', remain') ∧
      OpenByte cur' remain' ∧
      bytesBits out' ++ openBits cur' remain' =
        bytesBits out ++ openBits cur remain ++ encodeBits text := by
  induction text generalizing out cur remain with
  | nil => exact ⟨out, cur, remain, rfl, isOpen, by simp⟩
  | cons ch text ih =>
      simp only [List.mem_cons, forall_eq_or_imp] at ascii
      obtain ⟨isOpen', bits⟩ := hfByteEncode_spec (hexToHfCode ch) le_rfl isOpen
        (Or.inl (hexToHfCode_lt ch)) rfl
      obtain ⟨out', cur', remain', run, isOpen'', bits'⟩ := ih isOpen' ascii.2
      refine ⟨out', cur', remain', ?_, isOpen'', ?_⟩
      · rw [hfEncodeLoop, if_neg (by omega)]
        exact run
      · rw [bits', bytesBits_append, List.append_assoc, List.append_assoc, ← List.append_assoc,
          ← List.append_assoc, List.append_assoc (bytesBits out), bits, encodeBits_cons,
          codeBits]
        simp

theorem hfEncodeLoop_fault {text out : List UInt8} {cur remain : Nat}
    (beyond : ∃ ch ∈ text, 0x80 ≤ ch.toNat) :
    hfEncodeLoop text out cur remain = .fault := by
  induction text generalizing out cur remain with
  | nil => simp at beyond
  | cons ch text ih =>
      rw [hfEncodeLoop]
      split
      · rfl
      · rename_i below
        apply ih
        simpa [below] using beyond

/-- The Huffman code of a string, padded with ones. -/
def huffmanEncode (text : List UInt8) : List UInt8 :=
  pack (encodeBits text ++
    List.replicate ((8 - (encodeBits text).length % 8) % 8) true)

theorem bytesBits_huffmanEncode (text : List UInt8) :
    bytesBits (huffmanEncode text) = encodeBits text ++
      List.replicate ((8 - (encodeBits text).length % 8) % 8) true := by
  apply bytesBits_pack
  rw [List.length_append, List.length_replicate]
  omega

theorem huffmanString_huffmanEncode (text : List UInt8) :
    HuffmanString (huffmanEncode text) text :=
  ⟨_, Nat.mod_lt _ (by omega), bytesBits_huffmanEncode text⟩

/-- The last byte is filled up with ones. -/
theorem bytesBits_fill {cur remain : Nat} (isOpen : OpenByte cur remain) :
    byteBits (UInt8.ofNat (cur ||| (0x3fffffff >>> (30 - remain)) % 256)) =
      openBits cur remain ++ List.replicate remain true := by
  have within := isOpen.within
  have positive := Nat.two_pow_pos remain
  have low : ∀ count ≤ 8, (0x3fffffff >>> (30 - count)) % 256 = 2 ^ count - 1 := by decide
  have written := openBits_write isOpen le_rfl (show 2 ^ remain - 1 < 2 ^ remain by omega)
  rw [Nat.sub_self, Nat.pow_zero, Nat.mul_one, Nat.div_one, Nat.sub_add_cancel within,
    bitsOf_all_ones] at written
  rw [byteBits_ofNat, low remain within, written]

/-- `hf_string_encode` writes the padded code of an ASCII string. -/
theorem hfStringEncode_ascii {text : List UInt8} (ascii : ∀ ch ∈ text, ch.toNat < 0x80) :
    hfStringEncode text = .ok (huffmanEncode text) := by
  obtain ⟨out, cur, remain, run, isOpen, bits⟩ :
      ∃ out cur remain, hfEncodeLoop text [] 0 8 = .ok (out, cur, remain) ∧ _ :=
    hfEncodeLoop_spec openByte_zero ascii
  have within := isOpen.within
  have free := isOpen.free
  rw [openBits_zero, bytesBits_nil, List.nil_append, List.nil_append] at bits
  have length := congrArg List.length bits
  rw [List.length_append, length_bytesBits, openBits, length_bitsOf] at length
  rw [hfStringEncode, run, Outcome.ok_bind]
  dsimp only
  split
  · rename_i unfinished
    congr 1
    apply bytesBits_injective
    rw [bytesBits_huffmanEncode, bytesBits_append, bytesBits_cons, bytesBits_nil,
      bytesBits_fill isOpen, List.append_nil, ← List.append_assoc, bits]
    congr 2
    omega
  · rename_i finished
    obtain rfl : remain = 8 := by omega
    congr 1
    apply bytesBits_injective
    have whole : (8 - (encodeBits text).length % 8) % 8 = 0 := by omega
    rw [bytesBits_huffmanEncode, whole, ← bits]
    simp [openBits]

theorem hfStringEncode_fault {text : List UInt8} (beyond : ∃ ch ∈ text, 0x80 ≤ ch.toNat) :
    hfStringEncode text = .fault := by
  rw [hfStringEncode, hfEncodeLoop_fault beyond]
  rfl

end Huffman

end HeapHttpd
