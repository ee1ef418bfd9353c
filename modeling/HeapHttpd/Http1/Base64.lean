import HeapHttpd.General
import HeapHttpd.Http2.Comm
import HeapHttpd.Library.Allocation

/-!
# Credentials in Base64

`CBase64`, and the part of `WWW_Auth` that takes a user name and a password from what a client
has encoded.  The lengths are `int`s.
-/

namespace HeapHttpd

namespace Http1

open General
open Http2 (toInt)

/-! ## The encoding -/

/-- The alphabet, with the padding. -/
def alphabet : List UInt8 :=
  octets "ABCDEFGHIJKLMNOPQRSTUVWXYZabcdefghijklmnopqrstuvwxyz0123456789+/="

/-- The letter for six bits, or the padding for 64. -/
def letter (value : Nat) : UInt8 :=
  alphabet.getD value 0

/-- Four letters for three octets, and padding for the octets that are missing at the end. -/
def base64 : List UInt8 → List UInt8
  | [] => []
  | [a] => [letter (a.toNat / 4), letter (a.toNat % 4 * 16), letter 64, letter 64]
  | [a, b] =>
      [letter (a.toNat / 4), letter (a.toNat % 4 * 16 + b.toNat / 16),
        letter (b.toNat % 16 * 4), letter 64]
  | a :: b :: c :: others =>
      [letter (a.toNat / 4), letter (a.toNat % 4 * 16 + b.toNat / 16),
        letter (b.toNat % 16 * 4 + c.toNat / 64), letter (c.toNat % 64)] ++ base64 others

/-! ## The source -/

/-- `BASE64_ENCODE_OUTPUT_MAX_LEN` of an `int`. -/
def encodeOutputMaxLen (length : Nat) : Outcome Nat :=
  if length < 4 then .ok (4 + 1)
  else
    let needed := length / 3 * 4 + (if length % 3 = 0 then 0 else 4) + 1
    if needed < 2 ^ 31 then .ok needed else .fault

/-- `BASE64_DECODE_OUTPUT_MAX_LEN`. -/
def decodeOutputMaxLen (length : Nat) : Nat :=
  if length ≤ 4 then 4 + 1 else length / 4 * 3 + 1

/-- `_init_codes_`. -/
def codes (ch : UInt8) : Int :=
  if ch = 0x2f then 63
  else if ch = 0x2b then 62
  else if 0x30 ≤ ch ∧ ch ≤ 0x39 then 52 + ch.toNat - 0x30
  else if 0x61 ≤ ch ∧ ch ≤ 0x7a then 26 + ch.toNat - 0x61
  else if 0x41 ≤ ch ∧ ch ≤ 0x5a then ch.toNat - 0x41
  else -1

/-- The four letters of one pass of `Encode`, for the next octet and up to two more. -/
def quad (a : UInt8) (b c : Option UInt8) : List UInt8 :=
  let val := ((a.toNat <<< 8 ||| (b.map UInt8.toNat).getD 0) <<< 8) |||
    (c.map UInt8.toNat).getD 0
  [letter (val >>> 6 >>> 6 >>> 6 &&& 0x3f), letter (val >>> 6 >>> 6 &&& 0x3f),
    letter (if b.isSome then val >>> 6 &&& 0x3f else 64),
    letter (if c.isSome then val &&& 0x3f else 64)]

/-- The loop of `Encode`, with the result, the length of the output and the output. -/
def encodeLoop (outlen : Int) : List UInt8 → Nat → Allocation UInt8 →
    Outcome (Int × Int × Allocation UInt8)
  | [], index, out => out.write index [0] >>= fun out => .ok (0, index, out)
  | a :: rest, index, out =>
      if outlen ≤ index then .ok (-1, outlen, out)
      else
        out.write index (quad a rest.head? rest.tail.head?) >>= fun out =>
          if 2 ^ 31 ≤ index + 4 then .fault
          else encodeLoop outlen (rest.drop 2) (index + 4) out
termination_by data => data.length
decreasing_by
  simp only [List.length_drop, List.length_cons]
  omega

/-- `Encode`. -/
def encode (data : List UInt8) (out : Allocation UInt8) (outlen : Int) :
    Outcome (Int × Int × Allocation UInt8) :=
  encodeLoop outlen data 0 out

/-- The variables of `Decode`, and the output. -/
structure Decoding where
  shift : Nat
  accum : Int
  index : Nat
  out : Allocation UInt8

/-- `accum <<= 6` and `accum |= value`, where the low bits are 0. -/
def shiftIn (accum value : Int) : Int :=
  toInt (accum * 64) + value

/-- The loop of `Decode`. -/
def decodeLoop (outlen : Int) : List UInt8 → Decoding → Outcome (Int × Decoding)
  | [], state => .ok (0, state)
  | ch :: data, state =>
      let value := codes ch
      if 0 ≤ value then
        let accum := shiftIn state.accum value
        let shift := state.shift + 6
        if 8 ≤ shift then
          let shift := shift - 8
          let octet := UInt8.ofNat (accum / 2 ^ shift % 256).toNat
          state.out.write state.index [octet] >>= fun out =>
            let index := state.index + 1
            let state : Decoding := { shift, accum, index, out }
            if outlen ≤ index then .ok (-1, state) else decodeLoop outlen data state
        else decodeLoop outlen data { state with accum, shift }
      else decodeLoop outlen data state

/-- `Decode`, with the result, the length of the output and the output. -/
def decode (data : List UInt8) (length : Int) (out : Allocation UInt8) (outlen : Int) :
    Outcome (Int × Int × Allocation UInt8) :=
  if 2 ^ 31 ≤ length + 3 then .fault
  else
    decodeLoop outlen (data.take length.toNat) { shift := 0, accum := 0, index := 0, out } >>=
      fun decoded =>
        .ok (decoded.1, if decoded.1 = 0 then decoded.2.index else outlen, decoded.2.out)

/-- The user name and the password that `WWW_Auth` takes from the credentials for the Basic
scheme. -/
def basicCredentials (authinfo : List UInt8) : Outcome (List UInt8 × List UInt8) :=
  let strauth := cString authinfo
  let outlen := toInt (decodeOutputMaxLen strauth.length)
  -- memory for a negative length is not to be had, and `memset` is given a null pointer
  if outlen < 0 then .fault
  else
    decode strauth (toInt strauth.length) (Allocation.filled outlen.toNat 0) outlen >>=
      fun decoded =>
        let userPwdOut := decoded.2.2.stored
        if 0 ∈ userPwdOut then
          let strauth := cString userPwdOut
          .ok (strcutBefore strauth 0x3a, strcutAfter strauth 0x3a)
        else .fault

/-! ## Encoding -/

theorem length_base64 (data : List UInt8) : (base64 data).length = (data.length + 2) / 3 * 4 := by
  induction data using base64.induct with
  | case1 => simp [base64]
  | case2 a => simp [base64]
  | case3 a b => simp [base64]
  | case4 a b c others ih =>
      simp only [base64, List.length_append, List.length_cons, List.length_nil, ih]
      omega

/-- Six bits of three octets at a time. -/
theorem sextets {a b c : Nat} (small : a < 256 ∧ b < 256 ∧ c < 256) :
    ((a * 256 + b) * 256 + c) / 2 ^ 6 / 2 ^ 6 / 2 ^ 6 % 64 = a / 4 ∧
      ((a * 256 + b) * 256 + c) / 2 ^ 6 / 2 ^ 6 % 64 = a % 4 * 16 + b / 16 ∧
      ((a * 256 + b) * 256 + c) / 2 ^ 6 % 64 = b % 16 * 4 + c / 64 ∧
      ((a * 256 + b) * 256 + c) % 64 = c % 64 := by
  omega

/-- The letters of a pass. -/
theorem quad_eq (a : UInt8) (b c : Option UInt8) :
    quad a b c =
      let second := (b.map UInt8.toNat).getD 0
      let third := (c.map UInt8.toNat).getD 0
      [letter (a.toNat / 4), letter (a.toNat % 4 * 16 + second / 16),
        letter (if b.isSome then second % 16 * 4 + third / 64 else 64),
        letter (if c.isSome then third % 64 else 64)] := by
  have bound (octet : Option UInt8) : (octet.map UInt8.toNat).getD 0 < 256 := by
    cases octet with
    | none => decide
    | some octet => exact octet.toNat_lt
  have low (value : Nat) : value &&& 0x3f = value % 64 := Nat.and_two_pow_sub_one_eq_mod _ 6
  have shifted (first second : Nat) (small : second < 256) :
      first <<< 8 ||| second = first * 256 + second := by
    rw [← Nat.shiftLeft_add_eq_or_of_lt (by omega : second < 2 ^ 8), Nat.shiftLeft_eq]
  obtain ⟨one, two, three, four⟩ := sextets ⟨a.toNat_lt, bound b, bound c⟩
  simp only [quad, low, shifted _ _ (bound b), shifted _ _ (bound c), Nat.shiftRight_eq_div_pow,
    one, two, three, four]

/-- A pass takes what `base64` takes. -/
theorem base64_cons (a : UInt8) (rest : List UInt8) :
    base64 (a :: rest) = quad a rest.head? rest.tail.head? ++ base64 (rest.drop 2) := by
  rw [quad_eq]
  match rest with
  | [] => simp [base64]
  | [b] => simp [base64]
  | b :: c :: others => simp [base64]

theorem length_quad (a : UInt8) (b c : Option UInt8) : (quad a b c).length = 4 :=
  rfl

/-- What the loop writes behind what has been written. -/
theorem encodeLoop_eq_ok {outlen : Int} {data written rest : List UInt8}
    {out : Allocation UInt8} (stored : out.stored = written ++ rest)
    (room : written.length + (base64 data).length + 1 ≤ out.size)
    (counted : written.length + (base64 data).length < 2 ^ 31)
    (more : written.length + (base64 data).length < outlen) :
    ∃ (out' : Allocation UInt8) (rest' : List UInt8),
      out'.stored = written ++ base64 data ++ rest' ∧
        encodeLoop outlen data written.length out =
          .ok (0, (written ++ base64 data).length, out') := by
  induction left : data.length using Nat.strongRecOn generalizing data written rest out with
  | ind count ih =>
      cases data with
      | nil =>
          have one : ([0] : List UInt8).length = 1 := rfl
          obtain ⟨out', result, -, stored'⟩ := Allocation.write_behind stored
            (show written.length + ([0] : List UInt8).length ≤ out.size from room)
          rw [List.append_assoc] at stored'
          refine ⟨out', [0] ++ rest.drop 1, ?_, ?_⟩
          · rw [base64, List.append_nil, stored', one]
          · rw [encodeLoop, result, base64, List.append_nil]
            rfl
      | cons a others =>
          rw [base64_cons, List.length_append, length_quad] at room counted more
          obtain ⟨next, result, size, stored'⟩ := Allocation.write_behind stored
            (show written.length + (quad a others.head? others.tail.head?).length ≤ out.size by
              rw [length_quad]
              omega)
          have length' : (written ++ quad a others.head? others.tail.head?).length =
              written.length + 4 := by
            rw [List.length_append, length_quad]
          have shorter : (others.drop 2).length < count := by
            rw [← left, List.length_cons, List.length_drop]
            omega
          obtain ⟨out', rest', stored'', result'⟩ := @ih _ shorter (others.drop 2) _ _ _ stored'
            (by rw [length', size]; omega) (by rw [length']; omega) (by rw [length']; omega) rfl
          rw [length'] at result'
          refine ⟨out', rest', ?_, ?_⟩
          · rw [base64_cons, stored'', List.append_assoc written]
          · have goesOn : ¬outlen ≤ (written.length : Int) := by omega
            have counts : ¬2 ^ 31 ≤ written.length + 4 := by omega
            rw [encodeLoop, if_neg goesOn, result, Outcome.ok_bind, if_neg counts, result',
              base64_cons, List.append_assoc written]

/-! ## Decoding -/

theorem codes_letter {value : Nat} (bound : value < 64) : codes (letter value) = value := by
  revert value
  decide +kernel

theorem codes_padding : codes (letter 64) = -1 := by
  decide

section

variable {outlen accum : Int} {data written rest : List UInt8} {index shift value : Nat}
  {out : Allocation UInt8} {state : Decoding}

theorem decodeLoop_padding :
    decodeLoop outlen (letter 64 :: data) state = decodeLoop outlen data state := by
  rw [decodeLoop, codes_padding]
  rfl

/-- The last two values are in the low bits. -/
theorem exists_shiftIn (accum : Int) (first second : Nat) :
    ∃ high : Int, shiftIn (shiftIn accum first) second = 4096 * high + 64 * first + second := by
  refine ⟨(shiftIn (shiftIn accum first) second - 64 * first - second) / 4096, ?_⟩
  unfold shiftIn toInt
  omega

/-- The octet that two letters make. -/
theorem octet_letters {left : Nat} (accum : Int) (first second : Nat)
    (aligned : left = 4 ∨ left = 2 ∨ left = 0) :
    UInt8.ofNat (shiftIn (shiftIn accum first) second / 2 ^ left % 256).toNat =
      UInt8.ofNat ((first * 64 + second) / 2 ^ left) := by
  obtain ⟨high, low⟩ := exists_shiftIn accum first second
  have same : (shiftIn (shiftIn accum first) second / 2 ^ left % 256).toNat =
      (first * 64 + second) / 2 ^ left % 256 := by
    rw [low]
    rcases aligned with rfl | rfl | rfl
    · omega
    · omega
    · omega
  rw [same, ← UInt8.toNat_inj, UInt8.toNat_ofNat', UInt8.toNat_ofNat']
  exact Nat.mod_mod _ _

theorem ofNat_eq {octet : UInt8} {number : Nat} (same : number % 256 = octet.toNat) :
    UInt8.ofNat number = octet := by
  rw [← UInt8.toNat_inj, UInt8.toNat_ofNat', ← same]

/-- The first letter of four. -/
theorem decodeLoop_first (bound : value < 64) :
    decodeLoop outlen (letter value :: data) { shift := 0, accum, index, out } =
      decodeLoop outlen data { shift := 6, accum := shiftIn accum value, index, out } := by
  rw [decodeLoop, codes_letter bound]
  exact if_pos (Int.natCast_nonneg value)

/-- A letter behind another one writes an octet. -/
theorem decodeLoop_letter {left first second : Nat} {octet : UInt8} (bound : second < 64)
    (aligned : left = 4 ∨ left = 2 ∨ left = 0)
    (same : (first * 64 + second) / 2 ^ left % 256 = octet.toNat)
    (stored : out.stored = written ++ rest) (isIndex : index = written.length)
    (room : index + 1 ≤ out.size) (more : index + 1 < outlen) :
    ∃ out' : Allocation UInt8, out'.size = out.size ∧
      out'.stored = (written ++ [octet]) ++ rest.drop 1 ∧
      ∀ (accum : Int) (data : List UInt8),
        decodeLoop outlen (letter second :: data)
            { shift := left + 2, accum := shiftIn accum first, index, out } =
          decodeLoop outlen data
            { shift := left, accum := shiftIn (shiftIn accum first) second, index := index + 1
              out := out' } := by
  subst isIndex
  obtain ⟨out', result, size, stored'⟩ := Allocation.write_behind stored
    (show written.length + [octet].length ≤ out.size from room)
  refine ⟨out', size, stored', fun accum data => ?_⟩
  have enough : 8 ≤ left + 2 + 6 := by omega
  have rest : left + 2 + 6 - 8 = left := by omega
  have goesOn : ¬outlen ≤ ((written.length + 1 : Nat) : Int) := by omega
  rw [decodeLoop, codes_letter bound]
  simp only [Int.natCast_nonneg, if_true, enough, rest, octet_letters accum first second aligned,
    ofNat_eq same, result, Outcome.ok_bind]
  rw [if_neg goesOn]

/-- What the loop writes for an encoding. -/
theorem decodeLoop_base64 (stored : out.stored = written ++ rest)
    (isIndex : index = written.length)
    (room : index + data.length ≤ out.size) (more : index + data.length < outlen) :
    ∃ state : Decoding,
      decodeLoop outlen (base64 data) { shift := 0, accum, index, out } = .ok (0, state) ∧
        state.index = index + data.length ∧
        state.out.stored = written ++ data ++ rest.drop data.length := by
  induction data using base64.induct generalizing written rest index out accum with
  | case1 =>
      rw [base64, decodeLoop, List.append_nil]
      exact ⟨_, rfl, rfl, stored⟩
  | case2 a =>
      have boundA := a.toNat_lt
      rw [List.length_singleton] at room more
      obtain ⟨out₁, -, stored₁, result₁⟩ := decodeLoop_letter
        (show a.toNat % 4 * 16 < 64 by omega) (.inl rfl)
        (show (a.toNat / 4 * 64 + a.toNat % 4 * 16) / 2 ^ 4 % 256 = a.toNat by omega)
        stored isIndex room more
      rw [base64, decodeLoop_first (by omega), result₁, decodeLoop_padding, decodeLoop_padding,
        decodeLoop]
      exact ⟨_, rfl, rfl, stored₁⟩
  | case3 a b =>
      have boundA := a.toNat_lt
      have boundB := b.toNat_lt
      have two : [a, b].length = 2 := rfl
      have second : index + 1 = (written ++ [a]).length := by
        simp only [isIndex, List.length_append, List.length_singleton]
      rw [two] at room more
      obtain ⟨out₁, size₁, stored₁, result₁⟩ := decodeLoop_letter
        (show a.toNat % 4 * 16 + b.toNat / 16 < 64 by omega) (.inl rfl)
        (show (a.toNat / 4 * 64 + (a.toNat % 4 * 16 + b.toNat / 16)) / 2 ^ 4 % 256 = a.toNat by
          omega)
        stored isIndex (show index + 1 ≤ out.size by omega) (show index + 1 < outlen by omega)
      obtain ⟨out₂, -, stored₂, result₂⟩ := decodeLoop_letter
        (show b.toNat % 16 * 4 < 64 by omega) (.inr (.inl rfl))
        (show ((a.toNat % 4 * 16 + b.toNat / 16) * 64 + b.toNat % 16 * 4) / 2 ^ 2 % 256 =
          b.toNat by omega)
        stored₁ second (show index + 1 + 1 ≤ out₁.size by omega)
        (show (index + 1 : Nat) + 1 < outlen by omega)
      rw [base64, decodeLoop_first (by omega), result₁, result₂, decodeLoop_padding, decodeLoop]
      refine ⟨_, rfl, rfl, ?_⟩
      change out₂.stored = _
      rw [stored₂, List.drop_drop, List.append_assoc written]
      rfl
  | case4 a b c others ih =>
      have boundA := a.toNat_lt
      have boundB := b.toNat_lt
      have boundC := c.toNat_lt
      have whole : (a :: b :: c :: others).length = others.length + 3 := rfl
      have second : index + 1 = (written ++ [a]).length := by
        simp only [isIndex, List.length_append, List.length_singleton]
      have third : index + 1 + 1 = (written ++ [a] ++ [b]).length := by
        simp only [isIndex, List.length_append, List.length_singleton]
      have fourth : index + 1 + 1 + 1 = (written ++ [a] ++ [b] ++ [c]).length := by
        simp only [isIndex, List.length_append, List.length_singleton]
      rw [whole] at room more
      obtain ⟨out₁, size₁, stored₁, result₁⟩ := decodeLoop_letter
        (show a.toNat % 4 * 16 + b.toNat / 16 < 64 by omega) (.inl rfl)
        (show (a.toNat / 4 * 64 + (a.toNat % 4 * 16 + b.toNat / 16)) / 2 ^ 4 % 256 = a.toNat by
          omega)
        stored isIndex (show index + 1 ≤ out.size by omega) (show index + 1 < outlen by omega)
      obtain ⟨out₂, size₂, stored₂, result₂⟩ := decodeLoop_letter
        (show b.toNat % 16 * 4 + c.toNat / 64 < 64 by omega) (.inr (.inl rfl))
        (show ((a.toNat % 4 * 16 + b.toNat / 16) * 64 + (b.toNat % 16 * 4 + c.toNat / 64)) /
          2 ^ 2 % 256 = b.toNat by omega)
        stored₁ second (show index + 1 + 1 ≤ out₁.size by omega)
        (show (index + 1 : Nat) + 1 < outlen by omega)
      obtain ⟨out₃, size₃, stored₃, result₃⟩ := decodeLoop_letter
        (show c.toNat % 64 < 64 by omega) (.inr (.inr rfl))
        (show ((b.toNat % 16 * 4 + c.toNat / 64) * 64 + c.toNat % 64) / 2 ^ 0 % 256 = c.toNat by
          omega)
        stored₂ third (show index + 1 + 1 + 1 ≤ out₂.size by omega)
        (show (index + 1 + 1 : Nat) + 1 < outlen by omega)
      obtain ⟨state, result₄, isLast, stored₄⟩ := ih stored₃ fourth (by omega) (by omega)
      simp only [base64, List.cons_append, List.nil_append]
      rw [decodeLoop_first (by omega), result₁, result₂, result₃]
      refine ⟨state, result₄, ?_, ?_⟩
      · rw [isLast, whole]
        omega
      · have all : 1 + 1 + 1 + others.length = others.length + 3 := by omega
        rw [stored₄]
        simp only [List.drop_drop, List.append_assoc, List.cons_append, List.nil_append, whole, all]

end

/-! ## Both ways -/

/-- The octets are encoded and decoded again, in buffers that are as long as the macros say,
and a name and a password that they consist of reach `WWW_Auth`. -/
structure Survives (data : List UInt8) : Prop where
  roundTrip : ∃ encodeMax, encodeOutputMaxLen data.length = .ok encodeMax ∧
    ∀ out : Allocation UInt8, out.size = encodeMax →
      ∃ (outlen : Nat) (encoded : Allocation UInt8) (text : List UInt8),
        encode data out encodeMax = .ok (0, outlen, encoded) ∧
        encoded.read 0 outlen = .ok text ∧
        ∀ out : Allocation UInt8, out.size = decodeOutputMaxLen outlen →
          ∃ decoded : Allocation UInt8,
            decode text outlen out (decodeOutputMaxLen outlen) = .ok (0, data.length, decoded) ∧
            decoded.read 0 data.length = .ok data
  credentials : ∀ username password, 0 ∉ username → 0x3a ∉ username → 0 ∉ password →
    data = username ++ 0x3a :: password →
    basicCredentials (base64 data) = .ok (username, password)

theorem base64_lt (data : List UInt8) (short : data.length ≤ 1610612733) :
    (base64 data).length + 3 < 2 ^ 31 := by
  rw [length_base64]
  omega

theorem encodeOutputMaxLen_eq_ok {data : List UInt8} (short : data.length ≤ 1610612733) :
    ∃ encodeMax, encodeOutputMaxLen data.length = .ok encodeMax ∧
      (base64 data).length + 1 ≤ encodeMax := by
  rw [length_base64, encodeOutputMaxLen]
  by_cases few : data.length < 4
  · rw [if_pos few]
    exact ⟨5, rfl, by omega⟩
  · rw [if_neg few]
    dsimp only
    by_cases whole : data.length % 3 = 0
    · rw [if_pos whole, if_pos (by omega)]
      exact ⟨_, rfl, by omega⟩
    · rw [if_neg whole, if_pos (by omega)]
      exact ⟨_, rfl, by omega⟩

theorem encodeOutputMaxLen_eq_fault {data : List UInt8} (long : ¬data.length ≤ 1610612733) :
    encodeOutputMaxLen data.length = .fault := by
  have many : ¬data.length < 4 := by omega
  rw [encodeOutputMaxLen, if_neg many]
  apply if_neg
  split
  · omega
  · omega

theorem length_lt_decodeOutputMaxLen (data : List UInt8) :
    data.length < decodeOutputMaxLen (base64 data).length := by
  rw [length_base64, decodeOutputMaxLen]
  split
  · omega
  · omega

/-- `Decode` of an encoding. -/
theorem decode_base64 {data : List UInt8} (short : data.length ≤ 1610612733)
    {out : Allocation UInt8} {outlen : Nat} (size : out.size = outlen)
    (more : data.length < outlen) :
    ∃ decoded : Allocation UInt8,
      decode (base64 data) (base64 data).length out outlen = .ok (0, data.length, decoded) ∧
        decoded.stored = data ++ out.stored.drop data.length := by
  obtain ⟨state, result, isLast, stored⟩ := @decodeLoop_base64 outlen 0 data [] out.stored 0 out
    rfl rfl (by omega) (by omega)
  have counted : ¬2 ^ 31 ≤ ((base64 data).length : Int) + 3 := by
    have lengths := base64_lt data short
    omega
  refine ⟨state.out, ?_, stored⟩
  rw [decode, if_neg counted, Int.toNat_natCast, List.take_length, result, Outcome.ok_bind]
  simp only [if_true, isLast, Nat.zero_add]

theorem letter_ne_zero {value : Nat} (bound : value < 65) : letter value ≠ 0 := by
  revert value
  decide +kernel

theorem nulFree_base64 (data : List UInt8) : 0 ∉ base64 data := by
  have free {value : Nat} (bound : value < 65) : 0 ≠ letter value := (letter_ne_zero bound).symm
  induction data using base64.induct with
  | case1 => exact List.not_mem_nil
  | case2 a =>
      have boundA := a.toNat_lt
      simp only [base64, List.mem_cons, List.not_mem_nil, or_false, not_or]
      exact ⟨free (by omega), free (by omega), free (by omega), free (by omega)⟩
  | case3 a b =>
      have boundA := a.toNat_lt
      have boundB := b.toNat_lt
      simp only [base64, List.mem_cons, List.not_mem_nil, or_false, not_or]
      exact ⟨free (by omega), free (by omega), free (by omega), free (by omega)⟩
  | case4 a b c others ih =>
      have boundA := a.toNat_lt
      have boundB := b.toNat_lt
      have boundC := c.toNat_lt
      simp only [base64, List.mem_append, List.mem_cons, List.not_mem_nil, or_false, not_or]
      exact ⟨⟨free (by omega), free (by omega), free (by omega), free (by omega)⟩, ih⟩

/-- `WWW_Auth` on encoded credentials: the buffer is filled with zeros, and one octet longer at
least than what is decoded. -/
theorem basicCredentials_base64 {username password : List UInt8}
    (short : (username ++ 0x3a :: password).length ≤ 1610612733)
    (nulFree : 0 ∉ username ++ 0x3a :: password) (free : 0x3a ∉ username) :
    basicCredentials (base64 (username ++ 0x3a :: password)) = .ok (username, password) := by
  generalize credentials : username ++ 0x3a :: password = data at *
  have lengths := base64_lt data short
  have more := length_lt_decodeOutputMaxLen data
  have bound : decodeOutputMaxLen (base64 data).length < 2 ^ 31 := by
    rw [decodeOutputMaxLen]
    split <;> omega
  have whole : toInt (base64 data).length = (base64 data).length :=
    Http2.toInt_of_bounds (by omega) (by omega)
  have whole' : toInt (decodeOutputMaxLen (base64 data).length) =
      decodeOutputMaxLen (base64 data).length :=
    Http2.toInt_of_bounds (by omega) (by omega)
  have size : (Allocation.filled (decodeOutputMaxLen (base64 data).length) 0 :
      Allocation UInt8).size = decodeOutputMaxLen (base64 data).length := rfl
  obtain ⟨decoded, result, stored⟩ := decode_base64 short size more
  obtain ⟨count, left⟩ : ∃ count,
      decodeOutputMaxLen (base64 data).length - data.length = count + 1 :=
    ⟨decodeOutputMaxLen (base64 data).length - data.length - 1, by omega⟩
  have zeros : decoded.stored = data ++ 0 :: List.replicate count 0 := by
    rw [stored, Allocation.filled, List.drop_replicate, left, List.replicate_succ]
  have ends : 0 ∈ decoded.stored := by
    rw [zeros]
    exact List.mem_append_right _ List.mem_cons_self
  have known : ¬(decodeOutputMaxLen (base64 data).length : Int) < 0 := by omega
  rw [basicCredentials, cString_of_nulFree (nulFree_base64 data)]
  simp only [whole, whole', if_neg known, Int.toNat_natCast, result, Outcome.ok_bind, if_pos ends]
  rw [zeros, cString_append_nul nulFree, ← credentials]
  rw [← credentials] at nulFree
  obtain ⟨before, behind⟩ := strcut_delimiter nulFree free
  rw [before, behind]

/-- Which octets survive. -/
theorem survives_iff (data : List UInt8) : Survives data ↔ data.length ≤ 1610612733 := by
  constructor
  · rintro ⟨⟨encodeMax, counted, -⟩, -⟩
    by_contra long
    rw [encodeOutputMaxLen_eq_fault long] at counted
    cases counted
  · intro short
    have lengths := base64_lt data short
    have more := length_lt_decodeOutputMaxLen data
    refine ⟨?_, ?_⟩
    · obtain ⟨encodeMax, counted, room⟩ := encodeOutputMaxLen_eq_ok short
      refine ⟨encodeMax, counted, fun out size => ?_⟩
      obtain ⟨encoded, rest, stored, result⟩ := @encodeLoop_eq_ok encodeMax data [] out.stored out
        rfl (by rw [List.length_nil]; omega) (by rw [List.length_nil]; omega)
        (by rw [List.length_nil]; omega)
      rw [List.nil_append] at stored result
      refine ⟨(base64 data).length, encoded, base64 data, result, ?_, fun out size => ?_⟩
      · exact Allocation.read_front stored
      · obtain ⟨decoded, result, stored⟩ := decode_base64 short size more
        exact ⟨decoded, result, Allocation.read_front stored⟩
    · rintro username password nulFree free nulFree' rfl
      refine basicCredentials_base64 short ?_ free
      simp only [List.mem_append, List.mem_cons, not_or]
      exact ⟨nulFree, by decide, nulFree'⟩

/-- The length that the macro cannot tell. -/
theorem not_survives_long : ¬∀ data, Survives data := by
  intro survives
  obtain ⟨encodeMax, counted, -⟩ := (survives (List.replicate 1610612734 0)).roundTrip
  have long : ¬(List.replicate 1610612734 (0 : UInt8)).length ≤ 1610612733 := by
    rw [List.length_replicate]
    decide
  rw [encodeOutputMaxLen_eq_fault long] at counted
  cases counted

end Http1

end HeapHttpd
