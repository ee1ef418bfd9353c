import HeapHttpd.Hpack.Parse
import HeapHttpd.Huffman.Decoding

/-!
# What the parser accepts and refuses

The octets at which each part of `hpack::parse` succeeds, with the result, and
the octets at which it reports an error.  At all other octets the parser leaves
the memory it was given, or an `int`.
-/

namespace HeapHttpd

namespace Hpack

open General PrefixInteger BitString Huffman

/-- The integers `decode_integer` accepts: at most five octets follow the
prefix, and they write less than 32 bits.  The sum is kept modulo 2^32. -/
def AcceptedInteger (n : Nat) (bytes : List UInt8) (dst : Nat) : Prop :=
  ∃ value, Code n bytes value ∧ bytes.length ≤ 6 ∧ value < 2 ^ 32 + (2 ^ n - 1) ∧
    dst = value % 2 ^ 32

/-- The integers `decode_integer` refuses: the fifth octet behind the prefix
writes more than four bits. -/
def IntegerRefused (n : Nat) (memory : List UInt8) : Prop :=
  ∃ first groups last rest, memory = first :: (groups ++ last :: rest) ∧
    first.toNat % 2 ^ n = 2 ^ n - 1 ∧ groups.length = 4 ∧
    (∀ group ∈ groups, 0x80 ≤ group.toNat) ∧ 16 ≤ last.toNat % 128

theorem decodeIntegerLoop_accepted {groups : List UInt8} (rest : List UInt8)
    (terminated : Terminated groups) {room count : Nat} (dst length : Nat)
    (few : count + groups.length ≤ 5) (fits : groupsValue groups * 2 ^ (7 * count) < 2 ^ 32)
    (enough : groups.length ≤ room) :
    decodeIntegerLoop room (groups ++ rest) (7 * count) dst length =
      .ok ((dst + groupsValue groups * 2 ^ (7 * count)) % 2 ^ 32, length + groups.length) := by
  induction groups generalizing room count dst length with
  | nil => exact terminated.elim
  | cons group groups ih =>
      obtain ⟨room, rfl⟩ : ∃ more, room = more + 1 :=
        ⟨room - 1, by rw [List.length_cons] at enough; omega⟩
      rw [List.length_cons] at few enough
      have value : groupsValue (group :: groups) * 2 ^ (7 * count) =
          (group.toNat % 128) * 2 ^ (7 * count) +
            groupsValue groups * 2 ^ (7 * (count + 1)) := by
        rw [groupsValue, Nat.mul_succ, Nat.pow_add]
        ring
      rw [value] at fits ⊢
      have added : ¬ (2 ^ 32 - 1) >>> (7 * count) < group.toNat % 128 := by
        rw [Nat.shiftRight_eq_div_pow, Nat.not_lt, Nat.le_div_iff_mul_le (Nat.two_pow_pos _)]
        omega
      rw [List.cons_append, decodeIntegerLoop, if_neg (by omega), if_neg added,
        Nat.shiftLeft_eq, List.length_cons]
      dsimp only
      by_cases more : 0x80 ≤ group.toNat
      · rw [Terminated, if_neg (by omega)] at terminated
        rw [if_pos more, show 7 * count + 7 = 7 * (count + 1) by ring,
          ih terminated _ _ (by omega) (by omega) (by omega), Nat.mod_add_mod]
        congr 2
        · rw [Nat.add_assoc]
        · omega
      · rw [Terminated, if_pos (by omega)] at terminated
        subst terminated
        rw [if_neg more]
        simp [groupsValue]

/-- An integer of at most five octets behind the prefix is read where it is whole. -/
theorem decodeInteger_code {n value room : Nat} {bytes : List UInt8} (code : Code n bytes value)
    (few : bytes.length ≤ 6) (fits : value < 2 ^ 32 + (2 ^ n - 1)) (rest : List UInt8)
    (enough : bytes.length ≤ room) :
    decodeInteger (bytes ++ rest) room n = .ok (value % 2 ^ 32, bytes.length) := by
  cases code with
  | short first small =>
      have octet := first.toNat_lt
      have bound : first.toNat % 2 ^ n ≤ first.toNat := Nat.mod_le _ _
      have whole : first.toNat % 2 ^ n % 2 ^ 32 = first.toNat % 2 ^ n :=
        Nat.mod_eq_of_lt (by omega)
      rw [List.length_singleton] at enough
      rw [List.singleton_append, decodeInteger, if_neg (by omega)]
      dsimp only
      rw [if_neg small.ne, whole, List.length_singleton]
  | long first groups full terminated =>
      rw [List.length_cons] at few enough
      have start : groupsValue groups * 2 ^ (7 * 0) = groupsValue groups := by simp
      have run : decodeIntegerLoop (room - 1) (groups ++ rest) (7 * 0) (2 ^ n - 1) 1 = _ :=
        decodeIntegerLoop_accepted rest terminated (2 ^ n - 1) 1 (by omega)
          (by rw [start]; omega) (by omega)
      rw [start] at run
      rw [List.cons_append, decodeInteger, if_neg (by omega)]
      dsimp only
      rw [if_pos full, full, run, List.length_cons, Nat.add_comm 1]

theorem decodeInteger_accepted {n : Nat} {bytes : List UInt8} {dst : Nat}
    (accepted : AcceptedInteger n bytes dst) (rest : List UInt8) :
    decodeInteger (bytes ++ rest) maxBytesOfLength n = .ok (dst, bytes.length) := by
  obtain ⟨value, code, few, fits, rfl⟩ := accepted
  exact decodeInteger_code code few fits rest (by unfold maxBytesOfLength; omega)

theorem decodeIntegerLoop_ok {room count : Nat} {memory : List UInt8} {dst length : Nat}
    {result : Nat × Nat} (few : count ≤ 5)
    (run : decodeIntegerLoop room memory (7 * count) dst length = .ok result) :
    ∃ groups rest, memory = groups ++ rest ∧ Terminated groups ∧
      count + groups.length ≤ 5 ∧ groupsValue groups * 2 ^ (7 * count) < 2 ^ 32 ∧
      result = ((dst + groupsValue groups * 2 ^ (7 * count)) % 2 ^ 32,
        length + groups.length) := by
  induction room generalizing memory count dst length with
  | zero => simp [decodeIntegerLoop] at run
  | succ room ih =>
      cases memory with
      | nil => simp [decodeIntegerLoop] at run
      | cons group memory =>
          rw [decodeIntegerLoop] at run
          dsimp only at run
          by_cases deep : 32 ≤ 7 * count
          · rw [if_pos deep] at run
            cases run
          by_cases added : (2 ^ 32 - 1) >>> (7 * count) < group.toNat % 128
          · rw [if_neg deep, if_pos added] at run
            cases run
          have power := Nat.two_pow_pos (7 * count)
          have fits : group.toNat % 128 * 2 ^ (7 * count) < 2 ^ 32 := by
            rw [Nat.shiftRight_eq_div_pow, Nat.not_lt, Nat.le_div_iff_mul_le power] at added
            omega
          rw [if_neg deep, if_neg added, Nat.shiftLeft_eq] at run
          by_cases more : 0x80 ≤ group.toNat
          · rw [if_pos more, show 7 * count + 7 = 7 * (count + 1) by ring] at run
            obtain ⟨groups, rest, rfl, terminated, few', fits', rfl⟩ := ih (by omega) run
            have value : groupsValue (group :: groups) * 2 ^ (7 * count) =
                (group.toNat % 128) * 2 ^ (7 * count) +
                  groupsValue groups * 2 ^ (7 * (count + 1)) := by
              rw [groupsValue, Nat.mul_succ, Nat.pow_add]
              ring
            refine ⟨group :: groups, rest, rfl, ?_, by simp; omega, ?_, ?_⟩
            · rw [Terminated, if_neg (by omega)]
              exact terminated
            · rw [value]
              have nonempty : 0 < groups.length := by
                cases groups with
                | nil => exact terminated.elim
                | cons => simp
              have small : group.toNat % 128 < 128 := Nat.mod_lt _ (by omega)
              have place : 2 ^ (7 * (count + 1)) * 2 ^ (25 - 7 * count) = 2 ^ 32 := by
                rw [← Nat.pow_add]
                congr 1
                omega
              have whole : groupsValue groups < 2 ^ (25 - 7 * count) := by
                rw [← place, Nat.mul_comm] at fits'
                exact Nat.lt_of_mul_lt_mul_left fits'
              calc group.toNat % 128 * 2 ^ (7 * count) +
                    groupsValue groups * 2 ^ (7 * (count + 1))
                  < 2 ^ (7 * (count + 1)) + groupsValue groups * 2 ^ (7 * (count + 1)) := by
                    rw [Nat.mul_succ, Nat.pow_add, Nat.mul_comm (2 ^ (7 * count))]
                    exact Nat.add_lt_add_right (Nat.mul_lt_mul_of_pos_right small power) _
                _ = (groupsValue groups + 1) * 2 ^ (7 * (count + 1)) := by ring
                _ ≤ 2 ^ (25 - 7 * count) * 2 ^ (7 * (count + 1)) :=
                    Nat.mul_le_mul_right _ whole
                _ = 2 ^ 32 := by rw [Nat.mul_comm, place]
            · rw [value, Nat.mod_add_mod, Nat.add_assoc, List.length_cons]
              congr 1
              omega
          · rw [if_neg more] at run
            cases run
            refine ⟨[group], memory, rfl, ?_, by simp; omega, ?_, ?_⟩
            · rw [Terminated, if_pos (by omega)]
            · simpa [groupsValue] using fits
            · simp [groupsValue]

theorem decodeInteger_ok {n room : Nat} {memory : List UInt8} {dst length : Nat}
    (run : decodeInteger memory room n = .ok (dst, length)) :
    ∃ bytes rest, memory = bytes ++ rest ∧ AcceptedInteger n bytes dst ∧
      length = bytes.length := by
  unfold decodeInteger at run
  by_cases empty : room = 0
  · rw [if_pos empty] at run
    cases run
  rw [if_neg empty] at run
  cases memory with
  | nil => cases run
  | cons first memory =>
      dsimp only at run
      by_cases full : first.toNat % 2 ^ n = 2 ^ n - 1
      · rw [if_pos full] at run
        have run' : decodeIntegerLoop (room - 1) memory (7 * 0) _ 1 = _ := run
        obtain ⟨groups, rest, rfl, terminated, few, fits, equal⟩ :=
          decodeIntegerLoop_ok (by omega) run'
        rw [Nat.mul_zero, Nat.pow_zero, Nat.mul_one] at fits equal
        rw [full] at equal
        obtain ⟨rfl, rfl⟩ := Prod.mk.inj equal
        refine ⟨first :: groups, rest, rfl, ⟨_, Code.long first groups full terminated,
          by simp; omega, by omega, rfl⟩, by simp; omega⟩
      · rw [if_neg full] at run
        cases run
        have positive := Nat.two_pow_pos n
        have bound := Nat.mod_lt first.toNat positive
        have octet := first.toNat_lt
        have le := Nat.mod_le first.toNat (2 ^ n)
        have whole : first.toNat % 2 ^ n % 2 ^ 32 = first.toNat % 2 ^ n :=
          Nat.mod_eq_of_lt (by omega)
        exact ⟨[first], memory, rfl,
          ⟨_, Code.short first (by omega), by simp, by omega, whole.symm⟩, rfl⟩

theorem decodeIntegerLoop_err {room count : Nat} {memory : List UInt8} {dst length : Nat}
    (few : count ≤ 4) (enough : 6 ≤ room + count) :
    decodeIntegerLoop room memory (7 * count) dst length = .err ↔
      ∃ groups last rest, memory = groups ++ last :: rest ∧ groups.length + count = 4 ∧
        (∀ group ∈ groups, 0x80 ≤ group.toNat) ∧ 16 ≤ last.toNat % 128 := by
  induction room generalizing memory count dst length with
  | zero => omega
  | succ room ih =>
      cases memory with
      | nil => simp [decodeIntegerLoop]
      | cons group memory =>
          have small : group.toNat % 128 < 128 := Nat.mod_lt _ (by omega)
          rw [decodeIntegerLoop, if_neg (by omega)]
          dsimp only
          by_cases last : count = 4
          · subst last
            have quota : (2 ^ 32 - 1) >>> (7 * 4) = 15 := by decide
            rw [quota]
            by_cases refused : 16 ≤ group.toNat % 128
            · rw [if_pos (by omega)]
              exact iff_of_true rfl ⟨[], group, memory, rfl, rfl, by simp, refused⟩
            · rw [if_neg (by omega)]
              refine iff_of_false ?_ ?_
              · split
                · cases room with
                  | zero => omega
                  | succ room =>
                      cases memory with
                      | nil => simp [decodeIntegerLoop]
                      | cons => simp [decodeIntegerLoop]
                · simp
              · rintro ⟨groups, last, rest, equal, length, -, large⟩
                obtain rfl : groups = [] := List.length_eq_zero_iff.mp (by omega)
                obtain ⟨rfl, -⟩ := List.cons.inj equal
                exact refused large
          · have added : ¬ (2 ^ 32 - 1) >>> (7 * count) < group.toNat % 128 := by
              have place : 2 ^ (7 * count) * 127 ≤ 2 ^ 32 - 1 := by
                have : 2 ^ (7 * count) ≤ 2 ^ 21 := Nat.pow_le_pow_right (by omega) (by omega)
                omega
              rw [Nat.shiftRight_eq_div_pow, Nat.not_lt,
                Nat.le_div_iff_mul_le (Nat.two_pow_pos _), Nat.mul_comm]
              exact (Nat.mul_le_mul_left _ (by omega)).trans place
            rw [if_neg added]
            by_cases more : 0x80 ≤ group.toNat
            · rw [if_pos more, show 7 * count + 7 = 7 * (count + 1) by ring,
                ih (by omega) (by omega)]
              constructor
              · rintro ⟨groups, last, rest, rfl, length, continued, large⟩
                refine ⟨group :: groups, last, rest, rfl, by simp; omega, ?_, large⟩
                simpa [more] using continued
              · rintro ⟨groups, last, rest, equal, length, continued, large⟩
                cases groups with
                | nil => simp at length; omega
                | cons other groups =>
                    obtain ⟨rfl, rfl⟩ := List.cons.inj equal
                    simp only [List.mem_cons, forall_eq_or_imp] at continued
                    exact ⟨groups, last, rest, rfl, by simp at length; omega,
                      continued.2, large⟩
            · rw [if_neg more]
              refine iff_of_false (by simp) ?_
              rintro ⟨groups, last, rest, equal, length, continued, -⟩
              cases groups with
              | nil => simp at length; omega
              | cons other groups =>
                  obtain ⟨rfl, -⟩ := List.cons.inj equal
                  exact more (continued _ (by simp))

theorem decodeInteger_err {n : Nat} {memory : List UInt8} :
    decodeInteger memory maxBytesOfLength n = .err ↔ IntegerRefused n memory := by
  cases memory with
  | nil => simp [decodeInteger, maxBytesOfLength, IntegerRefused]
  | cons first memory =>
      rw [decodeInteger, if_neg (by decide)]
      dsimp only
      by_cases full : first.toNat % 2 ^ n = 2 ^ n - 1
      · have run : decodeIntegerLoop (maxBytesOfLength - 1) memory (7 * 0)
            (first.toNat % 2 ^ n) 1 = .err ↔ _ :=
          decodeIntegerLoop_err (Nat.zero_le 4) (by decide)
        rw [if_pos full, ← Nat.mul_zero 7, run]
        simp only [IntegerRefused, List.cons.injEq]
        constructor
        · rintro ⟨groups, last, rest, rfl, length, continued, large⟩
          exact ⟨first, groups, last, rest, ⟨rfl, rfl⟩, full, length, continued, large⟩
        · rintro ⟨_, groups, last, rest, ⟨rfl, rfl⟩, -, length, continued, large⟩
          exact ⟨groups, last, rest, rfl, length, continued, large⟩
      · rw [if_neg full]
        refine iff_of_false (by simp) ?_
        rintro ⟨_, groups, last, rest, equal, full', -⟩
        obtain ⟨rfl, -⟩ := List.cons.inj equal
        exact full full'

theorem IntegerRefused.append {n : Nat} {memory : List UInt8}
    (refused : IntegerRefused n memory) (after : List UInt8) :
    IntegerRefused n (memory ++ after) := by
  obtain ⟨first, groups, last, rest, rfl, full, length, continued, large⟩ := refused
  exact ⟨first, groups, last, rest ++ after, by simp, full, length, continued, large⟩

theorem IntegerRefused.length_pos {n : Nat} {memory : List UInt8}
    (refused : IntegerRefused n memory) : 0 < memory.length := by
  obtain ⟨first, groups, last, rest, rfl, -⟩ := refused
  simp

theorem AcceptedInteger.length_pos {n dst : Nat} {bytes : List UInt8}
    (accepted : AcceptedInteger n bytes dst) : 0 < bytes.length := by
  obtain ⟨value, code, -⟩ := accepted
  exact List.length_pos_iff.mpr code.ne_nil

theorem readString_huffman_ok {stringPtr out : List UInt8} {stringLen : Nat} :
    readString true stringPtr stringLen = .ok out ↔
      stringLen * 8 + 1 < 2 ^ 31 ∧ stringLen ≤ stringPtr.length ∧
        ∃ text, LenientString (stringPtr.take stringLen) text ∧ out = cString text := by
  rw [readString, if_pos rfl]
  split
  · refine iff_of_false (by simp) (by omega)
  · rw [Outcome.bind_eq_ok]
    simp only [hfStringDecode_eq_ok, Outcome.ok.injEq]
    constructor
    · rintro ⟨text, ⟨inside, codes⟩, rfl⟩
      exact ⟨by omega, inside, text, codes, rfl⟩
    · rintro ⟨-, inside, text, codes, rfl⟩
      exact ⟨text, ⟨inside, codes⟩, rfl⟩

theorem readString_raw_ok {stringPtr out : List UInt8} {stringLen : Nat} :
    readString false stringPtr stringLen = .ok out ↔
      stringLen + 1 < 2 ^ 31 ∧ stringLen < stringPtr.length ∧
        out = cString (stringPtr.take stringLen) := by
  rw [readString, if_neg (by simp)]
  split
  · refine iff_of_false (by simp) (by omega)
  · rw [Outcome.ok.injEq, eq_comm]
    exact ⟨fun equal => ⟨by omega, by omega, equal⟩, fun both => both.2.2⟩

theorem readString_err {huffman : Bool} {stringPtr : List UInt8} {stringLen : Nat} :
    readString huffman stringPtr stringLen = .err ↔
      huffman = true ∧ stringLen * 8 + 1 < 2 ^ 31 ∧ MeetsEos (stringPtr.take stringLen) := by
  cases huffman with
  | false =>
      rw [readString, if_neg (by simp)]
      split <;> simp
  | true =>
      rw [readString, if_pos rfl]
      split
      · refine iff_of_false (by simp) (by omega)
      · rw [Outcome.bind_eq_err, hfStringDecode_eq_err]
        simp only [reduceCtorEq, and_false, exists_false, or_false, true_and]
        exact ⟨fun eos => ⟨by omega, eos⟩, fun both => both.2⟩

theorem AcceptedInteger.length_le {n dst : Nat} {bytes : List UInt8}
    (accepted : AcceptedInteger n bytes dst) : bytes.length ≤ 6 := by
  obtain ⟨value, -, few, -⟩ := accepted
  exact few

/-- No accepted integer begins another one. -/
theorem AcceptedInteger.append_inj {n firstDst secondDst : Nat}
    {first second firstRest secondRest : List UInt8}
    (firstAccepted : AcceptedInteger n first firstDst)
    (secondAccepted : AcceptedInteger n second secondDst)
    (equal : first ++ firstRest = second ++ secondRest) :
    first = second ∧ firstDst = secondDst ∧ firstRest = secondRest := by
  have firstRun := decodeInteger_accepted firstAccepted firstRest
  rw [equal, decodeInteger_accepted secondAccepted] at firstRun
  simp only [Outcome.ok.injEq, Prod.mk.injEq] at firstRun
  obtain ⟨same, rest⟩ := List.append_inj equal firstRun.2.symm
  exact ⟨same, firstRun.1.symm, rest⟩

/-- The string literals the parser accepts, with the string it keeps and
whether the octet behind the literal is read. -/
inductive AcceptedString : List UInt8 → List UInt8 → Bool → Prop
  | raw (lengthCode text : List UInt8) (length : AcceptedInteger 7 lengthCode text.length)
      (flag : firstOctet lengthCode < 0x80) :
      AcceptedString (lengthCode ++ text) (cString text) true
  | huffman (lengthCode enc text : List UInt8)
      (length : AcceptedInteger 7 lengthCode enc.length)
      (flag : 0x80 ≤ firstOctet lengthCode) (fits : enc.length * 8 + 1 < 2 ^ 31)
      (codes : LenientString enc text) :
      AcceptedString (lengthCode ++ enc) (cString text) false

/-- The string literals the parser refuses at a position: the length is
refused, or the octets that are present meet EOS. -/
def StringRefused (memory : List UInt8) (parsed : Nat) : Prop :=
  IntegerRefused 7 memory ∨
    ∃ lengthCode length rest, memory = lengthCode ++ rest ∧
      AcceptedInteger 7 lengthCode length ∧ 0x80 ≤ firstOctet lengthCode ∧
      length * 8 + 1 < 2 ^ 31 ∧ parsed + lengthCode.length + length < 2 ^ 31 ∧
      MeetsEos (rest.take length)

theorem AcceptedString.length_pos {bytes out : List UInt8} {raw : Bool}
    (accepted : AcceptedString bytes out raw) : 0 < bytes.length := by
  cases accepted with
  | raw _ _ length _ =>
      have := length.length_pos
      rw [List.length_append]
      omega
  | huffman _ _ _ length _ _ _ =>
      have := length.length_pos
      rw [List.length_append]
      omega

/-- No accepted string literal begins another one. -/
theorem AcceptedString.append_inj {first second firstOut secondOut : List UInt8}
    {firstRest secondRest : List UInt8} {firstRaw secondRaw : Bool}
    (firstAccepted : AcceptedString first firstOut firstRaw)
    (secondAccepted : AcceptedString second secondOut secondRaw)
    (equal : first ++ firstRest = second ++ secondRest) :
    first = second ∧ firstOut = secondOut ∧ firstRaw = secondRaw ∧ firstRest = secondRest := by
  cases firstAccepted with
  | raw lengthCode text length flag =>
      cases secondAccepted with
      | raw lengthCode' text' length' flag' =>
          rw [List.append_assoc, List.append_assoc] at equal
          obtain ⟨rfl, lengths, tails⟩ := length.append_inj length' equal
          obtain ⟨rfl, rfl⟩ := List.append_inj tails lengths
          exact ⟨rfl, rfl, rfl, rfl⟩
      | huffman lengthCode' enc' text' length' flag' fits codes =>
          rw [List.append_assoc, List.append_assoc] at equal
          obtain ⟨rfl, -, -⟩ := length.append_inj length' equal
          omega
  | huffman lengthCode enc text length flag fits codes =>
      cases secondAccepted with
      | raw lengthCode' text' length' flag' =>
          rw [List.append_assoc, List.append_assoc] at equal
          obtain ⟨rfl, -, -⟩ := length.append_inj length' equal
          omega
      | huffman lengthCode' enc' text' length' flag' fits' codes' =>
          rw [List.append_assoc, List.append_assoc] at equal
          obtain ⟨rfl, lengths, tails⟩ := length.append_inj length' equal
          obtain ⟨rfl, rfl⟩ := List.append_inj tails lengths
          exact ⟨rfl, by rw [codes.unique codes'], rfl, rfl⟩

theorem parseString_code {lengthCode : List UInt8} {length : Nat}
    (accepted : AcceptedInteger 7 lengthCode length) (rest : List UInt8) (parsed : Nat) :
    parseString (lengthCode ++ rest) parsed =
      advance parsed (lengthCode.length + length) >>= fun parsed =>
        readString (0x80 ≤ firstOctet lengthCode) rest length >>= fun out =>
          .ok (out, parsed) := by
  rw [parseString, decodeHttp2HeaderString, decodeInteger_accepted accepted,
    Outcome.ok_bind]
  dsimp only
  rw [firstOctet_append accepted.length_pos, List.drop_left]

theorem advance_ok {parsed count : Nat} (fits : parsed + count < 2 ^ 31) :
    advance parsed count = .ok (parsed + count) :=
  if_pos fits

theorem advance_eq_ok {parsed count result : Nat} :
    advance parsed count = .ok result ↔ parsed + count < 2 ^ 31 ∧ result = parsed + count := by
  unfold advance
  split
  · rename_i fits
    rw [Outcome.ok.injEq, eq_comm]
    exact ⟨fun equal => ⟨fits, equal⟩, And.right⟩
  · rename_i large
    exact iff_of_false (by simp) fun both => large both.1

theorem advance_ne_err (parsed count : Nat) : advance parsed count ≠ .err := by
  unfold advance
  split <;> simp

theorem StringRefused.append {memory : List UInt8} {parsed : Nat}
    (refused : StringRefused memory parsed) (after : List UInt8) :
    StringRefused (memory ++ after) parsed := by
  rcases refused with refused | ⟨lengthCode, length, rest, rfl, accepted, flag, small, fits, eos⟩
  · exact Or.inl (refused.append after)
  · refine Or.inr ⟨lengthCode, length, rest ++ after, by simp, accepted, flag, small, fits, ?_⟩
    rw [List.take_append]
    exact eos.append _

theorem StringRefused.length_pos {memory : List UInt8} {parsed : Nat}
    (refused : StringRefused memory parsed) : 0 < memory.length := by
  rcases refused with refused | ⟨lengthCode, length, rest, rfl, accepted, -⟩
  · exact refused.length_pos
  · have := accepted.length_pos
    rw [List.length_append]
    omega

theorem parseString_accepted {bytes out rest : List UInt8} {raw : Bool} {parsed : Nat}
    (accepted : AcceptedString bytes out raw) (slack : raw = true → rest ≠ [])
    (fits : parsed + bytes.length < 2 ^ 31) :
    parseString (bytes ++ rest) parsed = .ok (out, parsed + bytes.length) := by
  cases accepted with
  | raw lengthCode text length flag =>
      have positive := length.length_pos
      have behind := List.length_pos_iff.mpr (slack rfl)
      rw [List.length_append] at fits
      have read : readString false (text ++ rest) text.length = .ok (cString text) :=
        readString_raw_ok.mpr ⟨by omega, by rw [List.length_append]; omega, by simp⟩
      rw [List.append_assoc, parseString_code length, advance_ok (by omega), Outcome.ok_bind,
        decide_eq_false (by omega), read, Outcome.ok_bind, List.length_append]
  | huffman lengthCode enc text length flag small codes =>
      rw [List.length_append] at fits
      have read : readString true (enc ++ rest) enc.length = .ok (cString text) :=
        readString_huffman_ok.mpr ⟨small, by simp, text, by simpa using codes, rfl⟩
      rw [List.append_assoc, parseString_code length, advance_ok (by omega), Outcome.ok_bind,
        decide_eq_true flag, read, Outcome.ok_bind, List.length_append]

theorem parseString_ok {memory out : List UInt8} {parsed parsed' : Nat}
    (run : parseString memory parsed = .ok (out, parsed')) :
    ∃ bytes rest raw, memory = bytes ++ rest ∧ AcceptedString bytes out raw ∧
      (raw = true → rest ≠ []) ∧ parsed' = parsed + bytes.length ∧ parsed' < 2 ^ 31 := by
  have run' := run
  rw [parseString, Outcome.bind_eq_ok] at run
  obtain ⟨⟨length, integerLen⟩, decoded, -⟩ := run
  obtain ⟨lengthCode, rest, rfl, accepted, rfl⟩ := decodeInteger_ok decoded
  rw [parseString_code accepted, Outcome.bind_eq_ok] at run'
  obtain ⟨position, advanced, run'⟩ := run'
  obtain ⟨fits, rfl⟩ := advance_eq_ok.mp advanced
  rw [Outcome.bind_eq_ok] at run'
  obtain ⟨text, read, equal⟩ := run'
  obtain ⟨rfl, rfl⟩ : text = out ∧ parsed + (lengthCode.length + length) = parsed' := by
    simpa using equal
  by_cases flag : 0x80 ≤ firstOctet lengthCode
  · rw [decide_eq_true flag, readString_huffman_ok] at read
    obtain ⟨small, inside, text, codes, rfl⟩ := read
    have whole : (rest.take length).length = length := List.length_take_of_le inside
    refine ⟨lengthCode ++ rest.take length, rest.drop length, false, by simp, ?_, by simp,
      by rw [List.length_append, whole], fits⟩
    exact .huffman _ _ _ (by rwa [whole]) flag (by rwa [whole]) codes
  · rw [decide_eq_false flag, readString_raw_ok] at read
    obtain ⟨-, inside, rfl⟩ := read
    have whole : (rest.take length).length = length := List.length_take_of_le inside.le
    refine ⟨lengthCode ++ rest.take length, rest.drop length, true, by simp, ?_, ?_,
      by rw [List.length_append, whole], fits⟩
    · exact .raw _ _ (by rwa [whole]) (by omega)
    · intro _ empty
      have := congrArg List.length empty
      rw [List.length_drop, List.length_nil] at this
      omega

theorem parseString_err {memory : List UInt8} {parsed : Nat} :
    parseString memory parsed = .err ↔ StringRefused memory parsed := by
  constructor
  · intro run
    have run' := run
    rw [parseString, Outcome.bind_eq_err] at run
    rcases run with refused | ⟨⟨length, integerLen⟩, decoded, -⟩
    · exact Or.inl (decodeInteger_err.mp refused)
    · obtain ⟨lengthCode, rest, rfl, accepted, rfl⟩ := decodeInteger_ok decoded
      rw [parseString_code accepted, Outcome.bind_eq_err] at run'
      rcases run' with overflow | ⟨position, advanced, run'⟩
      · exact (advance_ne_err _ _ overflow).elim
      · obtain ⟨fits, rfl⟩ := advance_eq_ok.mp advanced
        rw [Outcome.bind_eq_err] at run'
        rcases run' with refused | ⟨_, _, impossible⟩
        · obtain ⟨flag, small, eos⟩ := readString_err.mp refused
          exact Or.inr ⟨lengthCode, length, rest, rfl, accepted, of_decide_eq_true flag, small,
            by omega, eos⟩
        · cases impossible
  · rintro (refused | ⟨lengthCode, length, rest, rfl, accepted, flag, small, fits, eos⟩)
    · rw [parseString, decodeHttp2HeaderString, decodeInteger_err.mpr refused]
      rfl
    · rw [parseString_code accepted, advance_ok (by omega), Outcome.ok_bind,
        readString_err.mpr ⟨decide_eq_true flag, small, eos⟩]
      rfl

/-- The literal tags the parser accepts, with the index type and the index it
keeps. -/
inductive AcceptedTag : List UInt8 → IndexType → Nat → Prop
  | withIndexing (tag : List UInt8) (index : Nat) (code : AcceptedInteger 6 tag index)
      (pattern : firstOctet tag / 64 = 1) :
      AcceptedTag tag
        (if 0 < firstOctet tag % 64 then .withIndexingIndexedName else .withIndexingNewName) index
  | withoutIndexing (tag : List UInt8) (dst : Nat) (code : AcceptedInteger 4 tag dst)
      (pattern : firstOctet tag / 16 = 0) :
      AcceptedTag tag
        (if 0 < firstOctet tag % 16 then .withoutIndexingIndexedName
          else .withoutIndexingNewName) (firstOctet tag % 16)
  | neverIndexed (tag : List UInt8) (index : Nat) (code : AcceptedInteger 4 tag index)
      (pattern : firstOctet tag / 16 = 1) :
      AcceptedTag tag
        (if 0 < firstOctet tag % 16 then .neverIndexedIndexedName else .neverIndexedNewName) index

/-- The literal tags the parser refuses: the index is refused, or the two bits
behind the first two mark no literal. -/
def TagRefused (memory : List UInt8) : Prop :=
  (firstOctet memory / 64 = 1 ∧ IntegerRefused 6 memory) ∨
    (firstOctet memory / 64 = 0 ∧ IntegerRefused 4 memory) ∨
    (firstOctet memory / 16 ∈ [2, 3] ∧
      ∃ tag dst rest, memory = tag ++ rest ∧ AcceptedInteger 4 tag dst)

theorem AcceptedTag.length_pos {tag : List UInt8} {indexType : IndexType} {index : Nat}
    (accepted : AcceptedTag tag indexType index) : 0 < tag.length := by
  cases accepted with
  | withIndexing _ code _ => exact code.length_pos
  | withoutIndexing _ code _ => exact code.length_pos
  | neverIndexed _ code _ => exact code.length_pos

theorem AcceptedTag.firstOctet_lt {tag : List UInt8} {indexType : IndexType} {index : Nat}
    (accepted : AcceptedTag tag indexType index) : firstOctet tag < 0x80 := by
  cases accepted <;> omega

theorem AcceptedTag.ne_sizeUpdate {tag : List UInt8} {indexType : IndexType} {index : Nat}
    (accepted : AcceptedTag tag indexType index) : firstOctet tag / 32 ≠ 1 := by
  cases accepted <;> omega

theorem parseLiteralTag_accepted {tag rest : List UInt8} {indexType : IndexType}
    {index parsed : Nat} (accepted : AcceptedTag tag indexType index)
    (fits : parsed + tag.length < 2 ^ 31) :
    parseLiteralTag (tag ++ rest) parsed = .ok (indexType, index, parsed + tag.length) := by
  have octet := firstOctet_append accepted.length_pos rest
  unfold parseLiteralTag decodeHttp2HeaderIndex
  dsimp only at octet ⊢
  rw [octet]
  cases accepted with
  | withIndexing _ code pattern =>
      rw [if_pos pattern, decodeInteger_accepted code, Outcome.ok_bind]
      dsimp only
      rw [advance_ok fits, Outcome.ok_bind]
  | withoutIndexing _ code pattern =>
      rw [if_neg (by omega), decodeInteger_accepted code, Outcome.ok_bind]
      dsimp only
      rw [advance_ok fits, Outcome.ok_bind, if_pos pattern]
  | neverIndexed _ code pattern =>
      rw [if_neg (by omega), decodeInteger_accepted code, Outcome.ok_bind]
      dsimp only
      rw [advance_ok fits, Outcome.ok_bind, if_neg (by omega), if_pos pattern]

theorem parseLiteralTag_ok {memory : List UInt8} {indexType : IndexType}
    {index parsed parsed' : Nat}
    (run : parseLiteralTag memory parsed = .ok (indexType, index, parsed')) :
    ∃ tag rest, memory = tag ++ rest ∧ AcceptedTag tag indexType index ∧
      parsed' = parsed + tag.length ∧ parsed' < 2 ^ 31 := by
  unfold parseLiteralTag decodeHttp2HeaderIndex at run
  dsimp only at run
  by_cases pattern : firstOctet memory / 64 = 1
  · rw [if_pos pattern, Outcome.bind_eq_ok] at run
    obtain ⟨⟨fIndex, integerLen⟩, decoded, run⟩ := run
    rw [Outcome.bind_eq_ok] at run
    obtain ⟨position, advanced, run⟩ := run
    obtain ⟨fits, rfl⟩ := advance_eq_ok.mp advanced
    obtain ⟨tag, rest, rfl, code, rfl⟩ := decodeInteger_ok decoded
    have octet := firstOctet_append code.length_pos rest
    simp only [Outcome.ok.injEq, Prod.mk.injEq] at run
    obtain ⟨rfl, rfl, rfl⟩ := run
    rw [octet] at pattern ⊢
    exact ⟨tag, rest, rfl, .withIndexing tag _ code pattern, rfl, fits⟩
  · rw [if_neg pattern, Outcome.bind_eq_ok] at run
    obtain ⟨⟨fIndex, integerLen⟩, decoded, run⟩ := run
    rw [Outcome.bind_eq_ok] at run
    obtain ⟨position, advanced, run⟩ := run
    obtain ⟨fits, rfl⟩ := advance_eq_ok.mp advanced
    obtain ⟨tag, rest, rfl, code, rfl⟩ := decodeInteger_ok decoded
    have octet := firstOctet_append code.length_pos rest
    dsimp only at octet run
    rw [octet] at run
    split at run
    · rename_i without
      simp only [Outcome.ok.injEq, Prod.mk.injEq] at run
      obtain ⟨rfl, rfl, rfl⟩ := run
      exact ⟨tag, rest, rfl, .withoutIndexing tag _ code without, rfl, fits⟩
    · split at run
      · rename_i never
        simp only [Outcome.ok.injEq, Prod.mk.injEq] at run
        obtain ⟨rfl, rfl, rfl⟩ := run
        exact ⟨tag, rest, rfl, .neverIndexed tag _ code never, rfl, fits⟩
      · cases run

theorem TagRefused.length_pos {memory : List UInt8} (refused : TagRefused memory) :
    0 < memory.length := by
  rcases refused with ⟨-, refused⟩ | ⟨-, refused⟩ | ⟨-, tag, dst, rest, rfl, code⟩
  · exact refused.length_pos
  · exact refused.length_pos
  · have := code.length_pos
    rw [List.length_append]
    omega

theorem TagRefused.parseLiteralTag {memory : List UInt8} {parsed : Nat}
    (refused : TagRefused memory) (fits : parsed + memory.length < 2 ^ 31)
    (after : List UInt8) : parseLiteralTag (memory ++ after) parsed = .err := by
  have octet := firstOctet_append refused.length_pos after
  unfold Hpack.parseLiteralTag decodeHttp2HeaderIndex
  dsimp only
  rw [octet]
  rcases refused with ⟨pattern, refused⟩ | ⟨pattern, refused⟩ | ⟨unknown, tag, dst, rest, rfl, code⟩
  · rw [if_pos pattern, decodeInteger_err.mpr (refused.append after)]
    rfl
  · rw [if_neg (by omega), decodeInteger_err.mpr (refused.append after)]
    rfl
  · simp only [List.mem_cons, List.not_mem_nil, or_false] at unknown
    rw [List.length_append] at fits
    rw [if_neg (by omega), List.append_assoc, decodeInteger_accepted code, Outcome.ok_bind]
    dsimp only
    rw [advance_ok (by omega), Outcome.ok_bind, if_neg (by omega), if_neg (by omega)]

theorem parseLiteralTag_err {memory : List UInt8} {parsed : Nat}
    (literal : firstOctet memory < 0x80) (run : parseLiteralTag memory parsed = .err) :
    TagRefused memory := by
  unfold parseLiteralTag decodeHttp2HeaderIndex at run
  dsimp only at run
  by_cases pattern : firstOctet memory / 64 = 1
  · rw [if_pos pattern, Outcome.bind_eq_err] at run
    rcases run with refused | ⟨⟨fIndex, integerLen⟩, -, run⟩
    · exact Or.inl ⟨pattern, decodeInteger_err.mp refused⟩
    · rw [Outcome.bind_eq_err] at run
      rcases run with overflow | ⟨_, _, impossible⟩
      · exact (advance_ne_err _ _ overflow).elim
      · cases impossible
  · rw [if_neg pattern, Outcome.bind_eq_err] at run
    rcases run with refused | ⟨⟨fIndex, integerLen⟩, decoded, run⟩
    · exact Or.inr (Or.inl ⟨by omega, decodeInteger_err.mp refused⟩)
    · rw [Outcome.bind_eq_err] at run
      rcases run with overflow | ⟨position, _, run⟩
      · exact (advance_ne_err _ _ overflow).elim
      · obtain ⟨tag, rest, equal, code, -⟩ := decodeInteger_ok decoded
        refine Or.inr (Or.inr ⟨?_, tag, fIndex, rest, equal, code⟩)
        split at run
        · cases run
        · split at run
          · cases run
          · simp only [List.mem_cons, List.not_mem_nil, or_false]
            omega

theorem AcceptedTag.length_le {tag : List UInt8} {indexType : IndexType} {index : Nat}
    (accepted : AcceptedTag tag indexType index) : tag.length ≤ 6 := by
  cases accepted with
  | withIndexing _ code _ => exact code.length_le
  | withoutIndexing _ code _ => exact code.length_le
  | neverIndexed _ code _ => exact code.length_le

/-- No accepted tag begins another one. -/
theorem AcceptedTag.append_inj {first second firstRest secondRest : List UInt8}
    {firstType secondType : IndexType} {firstIndex secondIndex : Nat}
    (firstAccepted : AcceptedTag first firstType firstIndex)
    (secondAccepted : AcceptedTag second secondType secondIndex)
    (equal : first ++ firstRest = second ++ secondRest) :
    first = second ∧ firstType = secondType ∧ firstIndex = secondIndex ∧
      firstRest = secondRest := by
  have firstLength := firstAccepted.length_le
  have secondLength := secondAccepted.length_le
  have firstRun : parseLiteralTag (first ++ firstRest) 0 = .ok (firstType, firstIndex, _) :=
    parseLiteralTag_accepted firstAccepted (by omega)
  have secondRun : parseLiteralTag (second ++ secondRest) 0 = .ok (secondType, secondIndex, _) :=
    parseLiteralTag_accepted secondAccepted (by omega)
  rw [equal, secondRun] at firstRun
  simp only [Outcome.ok.injEq, Prod.mk.injEq] at firstRun
  obtain ⟨same, rest⟩ := List.append_inj equal (by omega)
  exact ⟨same, firstRun.1.symm, firstRun.2.1.symm, rest⟩

/-- The representations the parser accepts, with the header it appends and
whether the octet behind the representation is read. -/
inductive AcceptedField : List UInt8 → Header → Bool → Prop
  | indexed (tag : List UInt8) (index : Nat) (code : AcceptedInteger 7 tag index)
      (pattern : 0x80 ≤ firstOctet tag) :
      AcceptedField tag { indexType := .indexed, index, name := [], value := [] } false
  | indexedName (tag valueCode : List UInt8) (indexType : IndexType) (index : Nat)
      (value : List UInt8) (raw : Bool) (tagged : AcceptedTag tag indexType index)
      (named : 0 < index) (valued : AcceptedString valueCode value raw) :
      AcceptedField (tag ++ valueCode) { indexType, index, name := [], value } raw
  | newName (tag nameCode valueCode : List UInt8) (indexType : IndexType)
      (name value : List UInt8) (nameRaw raw : Bool) (tagged : AcceptedTag tag indexType 0)
      (named : AcceptedString nameCode name nameRaw)
      (valued : AcceptedString valueCode value raw) :
      AcceptedField (tag ++ (nameCode ++ valueCode)) { indexType, index := 0, name, value } raw

/-- The representations the parser refuses at a position. -/
inductive FieldRefused (parsed : Nat) : List UInt8 → Prop
  | indexed (memory : List UInt8) (pattern : 0x80 ≤ firstOctet memory)
      (refused : IntegerRefused 7 memory) : FieldRefused parsed memory
  | tag (memory : List UInt8) (pattern : firstOctet memory < 0x80)
      (refused : TagRefused memory) : FieldRefused parsed memory
  | firstString (tag rest : List UInt8) (indexType : IndexType) (index : Nat)
      (tagged : AcceptedTag tag indexType index)
      (refused : StringRefused rest (parsed + tag.length)) :
      FieldRefused parsed (tag ++ rest)
  | secondString (tag nameCode rest : List UInt8) (indexType : IndexType)
      (name : List UInt8) (raw : Bool)
      (tagged : AcceptedTag tag indexType 0) (named : AcceptedString nameCode name raw)
      (refused : StringRefused rest (parsed + tag.length + nameCode.length)) :
      FieldRefused parsed (tag ++ (nameCode ++ rest))

theorem AcceptedField.length_pos {bytes : List UInt8} {header : Header} {raw : Bool}
    (accepted : AcceptedField bytes header raw) : 0 < bytes.length := by
  cases accepted with
  | indexed _ _ code _ => exact code.length_pos
  | indexedName _ _ _ _ _ _ tagged _ _ =>
      have := tagged.length_pos
      rw [List.length_append]
      omega
  | newName _ _ _ _ _ _ _ _ tagged _ _ =>
      have := tagged.length_pos
      rw [List.length_append]
      omega

theorem drop_add {field first rest : List UInt8} {parsed : Nat}
    (here : field.drop parsed = first ++ rest) :
    field.drop (parsed + first.length) = rest := by
  rw [← List.drop_drop, here, List.drop_left]

/-- What a pass does at an indexed field. -/
theorem parseField_indexed {field : List UInt8} {parsed : Nat} (present : field.drop parsed ≠ [])
    (pattern : 0x80 ≤ firstOctet (field.drop parsed)) :
    parseField field parsed = (do
      let (fIndex, integerLen) ← decodeHttp2HeaderIndex (field.drop parsed) 7
      let parsed ← advance parsed integerLen
      .ok ({ indexType := .indexed, index := fIndex, name := [], value := [] }, parsed)) := by
  unfold parseField
  dsimp only
  split
  · rename_i empty
    exact (present empty).elim
  · rename_i tag rest here
    rw [here] at pattern ⊢
    exact if_pos pattern

/-- What a pass does at a literal. -/
theorem parseField_literal {field : List UInt8} {parsed : Nat} (present : field.drop parsed ≠ [])
    (pattern : firstOctet (field.drop parsed) < 0x80) :
    parseField field parsed = (do
      let (indexType, index, parsed) ← parseLiteralTag (field.drop parsed) parsed
      if 0 < index then
        let (value, parsed) ← parseString (field.drop parsed) parsed
        .ok ({ indexType, index, name := [], value }, parsed)
      else
        let (name, parsed) ← parseString (field.drop parsed) parsed
        let (value, parsed) ← parseString (field.drop parsed) parsed
        .ok ({ indexType, index, name, value }, parsed)) := by
  unfold parseField
  dsimp only
  split
  · rename_i empty
    exact (present empty).elim
  · rename_i tag rest here
    rw [here] at pattern ⊢
    exact if_neg (Nat.not_le.mpr pattern)

theorem AcceptedField.parseField {bytes rest field : List UInt8} {header : Header} {raw : Bool}
    {parsed : Nat} (accepted : AcceptedField bytes header raw)
    (here : field.drop parsed = bytes ++ rest) (slack : raw = true → rest ≠ [])
    (fits : parsed + bytes.length < 2 ^ 31) :
    parseField field parsed = .ok (header, parsed + bytes.length) := by
  have positive := accepted.length_pos
  have present : field.drop parsed ≠ [] := by
    rw [here]
    exact List.append_ne_nil_of_left_ne_nil (List.length_pos_iff.mp positive) _
  cases accepted with
  | indexed tag index code pattern =>
      have octet : 0x80 ≤ firstOctet (field.drop parsed) := by
        rwa [here, firstOctet_append positive]
      rw [parseField_indexed present octet, here, decodeHttp2HeaderIndex,
        decodeInteger_accepted code, Outcome.ok_bind]
      dsimp only
      rw [advance_ok fits, Outcome.ok_bind]
  | indexedName tag valueCode indexType index value raw tagged named valued =>
      rw [List.append_assoc] at here
      rw [List.length_append] at fits
      have octet : firstOctet (field.drop parsed) < 0x80 := by
        rw [here, firstOctet_append tagged.length_pos]
        exact tagged.firstOctet_lt
      rw [parseField_literal present octet, here, parseLiteralTag_accepted tagged (by omega),
        Outcome.ok_bind]
      dsimp only
      rw [if_pos named, drop_add here, parseString_accepted valued slack (by omega),
        Outcome.ok_bind, List.length_append, Nat.add_assoc]
  | newName tag nameCode valueCode indexType name value nameRaw raw tagged named valued =>
      rw [List.append_assoc, List.append_assoc] at here
      rw [List.length_append, List.length_append] at fits
      have octet : firstOctet (field.drop parsed) < 0x80 := by
        rw [here, firstOctet_append tagged.length_pos]
        exact tagged.firstOctet_lt
      have behind : valueCode ++ rest ≠ [] :=
        List.append_ne_nil_of_left_ne_nil (List.length_pos_iff.mp valued.length_pos) _
      rw [parseField_literal present octet, here, parseLiteralTag_accepted tagged (by omega),
        Outcome.ok_bind]
      dsimp only
      rw [if_neg (by omega), drop_add here,
        parseString_accepted named (fun _ => behind) (by omega), Outcome.ok_bind]
      dsimp only
      rw [drop_add (drop_add here), parseString_accepted valued slack (by omega),
        Outcome.ok_bind, List.length_append, List.length_append, Nat.add_assoc, Nat.add_assoc]

theorem parseField_ok {field : List UInt8} {header : Header} {parsed parsed' : Nat}
    (run : parseField field parsed = .ok (header, parsed')) :
    ∃ bytes rest raw, field.drop parsed = bytes ++ rest ∧ AcceptedField bytes header raw ∧
      (raw = true → rest ≠ []) ∧ parsed' = parsed + bytes.length ∧ parsed' < 2 ^ 31 := by
  have present : field.drop parsed ≠ [] := by
    intro empty
    rw [Hpack.parseField, empty] at run
    cases run
  by_cases pattern : 0x80 ≤ firstOctet (field.drop parsed)
  · rw [parseField_indexed present pattern, Outcome.bind_eq_ok] at run
    obtain ⟨⟨fIndex, integerLen⟩, decoded, run⟩ := run
    rw [Outcome.bind_eq_ok] at run
    obtain ⟨position, advanced, run⟩ := run
    obtain ⟨fits, rfl⟩ := advance_eq_ok.mp advanced
    obtain ⟨tag, rest, here, code, rfl⟩ := decodeInteger_ok decoded
    simp only [Outcome.ok.injEq, Prod.mk.injEq] at run
    obtain ⟨rfl, rfl⟩ := run
    rw [here, firstOctet_append code.length_pos] at pattern
    exact ⟨tag, rest, false, here, .indexed tag _ code pattern, by simp, rfl, fits⟩
  · rw [parseField_literal present (by omega), Outcome.bind_eq_ok] at run
    obtain ⟨⟨indexType, index, position⟩, tagRun, run⟩ := run
    obtain ⟨tag, rest, here, tagged, rfl, -⟩ := parseLiteralTag_ok tagRun
    dsimp only at run
    rw [drop_add here] at run
    by_cases named : 0 < index
    · rw [if_pos named, Outcome.bind_eq_ok] at run
      obtain ⟨⟨value, position⟩, valueRun, run⟩ := run
      obtain ⟨valueCode, rest', raw, rfl, valued, slack, rfl, fits⟩ := parseString_ok valueRun
      simp only [Outcome.ok.injEq, Prod.mk.injEq] at run
      obtain ⟨rfl, rfl⟩ := run
      exact ⟨tag ++ valueCode, rest', raw, by rw [here, List.append_assoc],
        .indexedName tag valueCode _ _ _ _ tagged named valued, slack,
        by rw [List.length_append, Nat.add_assoc], fits⟩
    · rw [if_neg named, Outcome.bind_eq_ok] at run
      obtain ⟨⟨name, position⟩, nameRun, run⟩ := run
      obtain ⟨nameCode, rest', nameRaw, rfl, nameAccepted, -, rfl, -⟩ := parseString_ok nameRun
      dsimp only at run
      rw [drop_add (drop_add here), Outcome.bind_eq_ok] at run
      obtain ⟨⟨value, position⟩, valueRun, run⟩ := run
      obtain ⟨valueCode, rest'', raw, rfl, valued, slack, rfl, fits⟩ := parseString_ok valueRun
      simp only [Outcome.ok.injEq, Prod.mk.injEq] at run
      obtain ⟨rfl, rfl⟩ := run
      obtain rfl : index = 0 := by omega
      exact ⟨tag ++ (nameCode ++ valueCode), rest'', raw, by rw [here]; simp,
        .newName tag nameCode valueCode _ _ _ _ _ tagged nameAccepted valued, slack,
        by simp only [List.length_append]; omega, fits⟩

theorem FieldRefused.length_pos {memory : List UInt8} {parsed : Nat}
    (refused : FieldRefused parsed memory) : 0 < memory.length := by
  cases refused with
  | indexed _ pattern refused => exact refused.length_pos
  | tag _ pattern refused => exact refused.length_pos
  | firstString tag rest indexType index tagged refused =>
      have := tagged.length_pos
      rw [List.length_append]
      omega
  | secondString tag nameCode rest indexType name raw tagged named refused =>
      have := tagged.length_pos
      rw [List.length_append]
      omega

theorem FieldRefused.parseField {field memory after : List UInt8} {parsed : Nat}
    (refused : FieldRefused parsed memory) (here : field.drop parsed = memory ++ after)
    (fits : parsed + memory.length < 2 ^ 31) : parseField field parsed = .err := by
  have positive := refused.length_pos
  have present : field.drop parsed ≠ [] := by
    rw [here]
    exact List.append_ne_nil_of_left_ne_nil (List.length_pos_iff.mp positive) _
  have octet : firstOctet (field.drop parsed) = firstOctet memory := by
    rw [here, firstOctet_append positive]
  cases refused with
  | indexed _ pattern refused =>
      rw [parseField_indexed present (by omega), here, decodeHttp2HeaderIndex,
        decodeInteger_err.mpr (refused.append after)]
      rfl
  | tag _ pattern refused =>
      rw [parseField_literal present (by omega), here, refused.parseLiteralTag fits]
      rfl
  | firstString tag rest indexType index tagged refused =>
      have literal := tagged.firstOctet_lt
      rw [firstOctet_append tagged.length_pos] at octet
      rw [List.append_assoc] at here
      rw [List.length_append] at fits
      rw [parseField_literal present (by omega), here,
        parseLiteralTag_accepted tagged (by omega), Outcome.ok_bind]
      dsimp only
      rw [drop_add here, parseString_err.mpr (refused.append after)]
      split <;> rfl
  | secondString tag nameCode rest indexType name raw tagged named refused =>
      have literal := tagged.firstOctet_lt
      have behind : rest ++ after ≠ [] :=
        List.append_ne_nil_of_left_ne_nil (List.length_pos_iff.mp refused.length_pos) _
      rw [firstOctet_append tagged.length_pos] at octet
      rw [List.append_assoc, List.append_assoc] at here
      simp only [List.length_append] at fits
      rw [parseField_literal present (by omega), here,
        parseLiteralTag_accepted tagged (by omega), Outcome.ok_bind]
      dsimp only
      rw [if_neg (by omega), drop_add here,
        parseString_accepted named (fun _ => behind) (by omega), Outcome.ok_bind]
      dsimp only
      rw [drop_add (drop_add here), parseString_err.mpr (refused.append after)]
      rfl

theorem parseField_err {field : List UInt8} {parsed : Nat}
    (run : parseField field parsed = .err) : FieldRefused parsed (field.drop parsed) := by
  have present : field.drop parsed ≠ [] := by
    intro empty
    rw [Hpack.parseField, empty] at run
    cases run
  by_cases pattern : 0x80 ≤ firstOctet (field.drop parsed)
  · rw [parseField_indexed present pattern, Outcome.bind_eq_err] at run
    rcases run with refused | ⟨_, _, run⟩
    · exact .indexed _ pattern (decodeInteger_err.mp refused)
    · rw [Outcome.bind_eq_err] at run
      rcases run with overflow | ⟨_, _, impossible⟩
      · exact (advance_ne_err _ _ overflow).elim
      · cases impossible
  · rw [parseField_literal present (by omega), Outcome.bind_eq_err] at run
    rcases run with refused | ⟨⟨indexType, index, position⟩, tagRun, run⟩
    · exact .tag _ (by omega) (parseLiteralTag_err (by omega) refused)
    · obtain ⟨tag, rest, here, tagged, rfl, -⟩ := parseLiteralTag_ok tagRun
      dsimp only at run
      rw [drop_add here] at run
      rw [here]
      by_cases named : 0 < index
      · rw [if_pos named, Outcome.bind_eq_err] at run
        rcases run with refused | ⟨_, _, impossible⟩
        · exact .firstString tag rest indexType index tagged (parseString_err.mp refused)
        · cases impossible
      · rw [if_neg named, Outcome.bind_eq_err] at run
        rcases run with refused | ⟨⟨name, position⟩, nameRun, run⟩
        · exact .firstString tag rest indexType index tagged (parseString_err.mp refused)
        · obtain ⟨nameCode, rest', raw, rfl, nameAccepted, -, rfl, -⟩ := parseString_ok nameRun
          dsimp only at run
          rw [drop_add (drop_add here), Outcome.bind_eq_err] at run
          rcases run with refused | ⟨_, _, impossible⟩
          · obtain rfl : index = 0 := by omega
            exact .secondString tag nameCode rest' indexType name raw tagged nameAccepted
              (parseString_err.mp refused)
          · cases impossible

/-- No accepted representation begins another one. -/
theorem AcceptedField.append_inj {first second firstRest secondRest : List UInt8}
    {firstHeader secondHeader : Header} {firstRaw secondRaw : Bool}
    (firstAccepted : AcceptedField first firstHeader firstRaw)
    (secondAccepted : AcceptedField second secondHeader secondRaw)
    (equal : first ++ firstRest = second ++ secondRest) :
    first = second ∧ firstHeader = secondHeader ∧ firstRaw = secondRaw ∧
      firstRest = secondRest := by
  have octets : firstOctet first = firstOctet second := by
    rw [← firstOctet_append firstAccepted.length_pos firstRest, equal,
      firstOctet_append secondAccepted.length_pos]
  cases firstAccepted with
  | indexed _ index code pattern =>
      cases secondAccepted with
      | indexed _ index' code' pattern' =>
          obtain ⟨rfl, rfl, rfl⟩ := code.append_inj code' equal
          exact ⟨rfl, rfl, rfl, rfl⟩
      | indexedName tag' _ _ _ _ _ tagged' _ _ =>
          rw [firstOctet_append tagged'.length_pos] at octets
          have := tagged'.firstOctet_lt
          omega
      | newName tag' _ _ _ _ _ _ _ tagged' _ _ =>
          rw [firstOctet_append tagged'.length_pos] at octets
          have := tagged'.firstOctet_lt
          omega
  | indexedName tag valueCode indexType index value raw tagged named valued =>
      rw [firstOctet_append tagged.length_pos] at octets
      have literal := tagged.firstOctet_lt
      cases secondAccepted with
      | indexed _ index' code' pattern' => omega
      | indexedName tag' valueCode' indexType' index' value' raw' tagged' named' valued' =>
          rw [List.append_assoc, List.append_assoc] at equal
          obtain ⟨rfl, rfl, rfl, strings⟩ := tagged.append_inj tagged' equal
          obtain ⟨rfl, rfl, rfl, rfl⟩ := valued.append_inj valued' strings
          exact ⟨rfl, rfl, rfl, rfl⟩
      | newName tag' nameCode' valueCode' indexType' name' value' nameRaw' raw' tagged' named'
          valued' =>
          rw [List.append_assoc, List.append_assoc] at equal
          obtain ⟨-, -, rfl, -⟩ := tagged.append_inj tagged' equal
          omega
  | newName tag nameCode valueCode indexType name value nameRaw raw tagged named valued =>
      rw [firstOctet_append tagged.length_pos] at octets
      have literal := tagged.firstOctet_lt
      cases secondAccepted with
      | indexed _ index' code' pattern' => omega
      | indexedName tag' valueCode' indexType' index' value' raw' tagged' named' valued' =>
          simp only [List.append_assoc] at equal
          obtain ⟨-, -, rfl, -⟩ := tagged.append_inj tagged' equal
          omega
      | newName tag' nameCode' valueCode' indexType' name' value' nameRaw' raw' tagged' named'
          valued' =>
          simp only [List.append_assoc] at equal
          obtain ⟨rfl, rfl, -, strings⟩ := tagged.append_inj tagged' equal
          obtain ⟨rfl, rfl, -, strings⟩ := named.append_inj named' strings
          obtain ⟨rfl, rfl, rfl, rfl⟩ := valued.append_inj valued' strings
          exact ⟨rfl, rfl, rfl, rfl⟩

end Hpack

end HeapHttpd
