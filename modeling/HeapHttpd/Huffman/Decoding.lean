import HeapHttpd.Huffman.Tree

/-!
# Decoding of Huffman strings

Every bit string is the codes of some symbols followed by bits that begin with
no code.  `hf_string_decode` finds exactly these symbols.  It accepts any rest
of fewer than thirty bits; a longer rest begins with the thirty ones of EOS, and
then the decoder reports an error if two more bits follow and dereferences a
missing child if they do not.
-/

namespace HeapHttpd

namespace Huffman

open BitString

/-- The codes of a string, one after the other. -/
def encodeBits (text : List UInt8) : List Bool :=
  text.flatMap codeBits

@[simp]
theorem encodeBits_nil : encodeBits [] = [] :=
  rfl

@[simp]
theorem encodeBits_cons (symbol : UInt8) (text : List UInt8) :
    encodeBits (symbol :: text) = codeBits symbol ++ encodeBits text :=
  rfl

@[simp]
theorem encodeBits_append (first second : List UInt8) :
    encodeBits (first ++ second) = encodeBits first ++ encodeBits second :=
  List.flatMap_append

theorem length_le_encodeBits (text : List UInt8) :
    5 * text.length ≤ (encodeBits text).length := by
  induction text with
  | nil => simp
  | cons symbol text ih =>
      have := five_le_hexToHfCodeLen symbol
      simp only [encodeBits_cons, List.length_append, List.length_cons, length_codeBits]
      omega

/-- Bits that begin with no code. -/
def Stuck (left : List Bool) : Prop :=
  ∀ symbol, ¬ codeBits symbol <+: left

/-- A bit string splits into codes and a rest that begins with none. -/
theorem exists_encodeBits_append (bits : List Bool) :
    ∃ text left, bits = encodeBits text ++ left ∧ Stuck left := by
  induction length : bits.length using Nat.strong_induction_on generalizing bits with
  | _ count ih =>
      by_cases stuck : Stuck bits
      · exact ⟨[], bits, rfl, stuck⟩
      · simp only [Stuck, not_forall, not_not] at stuck
        obtain ⟨symbol, rest, rfl⟩ := stuck
        have positive := five_le_hexToHfCodeLen symbol
        rw [List.length_append, length_codeBits] at length
        obtain ⟨text, left, rfl, stuck⟩ := ih rest.length (by omega) rest rfl
        exact ⟨symbol :: text, left, by simp, stuck⟩

theorem encodeBits_append_unique {first second : List UInt8} {firstLeft secondLeft : List Bool}
    (firstStuck : Stuck firstLeft) (secondStuck : Stuck secondLeft)
    (equal : encodeBits first ++ firstLeft = encodeBits second ++ secondLeft) :
    first = second ∧ firstLeft = secondLeft := by
  induction first generalizing second with
  | nil =>
      cases second with
      | nil => exact ⟨rfl, equal⟩
      | cons symbol second =>
          refine (firstStuck symbol ⟨encodeBits second ++ secondLeft, ?_⟩).elim
          simpa using equal.symm
  | cons symbol first ih =>
      cases second with
      | nil =>
          refine (secondStuck symbol ⟨encodeBits first ++ firstLeft, ?_⟩).elim
          simpa using equal
      | cons other second =>
          simp only [encodeBits_cons, List.append_assoc] at equal
          obtain rfl : symbol = other :=
            codeBits_unique (List.prefix_append _ _) ⟨_, equal.symm⟩
          obtain ⟨rfl, rfl⟩ := ih (List.append_cancel_left equal)
          exact ⟨rfl, rfl⟩

/-- The code of EOS, which is no symbol. -/
def eosBits : List Bool :=
  List.replicate 30 true

theorem Stuck.eosBits_of_length {left : List Bool} (stuck : Stuck left)
    (long : 30 ≤ left.length) : eosBits <+: left := by
  have length : (left.take 30).length = 30 := by simp; omega
  rcases codeBits_complete length with ⟨symbol, begins⟩ | ones
  · exact (stuck symbol (begins.trans (List.take_prefix 30 left))).elim
  · rw [eosBits, ← ones]
    exact List.take_prefix 30 left

private theorem rows_not_ones : ∀ row ∈ rows, row.1 ≠ 2 ^ row.2 - 1 := by
  decide +kernel

/-- No code consists of ones only. -/
theorem stuck_replicate_true (count : Nat) : Stuck (List.replicate count true) := by
  intro symbol begins
  have ones : codeBits symbol = List.replicate (hexToHfCodeLen symbol) true := by
    rw [List.prefix_replicate_iff] at begins
    simpa using begins.2
  rw [codeBits, ← bitsOf_all_ones] at ones
  refine rows_not_ones _ (row_mem symbol) (bitsOf_injective (hexToHfCode_lt symbol) ?_ ones)
  exact Nat.sub_lt (Nat.two_pow_pos _) Nat.one_pos

theorem eosBits_apart {symbol : UInt8} {bits : List Bool}
    (code : codeBits symbol <+: bits) (eos : eosBits <+: bits) : False := by
  refine stuck_replicate_true 30 symbol (List.prefix_of_prefix_length_le code eos ?_)
  have := hexToHfCodeLen_le symbol
  simpa [eosBits] using this

/-- EOS has no leaf: its fourth byte is a missing child. -/
theorem hfInit_eos {path : List UInt8} {byte : UInt8} (deep : path.length = 3)
    (eos : eosBits <+: bytesBits (path ++ [byte])) : hfInit[path ++ [byte]]? = none := by
  by_contra present
  rcases hfInit_known present with empty | ⟨symbol, ⟨short, -⟩ | slot⟩
  · simp at empty
  · have := hexToHfCodeLen_le symbol
    simp [deep] at short
    omega
  · exact eosBits_apart slot.2 eos

/-- A path the decoder can stand on: the root or a node with children. -/
def Open (path : List UInt8) : Prop :=
  ∃ symbol, Inside symbol path

theorem open_nil : Open [] :=
  ⟨0, inside_nil 0⟩

theorem Open.length_le {path : List UInt8} (isOpen : Open path) : path.length ≤ 3 := by
  obtain ⟨symbol, short, -⟩ := isOpen
  have := hexToHfCodeLen_le symbol
  omega

/-- A code that begins the bits after the last decoded symbol is still open on
the path the decoder stands on. -/
theorem Open.inside {path : List UInt8} (isOpen : Open path) {symbol : UInt8}
    {pending rest : List Bool}
    (bits : bytesBits path ++ pending = codeBits symbol ++ rest) : Inside symbol path := by
  obtain ⟨other, short, begins⟩ := isOpen
  rcases List.prefix_or_prefix_of_prefix (⟨pending, bits⟩ : bytesBits path <+: _)
    (List.prefix_append (codeBits symbol) rest) with inside | complete
  · refine ⟨?_, inside⟩
    by_contra long
    have equal : codeBits symbol = bytesBits path :=
      (inside.eq_of_length_le (by simpa using long)).symm
    obtain rfl := codeBits_prefixFree (equal ▸ begins)
    exact long short
  · obtain rfl := codeBits_prefixFree (complete.trans begins)
    exact ⟨short, begins⟩

/-- From an open path, a byte leads on, completes a code, or completes EOS. -/
theorem Open.child {path : List UInt8} (isOpen : Open path) (byte : UInt8) :
    Open (path ++ [byte]) ∨ (∃ symbol, Slot symbol (path ++ [byte])) ∨
      (path.length = 3 ∧ eosBits <+: bytesBits (path ++ [byte])) := by
  obtain ⟨other, short, begins⟩ := isOpen
  have otherLength := hexToHfCodeLen_le other
  have length : (bytesBits (path ++ [byte])).length = 8 * path.length + 8 := by simp
  have childBegins (symbol : UInt8) (code : codeBits symbol <+: bytesBits (path ++ [byte])) :
      Slot symbol (path ++ [byte]) := by
    refine ⟨?_, code⟩
    rw [List.length_append, List.length_singleton]
    by_contra long
    have beforeChild : codeBits symbol <+: bytesBits path := by
      rw [bytesBits_append] at code
      exact List.prefix_of_prefix_length_le code (List.prefix_append _ _) (by simp; omega)
    obtain rfl := codeBits_prefixFree (beforeChild.trans begins)
    omega
  have extended : ((bytesBits (path ++ [byte]) ++ List.replicate 30 false).take 30).length = 30 := by
    simp
  by_cases deep : path.length = 3
  · rcases codeBits_complete extended with ⟨symbol, code⟩ | ones
    · refine Or.inr (Or.inl ⟨symbol, childBegins symbol ?_⟩)
      refine List.prefix_of_prefix_length_le (code.trans (List.take_prefix _ _))
        (List.prefix_append _ _) ?_
      have := hexToHfCodeLen_le symbol
      rw [length_codeBits, length]
      omega
    · refine Or.inr (Or.inr ⟨deep, ?_⟩)
      rw [eosBits, ← ones, List.take_append_of_le_length (by omega)]
      exact List.take_prefix _ _
  · have short : (bytesBits (path ++ [byte])).length < 30 := by omega
    rcases codeBits_complete extended with ⟨symbol, code⟩ | ones
    · have whole := code.trans (List.take_prefix _ _)
      rcases List.prefix_or_prefix_of_prefix whole (List.prefix_append _ _) with done | inside
      · exact Or.inr (Or.inl ⟨symbol, childBegins symbol done⟩)
      · by_cases equal : hexToHfCodeLen symbol ≤ 8 * (path ++ [byte]).length
        · have same := inside.eq_of_length_le
            (by rw [length_bytesBits, length_codeBits]; exact equal)
          exact Or.inr (Or.inl ⟨symbol, childBegins symbol (same ▸ List.prefix_refl _)⟩)
        · exact Or.inl ⟨symbol, by omega, inside⟩
    · have last := congrArg (fun bits => bits[29]?) ones
      rw [List.getElem?_take_of_lt (by omega), List.getElem?_append_right (by omega),
        List.getElem?_replicate, if_pos (by omega), List.getElem?_replicate,
        if_pos (by omega)] at last
      cases last

theorem lastLen_of_inside {symbol : UInt8} {path : List UInt8} {byte : UInt8}
    (inside : Inside symbol path) (slot : Slot symbol (path ++ [byte])) :
    lastLen (hexToHfCodeLen symbol) = hexToHfCodeLen symbol - 8 * path.length := by
  have short := inside.1
  have long := slot.2.length_le
  rw [length_codeBits, length_bytesBits, List.length_append, List.length_singleton] at long
  unfold lastLen
  omega

/-- The pending bits split into the next byte and the rest. -/
theorem bytesBits_next (path : List UInt8) {nbits : Nat} (cur : Nat) (whole : 8 ≤ nbits) :
    bytesBits path ++ bitsOf nbits cur =
      bytesBits (path ++ [UInt8.ofNat (cur >>> (nbits - 8))]) ++ bitsOf (nbits - 8) cur := by
  have split := bitsOf_add 8 (nbits - 8) cur
  rw [Nat.add_sub_cancel' whole] at split
  rw [split, bytesBits_append, bytesBits_cons, byteBits_ofNat, Nat.shiftRight_eq_div_pow]
  simp

/-- Completing a symbol leaves the bits after its code. -/
theorem bits_after_symbol {path : List UInt8} {nbits cur : Nat} {symbol : UInt8}
    {future rest : List Bool} (inside : Inside symbol path)
    (enough : hexToHfCodeLen symbol - 8 * path.length ≤ nbits)
    (bits : bytesBits path ++ bitsOf nbits cur ++ future = codeBits symbol ++ rest) :
    bitsOf (nbits - (hexToHfCodeLen symbol - 8 * path.length)) cur ++ future = rest := by
  have split := bitsOf_add (hexToHfCodeLen symbol - 8 * path.length)
    (nbits - (hexToHfCodeLen symbol - 8 * path.length)) cur
  rw [Nat.add_sub_cancel' enough] at split
  have short := inside.1
  rw [split, ← List.append_assoc, List.append_assoc] at bits
  refine (List.append_inj bits ?_).2
  rw [List.length_append, length_bytesBits, length_bitsOf, length_codeBits]
  omega

section Steps

variable {root : Tree} {outSz passes cur nbits : Nat} {path out : List UInt8} {node : Node}

theorem hfDecodeDrain_missing (whole : 8 ≤ nbits)
    (missing : root[path ++ [UInt8.ofNat (cur >>> (nbits - 8))]]? = none) :
    hfDecodeDrain root outSz (passes + 1) cur nbits path out = .err := by
  simp only [hfDecodeDrain, if_pos whole, missing]

theorem hfDecodeDrain_descend (whole : 8 ≤ nbits)
    (found : root[path ++ [UInt8.ofNat (cur >>> (nbits - 8))]]? = some node)
    (inner : 0 < node.size) :
    hfDecodeDrain root outSz (passes + 1) cur nbits path out =
      hfDecodeDrain root outSz passes cur (nbits - 8)
        (path ++ [UInt8.ofNat (cur >>> (nbits - 8))]) out := by
  simp only [hfDecodeDrain, if_pos whole, found, if_neg inner.ne']

theorem hfDecodeDrain_emit (whole : 8 ≤ nbits)
    (found : root[path ++ [UInt8.ofNat (cur >>> (nbits - 8))]]? = some node)
    (leaf : node.size = 0) (room : out.length < outSz) :
    hfDecodeDrain root outSz (passes + 1) cur nbits path out =
      hfDecodeDrain root outSz passes cur (nbits - node.codeLen) [] (out ++ [node.sym]) := by
  simp only [hfDecodeDrain, if_pos whole, found, if_pos leaf]
  rw [if_neg (by omega), if_neg (by omega)]

end Steps

/-- The inner loop decodes whole codes until fewer than eight bits are pending,
unless it meets EOS. -/
theorem hfDecodeDrain_run {outSz passes cur nbits : Nat} {path out text : List UInt8}
    {future left : List Bool} (enough : nbits < passes) (isOpen : Open path)
    (bits : bytesBits path ++ bitsOf nbits cur ++ future = encodeBits text ++ left)
    (stuck : Stuck left) (room : out.length + text.length ≤ outSz) :
    (∃ done rest nbits' path', text = done ++ rest ∧
        hfDecodeDrain hfInit outSz passes cur nbits path out =
          .ok (nbits', path', out ++ done) ∧
        nbits' < 8 ∧ Open path' ∧
        bytesBits path' ++ bitsOf nbits' cur ++ future = encodeBits rest ++ left) ∨
      (hfDecodeDrain hfInit outSz passes cur nbits path out = .err ∧ 32 ≤ left.length) := by
  induction passes generalizing nbits path out text with
  | zero => omega
  | succ passes ih =>
      by_cases whole : 8 ≤ nbits
      · let idx := UInt8.ofNat (cur >>> (nbits - 8))
        have next : bytesBits (path ++ [idx]) ++ bitsOf (nbits - 8) cur ++ future =
            encodeBits text ++ left := by
          rw [← bits, bytesBits_next path cur whole]
        rcases isOpen.child idx with childOpen | ⟨symbol, slot⟩ | ⟨deep, eos⟩
        · obtain ⟨symbol, inside⟩ := childOpen
          obtain ⟨node, found, size⟩ := hfInit_inside inside
          rw [hfDecodeDrain_descend whole found size]
          exact ih (by omega) ⟨symbol, inside⟩ next room
        · cases text with
          | nil =>
              have begins : bytesBits (path ++ [idx]) <+: left :=
                ⟨bitsOf (nbits - 8) cur ++ future, by simpa using next⟩
              exact (stuck symbol (slot.2.trans begins)).elim
          | cons first text =>
              have begins : codeBits symbol <+: codeBits first ++ (encodeBits text ++ left) :=
                slot.2.trans ⟨bitsOf (nbits - 8) cur ++ future, by simpa using next⟩
              obtain rfl := codeBits_unique begins (List.prefix_append _ _)
              have inside : Inside symbol path := isOpen.inside (by simpa using bits)
              have label := lastLen_of_inside inside slot
              have lastBits := lastLen_le (hexToHfCodeLen symbol)
              have lastPos := inside.1
              rw [List.length_cons] at room
              have after : bitsOf (nbits - (hexToHfCodeLen symbol - 8 * path.length)) cur ++
                  future = encodeBits text ++ left :=
                bits_after_symbol inside (by omega) (by simpa using bits)
              rw [hfDecodeDrain_emit whole (hfInit_slot slot) rfl (by omega)]
              dsimp only
              rw [label]
              have fewer : nbits - (hexToHfCodeLen symbol - 8 * path.length) < passes := by
                omega
              have fits : (out ++ [symbol]).length + text.length ≤ outSz := by
                rw [List.length_append, List.length_singleton]
                omega
              rcases ih fewer open_nil (by simpa using after) fits with
                ⟨done, rest, nbits', path', rfl, run, few, isOpen', bits'⟩ | ⟨run, eos⟩
              · exact Or.inl ⟨symbol :: done, rest, nbits', path', rfl, by simpa using run,
                  few, isOpen', bits'⟩
              · exact Or.inr ⟨run, eos⟩
        · have begins : eosBits <+: encodeBits text ++ left :=
            eos.trans ⟨bitsOf (nbits - 8) cur ++ future, by simpa using next⟩
          have missing := hfInit_eos deep eos
          cases text with
          | nil =>
              have length := congrArg List.length next
              simp [deep] at length
              exact Or.inr ⟨hfDecodeDrain_missing whole missing, by omega⟩
          | cons first text =>
              rw [encodeBits_cons, List.append_assoc] at begins
              exact (eosBits_apart (List.prefix_append (codeBits first) _) begins).elim
      · refine Or.inl ⟨[], text, nbits, path, rfl, ?_, by omega, isOpen, bits⟩
        rw [hfDecodeDrain, if_neg whole, List.append_nil]

/-- Shifting a byte into the window appends its bits to the pending ones. -/
theorem bitsOf_shift_in {nbits : Nat} (few : nbits < 8) (cur : Nat) (byte : UInt8) :
    bitsOf (nbits + 8) ((cur <<< 8 ||| byte.toNat) % 2 ^ 32) =
      bitsOf nbits cur ++ byteBits byte := by
  have value : cur <<< 8 ||| byte.toNat = cur * 2 ^ 8 + byte.toNat := by
    rw [← Nat.shiftLeft_add_eq_or_of_lt byte.toNat_lt, Nat.shiftLeft_eq]
  have high : (cur * 2 ^ 8 + byte.toNat) / 2 ^ 8 = cur := by
    have := byte.toNat_lt
    omega
  have low : bitsOf 8 (cur * 2 ^ 8 + byte.toNat) = byteBits byte := by
    rw [← bitsOf_mod le_rfl, Nat.mul_add_mod_self_right, bitsOf_mod le_rfl]
    rfl
  rw [bitsOf_mod (by omega), value, bitsOf_add, high, low]

/-- The outer loop decodes whole codes of all the input bytes. -/
theorem hfDecodeBytes_run {outSz : Nat} (enc rest : List UInt8) {cur nbits : Nat}
    {path out text : List UInt8} {left : List Bool} (few : nbits < 8) (isOpen : Open path)
    (bits : bytesBits path ++ bitsOf nbits cur ++ bytesBits enc = encodeBits text ++ left)
    (stuck : Stuck left) (room : out.length + text.length ≤ outSz) :
    (∃ done behind cur' nbits' path', text = done ++ behind ∧
        hfDecodeBytes hfInit outSz enc.length (enc ++ rest) cur nbits path out =
          .ok (cur', nbits', path', out ++ done) ∧
        nbits' < 8 ∧ Open path' ∧
        bytesBits path' ++ bitsOf nbits' cur' = encodeBits behind ++ left) ∨
      (hfDecodeBytes hfInit outSz enc.length (enc ++ rest) cur nbits path out = .err ∧
        32 ≤ left.length) := by
  induction enc generalizing cur nbits path out text with
  | nil =>
      exact Or.inl ⟨[], text, cur, nbits, path, rfl, by simp [hfDecodeBytes], few, isOpen,
        by simpa using bits⟩
  | cons byte enc ih =>
      have shifted := bitsOf_shift_in few cur byte
      have bits' : bytesBits path ++ bitsOf (nbits + 8) ((cur <<< 8 ||| byte.toNat) % 2 ^ 32) ++
          bytesBits enc = encodeBits text ++ left := by
        rw [shifted, ← bits]
        simp
      rw [List.length_cons, List.cons_append, hfDecodeBytes]
      dsimp only
      rcases hfDecodeDrain_run (Nat.lt_succ_self (nbits + 8)) isOpen bits' stuck room with
        ⟨done, behind, nbits', path', rfl, run, few', isOpen', after⟩ | ⟨run, eos⟩
      · rw [run, Outcome.ok_bind]
        have room' : (out ++ done).length + behind.length ≤ outSz := by
          simpa [Nat.add_assoc] using room
        rcases ih few' isOpen' after room' with
          ⟨more, behind', cur'', nbits'', path'', rfl, run', few'', isOpen'', after'⟩ | failed
        · exact Or.inl ⟨done ++ more, behind', cur'', nbits'', path'', by simp,
            by simpa using run', few'', isOpen'', after'⟩
        · exact Or.inr failed
      · rw [run, Outcome.err_bind]
        exact Or.inr ⟨rfl, eos⟩

section TailSteps

variable {root : Tree} {outSz passes cur nbits : Nat} {path out : List UInt8} {node : Node}

theorem hfDecodeTail_missing (pending : 0 < nbits)
    (missing : root[path ++ [UInt8.ofNat (cur <<< (8 - nbits))]]? = none) :
    hfDecodeTail root outSz (passes + 1) cur nbits path out = .fault := by
  simp only [hfDecodeTail, if_pos pending, missing]

theorem hfDecodeTail_stop (pending : 0 < nbits)
    (found : root[path ++ [UInt8.ofNat (cur <<< (8 - nbits))]]? = some node)
    (stops : node.size ≠ 0 ∨ nbits < node.codeLen) :
    hfDecodeTail root outSz (passes + 1) cur nbits path out = .ok out := by
  simp only [hfDecodeTail, if_pos pending, found, if_pos stops]

theorem hfDecodeTail_emit (pending : 0 < nbits)
    (found : root[path ++ [UInt8.ofNat (cur <<< (8 - nbits))]]? = some node)
    (leaf : node.size = 0) (enough : node.codeLen ≤ nbits) (room : out.length < outSz) :
    hfDecodeTail root outSz (passes + 1) cur nbits path out =
      hfDecodeTail root outSz passes cur (nbits - node.codeLen) [] (out ++ [node.sym]) := by
  simp only [hfDecodeTail, if_pos pending, found]
  rw [if_neg (by omega), if_neg (by omega)]

end TailSteps

/-- The last bits, filled up with zeros to a byte. -/
theorem byteBits_last {nbits : Nat} (few : nbits < 8) (cur : Nat) :
    byteBits (UInt8.ofNat (cur <<< (8 - nbits))) =
      bitsOf nbits cur ++ List.replicate (8 - nbits) false := by
  have filled := bitsOf_mul_two_pow nbits (8 - nbits) cur
  rw [Nat.add_sub_cancel' (by omega)] at filled
  rw [byteBits_ofNat, Nat.shiftLeft_eq, filled]

/-- The last loop decodes the remaining whole codes and accepts any rest that is
not EOS. -/
theorem hfDecodeTail_run {outSz passes cur nbits : Nat} {path out text : List UInt8}
    {left : List Bool} (enough : nbits < passes) (few : nbits < 8) (isOpen : Open path)
    (bits : bytesBits path ++ bitsOf nbits cur = encodeBits text ++ left)
    (stuck : Stuck left) (room : out.length + text.length ≤ outSz) :
    hfDecodeTail hfInit outSz passes cur nbits path out =
      if left.length < 30 then .ok (out ++ text) else .fault := by
  induction passes generalizing nbits path out text with
  | zero => omega
  | succ passes ih =>
      cases text with
      | cons symbol text =>
          have inside : Inside symbol path :=
            isOpen.inside (by simpa using bits)
          have short := inside.1
          have length := congrArg List.length bits
          simp only [encodeBits_cons, List.length_append, length_bytesBits, length_bitsOf,
            length_codeBits] at length
          let idx := UInt8.ofNat (cur <<< (8 - nbits))
          have slot : Slot symbol (path ++ [idx]) := by
            refine ⟨by rw [List.length_append, List.length_singleton]; omega, ?_⟩
            have code : codeBits symbol <+: bytesBits path ++ bitsOf nbits cur :=
              ⟨encodeBits text ++ left, by rw [bits]; simp⟩
            refine code.trans ⟨List.replicate (8 - nbits) false, ?_⟩
            rw [bytesBits_append, bytesBits_cons, byteBits_last few]
            simp
          have label := lastLen_of_inside inside slot
          have after : bitsOf (nbits - (hexToHfCodeLen symbol - 8 * path.length)) cur ++ [] =
              encodeBits text ++ left :=
            bits_after_symbol inside (by omega) (by simpa using bits)
          have fits : (out ++ [symbol]).length + text.length ≤ outSz := by
            rw [List.length_cons] at room
            rw [List.length_append, List.length_singleton]
            omega
          rw [hfDecodeTail_emit (by omega) (hfInit_slot slot) rfl
            (by dsimp only; omega) (by rw [List.length_cons] at room; omega)]
          dsimp only
          rw [label, ih (by omega) (by omega) open_nil (by simpa using after) fits]
          simp
      | nil =>
          rw [encodeBits_nil, List.nil_append] at bits
          have depth := isOpen.length_le
          have length := congrArg List.length bits
          simp only [List.length_append, length_bytesBits, length_bitsOf] at length
          by_cases pending : 0 < nbits
          · let idx := UInt8.ofNat (cur <<< (8 - nbits))
            have padded : bytesBits (path ++ [idx]) =
                left ++ List.replicate (8 - nbits) false := by
              rw [bytesBits_append, bytesBits_cons, byteBits_last few, ← bits]
              simp
            by_cases isShort : left.length < 30
            · rw [if_pos isShort, List.append_nil]
              rcases isOpen.child idx with ⟨symbol, inside⟩ | ⟨symbol, slot⟩ | ⟨deep, eos⟩
              · obtain ⟨node, found, size⟩ := hfInit_inside inside
                exact hfDecodeTail_stop pending found (Or.inl size.ne')
              · refine hfDecodeTail_stop pending (hfInit_slot slot) (Or.inr ?_)
                by_contra complete
                have code := slot.2
                rw [padded] at code
                refine stuck symbol (List.prefix_of_prefix_length_le code
                  (List.prefix_append _ _) ?_)
                rw [length_codeBits]
                dsimp only at complete
                have above := slot.1
                rw [List.length_append, List.length_singleton] at above
                have lastLength : lastLen (hexToHfCodeLen symbol) =
                  hexToHfCodeLen symbol - 8 * ((hexToHfCodeLen symbol - 1) / 8) := rfl
                have whole := slot.2.length_le
                simp at whole
                omega
              · rw [padded] at eos
                obtain ⟨rest, equal⟩ := eos
                have bit := congrArg (fun bits => bits[left.length]?) equal
                rw [List.getElem?_append_left (by simp [eosBits, isShort]), eosBits,
                  List.getElem?_replicate, if_pos isShort,
                  List.getElem?_append_right le_rfl, Nat.sub_self,
                  List.getElem?_replicate, if_pos (by omega)] at bit
                cases bit
            · have eos : eosBits <+: bytesBits (path ++ [idx]) := by
                rw [padded]
                exact (stuck.eosBits_of_length (by omega)).trans (List.prefix_append _ _)
              rw [if_neg isShort]
              exact hfDecodeTail_missing pending (hfInit_eos (by omega) eos)
          · rw [hfDecodeTail, if_neg pending, if_pos (by omega), List.append_nil]

/-- What `hf_string_decode` makes of any string of bytes. -/
theorem hfStringDecode_eq {enc text : List UInt8} {left : List Bool}
    (bits : bytesBits enc = encodeBits text ++ left) (stuck : Stuck left)
    (rest : List UInt8) :
    hfStringDecode hfInit (enc ++ rest) enc.length (enc.length * 8 + 1) =
      if left.length < 30 then .ok text
      else if left.length < 32 then .fault
      else .err := by
  have room : ([] : List UInt8).length + text.length ≤ enc.length * 8 + 1 := by
    have length := congrArg List.length bits
    have codes := length_le_encodeBits text
    simp only [List.length_append, length_bytesBits] at length
    simp only [List.length_nil]
    omega
  unfold hfStringDecode
  have start : bytesBits [] ++ bitsOf 0 0 ++ bytesBits enc = encodeBits text ++ left := by
    simpa using bits
  rcases hfDecodeBytes_run enc rest (by omega) open_nil start stuck room with
    ⟨done, behind, cur, nbits, path, rfl, run, few, isOpen, after⟩ | ⟨run, eos⟩
  · have room' : done.length + behind.length ≤ enc.length * 8 + 1 := by
      simpa using room
    have fits : left.length < 32 := by
      have length := congrArg List.length after
      have depth := isOpen.length_le
      simp only [List.length_append, length_bytesBits, length_bitsOf] at length
      omega
    rw [run, List.nil_append, Outcome.ok_bind, if_pos fits]
    exact hfDecodeTail_run (Nat.lt_succ_self nbits) few isOpen after stuck room'
  · rw [run, Outcome.err_bind, if_neg (by omega), if_neg (by omega)]

/-- Reading past the input is a fault, unless EOS is met before. -/
theorem hfDecodeBytes_past {outSz : Nat} (enc : List UInt8) {extra cur nbits : Nat}
    {path out : List UInt8} (positive : 0 < extra) :
    hfDecodeBytes hfInit outSz (enc.length + extra) enc cur nbits path out =
      hfDecodeBytes hfInit outSz enc.length enc cur nbits path out >>= fun _ => .fault := by
  induction enc generalizing cur nbits path out with
  | nil =>
      obtain ⟨extra, rfl⟩ : ∃ fewer, extra = fewer + 1 := ⟨extra - 1, by omega⟩
      rw [List.length_nil, Nat.zero_add, hfDecodeBytes, hfDecodeBytes, Outcome.ok_bind]
  | cons byte enc ih =>
      rw [List.length_cons, Nat.add_right_comm, hfDecodeBytes, hfDecodeBytes, bind_assoc]
      simp only [ih]

theorem hfStringDecode_truncated {enc text : List UInt8} {left : List Bool}
    (bits : bytesBits enc = encodeBits text ++ left) (stuck : Stuck left)
    {encSz outSz : Nat} (short : enc.length < encSz) (room : text.length ≤ outSz) :
    hfStringDecode hfInit enc encSz outSz =
      if left.length < 32 then .fault else .err := by
  obtain ⟨extra, rfl, positive⟩ : ∃ extra, encSz = enc.length + extra ∧ 0 < extra :=
    ⟨encSz - enc.length, by omega, by omega⟩
  have start : bytesBits [] ++ bitsOf 0 0 ++ bytesBits enc = encodeBits text ++ left := by
    simpa using bits
  have fits : ([] : List UInt8).length + text.length ≤ outSz := by simpa using room
  have run := hfDecodeBytes_run enc [] (by omega) open_nil start stuck fits
  rw [List.append_nil] at run
  rw [hfStringDecode, hfDecodeBytes_past enc positive]
  rcases run with ⟨done, behind, cur, nbits, path, rfl, run, few, isOpen, after⟩ | ⟨run, eos⟩
  · have few' : left.length < 32 := by
      have length := congrArg List.length after
      have depth := isOpen.length_le
      simp only [List.length_append, length_bytesBits, length_bitsOf] at length
      omega
    rw [run, if_pos few']
    rfl
  · rw [run, if_neg (by omega)]
    rfl

/-- Codes, then any rest the decoder takes for padding. -/
def LenientString (enc text : List UInt8) : Prop :=
  ∃ left, bytesBits enc = encodeBits text ++ left ∧ Stuck left ∧ left.length < 30

/-- Codes, then EOS and at least two more bits. -/
def MeetsEos (enc : List UInt8) : Prop :=
  ∃ text more, bytesBits enc = encodeBits text ++ (eosBits ++ more) ∧ 2 ≤ more.length

theorem MeetsEos.append {enc : List UInt8} (eos : MeetsEos enc) (after : List UInt8) :
    MeetsEos (enc ++ after) := by
  obtain ⟨text, more, bits, enough⟩ := eos
  refine ⟨text, more ++ bytesBits after, ?_, ?_⟩
  · rw [bytesBits_append, bits]
    simp
  · rw [List.length_append]
    omega

theorem stuck_eosBits_append (more : List Bool) : Stuck (eosBits ++ more) :=
  fun _ code => eosBits_apart code (List.prefix_append _ _)

theorem LenientString.unique {enc first second : List UInt8}
    (firstCodes : LenientString enc first) (secondCodes : LenientString enc second) :
    first = second := by
  obtain ⟨firstLeft, firstBits, firstStuck, -⟩ := firstCodes
  obtain ⟨secondLeft, secondBits, secondStuck, -⟩ := secondCodes
  exact (encodeBits_append_unique firstStuck secondStuck
    (firstBits.symm.trans secondBits)).1

theorem lenientString_iff {enc text text' : List UInt8} {left : List Bool}
    (bits : bytesBits enc = encodeBits text ++ left) (stuck : Stuck left) :
    LenientString enc text' ↔ text' = text ∧ left.length < 30 := by
  constructor
  · rintro ⟨left', bits', stuck', short⟩
    obtain ⟨rfl, rfl⟩ := encodeBits_append_unique stuck stuck' (bits.symm.trans bits')
    exact ⟨rfl, short⟩
  · rintro ⟨rfl, short⟩
    exact ⟨left, bits, stuck, short⟩

theorem meetsEos_iff {enc text : List UInt8} {left : List Bool}
    (bits : bytesBits enc = encodeBits text ++ left) (stuck : Stuck left) :
    MeetsEos enc ↔ 32 ≤ left.length := by
  constructor
  · rintro ⟨text', more, bits', enough⟩
    obtain ⟨rfl, rfl⟩ :=
      encodeBits_append_unique stuck (stuck_eosBits_append more) (bits.symm.trans bits')
    simp [eosBits]
    omega
  · intro long
    obtain ⟨more, rfl⟩ := stuck.eosBits_of_length (by omega)
    refine ⟨text, more, bits, ?_⟩
    simp [eosBits] at long
    omega

section Verdict

variable {memory out : List UInt8} {encSz : Nat}

private theorem hfStringDecode_take {text : List UInt8} {left : List Bool}
    (bits : bytesBits (memory.take encSz) = encodeBits text ++ left) (stuck : Stuck left) :
    hfStringDecode hfInit memory encSz (encSz * 8 + 1) =
      if left.length < 30 ∧ encSz ≤ memory.length then .ok text
      else if left.length < 32 then .fault
      else .err := by
  by_cases inside : encSz ≤ memory.length
  · have length : (memory.take encSz).length = encSz := List.length_take_of_le inside
    have decoded := hfStringDecode_eq bits stuck (memory.drop encSz)
    rw [List.take_append_drop, length] at decoded
    rw [decoded]
    simp [inside]
  · have whole : memory.take encSz = memory := List.take_of_length_le (by omega)
    rw [whole] at bits
    have room : text.length ≤ encSz * 8 + 1 := by
      have length := congrArg List.length bits
      have codes := length_le_encodeBits text
      simp only [List.length_append, length_bytesBits] at length
      omega
    have outside : ¬ (left.length < 30 ∧ encSz ≤ memory.length) := fun both => inside both.2
    rw [hfStringDecode_truncated bits stuck (by omega) room, if_neg outside]

theorem hfStringDecode_eq_ok :
    hfStringDecode hfInit memory encSz (encSz * 8 + 1) = .ok out ↔
      encSz ≤ memory.length ∧ LenientString (memory.take encSz) out := by
  obtain ⟨text, left, bits, stuck⟩ := exists_encodeBits_append (bytesBits (memory.take encSz))
  rw [hfStringDecode_take bits stuck, lenientString_iff bits stuck]
  split
  · rename_i accepted
    simp [accepted, eq_comm]
  · rename_i refused
    exact iff_of_false (by split <;> simp) fun both => refused ⟨both.2.2, both.1⟩

theorem hfStringDecode_eq_err :
    hfStringDecode hfInit memory encSz (encSz * 8 + 1) = .err ↔
      MeetsEos (memory.take encSz) := by
  obtain ⟨text, left, bits, stuck⟩ := exists_encodeBits_append (bytesBits (memory.take encSz))
  rw [hfStringDecode_take bits stuck, meetsEos_iff bits stuck]
  split
  · simp
    omega
  · split <;> simp <;> omega

end Verdict

/-- A Huffman string in the sense of the format: codes, then fewer than eight
padding bits that begin EOS. -/
def HuffmanString (enc text : List UInt8) : Prop :=
  ∃ padding < 8, bytesBits enc = encodeBits text ++ List.replicate padding true

theorem HuffmanString.lenient {enc text : List UInt8} (valid : HuffmanString enc text) :
    LenientString enc text := by
  obtain ⟨padding, few, bits⟩ := valid
  exact ⟨_, bits, stuck_replicate_true padding, by simp; omega⟩

end Huffman

end HeapHttpd
