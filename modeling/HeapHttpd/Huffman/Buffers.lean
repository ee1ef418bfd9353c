import HeapHttpd.Huffman.Encoding

/-!
# The Huffman coder and its buffers

`hf_string_encode` with every octet that it stores, and both coders in the buffers that
`hpack` allocates for them: which strings come back as they were, and which octets are
decoded without a fault.
-/

namespace HeapHttpd

namespace Huffman

open BitString

/-! ## Appendix B -/

/-- RFC 7541, appendix B: the symbols with codes of each length, with 256 for EOS. -/
def appendixB : List (Nat × List Nat) := [
  (5, "012aceiost".toList.map Char.toNat),
  (6, " %-./3456789=A_bdfghlmnpru".toList.map Char.toNat),
  (7, ":BCDEFGHIJKLMNOPQRSTUVWYjkqvwxyz".toList.map Char.toNat),
  (8, "&*,;XZ".toList.map Char.toNat),
  (10, "!\"()?".toList.map Char.toNat),
  (11, "'+|".toList.map Char.toNat),
  (12, "#>".toList.map Char.toNat),
  (13, 0 :: "$@[]~".toList.map Char.toNat),
  (14, "^\x7d".toList.map Char.toNat),
  (15, "<`\x7b".toList.map Char.toNat),
  (19, [92, 195, 208]),
  (20, [128, 130, 131, 162, 184, 194, 224, 226]),
  (21, [153, 161, 167, 172, 176, 177, 179, 209, 216, 217, 227, 229, 230]),
  (22, [129, 132, 133, 134, 136, 146, 154, 156, 160, 163, 164, 169, 170, 173, 178, 181, 185,
    186, 187, 189, 190, 196, 198, 228, 232, 233]),
  (23, [1, 135, 137, 138, 139, 140, 141, 143, 147, 149, 150, 151, 152, 155, 157, 158, 165, 166,
    168, 174, 175, 180, 182, 183, 188, 191, 197, 231, 239]),
  (24, [9, 142, 144, 145, 148, 159, 171, 206, 215, 225, 236, 237]),
  (25, [199, 207, 234, 235]),
  (26, [192, 193, 200, 201, 202, 205, 210, 213, 218, 219, 238, 240, 242, 243, 255]),
  (27, [203, 204, 211, 212, 214, 221, 222, 223, 241, 244, 245, 246, 247, 248, 250, 251, 252,
    253, 254]),
  (28, [2, 3, 4, 5, 6, 7, 8, 11, 12, 14, 15, 16, 17, 18, 19, 20, 21, 23, 24, 25, 26, 27, 28,
    29, 30, 31, 127, 220, 249]),
  (30, [10, 13, 22, 256])]

/-- A canonical code: each symbol with the length and the number of its code.  The codes
of a length are consecutive, and follow those of the lengths before. -/
def canonicalCode : Nat → Nat → List (Nat × List Nat) → List (Nat × Nat × Nat)
  | _, _, [] => []
  | width, next, (length, symbols) :: rest =>
      let start := next * 2 ^ (length - width)
      (symbols.zipIdx start).map (fun entry => (entry.1, length, entry.2)) ++
        canonicalCode length (start + symbols.length) rest

/-- The bits of a symbol in appendix B. -/
def appendixBits (symbol : Nat) : List Bool :=
  (((canonicalCode 0 0 appendixB).lookup symbol).map fun code => bitsOf code.1 code.2).getD []

/-- The coding of a string, padded with ones to whole octets. -/
def appendixCoding (text : List UInt8) : List UInt8 :=
  let bits := text.flatMap fun symbol => appendixBits symbol.toNat
  pack (bits ++ List.replicate ((8 - bits.length % 8) % 8) true)

/-- The rows of the tables with their symbols, and EOS as the last one. -/
def tableRows : List (Nat × Nat × Nat) :=
  (rows ++ [(2 ^ 30 - 1, 30)]).zipIdx.map fun row : (Nat × Nat) × Nat =>
    (row.2, row.1.2, row.1.1)

/-- The canonical code is that of the tables, taken length by length. -/
theorem canonicalCode_eq : canonicalCode 0 0 appendixB =
    appendixB.flatMap fun row => tableRows.filter fun entry => entry.2.1 = row.1 := by
  decide +kernel

theorem mem_tableRows {symbol : UInt8} {code : Nat × Nat} :
    (symbol.toNat, code) ∈ tableRows ↔ code = (hexToHfCodeLen symbol, hexToHfCode symbol) := by
  have inside : symbol.toNat < rows.length := length_rows ▸ symbol.toNat_lt
  have row : (rows ++ [(2 ^ 30 - 1, 30)])[symbol.toNat]? =
      some (hexToHfCode symbol, hexToHfCodeLen symbol) := by
    rw [List.getElem?_append_left inside, row_eq]
  rw [tableRows, List.mem_map]
  constructor
  · rintro ⟨⟨entry, index⟩, member, same⟩
    obtain ⟨rfl, rfl⟩ := Prod.mk.inj same
    have listed := List.mem_zipIdx_iff_getElem?.mp member
    cases row.symm.trans listed
    rfl
  · rintro rfl
    exact ⟨(_, symbol.toNat), List.mem_zipIdx_iff_getElem?.mpr row, rfl⟩

theorem lookup_canonicalCode (symbol : UInt8) : (canonicalCode 0 0 appendixB).lookup symbol.toNat =
    some (hexToHfCodeLen symbol, hexToHfCode symbol) := by
  have lengths : ∀ row ∈ rows, row.2 ∈ appendixB.map Prod.fst := by decide +kernel
  obtain ⟨row, isRow, sameLength⟩ := List.mem_map.mp (lengths _ (row_mem symbol))
  have member : (symbol.toNat, hexToHfCodeLen symbol, hexToHfCode symbol) ∈
      canonicalCode 0 0 appendixB := by
    rw [canonicalCode_eq]
    refine List.mem_flatMap.mpr ⟨row, isRow, List.mem_filter.mpr ⟨mem_tableRows.mpr rfl, ?_⟩⟩
    exact decide_eq_true sameLength.symm
  cases found : (canonicalCode 0 0 appendixB).lookup symbol.toNat with
  | none =>
      have absent := List.lookup_eq_none_iff.mp found _ member
      simp at absent
  | some code =>
      obtain ⟨before, behind, split, -⟩ := List.lookup_eq_some_iff.mp found
      have listed : (symbol.toNat, code) ∈ canonicalCode 0 0 appendixB := by
        rw [split]
        exact List.mem_append_right _ List.mem_cons_self
      rw [canonicalCode_eq] at listed
      obtain ⟨row, -, listed⟩ := List.mem_flatMap.mp listed
      rw [mem_tableRows.mp (List.mem_filter.mp listed).1]

/-- The tables of the source are those of the appendix. -/
theorem appendixBits_eq (symbol : UInt8) : appendixBits symbol.toNat = codeBits symbol := by
  rw [appendixBits, lookup_canonicalCode]
  rfl

theorem appendixCoding_eq (text : List UInt8) : appendixCoding text = huffmanEncode text := by
  unfold appendixCoding huffmanEncode encodeBits
  simp only [appendixBits_eq]

theorem appendixBits_eos : appendixBits 256 = eosBits := by
  decide

/-! ## Encoding into a buffer -/

/-- `MAX_HUFFMAN_BUFF_LEN`, computed as an `int`. -/
def maxHuffmanBuffLen (l : Nat) : Outcome Nat :=
  if 2 ^ 31 ≤ l * 8 + 1 then .fault else .ok (l * 8 + 1)

/-- An octet of a buffer is changed. -/
def store (buff : List UInt8) (index : Nat) (change : UInt8 → UInt8) : Outcome (List UInt8) :=
  match buff[index]? with
  | none => .fault
  | some octet => .ok (buff.set index (change octet))

/-- `hf_byte_encode` at `buff[i]`: the bits still free, and the buffer.  The first
argument behind the code bounds the passes. -/
def hfByteEncodeInto (codes : Nat) :
    Nat → Nat → Nat → Nat → List UInt8 → Outcome (Nat × List UInt8)
  | 0, _, remain, _, buff => .ok (remain, buff)
  | passes + 1, nbits, remain, i, buff =>
      if nbits < remain then do
        let buff ← store buff i fun octet => octet ||| UInt8.ofNat (codes <<< (remain - nbits))
        .ok (remain - nbits, buff)
      else do
        let buff ← store buff i fun octet => octet ||| UInt8.ofNat (codes >>> (nbits - remain))
        let buff ← store buff (i + 1) fun _ => 0
        if nbits - remain = 0 then .ok (8, buff)
        else hfByteEncodeInto codes passes (nbits - remain) 8 (i + 1) buff

/-- The loop of `hf_string_encode`, at `buff_out[j]`. -/
def hfEncodeLoopInto :
    List UInt8 → Nat → Nat → List UInt8 → Outcome (Nat × Nat × List UInt8)
  | [], j, remain, buff => .ok (j, remain, buff)
  | ch :: rest, j, remain, buff =>
      if 0x80 ≤ ch.toNat then .fault
      else do
        let nbytes :=
          if hexToHfCodeLen ch < remain then (remain - hexToHfCodeLen ch) / 8
          else (hexToHfCodeLen ch - remain) / 8 + 1
        let (remain, buff) ←
          hfByteEncodeInto (hexToHfCode ch) (hexToHfCodeLen ch) (hexToHfCodeLen ch) remain j buff
        hfEncodeLoopInto rest (j + nbytes) remain buff

/-- `hf_string_encode` with `prefix` 0: the size, and the buffer. -/
def hfStringEncodeInto (buffIn buffOut : List UInt8) : Outcome (Nat × List UInt8) := do
  let (j, remain, buff) ← hfEncodeLoopInto buffIn 0 8 buffOut
  if remain < 8 then
    let buff ← store buff j fun octet => octet ||| UInt8.ofNat (0x3fffffff >>> (30 - remain))
    .ok (j + 1, buff)
  else .ok (j, buff)

theorem store_append (done tail : List UInt8) (octet : UInt8) (change : UInt8 → UInt8) :
    store (done ++ octet :: tail) done.length change = .ok (done ++ change octet :: tail) := by
  rw [store, List.getElem?_append_right le_rfl, Nat.sub_self, List.getElem?_cons_zero]
  dsimp only
  rw [List.set_append_right _ _ le_rfl, Nat.sub_self, List.set_cons_zero]

/-- How many octets a code completes. -/
theorem length_hfByteEncode (codes : Nat) {passes nbits remain cur : Nat}
    (enough : nbits ≤ passes) (positive : 0 < nbits) (free : 0 < remain) (within : remain ≤ 8) :
    (hfByteEncode codes passes nbits remain cur).1.length =
      if nbits < remain then (remain - nbits) / 8 else (nbits - remain) / 8 + 1 := by
  induction passes generalizing nbits remain cur with
  | zero => omega
  | succ passes ih =>
      rw [hfByteEncode]
      by_cases open' : nbits < remain
      · rw [if_pos open', if_pos open', List.length_nil]
        omega
      · rw [if_neg open', if_neg open']
        dsimp only
        by_cases done : nbits - remain = 0
        · rw [if_pos done, done]
          rfl
        · rw [if_neg done]
          have more := @ih (nbits - remain) 8 0 (by omega) (by omega) (by omega) (by omega)
          rw [List.length_cons, more]
          split <;> omega

/-- The octets that are completed, and the open one, in the buffer. -/
theorem hfByteEncodeInto_eq (codes : Nat) {passes nbits remain cur : Nat} {done tail : List UInt8}
    (room : (hfByteEncode codes passes nbits remain cur).1.length ≤ tail.length) :
    hfByteEncodeInto codes passes nbits remain done.length (done ++ UInt8.ofNat cur :: tail) =
      .ok ((hfByteEncode codes passes nbits remain cur).2.2,
        done ++ (hfByteEncode codes passes nbits remain cur).1 ++
          UInt8.ofNat (hfByteEncode codes passes nbits remain cur).2.1 ::
            tail.drop (hfByteEncode codes passes nbits remain cur).1.length) := by
  have written (cur part : Nat) : UInt8.ofNat cur ||| UInt8.ofNat part =
      UInt8.ofNat (cur ||| part % 256) := by
    apply UInt8.toNat_inj.mp
    simp
  induction passes generalizing nbits remain cur done tail with
  | zero => simp [hfByteEncodeInto, hfByteEncode]
  | succ passes ih =>
      rw [hfByteEncode] at room ⊢
      rw [hfByteEncodeInto]
      by_cases open' : nbits < remain
      · rw [if_pos open', if_pos open', store_append, Outcome.ok_bind, written]
        simp
      · rw [if_neg open'] at room ⊢
        rw [if_neg open', store_append, Outcome.ok_bind, written]
        dsimp only at room ⊢
        cases tail with
        | nil => split at room <;> simp at room
        | cons next tail =>
            have cleared (completed : UInt8) :
                store (done ++ completed :: next :: tail) (done.length + 1) (fun _ => 0) =
                  .ok (done ++ [completed] ++ 0 :: tail) := by
              have stored := store_append (done ++ [completed]) tail next fun _ => 0
              rwa [List.length_append, List.length_singleton, List.append_assoc,
                List.singleton_append] at stored
            rw [cleared, Outcome.ok_bind]
            by_cases finished : nbits - remain = 0
            · rw [if_pos finished, if_pos finished]
              rfl
            · rw [if_neg finished] at room ⊢
              rw [if_neg finished]
              dsimp only at room ⊢
              rw [List.length_cons, List.length_cons, Nat.succ_le_succ_iff] at room
              have more := @ih (nbits - remain) 8 0
                (done ++ [UInt8.ofNat (cur ||| codes >>> (nbits - remain) % 256)]) tail room
              rw [List.length_append, List.length_singleton] at more
              rw [List.length_cons, List.drop_succ_cons]
              refine more.trans ?_
              simp

/-- The buffer holds what is encoded, wherever each code needs at most four octets more. -/
theorem hfEncodeLoopInto_eq {text out tail : List UInt8} {cur remain : Nat}
    (isOpen : OpenByte cur remain) (ascii : ∀ ch ∈ text, ch.toNat < 0x80)
    (room : 4 * text.length ≤ tail.length) :
    ∃ out' cur' remain' tail', hfEncodeLoop text out cur remain = .ok (out', cur', remain') ∧
      hfEncodeLoopInto text out.length remain (out ++ UInt8.ofNat cur :: tail) =
        .ok (out'.length, remain', out' ++ UInt8.ofNat cur' :: tail') := by
  induction text generalizing out cur remain tail with
  | nil => exact ⟨out, cur, remain, tail, rfl, rfl⟩
  | cons ch text ih =>
      simp only [List.mem_cons, forall_eq_or_imp] at ascii
      have few := hexToHfCodeLen_le ch
      have some' := five_le_hexToHfCodeLen ch
      have length := @length_hfByteEncode (hexToHfCode ch) _ _ remain cur le_rfl
        (show 0 < hexToHfCodeLen ch by omega) isOpen.free isOpen.within
      have isOpen' := (hfByteEncode_spec (hexToHfCode ch) le_rfl isOpen
        (Or.inl (hexToHfCode_lt ch)) rfl).1
      have free := isOpen.free
      have within := isOpen.within
      rw [List.length_cons] at room
      have short : (hfByteEncode (hexToHfCode ch) (hexToHfCodeLen ch) (hexToHfCodeLen ch) remain
          cur).1.length ≤ 4 := by
        rw [length]
        split <;> omega
      generalize encoded : hfByteEncode (hexToHfCode ch) (hexToHfCodeLen ch) (hexToHfCodeLen ch)
        remain cur = completed at *
      obtain ⟨completed, cur₁, remain₁⟩ := completed
      dsimp only at length short isOpen'
      have stored := @hfByteEncodeInto_eq (hexToHfCode ch) (hexToHfCodeLen ch) (hexToHfCodeLen ch)
        remain cur out tail (by rw [encoded]; dsimp only; omega)
      rw [encoded] at stored
      dsimp only at stored
      obtain ⟨out', cur', remain', tail', run, into⟩ :=
        @ih (out ++ completed) (tail.drop completed.length) cur₁ remain₁ isOpen' ascii.2 (by
          rw [List.length_drop]
          omega)
      refine ⟨out', cur', remain', tail', ?_, ?_⟩
      · rw [hfEncodeLoop, if_neg (by omega), encoded]
        exact run
      · rw [hfEncodeLoopInto, if_neg (by omega), stored, Outcome.ok_bind]
        dsimp only
        rw [← length, ← List.length_append]
        exact into

theorem hfStringEncodeInto_ascii {text tail : List UInt8} (ascii : ∀ ch ∈ text, ch.toNat < 0x80)
    (room : 4 * text.length ≤ tail.length) :
    ∃ tail', hfStringEncodeInto text (0 :: tail) =
      .ok ((huffmanEncode text).length, huffmanEncode text ++ tail') := by
  have encoded := hfStringEncode_ascii ascii
  obtain ⟨out, cur, remain, tail', run, into⟩ :=
    @hfEncodeLoopInto_eq text [] tail 0 8 openByte_zero ascii room
  rw [List.nil_append, List.length_nil] at into
  rw [hfStringEncode, run, Outcome.ok_bind] at encoded
  have zero : UInt8.ofNat 0 :: tail = 0 :: tail := rfl
  rw [hfStringEncodeInto, ← zero, into, Outcome.ok_bind]
  dsimp only at encoded ⊢
  split at encoded
  · next unfinished =>
      rw [if_pos unfinished, store_append, Outcome.ok_bind]
      have whole : UInt8.ofNat cur ||| UInt8.ofNat (0x3fffffff >>> (30 - remain)) =
          UInt8.ofNat (cur ||| 0x3fffffff >>> (30 - remain) % 256) := by
        apply UInt8.toNat_inj.mp
        simp
      injection encoded with encoded
      rw [whole, ← encoded, List.length_append, List.length_singleton]
      exact ⟨tail', by rw [List.append_assoc, List.singleton_append]⟩
  · next finished =>
      injection encoded with encoded
      rw [if_neg finished, ← encoded]
      exact ⟨UInt8.ofNat cur :: tail', rfl⟩

/-- Only strings of ASCII octets are encoded. -/
theorem ascii_of_hfEncodeLoopInto {text buff : List UInt8} {j remain : Nat}
    {result : Nat × Nat × List UInt8} (run : hfEncodeLoopInto text j remain buff = .ok result) :
    ∀ ch ∈ text, ch.toNat < 0x80 := by
  induction text generalizing j remain buff with
  | nil => exact fun ch absent => (List.not_mem_nil absent).elim
  | cons ch text ih =>
      rw [hfEncodeLoopInto] at run
      split at run
      · cases run
      · next below =>
          obtain ⟨encoded, -, more⟩ := Outcome.bind_eq_ok.mp run
          intro other member
          rcases List.mem_cons.mp member with rfl | inText
          · exact Nat.lt_of_not_le below
          · exact ih more other inText

/-! ## Back and forth -/

/-- A string is encoded in a buffer of `MAX_HUFFMAN_BUFF_LEN` octets that are zero, and
what was written is decoded in another one: the octets written, and what they come to. -/
def backAndForth (text : List UInt8) : Outcome (List UInt8 × List UInt8) := do
  let size ← maxHuffmanBuffLen text.length
  let (sizeOut, buffOut) ← hfStringEncodeInto text (List.replicate size 0)
  let outSz ← maxHuffmanBuffLen sizeOut
  let out ← hfStringDecode hfInit buffOut sizeOut outSz
  .ok (buffOut.take sizeOut, out)

/-- A string is coded as appendix B says, and comes back as it was. -/
def ComesBack (text : List UInt8) : Prop :=
  backAndForth text = .ok (appendixCoding text, text)

theorem maxHuffmanBuffLen_eq_ok {l size : Nat} :
    maxHuffmanBuffLen l = .ok size ↔ l * 8 + 1 < 2 ^ 31 ∧ size = l * 8 + 1 := by
  unfold maxHuffmanBuffLen
  split
  · exact iff_of_false (by simp) fun fits => by omega
  · simp only [Outcome.ok.injEq]
    omega

/-- Which strings do. -/
theorem comesBack_iff {text : List UInt8} :
    ComesBack text ↔ (∀ ch ∈ text, ch.toNat < 0x80) ∧ text.length * 8 + 1 < 2 ^ 31 ∧
      (appendixCoding text).length * 8 + 1 < 2 ^ 31 := by
  rw [ComesBack, appendixCoding_eq, backAndForth]
  have encodes (ascii : ∀ ch ∈ text, ch.toNat < 0x80) :
      ∃ tail, hfStringEncodeInto text (List.replicate (text.length * 8 + 1) 0) =
        .ok ((huffmanEncode text).length, huffmanEncode text ++ tail) :=
    hfStringEncodeInto_ascii ascii (by rw [List.length_replicate]; omega)
  constructor
  · intro comesBack
    obtain ⟨size, sized, comesBack⟩ := Outcome.bind_eq_ok.mp comesBack
    obtain ⟨⟨sizeOut, buffOut⟩, encoded, comesBack⟩ := Outcome.bind_eq_ok.mp comesBack
    obtain ⟨outSz, sized', -⟩ := Outcome.bind_eq_ok.mp comesBack
    obtain ⟨small, rfl⟩ := maxHuffmanBuffLen_eq_ok.mp sized
    obtain ⟨looped, run, -⟩ := Outcome.bind_eq_ok.mp encoded
    have ascii := ascii_of_hfEncodeLoopInto run
    obtain ⟨tail, encoded'⟩ := encodes ascii
    rw [encoded'] at encoded
    cases encoded
    exact ⟨ascii, small, (maxHuffmanBuffLen_eq_ok.mp sized').1⟩
  · rintro ⟨ascii, small, small'⟩
    obtain ⟨tail, encoded⟩ := encodes ascii
    have decoded : hfStringDecode hfInit (huffmanEncode text ++ tail) (huffmanEncode text).length
        ((huffmanEncode text).length * 8 + 1) = .ok text := by
      refine hfStringDecode_eq_ok.mpr ⟨by simp, ?_⟩
      rw [List.take_left]
      exact (huffmanString_huffmanEncode text).lenient
    rw [maxHuffmanBuffLen_eq_ok.mpr ⟨small, rfl⟩, Outcome.ok_bind, encoded, Outcome.ok_bind]
    dsimp only
    rw [maxHuffmanBuffLen_eq_ok.mpr ⟨small', rfl⟩, Outcome.ok_bind, decoded, Outcome.ok_bind,
      List.take_left]

/-- The octet 0x80 is looked up in front of the table of lengths. -/
theorem not_comesBack_octet : ¬ComesBack [0x80] := by
  intro comesBack
  obtain ⟨_, -, comesBack⟩ := Outcome.bind_eq_ok.mp comesBack
  obtain ⟨_, encoded, -⟩ := Outcome.bind_eq_ok.mp comesBack
  obtain ⟨_, run, -⟩ := Outcome.bind_eq_ok.mp encoded
  have ascii := ascii_of_hfEncodeLoopInto run 0x80 List.mem_cons_self
  exact absurd ascii (by decide)

/-! ## Decoding -/

/-- Octets are decoded in the buffer that `hpack::parse` allocates for them, or refused:
no child that is missing is followed, and nothing is stored behind the buffer. -/
def DecodesSafely (enc : List UInt8) : Prop :=
  ∃ outSz, maxHuffmanBuffLen enc.length = .ok outSz ∧
    (hfStringDecode hfInit enc enc.length outSz = .err ∨
      ∃ out, hfStringDecode hfInit enc enc.length outSz = .ok out ∧ out.length ≤ outSz)

/-- Codes, then EOS and at most one more bit. -/
def EndsInEos (enc : List UInt8) : Prop :=
  ∃ text more, bytesBits enc = encodeBits text ++ (eosBits ++ more) ∧ more.length < 2

theorem endsInEos_iff {enc text : List UInt8} {left : List Bool}
    (bits : bytesBits enc = encodeBits text ++ left) (stuck : Stuck left) :
    EndsInEos enc ↔ 30 ≤ left.length ∧ left.length < 32 := by
  have length : eosBits.length = 30 := by decide
  constructor
  · rintro ⟨text', more, bits', few⟩
    obtain ⟨rfl, rfl⟩ :=
      encodeBits_append_unique stuck (stuck_eosBits_append more) (bits.symm.trans bits')
    rw [List.length_append]
    omega
  · rintro ⟨long, few⟩
    obtain ⟨more, rfl⟩ := stuck.eosBits_of_length long
    rw [List.length_append] at few
    exact ⟨text, more, bits, by omega⟩

/-- Which octets are. -/
theorem decodesSafely_iff {enc : List UInt8} :
    DecodesSafely enc ↔ enc.length * 8 + 1 < 2 ^ 31 ∧ ¬EndsInEos enc := by
  obtain ⟨text, left, bits, stuck⟩ := exists_encodeBits_append (bytesBits enc)
  have decoded := hfStringDecode_eq bits stuck []
  rw [List.append_nil] at decoded
  have short : text.length ≤ enc.length * 8 + 1 := by
    have length := congrArg List.length bits
    have codes := length_le_encodeBits text
    rw [List.length_append, length_bytesBits] at length
    omega
  rw [endsInEos_iff bits stuck]
  constructor
  · rintro ⟨outSz, sized, safe⟩
    obtain ⟨small, rfl⟩ := maxHuffmanBuffLen_eq_ok.mp sized
    refine ⟨small, ?_⟩
    rintro ⟨long, few⟩
    rw [decoded, if_neg (by omega), if_pos few] at safe
    rcases safe with refused | ⟨out, accepted, -⟩
    · cases refused
    · cases accepted
  · rintro ⟨small, notEos⟩
    refine ⟨_, maxHuffmanBuffLen_eq_ok.mpr ⟨small, rfl⟩, ?_⟩
    rw [decoded]
    by_cases padding : left.length < 30
    · rw [if_pos padding]
      exact .inr ⟨text, rfl, short⟩
    · rw [if_neg padding, if_neg (by omega)]
      exact .inl rfl

/-- An exclamation mark and EOS. -/
theorem not_decodesSafely_eos : ¬DecodesSafely [0xfe, 0x3f, 0xff, 0xff, 0xff] := by
  have bits : bytesBits [0xfe, 0x3f, 0xff, 0xff, 0xff] = encodeBits [0x21] ++ eosBits := by
    decide
  have stuck : Stuck eosBits := by
    have stuck := stuck_eosBits_append []
    rwa [List.append_nil] at stuck
  have decoded := hfStringDecode_eq bits stuck []
  rintro ⟨outSz, sized, safe⟩
  obtain ⟨-, rfl⟩ := maxHuffmanBuffLen_eq_ok.mp sized
  rw [List.append_nil, if_neg (by decide), if_pos (by decide)] at decoded
  rw [decoded] at safe
  rcases safe with refused | ⟨out, accepted, -⟩
  · cases refused
  · cases accepted

end Huffman

end HeapHttpd
