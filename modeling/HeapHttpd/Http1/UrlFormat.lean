import HeapHttpd.Http1.Cookies

/-!
# Percent escapes

`NIU_URLFORMAT_DECODE` on a little-endian machine, pass by pass: what it makes of the
texts that `NIU_URLFORMAT_ENCODE` writes, how far it looks ahead, and what it makes of
escapes that are none.
-/

namespace HeapHttpd

namespace Http1

open General

/-! ## The loop -/

/-- What is appended to `dst`: a blank, an octet of `src` as it is, or one that was made
of digits. -/
inductive Appended
  | blank
  | copied (octet : UInt8)
  | made (octet : UInt8)
  deriving DecidableEq

def Appended.octet : Appended → UInt8
  | blank => 0x20
  | copied octet => octet
  | made octet => octet

/-- A pass of the loop at `src[position]`, which goes on behind `width` octets and reads
no other ones. -/
structure DecodePass where
  position : Nat
  appended : List Appended
  width : Nat
  deriving DecidableEq

/-- A pass at an octet, with what follows it in memory. -/
def decodePass (position : Nat) (ch : UInt8) (following : List UInt8) : DecodePass :=
  if ch = 0x2b then ⟨position, [.blank], 1⟩
  else if ch = 0x25 then
    let digit (index : Nat) := following.getD index 0
    if digit 0 ≠ 0x75 then ⟨position, [.made (escaped 0 (digit 0) (digit 1))], 3⟩
    else
      let first := escaped 0 (digit 3) (digit 4)
      ⟨position, [.made first, .made (escaped first (digit 1) (digit 2))], 6⟩
  else ⟨position, [.copied ch], 1⟩

/-- The passes over a text, with what memory holds behind it.  The first argument bounds
them. -/
def decodePasses (memory : List UInt8) : Nat → Nat → List UInt8 → List DecodePass
  | 0, _, _ => []
  | _ + 1, _, [] => []
  | passes + 1, position, ch :: rest =>
      let pass := decodePass position ch (rest ++ memory)
      pass :: decodePasses memory passes (position + pass.width) (rest.drop (pass.width - 1))

/-- `NIU_URLFORMAT_DECODE`, with what memory holds from the NUL on. -/
def decodeIn (memory text : List UInt8) : List UInt8 :=
  (decodePasses memory text.length 0 text).flatMap fun pass => pass.appended.map Appended.octet

/-- The octets that some passes append. -/
def appendedIn (memory : List UInt8) (passes position : Nat) (text : List UInt8) : List UInt8 :=
  (decodePasses memory passes position text).flatMap fun pass =>
    pass.appended.map Appended.octet

section Passes

variable {memory rest : List UInt8} {passes position : Nat} {ch : UInt8}

@[simp]
theorem appendedIn_nil : appendedIn memory passes position [] = [] := by
  cases passes <;> rfl

theorem appendedIn_cons :
    appendedIn memory (passes + 1) position (ch :: rest) =
      (decodePass position ch (rest ++ memory)).appended.map Appended.octet ++
        appendedIn memory passes (position + (decodePass position ch (rest ++ memory)).width)
          (rest.drop ((decodePass position ch (rest ++ memory)).width - 1)) := by
  rw [appendedIn, decodePasses, List.flatMap_cons]
  rfl

theorem decodePass_copied {following : List UInt8} (notPlus : ch ≠ 0x2b) (notEscape : ch ≠ 0x25) :
    decodePass position ch following = ⟨position, [.copied ch], 1⟩ := by
  rw [decodePass, if_neg notPlus, if_neg notEscape]

theorem decodePass_octet {high : UInt8} {following : List UInt8} (notUnit : high ≠ 0x75) :
    decodePass position 0x25 (high :: following) =
      ⟨position, [.made (escaped 0 high (following.getD 0 0))], 3⟩ := by
  rw [decodePass, if_neg (by decide), if_pos rfl]
  simp only [List.getD_cons_zero, List.getD_cons_succ, ne_eq, notUnit, not_false_eq_true,
    if_true]

theorem decodePass_unit {following : List UInt8} :
    decodePass position 0x25 (0x75 :: following) =
      ⟨position, [.made (escaped 0 (following.getD 2 0) (following.getD 3 0)),
        .made (escaped (escaped 0 (following.getD 2 0) (following.getD 3 0))
          (following.getD 0 0) (following.getD 1 0))], 6⟩ :=
  rfl

theorem decodePass_position (position : Nat) (ch : UInt8) (following : List UInt8) :
    (decodePass position ch following).position = position := by
  rw [decodePass]
  dsimp only
  split_ifs <;> rfl

/-- What looks like an escape is made of digits. -/
theorem made_mem_decodePass (position : Nat) (following : List UInt8) :
    ∃ octet, .made octet ∈ (decodePass position 0x25 following).appended := by
  rw [decodePass, if_neg (by decide), if_pos rfl]
  dsimp only
  split_ifs
  · exact ⟨_, List.mem_cons_self⟩
  · exact ⟨_, List.mem_cons_self⟩

end Passes

/-- Where zeros lie behind the text. -/
theorem urlFormatDecode_eq (passes position : Nat) (text : List UInt8) :
    urlFormatDecode passes text = appendedIn [] passes position text := by
  induction passes generalizing position text with
  | zero => rfl
  | succ passes ih =>
      cases text with
      | nil => rfl
      | cons ch rest =>
          rw [urlFormatDecode, appendedIn_cons, List.append_nil, decodePass]
          split
          · rw [ih (position + 1) rest]
            rfl
          · split
            · dsimp only
              split
              · rw [ih (position + 3) (rest.drop 2)]
                rfl
              · rw [ih (position + 6) (rest.drop 5)]
                rfl
            · rw [ih (position + 1) rest]
              rfl

/-! ## What was encoded -/

/-- The octets above 0x7f that do not follow an earlier one of a pair are followed by
another octet. -/
def Paired : List UInt8 → Prop
  | [] => True
  | [ch] => ch ≤ 0x7f
  | ch :: next :: rest => if ch ≤ 0x7f then Paired (next :: rest) else Paired rest

theorem hexOctets_back (ch : UInt8) :
    (∀ cint, escaped cint (hexDigit (ch / 16)) (hexDigit (ch % 16)) = ch) ∧
      hexDigit (ch / 16) ≠ 0x75 := by
  have digits : hexValue (hexDigit (ch / 16)) = ch / 16 ∧
      hexValue (hexDigit (ch % 16)) = ch % 16 ∧ (ch / 16) <<< 4 ||| ch % 16 = ch ∧
      hexDigit (ch / 16) ≠ 0x75 := by
    revert ch
    apply forall_octet
    decide +kernel
  obtain ⟨high, low, whole, notUnit⟩ := digits
  refine ⟨fun cint => ?_, notUnit⟩
  rw [escaped, high, low]
  have gone : (cint <<< 4) <<< 4 = 0 := by
    revert cint
    apply forall_octet
    decide +kernel
  rw [UInt8.shiftLeft_or, gone, UInt8.zero_or, whole]

section Encoded

variable {memory rest : List UInt8} {passes position : Nat}

theorem appendedIn_hexOctets (ch : UInt8) :
    appendedIn memory (passes + 1) position (0x25 :: (hexOctets ch ++ rest)) =
      ch :: appendedIn memory passes (position + 3) rest := by
  obtain ⟨back, notUnit⟩ := hexOctets_back ch
  rw [appendedIn_cons]
  simp only [hexOctets, List.cons_append, List.nil_append, decodePass_octet notUnit,
    List.getD_cons_zero, back]
  rfl

theorem appendedIn_hexUnit (low high : UInt8) :
    appendedIn memory (passes + 1) position
        (0x25 :: 0x75 :: (hexOctets high ++ (hexOctets low ++ rest))) =
      low :: high :: appendedIn memory passes (position + 6) rest := by
  have backLow := (hexOctets_back low).1
  have backHigh := (hexOctets_back high).1
  rw [appendedIn_cons]
  simp only [hexOctets, List.cons_append, List.nil_append, decodePass_unit, List.getD_cons_zero,
    List.getD_cons_succ, backLow, backHigh]
  rfl

variable {turns : Nat} {ch : UInt8}

theorem appendedIn_low (low : ch ≤ 0x7f)
    (enough : (urlFormatEncode (turns + 1) (ch :: rest)).length ≤ passes + 1) :
    ∃ position', (urlFormatEncode turns rest).length ≤ passes ∧
      appendedIn memory (passes + 1) position (urlFormatEncode (turns + 1) (ch :: rest)) =
        ch :: appendedIn memory passes position' (urlFormatEncode turns rest) := by
  rw [urlFormatEncode] at enough ⊢
  split
  · next space =>
      rw [if_pos space, List.length_cons] at enough
      subst space
      exact ⟨position + 1, by omega, appendedIn_cons⟩
  · next notSpace =>
      rw [if_neg notSpace] at enough
      split
      · next plain =>
          obtain ⟨-, -, -, -, notEscape, -⟩ := unescaped_plain ch plain
          have notPlus : ch ≠ 0x2b := by
            rintro rfl
            exact absurd plain (by decide)
          rw [if_pos plain, List.length_cons] at enough
          refine ⟨position + 1, by omega, ?_⟩
          rw [appendedIn_cons, decodePass_copied notPlus notEscape]
          rfl
      · next special =>
          rw [if_neg special, if_pos low, List.length_cons, List.length_append] at enough
          exact ⟨position + 3, by omega, appendedIn_hexOctets ch⟩

theorem appendedIn_high (high : ¬ch ≤ 0x7f)
    (enough : (urlFormatEncode (turns + 1) (ch :: rest)).length ≤ passes + 1) :
    ∃ position', (urlFormatEncode turns rest.tail).length ≤ passes ∧
      appendedIn memory (passes + 1) position (urlFormatEncode (turns + 1) (ch :: rest)) =
        ch :: rest.headD 0 ::
          appendedIn memory passes position' (urlFormatEncode turns rest.tail) := by
  have notSpace : ch ≠ 0x20 := by
    rintro rfl
    exact high (by decide)
  have special : ¬isUnescaped ch = true := fun plain =>
    high (unescaped_plain ch plain).2.2.2.2.2.1
  rw [urlFormatEncode, if_neg notSpace, if_neg special, if_neg high] at enough ⊢
  simp only [List.length_cons, List.length_append] at enough
  exact ⟨position + 6, by omega, appendedIn_hexUnit ch (rest.headD 0)⟩

/-- What comes back: the text, and a NUL behind it where the last octet had no other one
to go with. -/
theorem appendedIn_urlFormatEncode {text : List UInt8} (patient : text.length ≤ turns)
    (enough : (urlFormatEncode turns text).length ≤ passes) :
    appendedIn memory passes position (urlFormatEncode turns text) = text ∧ Paired text ∨
      appendedIn memory passes position (urlFormatEncode turns text) = text ++ [0] ∧
        ¬Paired text := by
  induction turns generalizing text passes position with
  | zero =>
      obtain rfl : text = [] := List.length_eq_zero_iff.mp (Nat.le_zero.mp patient)
      exact .inl ⟨appendedIn_nil, trivial⟩
  | succ turns ih =>
      cases text with
      | nil => exact .inl ⟨appendedIn_nil, trivial⟩
      | cons ch rest =>
          have longer := length_le_urlFormatEncode patient
          rw [List.length_cons] at patient longer
          obtain ⟨passes, rfl⟩ : ∃ fewer, passes = fewer + 1 := ⟨passes - 1, by omega⟩
          by_cases low : ch ≤ 0x7f
          · obtain ⟨position', enough', read⟩ := @appendedIn_low memory rest passes position turns
              ch low enough
            have paired : Paired (ch :: rest) ↔ Paired rest := by
              cases rest with
              | nil => exact iff_of_true low trivial
              | cons next rest => rw [Paired, if_pos low]
            rw [read, paired]
            rcases @ih passes position' rest (by omega) enough' with same | more
            · exact .inl ⟨by rw [same.1], same.2⟩
            · exact .inr ⟨by rw [more.1, List.cons_append], more.2⟩
          · obtain ⟨position', enough', read⟩ := @appendedIn_high memory rest passes position turns
              ch low enough
            rw [read]
            cases rest with
            | nil =>
                refine .inr ⟨?_, low⟩
                cases turns <;> simp [urlFormatEncode]
            | cons next rest =>
                rw [List.length_cons] at patient
                rw [Paired, if_neg low, List.headD_cons, List.tail_cons]
                rcases @ih passes position' rest (by omega) enough' with same | more
                · exact .inl ⟨by rw [same.1], same.2⟩
                · exact .inr ⟨by rw [more.1, List.cons_append, List.cons_append], more.2⟩

end Encoded

/-- Which texts come back. -/
theorem decodeIn_urlFormatEncode_iff (beyond text : List UInt8) :
    decodeIn (0 :: beyond) (urlFormatEncode text.length text) = text ↔ Paired text := by
  have back : appendedIn (0 :: beyond) (urlFormatEncode text.length text).length 0
      (urlFormatEncode text.length text) = _ ∧ _ ∨ _ :=
    appendedIn_urlFormatEncode le_rfl le_rfl
  rcases back with ⟨same, paired⟩ | ⟨more, unpaired⟩
  · exact iff_of_true same paired
  · refine iff_of_false (fun same => ?_) unpaired
    have longer := congrArg List.length (more.symm.trans same)
    simp at longer

/-- A text that ends in an odd octet comes back with a NUL. -/
theorem decodeIn_urlFormatEncode_odd :
    ¬∀ beyond text : List UInt8, 0 ∉ text →
      decodeIn (0 :: beyond) (urlFormatEncode text.length text) = text := by
  intro back
  have same := back [] [0xe9] (by decide)
  have more : decodeIn [0] (urlFormatEncode 1 [0xe9]) = [0xe9, 0] := by decide
  cases more.symm.trans same

/-! ## What is no escape -/

/-- A hexadecimal digit. -/
def isHexDigit (ch : UInt8) : Bool :=
  (0x30 ≤ ch && ch ≤ 0x39) || (0x41 ≤ ch && ch ≤ 0x46) || (0x61 ≤ ch && ch ≤ 0x66)

/-- The escapes: an octet of two digits, and a unit of four. -/
inductive IsEscape : List UInt8 → Prop
  | octet (high low : UInt8) (rest : List UInt8)
      (digits : isHexDigit high = true ∧ isHexDigit low = true) :
      IsEscape (0x25 :: high :: low :: rest)
  | unit (first second third fourth : UInt8) (rest : List UInt8)
      (digits : ∀ digit ∈ [first, second, third, fourth], isHexDigit digit = true) :
      IsEscape (0x25 :: 0x75 :: first :: second :: third :: fourth :: rest)

/-- Texts of other octets and escapes, read from the left. -/
inductive WellEscaped : List UInt8 → Prop
  | nil : WellEscaped []
  | plain (ch : UInt8) (rest : List UInt8) (notEscape : ch ≠ 0x25)
      (following : WellEscaped rest) : WellEscaped (ch :: rest)
  | octet (high low : UInt8) (rest : List UInt8)
      (digits : isHexDigit high = true ∧ isHexDigit low = true)
      (following : WellEscaped rest) : WellEscaped (0x25 :: high :: low :: rest)
  | unit (first second third fourth : UInt8) (rest : List UInt8)
      (digits : ∀ digit ∈ [first, second, third, fourth], isHexDigit digit = true)
      (following : WellEscaped rest) :
      WellEscaped (0x25 :: 0x75 :: first :: second :: third :: fourth :: rest)

/-- A pass reads no octet behind the NUL, and at a `%` that begins no escape it appends
only octets that it takes from the text. -/
structure DecodePass.Clean (text : List UInt8) (pass : DecodePass) : Prop where
  inside : pass.position + pass.width ≤ text.length + 1
  taken : (text.drop pass.position).head? = some 0x25 → ¬IsEscape (text.drop pass.position) →
    ∀ appended ∈ pass.appended, ∃ octet ∈ text, appended = .copied octet

/-- All passes over a text are clean. -/
def DecodesCleanly (beyond text : List UInt8) : Prop :=
  ∀ pass ∈ decodePasses (0 :: beyond) text.length 0 text, pass.Clean text

section Clean

theorem WellEscaped.isEscape {rest : List UInt8} (well : WellEscaped (0x25 :: rest)) :
    IsEscape (0x25 :: rest) := by
  cases well with
  | plain _ _ notEscape => exact (notEscape rfl).elim
  | octet high low rest digits => exact .octet high low rest digits
  | unit first second third fourth rest digits =>
      exact .unit first second third fourth rest digits

theorem wellEscaped_plain {ch : UInt8} {rest : List UInt8} (notEscape : ch ≠ 0x25) :
    WellEscaped (ch :: rest) ↔ WellEscaped rest := by
  constructor
  · intro well
    cases well with
    | plain _ _ _ following => exact following
    | octet => exact (notEscape rfl).elim
    | unit => exact (notEscape rfl).elim
  · exact .plain ch rest notEscape

theorem wellEscaped_octet {high low : UInt8} {rest : List UInt8}
    (digits : isHexDigit high = true ∧ isHexDigit low = true) :
    WellEscaped (0x25 :: high :: low :: rest) ↔ WellEscaped rest := by
  constructor
  · intro well
    cases well with
    | plain _ _ notEscape => exact (notEscape rfl).elim
    | octet _ _ _ _ following => exact following
    | unit => exact absurd digits.1 (by decide)
  · exact .octet high low rest digits

theorem wellEscaped_unit {first second third fourth : UInt8} {rest : List UInt8}
    (digits : ∀ digit ∈ [first, second, third, fourth], isHexDigit digit = true) :
    WellEscaped (0x25 :: 0x75 :: first :: second :: third :: fourth :: rest) ↔
      WellEscaped rest := by
  constructor
  · intro well
    cases well with
    | plain _ _ notEscape => exact (notEscape rfl).elim
    | octet _ _ _ digits => exact absurd digits.1 (by decide)
    | unit _ _ _ _ _ _ following => exact following
  · exact .unit first second third fourth rest digits

variable {beyond text : List UInt8} {position : Nat}

/-- A pass over an escape is clean where it ends in the text. -/
theorem clean_of_isEscape {pass : DecodePass} (isEscape : IsEscape (text.drop pass.position))
    (inside : pass.position + pass.width ≤ text.length + 1) : pass.Clean text :=
  ⟨inside, fun _ malformed => (malformed isEscape).elim⟩

/-- Of other octets than `%`, one is read. -/
theorem decodePass_width {ch : UInt8} {following : List UInt8} (notEscape : ch ≠ 0x25) :
    (decodePass position ch following).width = 1 := by
  rw [decodePass, if_neg notEscape]
  split <;> rfl

theorem clean_decodePass_plain {ch : UInt8} {rest following : List UInt8}
    (here : text.drop position = ch :: rest) (notEscape : ch ≠ 0x25)
    (inside : position ≤ text.length) : (decodePass position ch following).Clean text := by
  have positioned := decodePass_position position ch following
  constructor
  · rw [positioned, decodePass_width notEscape]
    exact Nat.succ_le_succ inside
  · intro isPercent
    rw [positioned, here, List.head?_cons] at isPercent
    exact (notEscape (Option.some.inj isPercent)).elim

/-- Where no escape begins, an octet is made all the same. -/
theorem not_clean_decodePass {rest following : List UInt8}
    (here : text.drop position = 0x25 :: rest) (malformed : ¬IsEscape (0x25 :: rest)) :
    ¬(decodePass position 0x25 following).Clean text := by
  intro clean
  obtain ⟨octet, made⟩ := made_mem_decodePass position following
  have taken := clean.taken
  rw [decodePass_position, here] at taken
  obtain ⟨copied, -, same⟩ := taken rfl malformed _ made
  cases same

/-- The passes from some octet of the text on. -/
theorem clean_decodePasses_iff {passes : Nat} {rest : List UInt8}
    (enough : rest.length ≤ passes) (here : text.drop position = rest)
    (inside : position + rest.length = text.length) :
    (∀ pass ∈ decodePasses (0 :: beyond) passes position rest, pass.Clean text) ↔
      WellEscaped rest := by
  induction passes generalizing position rest with
  | zero =>
      obtain rfl : rest = [] := List.length_eq_zero_iff.mp (Nat.le_zero.mp enough)
      exact iff_of_true (fun pass absent => (List.not_mem_nil absent).elim) .nil
  | succ passes ih =>
      cases rest with
      | nil => exact iff_of_true (fun pass absent => (List.not_mem_nil absent).elim) .nil
      | cons ch rest =>
          rw [List.length_cons] at enough inside
          have further (width : Nat) (few : width ≤ rest.length) :
              (∀ pass ∈ decodePasses (0 :: beyond) passes (position + (width + 1))
                (rest.drop width), pass.Clean text) ↔ WellEscaped (rest.drop width) := by
            refine ih ?_ ?_ ?_
            · rw [List.length_drop]
              omega
            · rw [← List.drop_drop, here, List.drop_succ_cons]
            · rw [List.length_drop]
              omega
          rw [decodePasses, List.forall_mem_cons]
          by_cases escape : ch = 0x25
          · subst escape
            by_cases isEscape : IsEscape (0x25 :: rest)
            · cases isEscape with
              | octet high low rest digits =>
                  have notUnit : high ≠ 0x75 := by
                    rintro rfl
                    exact absurd digits.1 (by decide)
                  rw [List.length_cons, List.length_cons] at inside
                  rw [wellEscaped_octet digits, List.cons_append, decodePass_octet notUnit]
                  refine Iff.trans (and_iff_right ?_) (further 2 (by simp))
                  refine clean_of_isEscape ?_ (by dsimp only; omega)
                  rw [here]
                  exact .octet high low rest digits
              | unit first second third fourth rest digits =>
                  simp only [List.length_cons] at inside
                  rw [wellEscaped_unit digits, List.cons_append, decodePass_unit]
                  refine Iff.trans (and_iff_right ?_) (further 5 (by simp))
                  refine clean_of_isEscape ?_ (by dsimp only; omega)
                  rw [here]
                  exact .unit first second third fourth rest digits
            · exact iff_of_false (fun clean => not_clean_decodePass here isEscape clean.1)
                fun well => isEscape well.isEscape
          · rw [wellEscaped_plain escape, decodePass_width escape]
            exact Iff.trans (and_iff_right (clean_decodePass_plain here escape (by omega)))
              (further 0 (Nat.zero_le _))

end Clean

/-- Over which texts they are. -/
theorem decodesCleanly_iff (beyond text : List UInt8) :
    DecodesCleanly beyond text ↔ WellEscaped text :=
  clean_decodePasses_iff le_rfl List.drop_zero (Nat.zero_add _)

/-- A text that is only a `%`: two octets behind it are read. -/
theorem not_decodesCleanly_percent :
    ¬∀ beyond text : List UInt8, 0 ∉ text → DecodesCleanly beyond text := by
  intro cleanly
  have clean : (decodePass 0 0x25 [0]).Clean [0x25] :=
    cleanly [] [0x25] (by decide) _ List.mem_cons_self
  exact absurd clean.inside (by decide)

end Http1

end HeapHttpd
