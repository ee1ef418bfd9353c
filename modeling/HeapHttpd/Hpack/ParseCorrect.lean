import HeapHttpd.Hpack.Accept
import HeapHttpd.Hpack.Format

/-!
# Parsing and the format

How far `hpack::parse` follows the format: what it makes of blocks of complete
header fields, when it recovers the fields a sender wrote, and when it tells
well-formed blocks from others without reading past their end.
-/

namespace HeapHttpd

namespace Hpack

open General PrefixInteger Huffman

/-- The sequences of representations the parser accepts, with the headers it
appends and whether it reads the octet behind the last one. -/
inductive AcceptedBlock : List UInt8 → List Header → Bool → Prop
  | nil : AcceptedBlock [] [] false
  | cons (bytes rest : List UInt8) (header : Header) (headers : List Header)
      (raw behind : Bool) (accepted : AcceptedField bytes header raw)
      (following : AcceptedBlock rest headers behind) :
      AcceptedBlock (bytes ++ rest) (header :: headers) (if headers = [] then raw else behind)

theorem AcceptedBlock.headers_eq_nil {block : List UInt8} {headers : List Header} {raw : Bool}
    (accepted : AcceptedBlock block headers raw) : headers = [] ↔ block = [] := by
  cases accepted with
  | nil => simp
  | cons bytes rest header headers raw behind accepted following =>
      have := accepted.length_pos
      refine iff_of_false (by simp) ?_
      exact List.append_ne_nil_of_left_ne_nil (List.length_pos_iff.mp this) _

theorem AcceptedBlock.not_raw {block : List UInt8} {headers : List Header} {raw : Bool}
    (accepted : AcceptedBlock block headers raw) (empty : headers = []) : raw = false := by
  cases accepted with
  | nil => rfl
  | cons => cases empty

/-- The octet behind a sequence is the octet behind its last representation, and
there are octets behind any other. -/
theorem AcceptedBlock.slack {more rest : List UInt8} {headers : List Header} {raw behind : Bool}
    (following : AcceptedBlock more headers behind)
    (last : (if headers = [] then raw else behind) = true → rest ≠ []) :
    (raw = true → more ++ rest ≠ []) ∧ (behind = true → rest ≠ []) := by
  by_cases empty : headers = []
  · rw [if_pos empty] at last
    refine ⟨fun isRaw => by simp [last isRaw], fun isRaw => ?_⟩
    rw [following.not_raw empty] at isRaw
    cases isRaw
  · rw [if_neg empty] at last
    have present := (not_congr following.headers_eq_nil).mp empty
    exact ⟨fun _ => by simp [present], last⟩

/-- The loop appends the headers of an accepted sequence and stands behind it. -/
theorem AcceptedBlock.parseLoop {block : List UInt8} {headers : List Header} {raw : Bool}
    (accepted : AcceptedBlock block headers raw) {field rest : List UInt8} {parsed len passes : Nat}
    (earlier : List Header) (here : field.drop parsed = block ++ rest)
    (slack : raw = true → rest ≠ []) (inside : parsed + block.length ≤ len)
    (fits : len < 2 ^ 31) (enough : len - parsed ≤ passes) :
    ∃ passes', len - (parsed + block.length) ≤ passes' ∧
      parseLoop field len passes parsed earlier =
        parseLoop field len passes' (parsed + block.length) (earlier ++ headers) := by
  induction accepted generalizing parsed passes earlier with
  | nil => exact ⟨passes, by simpa using enough, by simp⟩
  | cons bytes more header headers raw behind accepted following ih =>
      have positive := accepted.length_pos
      rw [List.length_append] at inside
      rw [List.append_assoc] at here
      obtain ⟨passes, rfl⟩ : ∃ fewer, passes = fewer + 1 := ⟨passes - 1, by omega⟩
      have slacks := following.slack slack
      have step := accepted.parseField here slacks.1 (by omega)
      have fewer : len - (parsed + bytes.length) ≤ passes := by omega
      obtain ⟨passes', enough', run⟩ := ih (earlier ++ [header]) (drop_add here) slacks.2
        (by omega) fewer
      refine ⟨passes', by rw [List.length_append]; omega, ?_⟩
      rw [Hpack.parseLoop, if_pos (by omega), step]
      dsimp only
      rw [run, List.length_append, Nat.add_assoc, List.append_assoc, List.singleton_append]

theorem parseLoop_done {field : List UInt8} {len passes parsed : Nat} {headers : List Header}
    (done : len ≤ parsed) : parseLoop field len passes parsed headers = .ok ⟨0, headers⟩ := by
  cases passes with
  | zero => rw [parseLoop, if_neg (by omega)]
  | succ passes => rw [parseLoop, if_neg (by omega)]

/-- An accepted block is parsed whole, given an octet behind a last raw string. -/
theorem AcceptedBlock.parse {block : List UInt8} {headers : List Header} {raw : Bool}
    (accepted : AcceptedBlock block headers raw) {rest : List UInt8}
    (slack : raw = true → rest ≠ []) (fits : block.length < 2 ^ 31) :
    Hpack.parse (block ++ rest) block.length = .ok ⟨0, headers⟩ := by
  obtain ⟨passes, -, run⟩ := accepted.parseLoop [] (List.drop_zero) slack (by omega) fits
    (Nat.le_of_eq (Nat.sub_zero block.length))
  rw [Hpack.parse, run, parseLoop_done (by omega), List.nil_append]

/-- A block that is accepted up to a refused representation is refused. -/
theorem AcceptedBlock.parse_refused {before memory : List UInt8} {headers : List Header}
    {raw : Bool} (accepted : AcceptedBlock before headers raw)
    (refused : FieldRefused before.length memory)
    (fits : (before ++ memory).length < 2 ^ 31) (after : List UInt8) :
    Hpack.parse (before ++ memory ++ after) (before ++ memory).length =
      .ok ⟨-1, headers⟩ := by
  have present := refused.length_pos
  rw [List.length_append] at fits
  have here : (before ++ memory ++ after).drop 0 = before ++ (memory ++ after) := by simp
  have behind : memory ++ after ≠ [] :=
    List.append_ne_nil_of_left_ne_nil (List.length_pos_iff.mp present) _
  obtain ⟨passes, enough, run⟩ := accepted.parseLoop [] here (fun _ => behind)
    (show 0 + before.length ≤ before.length + memory.length by omega) fits (Nat.le_refl _)
  obtain ⟨passes, rfl⟩ : ∃ fewer, passes = fewer + 1 := ⟨passes - 1, by omega⟩
  rw [← Nat.zero_add before.length] at refused
  have step := refused.parseField (drop_add here) (by omega)
  rw [Hpack.parse, List.length_append]
  rw [Nat.sub_zero] at run
  rw [run, Hpack.parseLoop, if_pos (by omega), step]
  rfl

/-- What the loop has gone through when it ends. -/
theorem parseLoop_ok {field : List UInt8} {len passes parsed : Nat} {earlier : List Header}
    {result : Parsed} (run : parseLoop field len passes parsed earlier = .ok result) :
    ∃ block rest headers raw, field.drop parsed = block ++ rest ∧
      AcceptedBlock block headers raw ∧ (raw = true → rest ≠ []) ∧
      result.headers = earlier ++ headers ∧
      ((result.code = 0 ∧ len ≤ parsed + block.length) ∨
        (result.code = -1 ∧ FieldRefused (parsed + block.length) rest)) := by
  induction passes generalizing parsed earlier with
  | zero =>
      rw [parseLoop] at run
      split at run
      · cases run
      · cases run
        exact ⟨[], field.drop parsed, [], false, rfl, .nil, by simp, by simp,
          Or.inl ⟨rfl, by simp; omega⟩⟩
  | succ passes ih =>
      rw [parseLoop] at run
      split at run
      · cases step : parseField field parsed with
        | fault =>
            rw [step] at run
            cases run
        | err =>
            rw [step] at run
            cases run
            exact ⟨[], field.drop parsed, [], false, rfl, .nil, by simp, by simp,
              Or.inr ⟨rfl, by simpa using parseField_err step⟩⟩
        | ok next =>
            obtain ⟨header, parsed'⟩ := next
            rw [step] at run
            obtain ⟨bytes, rest, raw, here, accepted, slack, rfl, -⟩ := parseField_ok step
            obtain ⟨block, rest', headers, behind, there, following, slack', equal, verdict⟩ :=
              ih run
            rw [drop_add here] at there
            subst there
            refine ⟨bytes ++ block, rest', header :: headers, _, by rw [here, List.append_assoc],
              .cons bytes block header headers raw behind accepted following, ?_,
              by simpa using equal, ?_⟩
            · intro isRaw
              by_cases last : headers = []
              · rw [if_pos last] at isRaw
                have empty := following.headers_eq_nil.mp last
                have := slack isRaw
                rwa [empty, List.nil_append] at this
              · rw [if_neg last] at isRaw
                exact slack' isRaw
            · rw [List.length_append, ← Nat.add_assoc]
              exact verdict
      · cases run
        exact ⟨[], field.drop parsed, [], false, rfl, .nil, by simp, by simp,
          Or.inl ⟨rfl, by simp; omega⟩⟩

/-- The loop ends if accepted representations take it to the end of the block or
to one that is refused. -/
theorem AcceptedBlock.parseLoop_defined {block : List UInt8} {headers : List Header} {raw : Bool}
    (accepted : AcceptedBlock block headers raw) {field rest : List UInt8} {parsed len passes : Nat}
    (earlier : List Header) (here : field.drop parsed = block ++ rest)
    (slack : raw = true → rest ≠ [])
    (ends : len ≤ parsed + block.length ∨ FieldRefused (parsed + block.length) rest)
    (fits : parsed + (block ++ rest).length < 2 ^ 31) (enough : len ≤ parsed + passes) :
    ∃ result, Hpack.parseLoop field len passes parsed earlier = .ok result := by
  induction accepted generalizing parsed passes earlier with
  | nil =>
      rcases Nat.lt_or_ge parsed len with before | done
      · obtain ⟨passes, rfl⟩ : ∃ fewer, passes = fewer + 1 := ⟨passes - 1, by omega⟩
        have refused := ends.resolve_left (by simp only [List.length_nil]; omega)
        have step := refused.parseField (here.trans (List.append_nil rest).symm) (by simpa using fits)
        rw [List.length_nil, Nat.add_zero] at step
        exact ⟨⟨-1, earlier⟩, by rw [Hpack.parseLoop, if_pos before, step]⟩
      · exact ⟨⟨0, earlier⟩, parseLoop_done done⟩
  | cons bytes more header headers raw behind accepted following ih =>
      rcases Nat.lt_or_ge parsed len with before | done
      · obtain ⟨passes, rfl⟩ : ∃ fewer, passes = fewer + 1 := ⟨passes - 1, by omega⟩
        have positive := accepted.length_pos
        rw [List.length_append, ← Nat.add_assoc] at ends
        simp only [List.append_assoc, List.length_append] at here fits
        have slacks := following.slack slack
        have step := accepted.parseField here slacks.1 (by omega)
        have fewer : len ≤ parsed + bytes.length + passes := by omega
        obtain ⟨result, run⟩ := ih (earlier ++ [header]) (drop_add here) slacks.2 ends
          (by simp only [List.length_append]; omega) fewer
        exact ⟨result, by rw [Hpack.parseLoop, if_pos before, step]; exact run⟩
      · exact ⟨⟨0, earlier⟩, parseLoop_done done⟩

/-- What `hpack::parse` reads lies in the memory of the block. -/
def ParsesInside (memory : List UInt8) (len : Nat) : Prop :=
  ∃ block rest headers raw, memory = block ++ rest ∧ AcceptedBlock block headers raw ∧
    (raw = true → rest ≠ []) ∧ (len ≤ block.length ∨ FieldRefused block.length rest)

theorem parse_defined_iff {memory : List UInt8} {len : Nat} (fits : memory.length < 2 ^ 31) :
    (∃ result, parse memory len = .ok result) ↔ ParsesInside memory len := by
  constructor
  · rintro ⟨result, run⟩
    rcases parseLoop_ok run with ⟨block, rest, headers, raw, here, accepted, slack, -, verdict⟩
    rw [Nat.zero_add] at verdict
    exact ⟨block, rest, headers, raw, here, accepted, slack,
      verdict.imp And.right And.right⟩
  · rintro ⟨block, rest, headers, raw, rfl, accepted, slack, ends⟩
    exact accepted.parseLoop_defined [] List.drop_zero slack (by simpa using ends)
      (by simpa using fits) (by simp)

/-- Huffman strings from this length on do not fit an `int` when decoded. -/
def huffmanLimit : Nat := 2 ^ 28

theorem IntegerCode.accepted {n value : Nat} {bytes : List UInt8}
    (code : IntegerCode n bytes value) : AcceptedInteger n bytes value := by
  obtain ⟨code, few, fits⟩ := code
  exact ⟨value, code, few, by omega, (Nat.mod_eq_of_lt fits).symm⟩

theorem StringLiteral.accepted {bytes text : List UInt8} {raw : Bool}
    (literal : StringLiteral huffmanLimit bytes text raw) :
    AcceptedString bytes (cString text) raw := by
  cases literal with
  | raw lengthCode text length flag => exact .raw lengthCode text length.accepted flag
  | huffman lengthCode enc text length flag codes short =>
      unfold huffmanLimit at short
      exact .huffman lengthCode enc text length.accepted flag (by omega) codes.lenient

/-- The index type of a literal with an indexed name. -/
def LiteralForm.indexedName : LiteralForm → IndexType
  | withIndexing => .withIndexingIndexedName
  | withoutIndexing => .withoutIndexingIndexedName
  | neverIndexed => .neverIndexedIndexedName

/-- The index type of a literal with a new name. -/
def LiteralForm.newName : LiteralForm → IndexType
  | withIndexing => .withIndexingNewName
  | withoutIndexing => .withoutIndexingNewName
  | neverIndexed => .neverIndexedNewName

/-- The header that stands for a field. -/
def Field.header : Field → Header
  | .indexed index _ => { indexType := .indexed, index, name := [], value := [] }
  | .indexedName form index _ value =>
      { indexType := form.indexedName, index, name := [], value }
  | .newName form name value => { indexType := form.newName, index := 0, name, value }

/-- The index the parser keeps: without indexing it is the four bits of the
prefix. -/
def LiteralForm.keptIndex : LiteralForm → Nat → Nat
  | withIndexing, index => index
  | withoutIndexing, index => min index 15
  | neverIndexed, index => index

/-- The header the parser appends for a field. -/
def Field.parsedHeader : Field → Header
  | .indexed index _ => { indexType := .indexed, index, name := [], value := [] }
  | .indexedName form index _ value =>
      { indexType := form.indexedName, index := form.keptIndex index, name := [],
        value := cString value }
  | .newName form name value =>
      { indexType := form.newName, index := 0, name := cString name, value := cString value }

theorem acceptedTag_of_code {form : LiteralForm} {tag : List UInt8} {index : Nat}
    (code : IntegerCode form.width tag index)
    (mark : firstOctet tag / 2 ^ form.width = form.mark) :
    AcceptedTag tag (if 0 < index then form.indexedName else form.newName)
      (form.keptIndex index) := by
  have shown := code.1.firstOctet_mod
  cases form with
  | withIndexing =>
      have tagged := AcceptedTag.withIndexing tag index code.accepted mark
      have same : 0 < firstOctet tag % 64 ↔ 0 < index := by
        rw [show firstOctet tag % 64 = min index 63 from shown]
        omega
      rwa [if_congr same rfl rfl] at tagged
  | withoutIndexing =>
      have tagged := AcceptedTag.withoutIndexing tag index code.accepted mark
      rw [show firstOctet tag % 16 = min index 15 from shown] at tagged
      have same : 0 < min index 15 ↔ 0 < index := by omega
      rwa [if_congr same rfl rfl] at tagged
  | neverIndexed =>
      have tagged := AcceptedTag.neverIndexed tag index code.accepted mark
      have same : 0 < firstOctet tag % 16 ↔ 0 < index := by
        rw [show firstOctet tag % 16 = min index 15 from shown]
        omega
      rwa [if_congr same rfl rfl] at tagged

/-- Every representation of the format is accepted. -/
theorem Representation.accepted {bytes : List UInt8} {field : Field} {raw : Bool}
    (represented : Representation huffmanLimit bytes field raw) :
    AcceptedField bytes field.parsedHeader raw := by
  cases represented with
  | indexed tag index positive code mark =>
      exact .indexed _ _ code.accepted (by omega)
  | indexedName form tag valueCode index positive value raw code mark valued =>
      have tagged := acceptedTag_of_code code mark
      rw [if_pos positive] at tagged
      have named : 0 < form.keptIndex index := by
        cases form <;> simp only [LiteralForm.keptIndex] <;> omega
      exact .indexedName tag valueCode _ _ _ raw tagged named valued.accepted
  | newName form tag nameCode valueCode name value nameRaw raw code mark named valued =>
      have tagged := acceptedTag_of_code code mark
      have zero : form.keptIndex 0 = 0 := by cases form <;> rfl
      rw [if_neg (by omega), zero] at tagged
      exact .newName tag nameCode valueCode _ _ _ nameRaw raw tagged named.accepted
        valued.accepted

theorem FieldBlock.accepted {block : List UInt8} {fields : List Field} {raw : Bool}
    (fieldBlock : FieldBlock huffmanLimit block fields raw) :
    AcceptedBlock block (fields.map Field.parsedHeader) raw := by
  induction fieldBlock with
  | nil => exact .nil
  | cons bytes rest field fields raw behind represented following ih =>
      have accepted := AcceptedBlock.cons bytes rest _ _ raw behind represented.accepted ih
      simpa using accepted

theorem SizeUpdate.length_pos {bytes : List UInt8} (update : SizeUpdate bytes) :
    0 < bytes.length := by
  obtain ⟨size, code, -⟩ := update
  exact List.length_pos_iff.mpr code.1.ne_nil

/-- A size update is no accepted representation. -/
theorem AcceptedField.not_sizeUpdate {bytes rest update behind : List UInt8} {header : Header}
    {raw : Bool} (accepted : AcceptedField bytes header raw) (isUpdate : SizeUpdate update) :
    bytes ++ rest ≠ update ++ behind := by
  intro equal
  have octets : firstOctet bytes = firstOctet update := by
    rw [← firstOctet_append accepted.length_pos rest, equal,
      firstOctet_append isUpdate.length_pos]
  obtain ⟨size, -, mark⟩ := isUpdate
  cases accepted with
  | indexed _ code pattern => omega
  | indexedName tag valueCode indexType index value raw tagged named valued =>
      have other := tagged.ne_sizeUpdate
      rw [firstOctet_append tagged.length_pos] at octets
      omega
  | newName tag nameCode valueCode indexType name value nameRaw raw tagged named valued =>
      have other := tagged.ne_sizeUpdate
      rw [firstOctet_append tagged.length_pos] at octets
      omega

section Bounded

variable {limit : Nat} {rest behind : List UInt8}

theorem AcceptedString.raw_tail {lengthCode text accepted out : List UInt8} {raw : Bool}
    (isAccepted : AcceptedString accepted out raw)
    (length : AcceptedInteger 7 lengthCode text.length) (flag : firstOctet lengthCode < 0x80)
    (equal : lengthCode ++ (text ++ rest) = accepted ++ behind) : rest = behind := by
  cases isAccepted with
  | raw lengthCode' text' length' flag' =>
      rw [List.append_assoc] at equal
      obtain ⟨-, lengths, tails⟩ := length.append_inj length' equal
      exact (List.append_inj tails lengths).2
  | huffman lengthCode' enc' text' length' flag' fits codes =>
      rw [List.append_assoc] at equal
      obtain ⟨rfl, -, -⟩ := length.append_inj length' equal
      omega

theorem AcceptedString.huffman_tail {lengthCode enc accepted out : List UInt8} {raw : Bool}
    (isAccepted : AcceptedString accepted out raw)
    (length : AcceptedInteger 7 lengthCode enc.length) (flag : 0x80 ≤ firstOctet lengthCode)
    (equal : lengthCode ++ (enc ++ rest) = accepted ++ behind) :
    enc.length < huffmanLimit ∧ rest = behind := by
  cases isAccepted with
  | raw lengthCode' text' length' flag' =>
      rw [List.append_assoc] at equal
      obtain ⟨rfl, -, -⟩ := length.append_inj length' equal
      omega
  | huffman lengthCode' enc' text' length' flag' fits codes =>
      rw [List.append_assoc] at equal
      obtain ⟨-, lengths, tails⟩ := length.append_inj length' equal
      exact ⟨by unfold huffmanLimit; omega, (List.append_inj tails lengths).2⟩

/-- A string literal that the parser accepts is short enough for it. -/
theorem StringLiteral.bounded {bytes text accepted out : List UInt8} {raw raw' : Bool}
    (literal : StringLiteral limit bytes text raw) (isAccepted : AcceptedString accepted out raw')
    (equal : bytes ++ rest = accepted ++ behind) :
    StringLiteral huffmanLimit bytes text raw ∧ rest = behind := by
  cases literal with
  | raw lengthCode text length flag =>
      rw [List.append_assoc] at equal
      exact ⟨.raw lengthCode text length flag,
        isAccepted.raw_tail length.accepted flag equal⟩
  | huffman lengthCode enc text length flag codes short =>
      rw [List.append_assoc] at equal
      obtain ⟨short, tail⟩ := isAccepted.huffman_tail length.accepted flag equal
      exact ⟨.huffman lengthCode enc text length flag codes short, tail⟩

/-- What an accepted field has behind a given literal tag. -/
theorem AcceptedField.behind_tag {bytes tag : List UInt8} {header : Header} {raw : Bool}
    {indexType : IndexType} {index : Nat} (accepted : AcceptedField bytes header raw)
    (tagged : AcceptedTag tag indexType index) (equal : tag ++ rest = bytes ++ behind) :
    (0 < index ∧ ∃ valueCode value, AcceptedString valueCode value raw ∧
        rest = valueCode ++ behind) ∨
      (index = 0 ∧ ∃ nameCode name nameRaw valueCode value,
        AcceptedString nameCode name nameRaw ∧ AcceptedString valueCode value raw ∧
        rest = nameCode ++ (valueCode ++ behind)) := by
  have octets := congrArg firstOctet equal
  rw [firstOctet_append tagged.length_pos, firstOctet_append accepted.length_pos] at octets
  have literal := tagged.firstOctet_lt
  cases accepted with
  | indexed _ index' code' pattern => omega
  | indexedName tag' valueCode' indexType' index' value' raw' tagged' named' valued' =>
      rw [List.append_assoc] at equal
      obtain ⟨-, -, rfl, strings⟩ := tagged.append_inj tagged' equal
      exact Or.inl ⟨named', valueCode', value', valued', strings⟩
  | newName tag' nameCode' valueCode' indexType' name' value' nameRaw' raw' tagged' named'
      valued' =>
      simp only [List.append_assoc] at equal
      obtain ⟨-, -, rfl, strings⟩ := tagged.append_inj tagged' equal
      exact Or.inr ⟨rfl, nameCode', name', nameRaw', valueCode', value', named', valued', strings⟩

/-- A representation that begins where the parser accepts one is short enough
for it. -/
theorem Representation.bounded {bytes accepted : List UInt8} {field : Field} {header : Header}
    {raw raw' : Bool} (represented : Representation limit bytes field raw)
    (isAccepted : AcceptedField accepted header raw')
    (equal : bytes ++ rest = accepted ++ behind) :
    Representation huffmanLimit bytes field raw := by
  cases represented with
  | indexed _ index positive code mark => exact .indexed _ index positive code mark
  | indexedName form tag valueCode index positive value raw code mark valued =>
      have tagged := acceptedTag_of_code code mark
      have named : 0 < form.keptIndex index := by
        cases form <;> simp only [LiteralForm.keptIndex] <;> omega
      rw [List.append_assoc] at equal
      rcases isAccepted.behind_tag tagged equal with ⟨-, _, _, valued', strings⟩ | ⟨zero, -⟩
      · exact .indexedName form tag valueCode index positive value raw code mark
          (valued.bounded valued' strings).1
      · omega
  | newName form tag nameCode valueCode name value nameRaw raw code mark named valued =>
      have tagged := acceptedTag_of_code code mark
      have zero : form.keptIndex 0 = 0 := by cases form <;> rfl
      rw [List.append_assoc] at equal
      rcases isAccepted.behind_tag tagged equal with
        ⟨positive, -⟩ | ⟨-, _, _, _, _, _, named', valued', strings⟩
      · omega
      · rw [List.append_assoc] at strings
        obtain ⟨named, strings⟩ := named.bounded named' strings
        exact .newName form tag nameCode valueCode name value nameRaw raw code mark named
          (valued.bounded valued' strings).1

end Bounded

/-- A well-formed block the parser goes through consists of fields only. -/
theorem AcceptedBlock.fieldBlock {block : List UInt8} {headers : List Header} {raw : Bool}
    (accepted : AcceptedBlock block headers raw) (wellFormed : WellFormed block) :
    ∃ fields, FieldBlock huffmanLimit block fields raw := by
  induction accepted with
  | nil => exact ⟨[], .nil⟩
  | cons bytes rest header headers raw behind accepted following ih =>
      generalize whole : bytes ++ rest = block at wellFormed
      cases wellFormed with
      | nil =>
          have := accepted.length_pos
          rw [(List.append_eq_nil_iff.mp whole).1] at this
          simp at this
      | field limit bytes' rest' field raw' represented wellFormed =>
          have bounded := represented.bounded accepted whole.symm
          obtain ⟨rfl, -, rfl, rfl⟩ := accepted.append_inj bounded.accepted whole
          obtain ⟨fields, fieldBlock⟩ := ih wellFormed
          have sameEnd : headers = [] ↔ fields = [] := by
            rw [following.headers_eq_nil, fieldBlock.accepted.headers_eq_nil.symm,
              List.map_eq_nil_iff]
          refine ⟨field :: fields, ?_⟩
          rw [if_congr sameEnd rfl rfl]
          exact .cons bytes rest field fields raw behind bounded fieldBlock
      | sizeUpdate bytes' rest' update wellFormed =>
          exact (accepted.not_sizeUpdate update whole).elim

/-- The parser's run over a block depends on no octet behind it, and it
succeeds on well-formed blocks and fails on all others. -/
def ParsesExactly (block : List UInt8) : Prop :=
  ∃ result : Parsed, (∀ after, parse (block ++ after) block.length = .ok result) ∧
    (result.code = 0 ↔ WellFormed block) ∧ (result.code = -1 ↔ ¬ WellFormed block)

/-- Blocks of complete header fields that do not end in a raw string. -/
def CompleteFields (block : List UInt8) : Prop :=
  ∃ fields, FieldBlock huffmanLimit block fields false

/-- Blocks with a refused representation after accepted ones. -/
def RefusedInside (block : List UInt8) : Prop :=
  ∃ before memory headers raw, block = before ++ memory ∧ AcceptedBlock before headers raw ∧
    FieldRefused before.length memory

/-- A raw value at the end of a block is copied with the octet behind it. -/
theorem not_parsesExactly_rawValue :
    ¬ ParsesExactly [0x40, 0x01, 0x61, 0x01, 0x62] := by
  rintro ⟨result, run, -⟩
  have fault : parse ([0x40, 0x01, 0x61, 0x01, 0x62] ++ []) 5 = .fault := by decide
  have exact := fault.symm.trans (run [])
  cases exact

/-- Where parsing is exact. -/
theorem parsesExactly_iff (block : List UInt8) (fits : block.length < 2 ^ 31) :
    ParsesExactly block ↔
      CompleteFields block ∨ (¬ WellFormed block ∧ RefusedInside block) := by
  constructor
  · rintro ⟨result, run, success, failure⟩
    have exact := run []
    rw [List.append_nil, parse] at exact
    obtain ⟨before, rest, headers, raw, here, accepted, slack, -, verdict⟩ := parseLoop_ok exact
    rw [List.drop_zero] at here
    subst here
    rcases verdict with ⟨code, whole⟩ | ⟨code, refused⟩
    · have empty : rest = [] := by
        rw [List.length_append] at whole
        exact List.length_eq_zero_iff.mp (by omega)
      subst empty
      rw [List.append_nil] at success
      have notRaw : raw = false := by
        cases raw with
        | false => rfl
        | true => exact (slack rfl rfl).elim
      subst notRaw
      left
      rw [List.append_nil]
      exact accepted.fieldBlock (success.mp code)
    · right
      rw [Nat.zero_add] at refused
      exact ⟨failure.mp code, before, rest, headers, raw, rfl, accepted, refused⟩
  · rintro (⟨fields, fieldBlock⟩ | ⟨notWellFormed, before, memory, headers, raw, rfl, accepted,
      refused⟩)
    · refine ⟨⟨0, fields.map Field.parsedHeader⟩, fun after => ?_, ?_, ?_⟩
      · exact fieldBlock.accepted.parse (by simp) fits
      · exact iff_of_true rfl fieldBlock.wellFormed
      · exact iff_of_false (by simp) (fun other => other fieldBlock.wellFormed)
    · refine ⟨⟨-1, headers⟩, accepted.parse_refused refused fits, ?_, ?_⟩
      · exact iff_of_false (by simp) notWellFormed
      · exact iff_of_true rfl notWellFormed

/-- The block of `:method: GET` alone. -/
theorem parsesExactly_method : ParsesExactly [0x82] :=
  (parsesExactly_iff [0x82] (by decide)).mpr <| Or.inl
    ⟨[.indexed 2 (by decide)],
      .cons [0x82] [] _ [] false false
        (.indexed [0x82] 2 (by decide) ⟨.short 0x82 (by decide), by decide, by decide⟩
          (by decide))
        .nil⟩

theorem integerCode_encode {n high value : Nat} (narrow : n ≤ 8) (fits : high < 2 ^ (8 - n))
    (small : value < 2 ^ 32) : IntegerCode n (encode n high value) value :=
  ⟨code_encode narrow fits, length_encode_le (by omega) (by omega), small⟩

/-- What the strings of a sender must satisfy to be decoded: fewer than `limit`
Huffman octets. -/
def Short (limit : Nat) (huffman : Bool) (text : List UInt8) : Prop :=
  huffman = true → (huffmanEncode text).length < limit

theorem stringLiteral_encodeString {limit : Nat} {huffman : Bool} {text : List UInt8}
    (short : Short limit huffman text) (fits : (encodeString huffman text).length < 2 ^ 32) :
    StringLiteral limit (encodeString huffman text) text (!huffman) := by
  unfold encodeString at fits ⊢
  cases huffman with
  | true =>
      rw [if_pos rfl, List.length_append] at fits
      rw [if_pos rfl]
      have mark : firstOctet (encode 7 1 (huffmanEncode text).length) / 2 ^ 7 = 1 :=
        firstOctet_encode (by omega) (by omega)
      exact .huffman _ _ text (integerCode_encode (by omega) (by omega) (by omega)) (by omega)
        (huffmanString_huffmanEncode text) (short rfl)
  | false =>
      rw [if_neg (by simp), List.length_append] at fits
      rw [if_neg (by simp)]
      have mark : firstOctet (encode 7 0 text.length) / 2 ^ 7 = 0 :=
        firstOctet_encode (by omega) (by omega)
      exact .raw _ text (integerCode_encode (by omega) (by omega) (by omega)) (by omega)

theorem LiteralForm.width_le (form : LiteralForm) : form.width ≤ 8 := by
  cases form <;> decide

theorem LiteralForm.mark_lt (form : LiteralForm) : form.mark < 2 ^ (8 - form.width) := by
  cases form <;> decide

/-- Whether the octets of a field end in a raw string. -/
def Transmitted.endsRaw (sent : Transmitted) : Bool :=
  match sent.field with
  | .indexed _ _ => false
  | .indexedName _ _ _ _ => !sent.huffmanValue
  | .newName _ _ _ => !sent.huffmanValue

/-- Whether the octets of a sequence of fields end in a raw string. -/
def endsRaw : List Transmitted → Bool
  | [] => false
  | sent :: rest => if rest.isEmpty then sent.endsRaw else endsRaw rest

/-- The index of a field fits 32 bits. -/
def Field.IndexFits : Field → Prop
  | .indexed index _ => index < 2 ^ 32
  | .indexedName _ index _ _ => index < 2 ^ 32
  | .newName _ _ _ => True

/-- The Huffman strings of a field have fewer than `limit` octets. -/
def Transmitted.Short (limit : Nat) (sent : Transmitted) : Prop :=
  match sent.field with
  | .indexed _ _ => True
  | .indexedName _ _ _ value => Hpack.Short limit sent.huffmanValue value
  | .newName _ name value =>
      Hpack.Short limit sent.huffmanName name ∧ Hpack.Short limit sent.huffmanValue value

theorem Transmitted.representation {limit : Nat} {sent : Transmitted}
    (index : sent.field.IndexFits) (short : sent.Short limit)
    (fits : sent.encode.length < 2 ^ 31) :
    Representation limit sent.encode sent.field sent.endsRaw := by
  obtain ⟨field, huffmanName, huffmanValue⟩ := sent
  cases field with
  | indexed index' positive =>
      exact .indexed _ index' positive
        (integerCode_encode (by omega) (by omega) index)
        (firstOctet_encode (by omega) (by omega))
  | indexedName form index' positive value =>
      simp only [Transmitted.encode, List.length_append] at fits
      exact .indexedName form _ _ index' positive value _
        (integerCode_encode form.width_le form.mark_lt index)
        (firstOctet_encode form.width_le form.mark_lt)
        (stringLiteral_encodeString short (by dsimp only; omega))
  | newName form name value =>
      simp only [Transmitted.encode, List.length_append] at fits
      exact .newName form _ _ _ name value _ _
        (integerCode_encode form.width_le form.mark_lt (by omega))
        (firstOctet_encode form.width_le form.mark_lt)
        (stringLiteral_encodeString short.1 (by dsimp only; omega))
        (stringLiteral_encodeString short.2 (by dsimp only; omega))

theorem short_of_accepted {huffman raw : Bool} {text accepted out rest behind : List UInt8}
    (isAccepted : AcceptedString accepted out raw)
    (equal : encodeString huffman text ++ rest = accepted ++ behind)
    (fits : (encodeString huffman text).length < 2 ^ 32) :
    Short huffmanLimit huffman text ∧ rest = behind := by
  unfold encodeString at equal fits
  cases huffman with
  | true =>
      rw [if_pos rfl, List.append_assoc] at equal
      rw [if_pos rfl, List.length_append] at fits
      have mark : firstOctet (encode 7 1 (huffmanEncode text).length) / 2 ^ 7 = 1 :=
        firstOctet_encode (by omega) (by omega)
      have code : IntegerCode 7 (encode 7 1 (huffmanEncode text).length) _ :=
        integerCode_encode (by omega) (by omega) (by omega)
      obtain ⟨short, tail⟩ := isAccepted.huffman_tail code.accepted (by omega) equal
      exact ⟨fun _ => short, tail⟩
  | false =>
      rw [if_neg (by simp), List.append_assoc] at equal
      rw [if_neg (by simp), List.length_append] at fits
      have mark : firstOctet (encode 7 0 text.length) / 2 ^ 7 = 0 :=
        firstOctet_encode (by omega) (by omega)
      have code : IntegerCode 7 (encode 7 0 text.length) _ :=
        integerCode_encode (by omega) (by omega) (by omega)
      refine ⟨fun impossible => ?_, isAccepted.raw_tail code.accepted (by omega) equal⟩
      cases impossible

theorem acceptedTag_encode (form : LiteralForm) {index : Nat} (small : index < 2 ^ 32) :
    AcceptedTag (encode form.width form.mark index)
      (if 0 < index then form.indexedName else form.newName) (form.keptIndex index) :=
  acceptedTag_of_code (integerCode_encode form.width_le form.mark_lt small)
    (firstOctet_encode form.width_le form.mark_lt)

theorem Transmitted.short_of_accepted {sent : Transmitted} {bytes rest behind : List UInt8}
    {header : Header} {raw : Bool} (index : sent.field.IndexFits)
    (accepted : AcceptedField bytes header raw)
    (equal : sent.encode ++ rest = bytes ++ behind) (fits : sent.encode.length < 2 ^ 31) :
    sent.Short huffmanLimit := by
  obtain ⟨field, huffmanName, huffmanValue⟩ := sent
  cases field with
  | indexed => trivial
  | indexedName form index' positive value =>
      simp only [Transmitted.encode, List.length_append] at fits
      rw [Transmitted.encode, List.append_assoc] at equal
      rcases accepted.behind_tag (acceptedTag_encode form index) equal with
        ⟨-, _, _, valued, strings⟩ | ⟨zero, -⟩
      · exact (Hpack.short_of_accepted valued strings (by dsimp only; omega)).1
      · cases form <;> simp only [LiteralForm.keptIndex] at zero <;> omega
  | newName form name value =>
      simp only [Transmitted.encode, List.length_append] at fits
      rw [Transmitted.encode, List.append_assoc, List.append_assoc] at equal
      rcases accepted.behind_tag (acceptedTag_encode form (by omega)) equal with
        ⟨positive, -⟩ | ⟨-, _, _, _, _, _, named, valued, strings⟩
      · cases form <;> simp [LiteralForm.keptIndex] at positive
      · obtain ⟨shortName, strings⟩ :=
          Hpack.short_of_accepted named strings (by dsimp only; omega)
        exact ⟨shortName, (Hpack.short_of_accepted valued strings (by dsimp only; omega)).1⟩

/-- The index the parser keeps is the index of the field. -/
def Field.IndexKept : Field → Prop
  | .indexed _ _ => True
  | .indexedName form index _ _ => form = .withoutIndexing → index ≤ 15
  | .newName _ _ _ => True

/-- The strings of a field have no NUL. -/
def Field.NulFree : Field → Prop
  | .indexed _ _ => True
  | .indexedName _ _ _ value => 0 ∉ value
  | .newName _ name value => 0 ∉ name ∧ 0 ∉ value

theorem Field.parsedHeader_eq {field : Field} (kept : field.IndexKept)
    (nulFree : field.NulFree) : field.parsedHeader = field.header := by
  cases field with
  | indexed => rfl
  | indexedName form index positive value =>
      have same : form.keptIndex index = index := by
        cases form with
        | withIndexing => rfl
        | withoutIndexing => exact Nat.min_eq_left (kept rfl)
        | neverIndexed => rfl
      rw [Field.parsedHeader, Field.header, same, cString_of_nulFree nulFree]
  | newName form name value =>
      rw [Field.parsedHeader, Field.header, cString_of_nulFree nulFree.1,
        cString_of_nulFree nulFree.2]

theorem AcceptedInteger.dst_lt {n dst : Nat} {bytes : List UInt8}
    (accepted : AcceptedInteger n bytes dst) : dst < 2 ^ 32 := by
  obtain ⟨value, -, -, -, rfl⟩ := accepted
  exact Nat.mod_lt _ (by omega)

theorem AcceptedTag.index_bound {tag : List UInt8} {indexType : IndexType} {index : Nat}
    (accepted : AcceptedTag tag indexType index) :
    index < 2 ^ 32 ∧ (indexType = .withoutIndexingIndexedName → index ≤ 15) := by
  cases accepted with
  | withIndexing _ code pattern =>
      refine ⟨code.dst_lt, fun isType => ?_⟩
      split at isType <;> cases isType
  | withoutIndexing dst code pattern =>
      have := Nat.mod_lt (firstOctet tag) (show 16 > 0 by omega)
      exact ⟨by omega, fun _ => by omega⟩
  | neverIndexed _ code pattern =>
      refine ⟨code.dst_lt, fun isType => ?_⟩
      split at isType <;> cases isType

/-- A header that is appended for a field has the index of the field only if
that index survives parsing. -/
theorem Field.index_of_accepted {field : Field} {bytes : List UInt8} {raw : Bool}
    (accepted : AcceptedField bytes field.header raw) : field.IndexFits ∧ field.IndexKept := by
  generalize isHeader : field.header = header at accepted
  have bound : header.index < 2 ^ 32 ∧
      (header.indexType = .withoutIndexingIndexedName → header.index ≤ 15) := by
    cases accepted with
    | indexed _ index code pattern => exact ⟨code.dst_lt, fun impossible => by cases impossible⟩
    | indexedName _ _ _ _ _ _ tagged _ _ => exact tagged.index_bound
    | newName _ _ _ _ _ _ _ _ tagged _ _ => exact tagged.index_bound
  subst isHeader
  cases field with
  | indexed => exact ⟨bound.1, trivial⟩
  | indexedName form index positive value =>
      exact ⟨bound.1, fun isForm => bound.2 (by rw [isForm]; rfl)⟩
  | newName => exact ⟨trivial, trivial⟩

/-- Which of a sender's fields are decoded to themselves. -/
def Transmitted.Recovered (sent : Transmitted) : Prop :=
  sent.field.IndexFits ∧ sent.field.IndexKept ∧ sent.Short huffmanLimit

/-- The headers of a sequence of fields. -/
def headersOf (fields : List Transmitted) : List Header :=
  fields.map fun sent => sent.field.header

theorem Transmitted.Recovered.accepted {sent : Transmitted} (recovered : sent.Recovered)
    (nulFree : sent.field.NulFree) (fits : sent.encode.length < 2 ^ 31) :
    AcceptedField sent.encode sent.field.header sent.endsRaw := by
  rw [← Field.parsedHeader_eq recovered.2.1 nulFree]
  exact (Transmitted.representation recovered.1 recovered.2.2 fits).accepted

theorem Transmitted.encode_length_pos (sent : Transmitted) : 0 < sent.encode.length := by
  obtain ⟨field, huffmanName, huffmanValue⟩ := sent
  cases field with
  | indexed index positive => exact length_encode_pos 7 1 index
  | indexedName form index positive value =>
      have := length_encode_pos form.width form.mark index
      rw [Transmitted.encode, List.length_append]
      omega
  | newName form name value =>
      have := length_encode_pos form.width form.mark 0
      rw [Transmitted.encode, List.length_append]
      omega

theorem encodeFields_cons (sent : Transmitted) (rest : List Transmitted) :
    encodeFields (sent :: rest) = sent.encode ++ encodeFields rest :=
  List.flatMap_cons

/-- The encoding of fields whose indexes fit and whose Huffman strings are short
is accepted. -/
theorem acceptedBlock_of_short {fields : List Transmitted}
    (indexFits : ∀ sent ∈ fields, sent.field.IndexFits)
    (short : ∀ sent ∈ fields, sent.Short huffmanLimit)
    (fits : (encodeFields fields).length < 2 ^ 31) :
    AcceptedBlock (encodeFields fields) (fields.map fun sent => sent.field.parsedHeader)
      (endsRaw fields) := by
  induction fields with
  | nil => exact .nil
  | cons sent rest ih =>
      rw [encodeFields_cons, List.length_append] at fits
      rw [encodeFields_cons]
      simp only [List.mem_cons, forall_eq_or_imp] at indexFits short
      have accepted := (Transmitted.representation indexFits.1 short.1 (by omega)).accepted
      have block := AcceptedBlock.cons _ _ _ _ _ _ accepted
        (ih indexFits.2 short.2 (by omega))
      have sameEnd :
          rest.map (fun sent => sent.field.parsedHeader) = [] ↔ rest.isEmpty = true := by
        rw [List.map_eq_nil_iff, List.isEmpty_iff]
      rwa [if_congr sameEnd rfl rfl] at block

theorem acceptedBlock_encodeFields {fields : List Transmitted}
    (recovered : ∀ sent ∈ fields, sent.Recovered)
    (nulFree : ∀ sent ∈ fields, sent.field.NulFree)
    (fits : (encodeFields fields).length < 2 ^ 31) :
    AcceptedBlock (encodeFields fields) (headersOf fields) (endsRaw fields) := by
  have sameHeaders : fields.map (fun sent => sent.field.parsedHeader) = headersOf fields := by
    apply List.map_congr_left
    intro sent member
    exact Field.parsedHeader_eq (recovered sent member).2.1 (nulFree sent member)
  rw [← sameHeaders]
  exact acceptedBlock_of_short (fun sent member => (recovered sent member).1)
    (fun sent member => (recovered sent member).2.2) fits

/-- If an accepted block covers a sender's octets, then its Huffman strings are
short. -/
theorem short_of_acceptedBlock {fields : List Transmitted} {block rest tail : List UInt8}
    {headers : List Header} {raw : Bool} (accepted : AcceptedBlock block headers raw)
    (indexFits : ∀ sent ∈ fields, sent.field.IndexFits)
    (equal : encodeFields fields ++ tail = block ++ rest)
    (covered : (encodeFields fields).length ≤ block.length)
    (fits : (encodeFields fields).length < 2 ^ 31) :
    ∀ sent ∈ fields, sent.Short huffmanLimit := by
  induction fields generalizing block headers raw with
  | nil => simp
  | cons sent fields ih =>
      rw [encodeFields_cons, List.length_append] at fits covered
      rw [encodeFields_cons, List.append_assoc] at equal
      simp only [List.mem_cons, forall_eq_or_imp] at indexFits
      cases accepted with
      | nil =>
          have present := sent.encode_length_pos
          simp only [List.length_nil] at covered
          omega
      | cons bytes more header headers raw behind accepted following =>
          rw [List.append_assoc] at equal
          have short := Transmitted.short_of_accepted indexFits.1 accepted equal (by omega)
          have sentAccepted := (Transmitted.representation indexFits.1 short (by omega)).accepted
          obtain ⟨rfl, -, -, tails⟩ := sentAccepted.append_inj accepted equal
          rw [List.length_append] at covered
          have others := ih following indexFits.2 tails (by omega) (by omega)
          simpa using ⟨short, others⟩

/-- What parsing the octets of a sender tells about its fields. -/
theorem headers_of_parse {fields : List Transmitted} {headers : List Header}
    (indexFits : ∀ sent ∈ fields, sent.field.IndexFits) (notRaw : endsRaw fields = false)
    (fits : (encodeFields fields).length < 2 ^ 31)
    (run : parse (encodeFields fields) (encodeFields fields).length = .ok ⟨0, headers⟩) :
    (∀ sent ∈ fields, sent.Short huffmanLimit) ∧
      headers = fields.map fun sent => sent.field.parsedHeader := by
  have parsed := run
  rw [parse] at parsed
  obtain ⟨block, rest, headers', raw, here, accepted, -, -, verdict⟩ := parseLoop_ok parsed
  have covered : (encodeFields fields).length ≤ block.length := by
    rcases verdict with ⟨-, covered⟩ | ⟨failed, -⟩
    · omega
    · cases failed
  have covers : encodeFields fields ++ [] = block ++ rest := by simpa using here
  have short := short_of_acceptedBlock accepted indexFits covers covered fits
  have noSlack : endsRaw fields = true → ([] : List UInt8) ≠ [] := by simp [notRaw]
  have again := (acceptedBlock_of_short indexFits short fits).parse noSlack fits
  rw [List.append_nil, run] at again
  cases again
  exact ⟨short, rfl⟩

/-- If the headers appended for a sender's octets are those of its fields, then
each field is recovered, and parsing ends where the sender's octets do. -/
theorem recovered_of_accepted {fields : List Transmitted} {block rest tail : List UInt8}
    {raw : Bool} (accepted : AcceptedBlock block (headersOf fields) raw)
    (nulFree : ∀ sent ∈ fields, sent.field.NulFree)
    (equal : encodeFields fields ++ tail = block ++ rest)
    (fits : (encodeFields fields).length < 2 ^ 31) :
    (∀ sent ∈ fields, sent.Recovered) ∧ raw = endsRaw fields ∧ tail = rest := by
  induction fields generalizing block raw with
  | nil =>
      have empty := accepted.headers_eq_nil.mp rfl
      subst empty
      exact ⟨by simp, accepted.not_raw rfl, equal⟩
  | cons sent fields ih =>
      generalize isHeaders : headersOf (sent :: fields) = headers at accepted
      cases accepted with
      | nil => cases isHeaders
      | cons bytes more header headers raw behind accepted following =>
          obtain ⟨rfl, rfl⟩ := List.cons.inj isHeaders
          rw [encodeFields_cons, List.length_append] at fits
          rw [encodeFields_cons, List.append_assoc, List.append_assoc] at equal
          simp only [List.mem_cons, forall_eq_or_imp] at nulFree
          obtain ⟨indexFits, kept⟩ := Field.index_of_accepted accepted
          have short := Transmitted.short_of_accepted indexFits accepted equal (by omega)
          have recovered : sent.Recovered := ⟨indexFits, kept, short⟩
          have sentAccepted := recovered.accepted nulFree.1 (by omega)
          obtain ⟨rfl, -, rfl, tails⟩ := sentAccepted.append_inj accepted equal
          obtain ⟨others, rfl, rfl⟩ := ih following nulFree.2 tails (by omega)
          refine ⟨by simpa using ⟨recovered, others⟩, ?_, rfl⟩
          have sameEnd : headersOf fields = [] ↔ fields.isEmpty = true := by
            rw [headersOf, List.map_eq_nil_iff, List.isEmpty_iff]
          exact if_congr sameEnd rfl rfl

/-- When a sender's fields are recovered from their encoding. -/
theorem parse_encodeFields_iff (fields : List Transmitted) (tail : List UInt8)
    (nulFree : ∀ sent ∈ fields, sent.field.NulFree)
    (fits : (encodeFields fields).length < 2 ^ 31) :
    parse (encodeFields fields ++ tail) (encodeFields fields).length =
        .ok ⟨0, headersOf fields⟩ ↔
      (∀ sent ∈ fields, sent.Recovered) ∧ (endsRaw fields = true → tail ≠ []) := by
  constructor
  · intro run
    rw [parse] at run
    obtain ⟨block, rest, headers, raw, here, accepted, slack, equal, -⟩ := parseLoop_ok run
    rw [List.nil_append] at equal
    rw [List.drop_zero] at here
    dsimp only at equal
    subst equal
    obtain ⟨recovered, rfl, rfl⟩ := recovered_of_accepted accepted nulFree here fits
    exact ⟨recovered, slack⟩
  · rintro ⟨recovered, slack⟩
    exact (acceptedBlock_encodeFields recovered nulFree fits).parse slack fits

/-- Two requests fields and a new field with a raw value. -/
theorem parse_encodeFields_sample :
    parse
        (encodeFields [⟨.indexed 2 (by decide), false, false⟩,
          ⟨.indexedName .neverIndexed 23 (by decide) [0x78], false, true⟩,
          ⟨.newName .withIndexing [0x61] [0x62], true, false⟩] ++ [0])
        (encodeFields [⟨.indexed 2 (by decide), false, false⟩,
          ⟨.indexedName .neverIndexed 23 (by decide) [0x78], false, true⟩,
          ⟨.newName .withIndexing [0x61] [0x62], true, false⟩]).length =
      .ok ⟨0, [{ indexType := .indexed, index := 2, name := [], value := [] },
        { indexType := .neverIndexedIndexedName, index := 23, name := [], value := [0x78] },
        { indexType := .withIndexingNewName, index := 0, name := [0x61], value := [0x62] }]⟩ :=
  (parse_encodeFields_iff
    [⟨.indexed 2 (by decide), false, false⟩,
      ⟨.indexedName .neverIndexed 23 (by decide) [0x78], false, true⟩,
      ⟨.newName .withIndexing [0x61] [0x62], true, false⟩] [0]
    (by simp [Field.NulFree])
    (by decide)).mpr
    ⟨by
      simp [Transmitted.Recovered, Field.IndexFits, Field.IndexKept, Transmitted.Short, Short]
      decide, by simp⟩

/-- A `content-length` field sent without indexing comes back under another
name. -/
theorem parse_encodeFields_contentLength :
    ¬ (parse
          (encodeFields [⟨.indexedName .withoutIndexing 28 (by decide) [0x35], false, false⟩] ++ [0])
          (encodeFields [⟨.indexedName .withoutIndexing 28 (by decide) [0x35], false, false⟩]).length =
        .ok ⟨0, headersOf [⟨.indexedName .withoutIndexing 28 (by decide) [0x35], false, false⟩]⟩) := by
  decide

end Hpack

end HeapHttpd
