import HeapHttpd.Hpack.BuildLine

/-!
# Header texts and back

What the loop of `hpack::build` makes of a text of lines, and which texts come
back when the result is parsed and resolved in the static table.
-/

namespace HeapHttpd

namespace Hpack

open General PrefixInteger Huffman

/-- A line of a header text, ended by LF or CRLF. -/
structure TextLine where
  content : List UInt8
  crlf : Bool
  clean : ∀ ch ∈ content, ch ≠ 0 ∧ ch ≠ 0x0a ∧ ch ≠ 0x0d

/-- A line up to its LF. -/
def TextLine.body (line : TextLine) : List UInt8 :=
  line.content ++ if line.crlf then [0x0d] else []

/-- The octets of a line. -/
def TextLine.text (line : TextLine) : List UInt8 :=
  line.body ++ [0x0a]

/-- The octets of a header text. -/
def textOf (lines : List TextLine) : List UInt8 :=
  lines.flatMap TextLine.text

/-- A line that consists of an LF only. -/
def TextLine.isBare (line : TextLine) : Bool :=
  line.body.isEmpty

/-- The lines that are not blank, without the blanks around them. -/
def headerLines (lines : List TextLine) : List (List UInt8) :=
  (lines.map fun line => trimmed line.content).filter fun text => !text.isEmpty

/-- Building the given lines one after the other. -/
def buildLines (table : List Row) : List (List UInt8) → List UInt8 → Outcome (List UInt8)
  | [], fields => .ok fields
  | line :: lines, fields =>
      match buildLine table line with
      | .ok field =>
          if 2 ^ 32 ≤ fields.length + field.length then .fault
          else buildLines table lines (fields ++ field)
      | .err => .ok fields
      | .fault => .fault

theorem TextLine.clean_body (line : TextLine) : ∀ ch ∈ line.body, ch ≠ 0 ∧ ch ≠ 0x0a := by
  intro ch member
  rcases List.mem_append.mp member with inContent | inEnd
  · have clean := line.clean ch inContent
    exact ⟨clean.1, clean.2.1⟩
  · split at inEnd
    · rw [List.mem_singleton] at inEnd
      subst inEnd
      decide
    · cases inEnd

theorem TextLine.trimmed_body (line : TextLine) : trimmed line.body = trimmed line.content := by
  unfold body
  split
  · exact trimmed_append_cr line.content
  · rw [List.append_nil]

theorem getD_append_cons (before rest : List UInt8) (ch : UInt8) :
    (before ++ ch :: rest).getD before.length 0 = ch := by
  simp

/-- The loop passes over the octets of a line. -/
theorem buildLoop_body {table : List Row} {body rest fields : List UInt8}
    (clean : ∀ ch ∈ body, ch ≠ 0 ∧ ch ≠ 0x0a) (before : List UInt8)
    (passes lineHeader : Nat) :
    buildLoop table (body.length + passes) before.length lineHeader
        (before ++ (body ++ rest)) fields =
      buildLoop table passes (before.length + body.length) lineHeader
        (before ++ (body ++ rest)) fields := by
  induction body generalizing before with
  | nil => simp
  | cons ch body ih =>
      simp only [List.mem_cons, forall_eq_or_imp] at clean
      have here : (before ++ (ch :: body ++ rest)).getD before.length 0 = ch := by
        rw [List.cons_append, getD_append_cons]
      have next := ih clean.2 (before ++ [ch])
      rw [List.append_assoc, List.singleton_append, List.length_append,
        List.length_singleton] at next
      rw [List.length_cons, Nat.succ_add, buildLoop, here,
        if_neg (by simp [clean.1.1, clean.1.2]), List.cons_append, next]
      congr 1
      omega

/-- A line that begins with its own end stops the loop. -/
theorem buildLoop_stuck {table : List Row} {lineHeader : Nat} {lines fields : List UInt8}
    (ended : lines.getD lineHeader 0 = 0) (passes x : Nat) :
    buildLoop table passes x lineHeader lines fields = .ok fields := by
  induction passes generalizing x lines with
  | zero => rfl
  | succ passes ih =>
      have ended' : (lines.set x 0).getD lineHeader 0 = 0 := by
        rw [List.getD_eq_getElem?_getD] at ended ⊢
        rw [List.getElem?_set]
        split
        · split <;> rfl
        · exact ended
      rw [buildLoop]
      split
      · dsimp only
        rw [if_neg (by simpa using ended')]
        exact ih ended' (x + 1)
      · exact ih ended (x + 1)

/-- The loop at the end of a line that is not bare. -/
theorem buildLoop_line {table : List Row} {line : TextLine} {before rest fields : List UInt8}
    (notBare : line.isBare = false) (passes : Nat) :
    buildLoop table (line.body.length + (passes + 1)) before.length before.length
        (before ++ (line.text ++ rest)) fields =
      if trimmed line.content = [] then
        buildLoop table passes (before ++ (line.body ++ [0])).length
          (before ++ (line.body ++ [0])).length (before ++ (line.body ++ [0]) ++ rest) fields
      else
        match buildLine table (trimmed line.content) with
        | .ok field =>
            if 2 ^ 32 ≤ fields.length + field.length then .fault
            else
              buildLoop table passes (before ++ (line.body ++ [0])).length
                (before ++ (line.body ++ [0])).length (before ++ (line.body ++ [0]) ++ rest)
                (fields ++ field)
        | .err => .ok fields
        | .fault => .fault := by
  have bodyFree : 0 ∉ line.body := fun member => (line.clean_body 0 member).1 rfl
  have behind : (before ++ (line.body ++ [0])).length = before.length + line.body.length + 1 := by
    simp [Nat.add_assoc]
  have shape : before ++ (line.text ++ rest) = before ++ (line.body ++ 0x0a :: rest) := by
    simp [TextLine.text]
  have atEnd : (before ++ (line.body ++ 0x0a :: rest)).getD
      (before.length + line.body.length) 0 = 0x0a := by
    rw [← List.append_assoc, ← List.length_append, getD_append_cons]
  have ended : (before ++ (line.body ++ 0x0a :: rest)).set (before.length + line.body.length) 0 =
      before ++ (line.body ++ 0 :: rest) := by
    rw [List.set_append_right _ _ (by omega), Nat.add_sub_cancel_left,
      List.set_append_right _ _ (by omega), Nat.sub_self, List.set_cons_zero]
  have start : (before ++ (line.body ++ 0 :: rest)).getD before.length 0 ≠ 0 := by
    unfold TextLine.isBare at notBare
    generalize body : line.body = octets at notBare bodyFree
    cases octets with
    | nil => cases notBare
    | cons ch octets =>
        rw [List.cons_append, getD_append_cons]
        exact fun isNul => bodyFree (by simp [isNul])
  have current : cString ((before ++ (line.body ++ 0 :: rest)).drop before.length) =
      line.body := by
    rw [List.drop_left, cString_append_nul bodyFree]
  have trimmed' : strtrim line.body = trimmed line.content := by
    rw [strtrim_eq_trimmed bodyFree, line.trimmed_body]
  have more : before ++ (line.body ++ [0]) ++ rest = before ++ (line.body ++ 0 :: rest) := by
    simp
  rw [shape, buildLoop_body line.clean_body, buildLoop, atEnd, if_pos (Or.inl rfl)]
  cases outcome : buildLine table (trimmed line.content) <;>
    simp only [ended, if_pos start, current, trimmed', behind, more, outcome]

/-- The loop builds the lines that are not blank, up to the first bare line. -/
theorem buildLoop_text {table : List Row} (lines : List TextLine) (before fields : List UInt8) :
    buildLoop table ((textOf lines).length + 1) before.length before.length
        (before ++ (textOf lines ++ [0])) fields =
      buildLines table (headerLines (lines.takeWhile fun line => !line.isBare)) fields := by
  induction lines generalizing before fields with
  | nil =>
      rw [buildLoop_stuck]
      · rfl
      · simp [textOf]
  | cons line lines ih =>
      have text : textOf (line :: lines) = line.text ++ textOf lines := List.flatMap_cons
      cases bare : line.isBare with
      | true =>
          have empty : line.text = [0x0a] := by
            rw [TextLine.text, List.isEmpty_iff.mp bare, List.nil_append]
          have shape : textOf (line :: lines) ++ [0] = 0x0a :: (textOf lines ++ [0]) := by
            rw [text, empty, List.append_assoc, List.singleton_append]
          rw [List.takeWhile_cons, if_neg (by simp [bare]), shape, buildLoop, getD_append_cons,
            if_pos (Or.inl rfl)]
          dsimp only
          have ended : ((before ++ 0x0a :: (textOf lines ++ [0])).set before.length 0).getD
              before.length 0 = 0 := by
            rw [List.set_append_right _ _ (by omega), Nat.sub_self, List.set_cons_zero,
              getD_append_cons]
          rw [if_neg (not_not.mpr ended), buildLoop_stuck ended]
          rfl
      | false =>
          have count : (textOf (line :: lines)).length + 1 =
              line.body.length + ((textOf lines).length + 1 + 1) := by
            rw [text, TextLine.text]
            simp only [List.length_append, List.length_singleton]
            omega
          have headers : headerLines ((line :: lines).takeWhile fun line => !line.isBare) =
              if trimmed line.content = [] then
                headerLines (lines.takeWhile fun line => !line.isBare)
              else
                trimmed line.content ::
                  headerLines (lines.takeWhile fun line => !line.isBare) := by
            rw [List.takeWhile_cons, if_pos (by simp [bare]), headerLines, List.map_cons,
              List.filter_cons]
            simp [headerLines]
          rw [count, text, List.append_assoc, buildLoop_line bare, headers]
          split
          · exact ih _ _
          · rw [buildLines]
            split
            · split
              · rfl
              · exact ih _ _
            · rfl
            · rfl

/-- What `hpack::build` returns for a header text. -/
theorem build_text (lines : List TextLine) (table : List Row) :
    build (textOf lines) table =
      if 2 ^ 31 ≤ (textOf lines).length + 1 then .fault
      else
        (buildLines table (headerLines (lines.takeWhile fun line => !line.isBare)) []) >>=
          fun field =>
            .ok
              { field
                len := if field.length < 2 ^ 31 then field.length else field.length - 2 ^ 32 } := by
  have run : buildLoop table _ _ _ _ _ = _ := buildLoop_text lines [] []
  rw [List.nil_append, List.length_nil] at run
  rw [build, run]

/-- A sent field that comes back as what its line stands for if the line fits. -/
structure SentLine (line : List UInt8) (sent : Transmitted) : Prop where
  indexFits : sent.field.IndexFits
  notRaw : sent.endsRaw = false
  back : LineFits line ↔ sent.Short huffmanLimit ∧
    resolveStatic sent.field.parsedHeader = some (expectedField line)
  size : LineFits line → sent.encode.length = fieldSize (expectedField line)

/-- The octets the fields of the lines take. -/
def textSize (lines : List (List UInt8)) : Nat :=
  (lines.map fun line => fieldSize (expectedField line)).sum

/-- The lines are built into sent fields. -/
theorem buildLines_ok {lines : List (List UInt8)} {fields bytes : List UInt8}
    (nulFree : ∀ line ∈ lines, 0 ∉ line) (within : fields.length < 2 ^ 32)
    (built : buildLines headerStaticTable lines fields = .ok bytes) :
    ∃ sents, bytes = fields ++ encodeFields sents ∧ bytes.length < 2 ^ 32 ∧
      List.Forall₂ SentLine lines sents := by
  induction lines generalizing fields with
  | nil =>
      cases built
      exact ⟨[], by simp [encodeFields], within, .nil⟩
  | cons line lines ih =>
      simp only [List.mem_cons, forall_eq_or_imp] at nulFree
      rw [buildLines] at built
      rcases buildLine_spec nulFree.1 with ⟨fault, -⟩ | ⟨field, sent, ok, isSent, back, size⟩
      · rw [fault] at built
        cases built
      · rw [ok] at built
        dsimp only at built
        split at built
        · cases built
        · obtain ⟨sents, rfl, total, related⟩ :=
            ih nulFree.2 (by rw [List.length_append]; omega) built
          refine ⟨sent :: sents, ?_, total,
            .cons ⟨isSent.indexFits, isSent.notRaw, back, ?_⟩ related⟩
          · rw [encodeFields_cons, isSent.bytes, List.append_assoc]
          · rw [← isSent.bytes]
            exact size

/-- Lines that fit are built. -/
theorem buildLines_fits {lines : List (List UInt8)} {fields : List UInt8}
    (nulFree : ∀ line ∈ lines, 0 ∉ line) (fits : ∀ line ∈ lines, LineFits line)
    (small : fields.length + textSize lines < 2 ^ 32) :
    ∃ bytes, buildLines headerStaticTable lines fields = .ok bytes := by
  induction lines generalizing fields with
  | nil => exact ⟨fields, rfl⟩
  | cons line lines ih =>
      simp only [List.mem_cons, forall_eq_or_imp] at nulFree fits
      have sum : textSize (line :: lines) =
          fieldSize (expectedField line) + textSize lines := by
        rw [textSize, List.map_cons, List.sum_cons, textSize]
      rw [sum] at small
      rcases buildLine_spec nulFree.1 with ⟨-, unfit⟩ | ⟨field, sent, ok, -, -, size⟩
      · exact absurd fits.1 unfit
      · have length := size fits.1
        rw [buildLines, ok]
        dsimp only
        rw [if_neg (by omega)]
        exact ih nulFree.2 fits.2 (by rw [List.length_append]; omega)

theorem SentLine.length {lines : List (List UInt8)} {sents : List Transmitted}
    (related : List.Forall₂ SentLine lines sents) (fits : ∀ line ∈ lines, LineFits line) :
    (encodeFields sents).length = textSize lines := by
  induction related with
  | nil => rfl
  | cons sentLine _ ih =>
      simp only [List.mem_cons, forall_eq_or_imp] at fits
      rw [encodeFields_cons, List.length_append, sentLine.size fits.1, ih fits.2, textSize,
        textSize, List.map_cons, List.sum_cons]

theorem SentLine.indexFits_all {lines : List (List UInt8)} {sents : List Transmitted}
    (related : List.Forall₂ SentLine lines sents) : ∀ sent ∈ sents, sent.field.IndexFits := by
  induction related with
  | nil => simp
  | cons sentLine _ ih => simpa using ⟨sentLine.indexFits, ih⟩

theorem SentLine.endsRaw {lines : List (List UInt8)} {sents : List Transmitted}
    (related : List.Forall₂ SentLine lines sents) : Hpack.endsRaw sents = false := by
  induction related with
  | nil => rfl
  | cons sentLine _ ih =>
      rw [Hpack.endsRaw]
      split
      · exact sentLine.notRaw
      · exact ih

/-- The sent fields are short and resolve to what the lines stand for exactly if
the lines fit. -/
theorem SentLine.back_all {lines : List (List UInt8)} {sents : List Transmitted}
    (related : List.Forall₂ SentLine lines sents) :
    (∀ line ∈ lines, LineFits line) ↔
      (∀ sent ∈ sents, sent.Short huffmanLimit) ∧
        sents.map (fun sent => resolveStatic sent.field.parsedHeader) =
          lines.map fun line => some (expectedField line) := by
  induction related with
  | nil => simp
  | cons sentLine _ ih =>
      simp only [List.mem_cons, forall_eq_or_imp, List.map_cons, List.cons.injEq]
      rw [ih, sentLine.back]
      tauto

/-- Building a text, parsing the octets whatever stands behind them and resolving
the headers gives the field of every line that is not blank. -/
def RoundTrips (lines : List TextLine) : Prop :=
  ∃ built headers, build (textOf lines) headerStaticTable = .ok built ∧
    (∀ after, parse (built.field ++ after) built.len.toNat = .ok ⟨0, headers⟩) ∧
    headers.map resolveStatic = (headerLines lines).map fun line => some (expectedField line)

theorem nulFree_headerLines {lines : List TextLine} :
    ∀ line ∈ headerLines lines, 0 ∉ line := by
  intro line member isNul
  obtain ⟨textLine, -, rfl⟩ := List.mem_map.mp (List.mem_filter.mp member).1
  exact (textLine.clean 0 (mem_of_mem_trimmed isNul)).1 rfl

theorem headerLines_append (first second : List TextLine) :
    headerLines (first ++ second) = headerLines first ++ headerLines second := by
  simp [headerLines]

theorem headerLines_split (lines : List TextLine) :
    headerLines lines =
      headerLines (lines.takeWhile fun line => !line.isBare) ++
        headerLines (lines.dropWhile fun line => !line.isBare) := by
  rw [← headerLines_append, List.takeWhile_append_dropWhile]

/-- A text that fits comes back. -/
theorem roundTrips_of_fits {lines : List TextLine} (short : (textOf lines).length + 1 < 2 ^ 31)
    (noneBehind : headerLines (lines.dropWhile fun line => !line.isBare) = [])
    (fits : ∀ line ∈ headerLines lines, LineFits line)
    (small : textSize (headerLines lines) < 2 ^ 31) : RoundTrips lines := by
  have reached := headerLines_split lines
  rw [noneBehind, List.append_nil] at reached
  have room : ([] : List UInt8).length + textSize (headerLines lines) < 2 ^ 32 := by
    rw [List.length_nil]
    omega
  obtain ⟨bytes, built⟩ := buildLines_fits nulFree_headerLines fits room
  obtain ⟨sents, rfl, -, related⟩ := buildLines_ok nulFree_headerLines (by decide) built
  rw [List.nil_append] at built
  have size := SentLine.length related fits
  have sizeFits : (encodeFields sents).length < 2 ^ 31 := by omega
  obtain ⟨shortSents, resolved⟩ := (SentLine.back_all related).mp fits
  have accepted := acceptedBlock_of_short (SentLine.indexFits_all related) shortSents sizeFits
  refine ⟨⟨encodeFields sents, (encodeFields sents).length⟩,
    sents.map fun sent => sent.field.parsedHeader, ?_, fun after => ?_, ?_⟩
  · rw [build_text, if_neg (by omega), ← reached, built, Outcome.ok_bind, if_pos sizeFits]
  · rw [Int.toNat_natCast]
    exact accepted.parse (by rw [SentLine.endsRaw related]; simp) sizeFits
  · rw [List.map_map]
    exact resolved

/-- Which header texts come back. -/
theorem roundTrips_iff (lines : List TextLine) :
    RoundTrips lines ↔
      (textOf lines).length + 1 < 2 ^ 31 ∧
        headerLines (lines.dropWhile fun line => !line.isBare) = [] ∧
        (∀ line ∈ headerLines lines, LineFits line) ∧
        textSize (headerLines lines) < 2 ^ 31 := by
  constructor
  · rintro ⟨built, headers, isBuilt, back, resolved⟩
    rw [build_text] at isBuilt
    split at isBuilt
    · cases isBuilt
    · rename_i short
      obtain ⟨bytes, builtLines, isBuilt⟩ := Outcome.bind_eq_ok.mp isBuilt
      cases isBuilt
      obtain ⟨sents, rfl, within, related⟩ :=
        buildLines_ok nulFree_headerLines (by decide) builtLines
      rw [List.nil_append] at back within
      have reached := headerLines_split lines
      have counted := congrArg List.length resolved
      rw [List.length_map, List.length_map, reached, List.length_append] at counted
      have sentCount := related.length_eq
      have parsed := back []
      rw [List.append_nil] at parsed
      by_cases sizeFits : (encodeFields sents).length < 2 ^ 31
      · rw [if_pos sizeFits, Int.toNat_natCast] at parsed
        obtain ⟨shortSents, rfl⟩ := headers_of_parse (SentLine.indexFits_all related)
          (SentLine.endsRaw related) sizeFits parsed
        rw [List.length_map] at counted
        have noneBehind : headerLines (lines.dropWhile fun line => !line.isBare) = [] :=
          List.eq_nil_of_length_eq_zero (by omega)
        rw [noneBehind, List.append_nil] at reached
        rw [← reached] at related
        rw [List.map_map] at resolved
        have fits := (SentLine.back_all related).mpr ⟨shortSents, resolved⟩
        rw [SentLine.length related fits] at sizeFits
        exact ⟨by omega, noneBehind, fits, sizeFits⟩
      · -- a negative length lets the parser read nothing
        rw [if_neg sizeFits] at parsed
        dsimp only at parsed
        rw [Int.toNat_of_nonpos (by omega), parse, parseLoop_done (by omega)] at parsed
        cases parsed
        rw [List.length_nil] at counted
        have noSents : sents = [] := List.eq_nil_of_length_eq_zero (by omega)
        rw [noSents] at sizeFits
        exact absurd (by decide) sizeFits
  · rintro ⟨short, noneBehind, fits, small⟩
    exact roundTrips_of_fits short noneBehind fits small

/-- A header behind a bare line is lost. -/
theorem not_roundTrips_bareLine :
    ¬ RoundTrips
      [⟨octets "HTTP/1.1 200 OK", true, by decide +kernel⟩, ⟨[], false, by decide +kernel⟩,
        ⟨octets "allow: GET", true, by decide +kernel⟩] := by
  rintro ⟨built, headers, isBuilt, back, resolved⟩
  have onlyStatus :
      build
          (textOf
            [⟨octets "HTTP/1.1 200 OK", true, by decide +kernel⟩, ⟨[], false, by decide +kernel⟩,
              ⟨octets "allow: GET", true, by decide +kernel⟩])
          headerStaticTable =
        .ok ⟨[0x88], 1⟩ := by
    decide
  rw [onlyStatus] at isBuilt
  cases isBuilt
  have parsed : parse ([0x88] ++ []) 1 = .ok ⟨0, [⟨.indexed, 8, [], []⟩]⟩ := by
    decide
  have same := parsed.symm.trans (back [])
  cases same
  have counted := congrArg List.length resolved
  revert counted
  decide

end Hpack

end HeapHttpd
