import HeapHttpd.Cgi.Application

/-!
# Relaying what an application puts out

A response is what the application put out as long as the first data that are received
hold the whole header, and with SCGI the whole output.
-/

namespace HeapHttpd

namespace Cgi

open General

/-- What an application puts out: header lines, a blank line and a body. -/
structure Output where
  lines : List (List UInt8)
  body : List UInt8
  someLine : lines ≠ []
  isLine : ∀ line ∈ lines, line ≠ [] ∧ 0 ∉ line ∧ 0x0d ∉ line ∧ 0x0a ∉ line

/-- Lines with their ends. -/
def endedLines (lines : List (List UInt8)) : List UInt8 :=
  lines.flatMap fun line => line ++ octets "\r\n"

namespace Output

variable (output : Output)

def header : List UInt8 :=
  endedLines output.lines ++ octets "\r\n"

def text : List UInt8 :=
  output.header ++ output.body

/-- The header fields: the lines behind a `Status`. -/
def fields : List UInt8 :=
  match output.lines with
  | [] => []
  | line :: lines =>
      if strncasecmp line (octets "Status: ") 8 then endedLines lines
      else endedLines (line :: lines)

end Output

/-- A part of an output on its way in a FastCGI record, or a record of something else. -/
structure Piece where
  isStdout : Bool
  content : List UInt8

/-- What pieces hold of the output. -/
def stdoutOf (pieces : List Piece) : List UInt8 :=
  pieces.flatMap fun piece => if piece.isStdout then piece.content else []

/-- The records of pieces, with the one that ends the request. -/
def recordsOf (requestId : Nat) (pieces : List Piece) : List Record :=
  pieces.map (fun piece =>
      ⟨if piece.isStdout then RecordType.stdout else RecordType.stderr, requestId,
        piece.content, []⟩) ++
    [⟨RecordType.endRequest, requestId, List.replicate 8 0, []⟩]

/-- The ways in which an output comes: in records, or as a stream. -/
inductive Delivery (output : Output)
  | forkcgi
  | fastcgi (requestId : Nat) (pieces : List Piece) (whole : stdoutOf pieces = output.text)
  | scgi

namespace Delivery

variable {output : Output}

def application : Delivery output → Application
  | forkcgi => .forkcgi output.text
  | fastcgi requestId pieces _ => .fastcgi (recordsOf requestId pieces)
  | scgi => .scgi output.text

/-- The first data hold the header, and with SCGI everything. -/
def Suffices : Delivery output → Prop
  | forkcgi => output.header.length ≤ 17 * 4095
  | fastcgi _ pieces _ => ∃ first others, pieces = ⟨true, first⟩ :: others ∧
      output.header.length ≤ first.length
  | scgi => output.text.length ≤ 44 * 1500

end Delivery

/-- A client is sent the header fields and the body of an output, and no length but that
of the body. -/
def RelaysWhole (output : Output) (application : Application) : Prop :=
  ∃ reply left, response false application = some (some reply, left) ∧
    reply.fields = output.fields ∧ reply.body = output.body ∧
    (reply.contentLength = none ∨ reply.contentLength = some output.body.length)

/-! ## The separator -/

/-- A separator that is found is there. -/
theorem eq_of_memsplit {sepstr buf left right : List UInt8}
    (found : memsplit sepstr buf = some (left, right)) : buf = left ++ sepstr ++ right := by
  induction buf generalizing left with
  | nil => cases found
  | cons octet buf ih =>
      rw [memsplit] at found
      by_cases isSep : sepstr.isPrefixOf (octet :: buf) = true
      · rw [if_pos isSep] at found
        cases found
        obtain ⟨behind, whole⟩ := List.isPrefixOf_iff_prefix.mp isSep
        rw [← whole]
        simp
      · rw [if_neg isSep, Option.map_eq_some_iff] at found
        obtain ⟨⟨front, behind⟩, later, same⟩ := found
        cases same
        rw [ih later]
        rfl

theorem memsplit_append {sepstr buf left right : List UInt8}
    (found : memsplit sepstr buf = some (left, right)) (rest : List UInt8) :
    memsplit sepstr (buf ++ rest) = some (left, right ++ rest) := by
  induction buf generalizing left with
  | nil => cases found
  | cons octet buf ih =>
      rw [memsplit] at found
      rw [List.cons_append, memsplit]
      by_cases isSep : sepstr.isPrefixOf (octet :: buf) = true
      · rw [if_pos isSep] at found
        cases found
        have isPrefix := List.isPrefixOf_iff_prefix.mp isSep
        have longer : sepstr.isPrefixOf (octet :: (buf ++ rest)) = true :=
          List.isPrefixOf_iff_prefix.mpr (isPrefix.trans (List.prefix_append (octet :: buf) rest))
        rw [if_pos longer, ← List.cons_append,
          List.drop_append_of_le_length isPrefix.length_le]
      · rw [if_neg isSep, Option.map_eq_some_iff] at found
        obtain ⟨⟨front, behind⟩, later, same⟩ := found
        cases same
        have notLonger : ¬sepstr.isPrefixOf (octet :: (buf ++ rest)) = true := by
          intro longer
          have enough : sepstr.length ≤ (octet :: buf).length := by
            rw [eq_of_memsplit later]
            simp only [List.length_cons, List.length_append]
            omega
          exact isSep (List.isPrefixOf_iff_prefix.mpr (List.prefix_of_prefix_length_le
            (List.isPrefixOf_iff_prefix.mp longer) (List.prefix_append (octet :: buf) rest)
            enough))
        rw [if_neg notLonger, ih later]
        rfl

def blankLine : List UInt8 :=
  octets "\r\n\r\n"

theorem memsplit_cons {octet : UInt8} (notCr : octet ≠ 0x0d) (buf : List UInt8) :
    memsplit blankLine (octet :: buf) =
      (memsplit blankLine buf).map fun (left, right) => (octet :: left, right) := by
  have notSep : ¬blankLine.isPrefixOf (octet :: buf) = true := by
    intro isSep
    obtain ⟨behind, whole⟩ := List.isPrefixOf_iff_prefix.mp isSep
    exact notCr (List.cons.inj whole).1.symm
  rw [memsplit, if_neg notSep]

theorem memsplit_line {line : List UInt8} (noCr : 0x0d ∉ line) {buf left right : List UInt8}
    (found : memsplit blankLine buf = some (left, right)) :
    memsplit blankLine (line ++ buf) = some (line ++ left, right) := by
  induction line with
  | nil => exact found
  | cons octet line ih =>
      rw [List.mem_cons, not_or] at noCr
      rw [List.cons_append, memsplit_cons (fun same => noCr.1 same.symm), ih noCr.2]
      rfl

/-- Over the end of a line behind which there is another. -/
theorem memsplit_crlf {octet : UInt8} (notCr : octet ≠ 0x0d) {buf left right : List UInt8}
    (found : memsplit blankLine (octet :: buf) = some (left, right)) :
    memsplit blankLine (octets "\r\n" ++ octet :: buf) = some (octets "\r\n" ++ left, right) := by
  have isCrlf : octets "\r\n" = [0x0d, 0x0a] := by decide
  have notSep : ¬blankLine.isPrefixOf (0x0d :: 0x0a :: octet :: buf) = true := by
    intro isSep
    obtain ⟨behind, whole⟩ := List.isPrefixOf_iff_prefix.mp isSep
    have isBlankLine : blankLine = [0x0d, 0x0a, 0x0d, 0x0a] := by decide
    rw [isBlankLine] at whole
    exact notCr (List.cons.inj (List.cons.inj (List.cons.inj whole).2).2).1.symm
  rw [isCrlf, List.cons_append, List.cons_append, List.nil_append, memsplit, if_neg notSep,
    memsplit_cons (by decide), found]
  rfl

/-- The lines up to the blank one. -/
theorem memsplit_endedLines {lines : List (List UInt8)} (someLine : lines ≠ [])
    (isLine : ∀ line ∈ lines, line ≠ [] ∧ 0x0d ∉ line) (body : List UInt8) :
    ∃ front, memsplit blankLine (endedLines lines ++ octets "\r\n" ++ body) =
      some (front, body) ∧ front ++ octets "\r\n" = endedLines lines := by
  induction lines with
  | nil => exact absurd rfl someLine
  | cons line lines ih =>
      obtain ⟨nonempty, noCr⟩ := isLine line List.mem_cons_self
      cases lines with
      | nil =>
          refine ⟨line, ?_, by simp [endedLines]⟩
          have atEnd : memsplit blankLine (blankLine ++ body) = some ([], body) := by
            have isBlankLine : blankLine = [0x0d, 0x0a, 0x0d, 0x0a] := by decide
            simp [isBlankLine, memsplit]
          have split := memsplit_line noCr atEnd
          have isBlankLine : blankLine = octets "\r\n" ++ octets "\r\n" := by decide
          rw [List.append_nil] at split
          simpa [endedLines, isBlankLine] using split
      | cons next lines =>
          obtain ⟨front, later, ended⟩ := ih (by simp) fun other member =>
            isLine other (List.mem_cons_of_mem _ member)
          obtain ⟨nextNonempty, nextNoCr⟩ := isLine next (List.mem_cons_of_mem _ List.mem_cons_self)
          obtain ⟨octet, rest, rfl⟩ := List.exists_cons_of_ne_nil nextNonempty
          have notCr : octet ≠ 0x0d := fun same => nextNoCr (by simp [same])
          have behind : endedLines ((octet :: rest) :: lines) ++ octets "\r\n" ++ body =
              octet :: (rest ++ octets "\r\n" ++ endedLines lines ++ octets "\r\n" ++ body) := by
            simp [endedLines]
          rw [behind] at later
          have split := memsplit_line noCr (memsplit_crlf notCr later)
          refine ⟨line ++ (octets "\r\n" ++ front), ?_, ?_⟩
          · rw [← behind] at split
            have whole : endedLines (line :: (octet :: rest) :: lines) ++ octets "\r\n" ++ body =
                line ++ (octets "\r\n" ++ (endedLines ((octet :: rest) :: lines) ++
                  octets "\r\n" ++ body)) := by
              simp [endedLines]
            rw [whole]
            exact split
          · rw [List.append_assoc, List.append_assoc, ended]
            simp [endedLines]

namespace Output

variable (output : Output)

theorem nulFree_endedLines {lines : List (List UInt8)} (nulFree : ∀ line ∈ lines, 0 ∉ line) :
    0 ∉ endedLines lines := by
  intro nul
  obtain ⟨line, member, nul⟩ := List.mem_flatMap.mp nul
  rcases List.mem_append.mp nul with inLine | inEnd
  · exact nulFree line member inLine
  · revert inEnd
    decide

theorem length_header : output.header.length = (endedLines output.lines).length + 2 := by
  rw [header, List.length_append]
  rfl

/-- Data that hold the header are split behind it. -/
theorem memsplit2str_enough {data rest : List UInt8} (whole : data ++ rest = output.text)
    (enough : output.header.length ≤ data.length) :
    ∃ front, memsplit2str blankLine data = (front, data.drop output.header.length) ∧
      front ++ octets "\r\n" = endedLines output.lines ∧ front ≠ [] := by
  have isPrefix : output.header <+: data := by
    refine List.prefix_of_prefix_length_le (List.prefix_append output.header output.body) ?_ enough
    exact ⟨rest, whole⟩
  obtain ⟨body, rfl⟩ := isPrefix
  obtain ⟨front, found, ended⟩ := memsplit_endedLines output.someLine
    (fun line member => ⟨(output.isLine line member).1, (output.isLine line member).2.2.1⟩) body
  have nulFree : 0 ∉ front := by
    intro nul
    refine nulFree_endedLines (fun line member => (output.isLine line member).2.1) ?_
    rw [← ended]
    exact List.mem_append_left _ nul
  refine ⟨front, ?_, ended, ?_⟩
  · unfold memsplit2str
    rw [header, found]
    simp only [cString_of_nulFree nulFree, List.drop_left]
  · rintro rfl
    obtain ⟨line, lines, split⟩ := List.exists_cons_of_ne_nil output.someLine
    have nonempty := (output.isLine line (by simp [split])).1
    have lengths := congrArg List.length ended
    rw [split, endedLines, List.flatMap_cons] at lengths
    simp only [List.length_append, List.length_nil] at lengths
    have positive := List.length_pos_iff.mpr nonempty
    omega

/-- In data that do not hold the header nothing is found. -/
theorem memsplit2str_few {data rest : List UInt8} (whole : data ++ rest = output.text)
    (few : data.length < output.header.length) : memsplit2str blankLine data = ([], []) := by
  unfold memsplit2str
  cases found : memsplit blankLine data with
  | none => rfl
  | some parts =>
      exfalso
      obtain ⟨left, right⟩ := parts
      obtain ⟨front, atHeader, ended⟩ := memsplit_endedLines output.someLine
        (fun line member => ⟨(output.isLine line member).1, (output.isLine line member).2.2.1⟩)
        output.body
      have inWhole := memsplit_append found rest
      have text : endedLines output.lines ++ octets "\r\n" ++ output.body = output.text := rfl
      rw [whole, ← text, atHeader] at inWhole
      have same : front = left := (Prod.mk.inj (Option.some.inj inWhole)).1
      subst same
      have lengths := congrArg List.length (eq_of_memsplit found)
      have endedLength := congrArg List.length ended
      have isTwo : (octets "\r\n").length = 2 := by decide
      have isFour : blankLine.length = 4 := by decide
      rw [output.length_header] at few
      simp only [List.length_append, isTwo, isFour] at lengths endedLength
      omega

/-! ## The header -/

theorem strcutFrom_line {line : List UInt8} (noCr : 0x0d ∉ line) (rest : List UInt8) :
    Http1.strcutFrom (octets "\r\n") (line ++ octets "\r\n" ++ rest) = rest := by
  have isCrlf : octets "\r\n" = [0x0d, 0x0a] := by decide
  induction line with
  | nil => simp [isCrlf, Http1.strcutFrom]
  | cons octet line ih =>
      rw [List.mem_cons, not_or] at noCr
      have notCrlf : ¬(octets "\r\n").isPrefixOf (octet :: (line ++ octets "\r\n" ++ rest)) =
          true := by
        intro isCrlf'
        obtain ⟨behind, same⟩ := List.isPrefixOf_iff_prefix.mp isCrlf'
        rw [isCrlf] at same
        exact noCr.1 (List.cons.inj same).1
      rw [List.cons_append, List.cons_append, Http1.strcutFrom, if_neg notCrlf]
      exact ih noCr.2

/-- The end of a line is no part of a `Status`. -/
theorem strncasecmp_line {line rest : List UInt8} (nulFree : 0 ∉ line) (restFree : 0 ∉ rest) :
    strncasecmp (line ++ octets "\r\n" ++ rest) (octets "Status: ") 8 =
      strncasecmp line (octets "Status: ") 8 := by
  have crlfFree : 0 ∉ octets "\r\n" := by decide
  have longFree : 0 ∉ line ++ octets "\r\n" ++ rest := by simp [nulFree, crlfFree, restFree]
  have status : ((cString (octets "Status: ")).take 8).map loch = octets "status: " := by
    decide
  unfold strncasecmp
  rw [status, cString_of_nulFree longFree, cString_of_nulFree nulFree]
  by_cases long : 8 ≤ line.length
  · rw [List.append_assoc, List.take_append_of_le_length long]
  · have notLong : ¬((line ++ octets "\r\n" ++ rest).take 8).map loch = octets "status: " := by
      intro same
      have cr : 0x0d ∈ (line ++ octets "\r\n" ++ rest).take 8 := by
        rw [List.append_assoc, List.take_append]
        refine List.mem_append_right _ ?_
        obtain ⟨count, more⟩ : ∃ count, 8 - line.length = count + 1 := ⟨7 - line.length, by omega⟩
        rw [more]
        exact List.mem_cons_self
      have mapped := List.mem_map_of_mem (f := loch) cr
      rw [same] at mapped
      revert mapped
      decide
    have notShort : ¬(line.take 8).map loch = octets "status: " := by
      intro same
      have lengths := congrArg List.length same
      have isEight : (octets "status: ").length = 8 := by decide
      rw [List.length_map, List.length_take, isEight] at lengths
      omega
    rw [decide_eq_false notLong, decide_eq_false notShort]

/-- The fields that are read of the header lines. -/
theorem readStatus_endedLines : (readStatus (endedLines output.lines)).2 = output.fields := by
  obtain ⟨line, lines, split⟩ := List.exists_cons_of_ne_nil output.someLine
  obtain ⟨-, nulFree, noCr, -⟩ := output.isLine line (by simp [split])
  have restFree : 0 ∉ endedLines lines :=
    nulFree_endedLines fun other member => (output.isLine other (by simp [split, member])).2.1
  have first : endedLines (line :: lines) = line ++ octets "\r\n" ++ endedLines lines := by
    simp [endedLines]
  unfold readStatus fields
  rw [split]
  simp only [first, strncasecmp_line nulFree restFree]
  split
  · exact strcutFrom_line noCr _
  · rfl

end Output

/-! ## Streams -/

theorem recvBlocks_nil (block fuel : Nat) (binaryResponse : List UInt8) :
    recvBlocks block fuel binaryResponse [] = ((binaryResponse, false), []) := by
  cases fuel <;> simp [recvBlocks]

theorem recvBlocks_step {block : Nat} {received stream : List UInt8} (nonempty : stream ≠ [])
    (fuel : Nat) :
    recvBlocks block (fuel + 1) received stream =
      if 65536 ≤ (received ++ stream.take block).length then
        ((received ++ stream.take block, true), stream.drop block)
      else recvBlocks block fuel (received ++ stream.take block) (stream.drop block) := by
  rw [recvBlocks, if_neg nonempty]

/-- The last octets, of which there may be fewer than a block. -/
theorem recvBlocks_last {block : Nat} {received stream : List UInt8}
    (last : stream.length ≤ block) (few : received.length < 65536) (fuel : Nat) :
    recvBlocks block (fuel + 1) received stream =
      ((received ++ stream, decide (65536 ≤ (received ++ stream).length)), []) := by
  by_cases nothing : stream = []
  · have notFull : ¬65536 ≤ received.length := by omega
    rw [nothing, recvBlocks_nil, List.append_nil, decide_eq_false notFull]
  · rw [recvBlocks_step nothing, List.take_of_length_le last, List.drop_of_length_le last,
      recvBlocks_nil]
    split
    case isTrue full => rw [decide_eq_true full]
    case isFalse notFull => rw [decide_eq_false notFull]

/-- The blocks that are received: as many as are needed for 64 KiB. -/
theorem recvBlocks_eq {block limit more : Nat} {received : List UInt8}
    (toGo : limit = received.length + (more + 1) * block) (positive : 0 < block)
    (reaches : 65536 ≤ limit) (barely : limit < 65536 + block) {fuel : Nat}
    {stream : List UInt8} (enough : stream.length < fuel) :
    recvBlocks block fuel received stream =
      ((received ++ stream.take (limit - received.length),
        decide (65536 ≤ (received ++ stream.take (limit - received.length)).length)),
        stream.drop (limit - received.length)) := by
  induction more generalizing received stream fuel with
  | zero =>
      obtain ⟨fuel, rfl⟩ : ∃ fewer, fuel = fewer + 1 := ⟨fuel - 1, by omega⟩
      have isBlock : limit - received.length = block := by omega
      rw [isBlock]
      by_cases last : stream.length ≤ block
      · rw [recvBlocks_last last (by omega), List.take_of_length_le last,
          List.drop_of_length_le last]
      · have full : 65536 ≤ (received ++ stream.take block).length := by
          rw [List.length_append, List.length_take, Nat.min_eq_left (by omega)]
          omega
        have nonempty : stream ≠ [] := by
          rintro rfl
          simp at last
        rw [recvBlocks_step nonempty, if_pos full, decide_eq_true full]
  | succ more ih =>
      obtain ⟨fuel, rfl⟩ : ∃ fewer, fuel = fewer + 1 := ⟨fuel - 1, by omega⟩
      have split : (more + 1 + 1) * block = (more + 1) * block + block :=
        Nat.succ_mul (more + 1) block
      have block_le : block ≤ (more + 1) * block :=
        Nat.le_mul_of_pos_left block (Nat.succ_pos more)
      by_cases last : stream.length ≤ block
      · have beyond : stream.length ≤ limit - received.length := by omega
        rw [recvBlocks_last last (by omega), List.take_of_length_le beyond,
          List.drop_of_length_le beyond]
      · have nonempty : stream ≠ [] := by
          rintro rfl
          simp at last
        have length : (received ++ stream.take block).length = received.length + block := by
          rw [List.length_append, List.length_take, Nat.min_eq_left (by omega)]
        have notFull : ¬65536 ≤ (received ++ stream.take block).length := by omega
        have later := @ih (received ++ stream.take block) (by omega) fuel (stream.drop block)
          (by rw [List.length_drop]; omega)
        have left : limit - received.length =
            block + (limit - (received ++ stream.take block).length) := by omega
        have take : received ++ stream.take (limit - received.length) =
            received ++ stream.take block ++
              (stream.drop block).take (limit - (received ++ stream.take block).length) := by
          rw [left, List.take_add, List.append_assoc]
        have drop : stream.drop (limit - received.length) =
            (stream.drop block).drop (limit - (received ++ stream.take block).length) := by
          rw [left, List.drop_drop]
        rw [recvBlocks_step nonempty, if_neg notFull, later, take, drop]

namespace Application

theorem recv_forkcgi (stream : List UInt8) :
    (forkcgi stream).recv =
      ((stream.take (17 * 4095), decide (65536 ≤ (stream.take (17 * 4095)).length)),
        forkcgi (stream.drop (17 * 4095))) := by
  have blocks := @recvBlocks_eq 4095 (17 * 4095) 16 [] (by decide) (by decide) (by decide)
    (by decide) (stream.length + 1) stream (Nat.lt_succ_self _)
  simp only [List.length_nil, Nat.sub_zero, List.nil_append] at blocks
  rw [recv, blocks]

theorem recv_scgi (stream : List UInt8) :
    (scgi stream).recv =
      ((stream.take (44 * 1500), decide (65536 ≤ (stream.take (44 * 1500)).length)),
        scgi (stream.drop (44 * 1500))) := by
  have blocks := @recvBlocks_eq 1500 (44 * 1500) 43 [] (by decide) (by decide) (by decide)
    (by decide) (stream.length + 1) stream (Nat.lt_succ_self _)
  simp only [List.length_nil, Nat.sub_zero, List.nil_append] at blocks
  rw [recv, blocks]

theorem recvRest_false (fuel : Nat) (application : Application) :
    application.recvRest fuel false = some ([], application) := by
  cases fuel <;> rfl

/-- A stream of which at least 64 KiB are received at a time, where there are as many, is
received to the end. -/
theorem recvRest_stream {make : List UInt8 → Application} {limit : Nat}
    (receives : ∀ stream, (make stream).recv =
      ((stream.take limit, decide (65536 ≤ (stream.take limit).length)),
        make (stream.drop limit)))
    (large : 65536 ≤ limit) {fuel : Nat} {stream : List UInt8} (enough : stream.length < fuel) :
    (make stream).recvRest fuel true = some (stream, make []) := by
  induction fuel generalizing stream with
  | zero => exact absurd enough (Nat.not_lt_zero _)
  | succ fuel ih =>
      rw [recvRest, receives]
      simp only
      by_cases full : 65536 ≤ (stream.take limit).length
      · have enoughLeft : (stream.drop limit).length < fuel := by
          rw [List.length_take] at full
          rw [List.length_drop]
          omega
        rw [decide_eq_true full, ih enoughLeft]
        simp only [Option.map_some, List.take_append_drop]
      · have atEnd : stream.length ≤ limit := by
          rw [List.length_take] at full
          omega
        rw [decide_eq_false full, recvRest_false, List.take_of_length_le atEnd,
          List.drop_of_length_le atEnd]
        simp only [Option.map_some, List.append_nil]

/-- What is left behind the first data, too. -/
theorem recvRest_first {make : List UInt8 → Application} {limit : Nat}
    (receives : ∀ stream, (make stream).recv =
      ((stream.take limit, decide (65536 ≤ (stream.take limit).length)),
        make (stream.drop limit)))
    (large : 65536 ≤ limit) {fuel : Nat} {stream : List UInt8} (enough : stream.length < fuel) :
    (make (stream.drop limit)).recvRest fuel (decide (65536 ≤ (stream.take limit).length)) =
      some (stream.drop limit, make []) := by
  by_cases full : 65536 ≤ (stream.take limit).length
  · rw [decide_eq_true full]
    exact recvRest_stream receives large (by rw [List.length_drop]; omega)
  · have atEnd : stream.length ≤ limit := by
      rw [List.length_take] at full
      omega
    rw [decide_eq_false full, recvRest_false, List.drop_of_length_le atEnd]

/-- Records of an output are received up to the one that ends the request. -/
theorem recvRest_records (requestId : Nat) (pieces : List Piece) {fuel : Nat}
    (enough : pieces.length < fuel) :
    (fastcgi (recordsOf requestId pieces)).recvRest fuel true =
      some (stdoutOf pieces, fastcgi []) := by
  induction pieces generalizing fuel with
  | nil =>
      obtain ⟨fuel, rfl⟩ : ∃ fewer, fuel = fewer + 1 := ⟨fuel - 1, by omega⟩
      have ends : (fastcgi (recordsOf requestId [])).recv = (([], false), fastcgi []) := rfl
      rw [recvRest, ends]
      simp only [recvRest_false, Option.map_some]
      rfl
  | cons piece pieces ih =>
      obtain ⟨fuel, rfl⟩ : ∃ fewer, fuel = fewer + 1 := ⟨fuel - 1, by omega⟩
      have one : (fastcgi (recordsOf requestId (piece :: pieces))).recv =
          ((if piece.isStdout then piece.content else [], true),
            fastcgi (recordsOf requestId pieces)) := by
        obtain ⟨isStdout, content⟩ := piece
        cases isStdout <;> rfl
      rw [List.length_cons] at enough
      rw [recvRest, one]
      simp only [ih (Nat.lt_of_succ_lt_succ enough), Option.map_some]
      rfl

end Application

/-! ## The response -/

namespace Output

variable (output : Output)

theorem replyOf_enough (application : Application) {data rest : List UInt8}
    (whole : data ++ rest = output.text) (enough : output.header.length ≤ data.length) :
    (replyOf false application data rest).fields = output.fields ∧
      (replyOf false application data rest).body = output.body ∧
      (replyOf false application data rest).contentLength =
        addedLength (data.drop output.header.length) application := by
  obtain ⟨front, split, ended, nonempty⟩ := output.memsplit2str_enough whole enough
  have split : memsplit2str (octets "\r\n\r\n") data = (front, data.drop output.header.length) :=
    split
  have body : data.drop output.header.length ++ rest = output.body := by
    have dropped := congrArg (List.drop output.header.length) whole
    rwa [List.drop_append_of_le_length enough, text, List.drop_left] at dropped
  unfold replyOf
  rw [split]
  simp only [if_neg nonempty, ended, readStatus_endedLines, body, Bool.false_eq_true, if_false,
    and_self]

theorem replyOf_few (application : Application) {data rest : List UInt8}
    (whole : data ++ rest = output.text) (few : data.length < output.header.length) :
    (replyOf false application data rest).body ≠ output.body := by
  have split : memsplit2str (octets "\r\n\r\n") data = ([], []) :=
    output.memsplit2str_few whole few
  have body : (replyOf false application data rest).body = rest := by
    unfold replyOf
    rw [split]
    simp
  rw [body]
  rintro rfl
  have lengths := congrArg List.length whole
  rw [List.length_append, text, List.length_append] at lengths
  omega

/-- A response is what was put out exactly if the first data suffice. -/
theorem relaysWhole_of {application left after : Application} {data rest : List UInt8}
    {continueRecv : Bool} (received : application.recv = ((data, continueRecv), left))
    (rests : left.recvRest (application.size + 1) continueRecv = some (rest, after))
    (whole : data ++ rest = output.text) :
    RelaysWhole output application ↔ output.header.length ≤ data.length ∧
      (addedLength (data.drop output.header.length) application = none ∨
        addedLength (data.drop output.header.length) application =
          some output.body.length) := by
  have twoOctets := output.length_header
  constructor
  · rintro ⟨reply, left', responds, fields, body, length⟩
    unfold response at responds
    rw [received] at responds
    simp only [rests] at responds
    split at responds
    case isTrue nothing => cases responds
    case isFalse nonempty =>
      cases responds
      by_cases enough : output.header.length ≤ data.length
      · rw [(output.replyOf_enough application whole enough).2.2] at length
        exact ⟨enough, length⟩
      · exact absurd body (output.replyOf_few application whole (by omega))
  · rintro ⟨enough, length⟩
    have nonempty : data ≠ [] := by
      rintro rfl
      rw [List.length_nil] at enough
      omega
    obtain ⟨fields, body, added⟩ := output.replyOf_enough application whole enough
    refine ⟨replyOf false application data rest, after, ?_, fields, body, ?_⟩
    · unfold response
      rw [received]
      simp only [rests, if_neg nonempty, Option.map_some]
    · rw [added]
      exact length

end Output

namespace Delivery

variable {output : Output}

/-- Records behind the first piece. -/
theorem relaysWhole_fastcgi (requestId : Nat) (pieces : List Piece)
    (whole : stdoutOf pieces = output.text) :
    RelaysWhole output (.fastcgi (recordsOf requestId pieces)) ↔
      ∃ first others, pieces = ⟨true, first⟩ :: others ∧
        output.header.length ≤ first.length := by
  cases pieces with
  | nil =>
      have nothing : output.text = [] := whole.symm
      have lengths := congrArg List.length nothing
      have twoOctets := output.length_header
      rw [Output.text, List.length_append, List.length_nil] at lengths
      omega
  | cons piece pieces =>
      obtain ⟨isStdout, content⟩ := piece
      cases isStdout with
      | false =>
          have received : (Application.fastcgi (recordsOf requestId (⟨false, content⟩ :: pieces))).recv =
              (([], true), .fastcgi (recordsOf requestId pieces)) := rfl
          constructor
          · rintro ⟨reply, left, responds, -⟩
            unfold response at responds
            rw [received] at responds
            simp at responds
          · rintro ⟨first, others, split, -⟩
            cases split
      | true =>
          have received : (Application.fastcgi (recordsOf requestId (⟨true, content⟩ :: pieces))).recv =
              ((content, true), .fastcgi (recordsOf requestId pieces)) := rfl
          have rests := @Application.recvRest_records requestId pieces
            ((Application.fastcgi (recordsOf requestId (⟨true, content⟩ :: pieces))).size + 1)
            (by simp [Application.size, recordsOf]; omega)
          have relays := output.relaysWhole_of received rests whole
          rw [relays]
          constructor
          · exact fun holds => ⟨content, pieces, rfl, holds.1⟩
          · rintro ⟨first, others, split, enough⟩
            cases split
            exact ⟨enough, .inl rfl⟩

/-- A response is what an application put out, for whatever output and however it comes,
exactly if the first data suffice. -/
theorem relaysWhole_iff (delivery : Delivery output) :
    RelaysWhole output delivery.application ↔ delivery.Suffices := by
  cases delivery with
  | forkcgi =>
      have relays := output.relaysWhole_of (Application.recv_forkcgi output.text)
        (Application.recvRest_first Application.recv_forkcgi (by decide)
          (Nat.lt_succ_self output.text.length))
        (List.take_append_drop (17 * 4095) output.text)
      refine relays.trans ?_
      rw [List.length_take]
      have shorter : output.header.length ≤ output.text.length := by
        rw [Output.text, List.length_append]
        omega
      exact ⟨fun holds => by simp only [Suffices]; omega,
        fun suffices' => ⟨by simp only [Suffices] at suffices'; omega, .inl rfl⟩⟩
  | fastcgi requestId pieces whole => exact relaysWhole_fastcgi requestId pieces whole
  | scgi =>
      have relays := output.relaysWhole_of (Application.recv_scgi output.text)
        (Application.recvRest_first Application.recv_scgi (by decide)
          (Nat.lt_succ_self output.text.length))
        (List.take_append_drop (44 * 1500) output.text)
      refine relays.trans ?_
      have lengths : output.text.length = output.header.length + output.body.length := by
        rw [Output.text, List.length_append]
      simp only [addedLength, Suffices, List.length_take, List.length_drop, reduceCtorEq, false_or,
        Option.some.injEq]
      omega

/-- A small output. -/
def small : Output where
  lines := [octets "A: b"]
  body := octets "c"
  someLine := by decide
  isLine := by decide

/-- A header in two records is lost, and so is all behind a record that is not of the
output. -/
theorem not_relaysWhole :
    ¬RelaysWhole small (.fastcgi (recordsOf 1
        [⟨true, octets "A: b\r\n"⟩, ⟨true, octets "\r\nc"⟩])) ∧
      ¬RelaysWhole small (.fastcgi (recordsOf 1
        [⟨false, octets "warning"⟩, ⟨true, octets "A: b\r\n\r\nc"⟩])) := by
  constructor
  · rw [relaysWhole_fastcgi 1 _ (by decide)]
    rintro ⟨first, others, split, enough⟩
    cases split
    revert enough
    decide
  · rw [relaysWhole_fastcgi 1 _ (by decide)]
    rintro ⟨first, others, split, -⟩
    cases split

end Delivery

end Cgi

end HeapHttpd
