import HeapHttpd.Http1.WebDoc

/-!
# The cache and the stream

Both branches of `web_doc::Response` send a file alike as long as the ranges that are asked
for lie in it, but for the end of the last one, and the lengths fit into an `int`.
-/

namespace HeapHttpd

namespace Http1

namespace WebDoc

open General
open Http2 (toInt toInt_of_bounds)

/-! ## Lengths as `int` -/

theorem toInt_lt (value : Int) : toInt value < 2 ^ 31 := by
  rw [toInt]
  omega

theorem toInt_le {value : Int} (positive : 0 ≤ value) : toInt value ≤ value := by
  rw [toInt]
  omega

/-- What is left of a length behind a part of what an `int` has of it. -/
theorem toInt_sub {value part : Int} (positive : 0 ≤ part) (inside : part ≤ toInt value) :
    toInt (value - part) = toInt value - part := by
  rw [toInt] at inside ⊢
  rw [toInt]
  omega

/-! ## One range from a stream -/

section Loop

variable {content sent : List UInt8} {len lenSum : Int} {rounds position : Nat}

/-- What is read of a stream without an error. -/
theorem read_good (count : Nat) :
    Stream.read content count ⟨position, false, false⟩ =
      some ((content.drop position).take count,
        ⟨position + ((content.drop position).take count).length,
          decide (((content.drop position).take count).length < count),
          decide (((content.drop position).take count).length < count)⟩) := by
  have unfailed : ¬((false : Bool) = true ∨ (false : Bool) = true) := by decide
  have notNegative : ¬((count : Int) < 0) := by omega
  rw [Stream.read]
  simp only [if_neg unfailed, if_neg notNegative, Int.toNat_natCast, Nat.cast_lt]

/-- Nothing is read of a stream that has failed. -/
theorem read_failed (count : Int) : Stream.read content count ⟨position, false, true⟩ =
    some ([], ⟨position, false, true⟩) := by
  rw [Stream.read, if_pos (.inr rfl)]

theorem length_part (count : Nat) :
    ((content.drop position).take count).length = min count (content.length - position) := by
  rw [List.length_take, List.length_drop]

/-- A round of the loop that reads all it asks for. -/
theorem rangeLoop_round {count : Nat} (isCount : (if 1448 < toInt (len - lenSum) then 1448
      else toInt (len - lenSum)) = (count : Int))
    (within : position + count ≤ content.length ∨ count = 0) :
    rangeLoop content len (rounds + 1) ⟨position, false, false⟩ lenSum sent =
      if lenSum + count = len then
        some (sent ++ (content.drop position).take count, ⟨position + count, false, false⟩)
      else rangeLoop content len rounds ⟨position + count, false, false⟩ (lenSum + count)
        (sent ++ (content.drop position).take count) := by
  have whole : ((content.drop position).take count).length = count := by
    rw [length_part]
    omega
  have enough : decide (count < count) = false := decide_eq_false (Nat.lt_irrefl count)
  rw [rangeLoop, if_neg Bool.false_ne_true]
  simp only [isCount, read_good, whole, enough]

/-- A round of the loop that comes to the end of the file. -/
theorem rangeLoop_end {count : Nat} (isCount : (if 1448 < toInt (len - lenSum) then 1448
      else toInt (len - lenSum)) = (count : Int)) (left : (count : Int) ≤ len - lenSum)
    (short : content.length - position < count) :
    rangeLoop content len (rounds + 2) ⟨position, false, false⟩ lenSum sent =
      some (sent ++ content.drop position,
        ⟨position + (content.length - position), true, true⟩) := by
  have all : (content.drop position).take count = content.drop position := by
    rw [List.take_of_length_le]
    rw [List.length_drop]
    omega
  have notEnough : decide ((content.drop position).length < count) = true := by
    rw [List.length_drop]
    simpa using short
  have notDone : ¬(lenSum + ((content.drop position).length : Int) = len) := by
    rw [List.length_drop]
    omega
  rw [rangeLoop, if_neg Bool.false_ne_true]
  simp only [isCount, read_good, all, notEnough, if_neg notDone]
  rw [rangeLoop, if_pos rfl, List.length_drop]

/-- A range in the file is sent as a whole. -/
theorem rangeLoop_complete {rest : Nat} (positive : 0 < rest) (small : rest < 2 ^ 31)
    (left : len - lenSum = rest) (within : position + rest ≤ content.length)
    (patient : rest ≤ rounds) :
    rangeLoop content len rounds ⟨position, false, false⟩ lenSum sent =
      some (sent ++ (content.drop position).take rest, ⟨position + rest, false, false⟩) := by
  induction rest using Nat.strongRecOn generalizing rounds position lenSum sent with
  | ind rest ih =>
      obtain ⟨before, rfl⟩ : ∃ before, rounds = before + 1 := ⟨rounds - 1, by omega⟩
      have isRest : toInt (len - lenSum) = rest := by
        rw [left, toInt_of_bounds (by omega) (by omega)]
      by_cases last : rest ≤ 1448
      · have isCount : (if 1448 < toInt (len - lenSum) then 1448 else toInt (len - lenSum)) =
            (rest : Int) := by
          rw [isRest, if_neg (by omega)]
        rw [rangeLoop_round isCount (.inl within), if_pos (by omega)]
      · have isCount : (if 1448 < toInt (len - lenSum) then 1448 else toInt (len - lenSum)) =
            ((1448 : Nat) : Int) := by
          rw [isRest, if_pos (by omega)]
          rfl
        rw [rangeLoop_round isCount (.inl (by omega)), if_neg (by omega),
          ih (rest - 1448) (by omega) (by omega) (by omega) (by omega) (by omega) (by omega),
          List.append_assoc]
        have parts : (content.drop position).take 1448 ++
            (content.drop (position + 1448)).take (rest - 1448) =
            (content.drop position).take rest := by
          rw [← List.drop_drop, ← List.take_add, Nat.add_sub_cancel' (by omega)]
        rw [parts, Nat.add_assoc, Nat.add_sub_cancel' (by omega)]

/-- A range that ends behind the file is sent up to the end of the file. -/
theorem rangeLoop_short {rest : Nat} (isRest : toInt (len - lenSum) = rest)
    (left : 0 ≤ len - lenSum) (short : content.length - position < rest)
    (patient : rest < rounds) :
    rangeLoop content len rounds ⟨position, false, false⟩ lenSum sent =
      some (sent ++ content.drop position,
        ⟨position + (content.length - position), true, true⟩) := by
  induction rest using Nat.strongRecOn generalizing rounds position lenSum sent with
  | ind rest ih =>
      have bound := toInt_le left
      obtain ⟨before, rfl⟩ : ∃ before, rounds = before + 2 := ⟨rounds - 2, by omega⟩
      by_cases last : content.length - position < 1448
      · by_cases few : rest ≤ 1448
        · have isCount : (if 1448 < toInt (len - lenSum) then 1448
              else toInt (len - lenSum)) = (rest : Int) := by
            rw [isRest, if_neg (by omega)]
          exact rangeLoop_end isCount (by omega) short
        · have isCount : (if 1448 < toInt (len - lenSum) then 1448
              else toInt (len - lenSum)) = ((1448 : Nat) : Int) := by
            rw [isRest, if_pos (by omega)]
            rfl
          exact rangeLoop_end isCount (by omega) last
      · have isCount : (if 1448 < toInt (len - lenSum) then 1448 else toInt (len - lenSum)) =
            ((1448 : Nat) : Int) := by
          rw [isRest, if_pos (by omega)]
          rfl
        have later : toInt (len - (lenSum + (1448 : Nat))) = (rest - 1448 : Nat) := by
          rw [← Int.sub_sub, toInt_sub (by omega) (by omega), isRest]
          omega
        rw [rangeLoop_round isCount (.inl (by omega)), if_neg (by omega),
          ih (rest - 1448) (by omega) later (by omega) (by omega) (by omega),
          List.append_assoc, ← List.drop_drop, List.take_append_drop]
        have same : position + 1448 + (content.length - (position + 1448)) =
            position + (content.length - position) := by omega
        rw [same]

/-- A length that an `int` takes for zero or less is never reached. -/
theorem rangeLoop_stuck (left : 0 < len - lenSum) (none' : toInt (len - lenSum) ≤ 0) :
    rangeLoop content len rounds ⟨position, false, false⟩ lenSum sent = none := by
  induction rounds generalizing sent with
  | zero => rfl
  | succ rounds ih =>
      by_cases isZero : toInt (len - lenSum) = 0
      · have isCount : (if 1448 < toInt (len - lenSum) then 1448 else toInt (len - lenSum)) =
            ((0 : Nat) : Int) := by
          rw [isZero, if_neg (by omega)]
          rfl
        rw [rangeLoop_round isCount (.inr rfl), if_neg (by omega)]
        rw [Nat.cast_zero, Int.add_zero, Nat.add_zero]
        exact ih
      · have isCount : (if 1448 < toInt (len - lenSum) then 1448 else toInt (len - lenSum)) < 0 := by
          rw [if_neg (by omega)]
          omega
        have unfailed : ¬((false : Bool) = true ∨ (false : Bool) = true) := by decide
        rw [rangeLoop, if_neg Bool.false_ne_true]
        simp only [Stream.read, if_neg unfailed, if_pos isCount]

/-- A length that an `int` takes for a smaller one, which the file has, is never reached. -/
theorem rangeLoop_overrun {rest : Nat} (isRest : toInt (len - lenSum) = rest)
    (more : rest < len - lenSum) (within : position + rest ≤ content.length ∨ rest = 0) :
    rangeLoop content len rounds ⟨position, false, false⟩ lenSum sent = none := by
  induction rest using Nat.strongRecOn generalizing rounds position lenSum sent with
  | ind rest ih =>
      by_cases isZero : rest = 0
      · exact rangeLoop_stuck (by omega) (by omega)
      · cases rounds with
        | zero => rfl
        | succ rounds =>
            have isCount : (if 1448 < toInt (len - lenSum) then 1448
                else toInt (len - lenSum)) = ((min rest 1448 : Nat) : Int) := by
              rw [isRest]
              split <;> omega
            have later : toInt (len - (lenSum + (min rest 1448 : Nat))) =
                (rest - min rest 1448 : Nat) := by
              rw [← Int.sub_sub, toInt_sub (by omega) (by omega), isRest]
              omega
            rw [rangeLoop_round isCount (.inl (by omega)), if_neg (by omega)]
            exact ih (rest - min rest 1448) (by omega) later (by omega) (by omega)

/-- A stream that has failed gives nothing any more. -/
theorem rangeLoop_failed (left : lenSum ≠ len) :
    rangeLoop content len rounds ⟨position, false, true⟩ lenSum sent = none := by
  induction rounds generalizing sent with
  | zero => rfl
  | succ rounds ih =>
      have notDone : ¬(lenSum + ((([] : List UInt8).length : Nat) : Int) = len) := by
        rw [List.length_nil]
        omega
      rw [rangeLoop, if_neg Bool.false_ne_true]
      simp only [read_failed, if_neg notDone]
      rw [List.length_nil, Nat.cast_zero, Int.add_zero]
      exact ih

end Loop

/-! ## The whole file from a stream -/

/-- The loop over a whole file sends what is left of it. -/
theorem wholeLoop_complete {content sent : List UInt8} {rounds position : Nat}
    (patient : content.length - position < rounds * 1448) :
    wholeLoop content (rounds + 1) ⟨position, false, false⟩ sent =
      some (sent ++ content.drop position) := by
  induction rounds generalizing position sent with
  | zero => omega
  | succ rounds ih =>
      have step : Stream.read content 1448 ⟨position, false, false⟩ =
          some ((content.drop position).take 1448,
            ⟨position + ((content.drop position).take 1448).length,
              decide (((content.drop position).take 1448).length < 1448),
              decide (((content.drop position).take 1448).length < 1448)⟩) := read_good 1448
      rw [wholeLoop, if_neg Bool.false_ne_true]
      simp only [step]
      by_cases last : content.length - position < 1448
      · have all : (content.drop position).take 1448 = content.drop position := by
          rw [List.take_of_length_le]
          rw [List.length_drop]
          omega
        have short : decide ((content.drop position).length < 1448) = true := by
          rw [List.length_drop]
          exact decide_eq_true last
        rw [all, short, wholeLoop, if_pos rfl]
      · have whole : ((content.drop position).take 1448).length = 1448 := by
          rw [length_part]
          omega
        have enough : decide (1448 < 1448) = false := decide_eq_false (Nat.lt_irrefl 1448)
        rw [whole, enough, ih (by omega), List.append_assoc, ← List.drop_drop,
          List.take_append_drop]

/-- More rounds change nothing for a loop that came to an end. -/
theorem wholeLoop_mono {content sent body : List UInt8} {stream : Stream} {rounds more : Nat}
    (fewer : rounds ≤ more) (ended : wholeLoop content rounds stream sent = some body) :
    wholeLoop content more stream sent = some body := by
  induction rounds generalizing more stream sent with
  | zero => cases ended
  | succ rounds ih =>
      obtain ⟨before, rfl⟩ : ∃ before, more = before + 1 := ⟨more - 1, by omega⟩
      rw [wholeLoop] at ended ⊢
      split
      case isTrue atEnd => rwa [if_pos atEnd] at ended
      case isFalse notAtEnd =>
        rw [if_neg notAtEnd] at ended
        cases isRead : stream.read content 1448 with
        | none =>
            simp only [isRead] at ended
            cases ended
        | some read =>
            simp only [isRead] at ended ⊢
            exact ih (by omega) ended

/-! ## The ranges -/

/-- The part of a file that a range asks for. -/
def part (content : List UInt8) (range : ContentRange) : List UInt8 :=
  (content.drop range.beg.toNat).take range.len.toNat

/-- A range that a file has. -/
def Within (length : Nat) (range : ContentRange) : Prop :=
  range.len < 2 ^ 31 ∧ range.beg + range.len ≤ length

/-- A range that ends behind a file, where a stream can be set to its begin. -/
def EndsBehind (length : Nat) (seekLimit : Int) (range : ContentRange) : Prop :=
  range.beg ≤ seekLimit ∧ 0 < toInt range.len ∧ length - range.beg < toInt range.len

/-- Ranges that come to an end in a stream. -/
def Streamable (length : Nat) (seekLimit : Int) : List ContentRange → Prop
  | [] => True
  | range :: ranges =>
      (Within length range ∧ Streamable length seekLimit ranges) ∨
        (EndsBehind length seekLimit range ∧ ranges = [])

/-- A range as it is parsed. -/
structure Parsed (range : ContentRange) : Prop where
  beg_nonneg : 0 ≤ range.beg
  len_pos : 0 < range.len

section Ranges

variable {content : List UInt8} {seekLimit : Int} {range : ContentRange} {stream : Stream}
  {rounds : Nat}

/-- A stream without an error is set to an offset that it has. -/
theorem seekg_good (good : stream.failbit = false) (low : 0 ≤ range.beg)
    (high : range.beg ≤ seekLimit) :
    stream.seekg seekLimit range.beg = ⟨range.beg.toNat, false, false⟩ := by
  rw [Stream.seekg, if_neg (by rw [good]; exact Bool.false_ne_true), if_pos ⟨low, high⟩]

/-- A stream without an error fails at an offset that it has not. -/
theorem seekg_beyond (good : stream.failbit = false) (high : ¬range.beg ≤ seekLimit) :
    stream.seekg seekLimit range.beg = ⟨stream.position, false, true⟩ := by
  rw [Stream.seekg, if_neg (by rw [good]; exact Bool.false_ne_true), if_neg fun bounds =>
    high bounds.2]

/-- Setting a stream that has failed does not mend it. -/
theorem seekg_failed (failed : stream.failbit = true) :
    stream.seekg seekLimit range.beg = ⟨stream.position, false, true⟩ := by
  rw [Stream.seekg, if_pos failed, ← failed]

/-- A range that the file has is sent, and the stream can be set again. -/
theorem rangeLoop_within (good : stream.failbit = false) (parsed : Parsed range)
    (within : Within content.length range) (known : (content.length : Int) ≤ seekLimit)
    (patient : 2 ^ 31 ≤ rounds) :
    ∃ after, after.failbit = false ∧
      rangeLoop content range.len rounds (stream.seekg seekLimit range.beg) 0 [] =
        some (part content range, after) := by
  obtain ⟨small, inside⟩ := within
  obtain ⟨low, positive⟩ := parsed
  refine ⟨⟨range.beg.toNat + range.len.toNat, false, false⟩, rfl, ?_⟩
  have complete := @rangeLoop_complete content [] range.len 0 rounds range.beg.toNat
    range.len.toNat (by omega) (by omega) (by omega) (by omega) (by omega)
  rw [seekg_good good low (by omega), complete, List.nil_append, part]

/-- A range that ends behind the file is sent as far as the file goes. -/
theorem rangeLoop_behind (good : stream.failbit = false) (parsed : Parsed range)
    (behind : EndsBehind content.length seekLimit range) (patient : 2 ^ 31 ≤ rounds) :
    ∃ after, after.failbit = true ∧
      rangeLoop content range.len rounds (stream.seekg seekLimit range.beg) 0 [] =
        some (part content range, after) := by
  obtain ⟨high, positive, short⟩ := behind
  have low := parsed.beg_nonneg
  have isRest : toInt (range.len - 0) = (toInt range.len).toNat := by
    rw [Int.sub_zero]
    omega
  have bound := toInt_lt range.len
  have notMore := toInt_le parsed.len_pos.le
  have all : part content range = content.drop range.beg.toNat := by
    rw [part, List.take_of_length_le]
    rw [List.length_drop]
    omega
  rw [seekg_good good low high, rangeLoop_short isRest (by omega) (by omega) (by omega),
    List.nil_append, all]
  exact ⟨_, rfl, rfl⟩

/-- Every other range never comes to an end. -/
theorem rangeLoop_endless (good : stream.failbit = false) (parsed : Parsed range)
    (notWithin : ¬Within content.length range)
    (notBehind : ¬EndsBehind content.length seekLimit range) :
    rangeLoop content range.len rounds (stream.seekg seekLimit range.beg) 0 [] = none := by
  have low := parsed.beg_nonneg
  have positive := parsed.len_pos
  have notMore := toInt_le positive.le
  by_cases high : range.beg ≤ seekLimit
  · rw [seekg_good good low high]
    by_cases stuck : toInt range.len ≤ 0
    · exact rangeLoop_stuck (by omega) (by rwa [Int.sub_zero])
    · have enough : ¬content.length - range.beg < toInt range.len := fun short =>
        notBehind ⟨high, by omega, short⟩
      have wrapped : toInt range.len < range.len := by
        by_contra same
        have bound := toInt_lt range.len
        exact notWithin ⟨by omega, by omega⟩
      exact @rangeLoop_overrun _ _ _ _ _ _ (toInt range.len).toNat
        (by rw [Int.sub_zero]; omega) (by omega) (.inl (by omega))
  · rw [seekg_beyond good high]
    exact rangeLoop_failed (by omega)

/-- The ranges that come to an end are sent as they are asked for. -/
theorem streamedRanges_eq {ranges : List ContentRange} (good : stream.failbit = false)
    (parsed : ∀ range ∈ ranges, Parsed range) (known : (content.length : Int) ≤ seekLimit)
    (streamable : Streamable content.length seekLimit ranges) (patient : 2 ^ 31 ≤ rounds) :
    streamedRanges content seekLimit rounds stream ranges =
      some (ranges.flatMap (part content)) := by
  induction ranges generalizing stream with
  | nil => rfl
  | cons range ranges ih =>
      have first := parsed range List.mem_cons_self
      rw [streamedRanges, List.flatMap_cons]
      rcases streamable with ⟨within, streamable⟩ | ⟨behind, rfl⟩
      · obtain ⟨after, good, sent⟩ := rangeLoop_within good first within known patient
        simp only [sent]
        rw [ih good (fun range member => parsed range (List.mem_cons_of_mem _ member)) streamable]
        rfl
      · obtain ⟨after, -, sent⟩ := rangeLoop_behind good first behind patient
        simp only [sent]
        rfl

/-- More rounds change nothing for a loop that came to an end. -/
theorem rangeLoop_mono {len lenSum : Int} {sent : List UInt8} {result : List UInt8 × Stream}
    {more : Nat} (fewer : rounds ≤ more)
    (ended : rangeLoop content len rounds stream lenSum sent = some result) :
    rangeLoop content len more stream lenSum sent = some result := by
  induction rounds generalizing more stream lenSum sent with
  | zero => cases ended
  | succ rounds ih =>
      obtain ⟨before, rfl⟩ : ∃ before, more = before + 1 := ⟨more - 1, by omega⟩
      rw [rangeLoop] at ended ⊢
      split
      case isTrue atEnd => rwa [if_pos atEnd] at ended
      case isFalse notAtEnd =>
        rw [if_neg notAtEnd] at ended
        cases isRead : stream.read content
          (if 1448 < toInt (len - lenSum) then 1448 else toInt (len - lenSum)) with
        | none =>
            simp only [isRead] at ended
            cases ended
        | some read =>
            simp only [isRead] at ended ⊢
            split
            case isTrue done => rwa [if_pos done] at ended
            case isFalse notDone =>
              rw [if_neg notDone] at ended
              exact ih (by omega) ended

/-- Only such ranges come to an end, and with what is asked for. -/
theorem streamedRanges_some {ranges : List ContentRange} {body : List UInt8}
    (good : stream.failbit = false) (parsed : ∀ range ∈ ranges, Parsed range)
    (known : (content.length : Int) ≤ seekLimit)
    (sent : streamedRanges content seekLimit rounds stream ranges = some body) :
    Streamable content.length seekLimit ranges ∧ body = ranges.flatMap (part content) := by
  induction ranges generalizing stream body with
  | nil =>
      cases sent
      exact ⟨trivial, rfl⟩
  | cons range ranges ih =>
      have first := parsed range List.mem_cons_self
      have later : ∀ range ∈ ranges, Parsed range := fun range member =>
        parsed range (List.mem_cons_of_mem _ member)
      rw [streamedRanges] at sent
      split at sent
      case h_1 => cases sent
      case h_2 firstPart after ended =>
        have patient := rangeLoop_mono (Nat.le_add_right rounds (2 ^ 31)) ended
        obtain ⟨rest, restSent, rfl⟩ := Option.map_eq_some_iff.mp sent
        rw [List.flatMap_cons]
        by_cases within : Within content.length range
        · obtain ⟨_, good, same⟩ := rangeLoop_within good first within known
            (Nat.le_add_left (2 ^ 31) rounds)
          rw [patient, Option.some.injEq, Prod.mk.injEq] at same
          rw [← same.2] at good
          obtain ⟨streamable, isRest⟩ := ih good later restSent
          exact ⟨.inl ⟨within, streamable⟩, by rw [same.1, isRest]⟩
        · by_cases behind : EndsBehind content.length seekLimit range
          · obtain ⟨_, failed, same⟩ := rangeLoop_behind good first behind
              (Nat.le_add_left (2 ^ 31) rounds)
            rw [patient, Option.some.injEq, Prod.mk.injEq] at same
            rw [← same.2] at failed
            cases ranges with
            | nil =>
                cases restSent
                exact ⟨.inr ⟨behind, rfl⟩, by rw [same.1, List.flatMap_nil]⟩
            | cons next ranges =>
                rw [streamedRanges, seekg_failed failed, rangeLoop_failed
                  (later next List.mem_cons_self).len_pos.ne] at restSent
                cases restSent
          · rw [rangeLoop_endless good first within behind] at ended
            cases ended

end Ranges

/-! ## The ranges from the cache -/

/-- A range whose begin is no more than an `int` before the end of a file, or less than that
behind it. -/
def Cacheable (length : Nat) (range : ContentRange) : Prop :=
  if range.beg < length then length - range.beg < 2 ^ 31 else toInt (length - range.beg) ≤ 0

section Cached

variable {fileCacheBuf : List UInt8} {range : ContentRange}

/-- Such a range is sent as it is asked for. -/
theorem cachedRange_eq (parsed : Parsed range) (cacheable : Cacheable fileCacheBuf.length range) :
    cachedRange fileCacheBuf range = some (part fileCacheBuf range) := by
  obtain ⟨low, positive⟩ := parsed
  rw [Cacheable] at cacheable
  rw [cachedRange, part]
  by_cases inside : range.beg < fileCacheBuf.length
  · rw [if_pos inside] at cacheable
    have rest : toInt (fileCacheBuf.length - range.beg) = fileCacheBuf.length - range.beg :=
      toInt_of_bounds (by omega) cacheable
    simp only [rest]
    rw [if_neg (by omega)]
    by_cases shorter : range.len < fileCacheBuf.length - range.beg
    · rw [if_pos shorter, toInt_of_bounds (by omega) (by omega), sendContent,
        if_neg (by omega), if_pos ⟨low, by omega⟩]
    · have all : (fileCacheBuf.drop range.beg.toNat).take range.len.toNat =
          (fileCacheBuf.drop range.beg.toNat).take
            ((fileCacheBuf.length : Int) - range.beg).toNat := by
        rw [List.take_of_length_le, List.take_of_length_le]
        all_goals
          rw [List.length_drop]
          omega
      rw [if_neg shorter, rest, sendContent, if_neg (by omega), if_pos ⟨low, by omega⟩, all]
  · rw [if_neg inside] at cacheable
    have nothing : fileCacheBuf.drop range.beg.toNat = [] :=
      List.drop_eq_nil_of_le (by omega)
    rw [if_pos cacheable, nothing, List.take_nil]

/-- Of every other range nothing is sent, or octets behind the file are read. -/
theorem cachedRange_ne (fits : fileCacheBuf.length < 2 ^ 32) (parsed : Parsed range)
    (notCacheable : ¬Cacheable fileCacheBuf.length range) :
    cachedRange fileCacheBuf range = none ∨
      cachedRange fileCacheBuf range = some [] ∧ 0 < (part fileCacheBuf range).length := by
  obtain ⟨low, positive⟩ := parsed
  rw [Cacheable] at notCacheable
  rw [cachedRange, part]
  by_cases inside : range.beg < fileCacheBuf.length
  · rw [if_pos inside] at notCacheable
    have wrapped : toInt (fileCacheBuf.length - range.beg) ≤ 0 := by
      rw [toInt]
      omega
    refine .inr ⟨by rw [if_pos wrapped], ?_⟩
    rw [List.length_take, List.length_drop]
    omega
  · rw [if_neg inside] at notCacheable
    have bound := toInt_lt (fileCacheBuf.length - range.beg)
    have least : 0 < if range.len < toInt (fileCacheBuf.length - range.beg) then range.len
        else toInt (fileCacheBuf.length - range.beg) := by
      split <;> omega
    have most : (if range.len < toInt (fileCacheBuf.length - range.beg) then range.len
        else toInt (fileCacheBuf.length - range.beg)) < 2 ^ 31 := by
      split <;> omega
    simp only [if_neg notCacheable]
    rw [toInt_of_bounds (by omega) most, sendContent, if_neg (by omega), if_neg (by omega)]
    exact .inl rfl

/-- No more is sent of a range than is asked for. -/
theorem length_cachedRange {sent : List UInt8} (fits : fileCacheBuf.length < 2 ^ 32)
    (parsed : Parsed range) (isSent : cachedRange fileCacheBuf range = some sent) :
    sent.length ≤ (part fileCacheBuf range).length ∧
      (sent.length = (part fileCacheBuf range).length →
        Cacheable fileCacheBuf.length range) := by
  by_cases cacheable : Cacheable fileCacheBuf.length range
  · rw [cachedRange_eq parsed cacheable] at isSent
    cases isSent
    exact ⟨Nat.le_refl _, fun _ => cacheable⟩
  · rcases cachedRange_ne fits parsed cacheable with nothing | ⟨nothing, some'⟩
    · rw [nothing] at isSent
      cases isSent
    · rw [nothing] at isSent
      cases isSent
      rw [List.length_nil]
      exact ⟨by omega, fun same => by omega⟩

/-- Ranges that can be cached are sent as they are asked for. -/
theorem cachedRanges_eq {ranges : List ContentRange} (parsed : ∀ range ∈ ranges, Parsed range)
    (cacheable : ∀ range ∈ ranges, Cacheable fileCacheBuf.length range) :
    cachedRanges fileCacheBuf ranges = some (ranges.flatMap (part fileCacheBuf)) := by
  induction ranges with
  | nil => rfl
  | cons range ranges ih =>
      rw [cachedRanges, cachedRange_eq (parsed range List.mem_cons_self)
        (cacheable range List.mem_cons_self),
        ih (fun range member => parsed range (List.mem_cons_of_mem _ member))
          (fun range member => cacheable range (List.mem_cons_of_mem _ member)),
        List.flatMap_cons]

/-- No more is sent of some ranges than is asked for. -/
theorem length_cachedRanges {ranges : List ContentRange} {sent : List UInt8}
    (fits : fileCacheBuf.length < 2 ^ 32) (parsed : ∀ range ∈ ranges, Parsed range)
    (isSent : cachedRanges fileCacheBuf ranges = some sent) :
    sent.length ≤ (ranges.flatMap (part fileCacheBuf)).length ∧
      (sent.length = (ranges.flatMap (part fileCacheBuf)).length →
        ∀ range ∈ ranges, Cacheable fileCacheBuf.length range) := by
  induction ranges generalizing sent with
  | nil =>
      cases isSent
      exact ⟨Nat.le_refl _, fun _ range member => absurd member List.not_mem_nil⟩
  | cons range ranges ih =>
      rw [cachedRanges] at isSent
      split at isSent
      case h_2 => cases isSent
      case h_1 first rest firstSent restSent =>
        cases isSent
        obtain ⟨firstBound, firstAll⟩ :=
          length_cachedRange fits (parsed range List.mem_cons_self) firstSent
        obtain ⟨restBound, restAll⟩ :=
          ih (fun range member => parsed range (List.mem_cons_of_mem _ member)) restSent
        rw [List.flatMap_cons, List.length_append, List.length_append]
        refine ⟨by omega, fun same range member => ?_⟩
        rcases List.mem_cons.mp member with rfl | later
        · exact firstAll (by omega)
        · exact restAll (by omega) range later

end Cached

/-! ## What is parsed -/

/-- A number without a sign is not negative. -/
theorem atoll_nonneg {text : List UInt8} (unsigned : 0x2d ∉ text) : 0 ≤ atoll text := by
  rw [atoll]
  simp only
  split
  case h_1 rest begins =>
    exact absurd ((List.dropWhile_sublist isSpace).mem (begins ▸ List.mem_cons_self)) unsigned
  case h_2 => omega
  case h_3 => omega

theorem mem_of_mem_strtrim {text : List UInt8} {ch : UInt8} (member : ch ∈ strtrim text) :
    ch ∈ text := by
  rw [strtrim] at member
  split at member
  · exact member
  · split at member
    · exact absurd member List.not_mem_nil
    · exact mem_of_mem_trimmed member

/-- The begin of a range is not negative. -/
theorem contentRange_nonneg (length : Int) (strRange : List UInt8) :
    0 ≤ (contentRange length strRange).beg := by
  rw [contentRange]
  simp only
  split
  · refine atoll_nonneg fun member => ?_
    have before := List.mem_takeWhile_imp (mem_of_mem_strtrim member)
    exact of_decide_eq_true before rfl
  · exact Int.le_refl 0

theorem parsed_add {length : Int} {strRange : List UInt8} {parsed result : Ranges}
    (added : parsed.add length strRange = some result)
    (before : ∀ range ∈ parsed.ranges, Parsed range) :
    ∀ range ∈ result.ranges, Parsed range := by
  rw [Ranges.add] at added
  split at added
  case isTrue ordered =>
    split at added
    case isTrue =>
      cases added
      intro range member
      rcases List.mem_append.mp member with earlier | last
      · exact before range earlier
      · rw [List.mem_singleton.mp last]
        refine ⟨contentRange_nonneg length strRange, ?_⟩
        have isLen : (contentRange length strRange).len =
            (contentRange length strRange).finish - (contentRange length strRange).beg + 1 := rfl
        omega
    case isFalse => cases added
  case isFalse =>
    cases added
    exact before

theorem parsed_rangesLoop {length : Int} {field strRange : List UInt8} {parsed result : Ranges}
    (looped : rangesLoop length strRange parsed field = some result)
    (before : ∀ range ∈ parsed.ranges, Parsed range) :
    ∀ range ∈ result.ranges, Parsed range := by
  induction field generalizing strRange parsed with
  | nil => exact parsed_add looped before
  | cons ch field ih =>
      rw [rangesLoop] at looped
      split at looped
      case isTrue =>
        cases added : parsed.add length strRange with
        | none =>
            simp only [added] at looped
            cases looped
        | some next =>
            simp only [added] at looped
            exact ih looped (parsed_add added before)
      case isFalse => exact ih looped before

/-- Every range that is parsed begins in front of its end, and not before the file. -/
theorem parsed_parseRanges {length : Int} {field : List UInt8} {parsed : Ranges}
    (isParsed : parseRanges length field = some parsed) :
    ∀ range ∈ parsed.ranges, Parsed range := by
  rw [parseRanges] at isParsed
  have none' : ∀ range ∈ ([] : List ContentRange), Parsed range :=
    fun range member => absurd member List.not_mem_nil
  split at isParsed
  · cases isParsed
    exact none'
  · exact parsed_rangesLoop isParsed none'

/-! ## Both branches -/

section Branches

variable {system : FileSystem} {request : FileRequest} {file : ServedFile} {parsed : Ranges}

/-- Ranges that both branches send. -/
def RangesServable (system : FileSystem) (file : ServedFile) (parsed : Ranges) : Prop :=
  Streamable file.content.length system.seekLimit parsed.ranges ∧
    ∀ range ∈ parsed.ranges, Cacheable file.content.length range

/-- Bodies that both branches send. -/
def BodyServable (system : FileSystem) (request : FileRequest) (file : ServedFile)
    (parsed : Ranges) : Prop :=
  request.method = .head ∨
    if cString request.range = [] then file.content.length < 2 ^ 31
    else RangesServable system file parsed

/-- The body without ranges is the file, if its length fits into an `int`. -/
theorem wholeBody_iff : (∃ rounds body, wholeLoop file.content rounds Stream.opened [] = some body ∧
      sendContent file.content 0 (toInt file.content.length) = some body) ↔
    file.content.length < 2 ^ 31 := by
  have fits := file.fits
  have complete (rounds : Nat) : wholeLoop file.content (rounds + (file.content.length + 1) + 1)
      Stream.opened [] = some file.content :=
    wholeLoop_complete (by omega)
  constructor
  case mp =>
    rintro ⟨rounds, body, streamed, cached⟩
    by_contra tooLong
    have isContent : wholeLoop file.content (rounds + (file.content.length + 1) + 1)
        Stream.opened [] = some body := wholeLoop_mono (by omega) streamed
    rw [complete rounds] at isContent
    cases isContent
    have wrapped : toInt file.content.length ≤ 0 := by
      rw [toInt]
      omega
    rw [sendContent, if_pos wrapped] at cached
    have isEmpty : ([] : List UInt8).length = file.content.length :=
      congrArg List.length (Option.some.inj cached)
    rw [List.length_nil] at isEmpty
    omega
  case mpr =>
    intro small
    refine ⟨_, file.content, complete 0, ?_⟩
    rw [sendContent, toInt_of_bounds (by omega) (by omega)]
    split
    case isTrue notPositive =>
      have empty : file.content = [] := List.length_eq_zero_iff.mp (by omega)
      rw [empty]
    case isFalse positive =>
      rw [if_pos ⟨Int.le_refl 0, by omega⟩, Int.toNat_natCast, Int.toNat_zero, List.drop_zero,
        List.take_length]

/-- The body of some ranges is the same from both branches, if both send them. -/
theorem rangesBody_iff (known : (file.content.length : Int) ≤ system.seekLimit)
    (ranges : ∀ range ∈ parsed.ranges, Parsed range) :
    (∃ rounds body,
      streamedRanges file.content system.seekLimit rounds Stream.opened parsed.ranges =
          some body ∧
        cachedRanges file.content parsed.ranges = some body) ↔
      RangesServable system file parsed := by
  constructor
  case mp =>
    rintro ⟨rounds, body, streamed, cached⟩
    obtain ⟨streamable, rfl⟩ := streamedRanges_some rfl ranges known streamed
    exact ⟨streamable, (length_cachedRanges file.fits ranges cached).2 rfl⟩
  case mpr =>
    rintro ⟨streamable, cacheable⟩
    exact ⟨2 ^ 31, _, streamedRanges_eq rfl ranges known streamable (Nat.le_refl _),
      cachedRanges_eq ranges cacheable⟩

theorem body_iff (known : (file.content.length : Int) ≤ system.seekLimit)
    (ranges : ∀ range ∈ parsed.ranges, Parsed range) :
    (∃ rounds body, streamedBody system request file parsed rounds = some body ∧
      cachedBody request file parsed = some body) ↔
      BodyServable system request file parsed := by
  unfold streamedBody cachedBody BodyServable
  by_cases head : request.method = .head
  · simp only [if_pos head]
    exact ⟨fun _ => .inl head, fun _ => ⟨0, [], rfl, rfl⟩⟩
  · simp only [if_neg head]
    rw [or_iff_right head]
    by_cases noRange : cString request.range = []
    · simp only [if_pos noRange]
      exact wholeBody_iff
    · simp only [if_neg noRange]
      exact rangesBody_iff known ranges

/-- The file is answered alike from the cache and from a stream, whose loops come to an end. -/
def ServedAlike (system : FileSystem) (request : FileRequest) (file : ServedFile) : Prop :=
  ∃ rounds reply, streamedResponse system request file rounds = some reply ∧
    cachedResponse system request file = some reply

/-- The client has the file, or it asks for parts that both branches send. -/
def Servable (system : FileSystem) (request : FileRequest) (file : ServedFile) : Prop :=
  notModified system request file = true ∨
    ∃ parsed, parseRanges file.content.length request.range = some parsed ∧
      BodyServable system request file parsed

end Branches

/-- Both branches give the same answer exactly for what both can send. -/
theorem servedAlike_iff (system : FileSystem) (request : FileRequest) (file : ServedFile)
    (known : (file.content.length : Int) ≤ system.seekLimit) :
    ServedAlike system request file ↔ Servable system request file := by
  unfold ServedAlike Servable streamedResponse cachedResponse response
  by_cases has : notModified system request file = true
  · simp only [if_pos has]
    exact ⟨fun _ => .inl has, fun _ => ⟨0, _, rfl, rfl⟩⟩
  · simp only [if_neg has]
    rw [or_iff_right has]
    cases isParsed : parseRanges file.content.length request.range with
    | none =>
        constructor
        · rintro ⟨_, _, nothing, _⟩
          cases nothing
        · rintro ⟨_, nothing, _⟩
          cases nothing
    | some parsed =>
        have same := @body_iff system request file parsed known (parsed_parseRanges isParsed)
        constructor
        case mp =>
          rintro ⟨rounds, reply, streamed, cached⟩
          obtain ⟨body, isStreamed, rfl⟩ := Option.map_eq_some_iff.mp streamed
          obtain ⟨body', isCached, sameReply⟩ := Option.map_eq_some_iff.mp cached
          have sameBody : body' = body := congrArg FileReply.body sameReply
          exact ⟨parsed, rfl, same.mp ⟨rounds, body, isStreamed, sameBody ▸ isCached⟩⟩
        case mpr =>
          rintro ⟨_, isParsed', servable⟩
          cases isParsed'
          obtain ⟨rounds, body, streamed, cached⟩ := same.mpr servable
          exact ⟨rounds, _, Option.map_eq_some_iff.mpr ⟨body, streamed, rfl⟩,
            Option.map_eq_some_iff.mpr ⟨body, cached, rfl⟩⟩

/-! ## A file of three octets -/

def trialSystem : FileSystem where
  responseHeader := []
  typeTable _ := none
  gmtDate _ := []
  now := 0
  seekLimit := 2 ^ 63 - 1

def trialFile : ServedFile where
  content := octets "abc"
  etag := []
  tLastModifyTime := 0
  fits := by decide

def trialRequest (range : String) : FileRequest where
  method := .get
  resource := octets "/abc.txt"
  cacheControl := []
  pragma := []
  ifModifiedSince := []
  ifNoneMatch := []
  range := octets range

theorem servedAlike_trial : (trialFile.content.length : Int) ≤ trialSystem.seekLimit ∧
    ServedAlike trialSystem (trialRequest "bytes=0-1") trialFile :=
  have known : (trialFile.content.length : Int) ≤ trialSystem.seekLimit := by decide
  ⟨known, (servedAlike_iff trialSystem (trialRequest "bytes=0-1") trialFile known).mpr
    (.inr ⟨⟨[⟨0, 1, 2⟩], octets "bytes 0-1/2,", 2⟩, by decide, .inr (by
      rw [if_neg (by decide)]
      refine ⟨.inl ⟨⟨by decide, by decide⟩, trivial⟩, fun range member => ?_⟩
      rw [List.mem_singleton.mp member]
      exact (by decide : (3 : Int) - 0 < 2 ^ 31))⟩)⟩

/-- Behind a range that ends behind the file, a stream never comes to the end of another. -/
theorem not_servedAlike : ¬ServedAlike trialSystem (trialRequest "bytes=0-9,0-1") trialFile := by
  rintro ⟨rounds, reply, streamed, -⟩
  have isNew : ¬notModified trialSystem (trialRequest "bytes=0-9,0-1") trialFile = true := by
    decide
  have isParsed : parseRanges trialFile.content.length (trialRequest "bytes=0-9,0-1").range =
      some ⟨[⟨0, 9, 10⟩, ⟨0, 1, 2⟩], octets "bytes 0-9/10,0-1/2,", 12⟩ := by
    decide
  rw [streamedResponse, response, if_neg isNew, isParsed] at streamed
  obtain ⟨body, isStreamed, -⟩ := Option.map_eq_some_iff.mp streamed
  rw [streamedBody, if_neg (by decide), if_neg (by decide +kernel)] at isStreamed
  have parsed := parsed_parseRanges isParsed
  rcases (streamedRanges_some rfl parsed (by decide) isStreamed).1 with ⟨within, -⟩ | ⟨-, last⟩
  · exact absurd within.2 (by decide)
  · cases last

end WebDoc

end Http1

end HeapHttpd
