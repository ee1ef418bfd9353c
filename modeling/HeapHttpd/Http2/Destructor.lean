import HeapHttpd.Http2.Conn

/-!
# The end of a connection

The loop of `~CHttp2`, and of the constructor where it fails, that deletes the streams: its
counter has no initial value, and what it reads it inserts.
-/

namespace HeapHttpd

namespace Http2

/-- The loop's counter, `m_stream_list` with its null pointers, and the pointers deleted so far. -/
structure Cleanup where
  x : Int32
  streamList : Std.TreeMap UInt32 (Option StreamPtr)
  deleted : List StreamPtr

namespace Cleanup

/-- `x < m_stream_list.size()`, which compares unsigned numbers. -/
def inside (cleanup : Cleanup) : Bool :=
  (cleanup.x.toInt % 2 ^ 64).toNat < cleanup.streamList.size

/-- The body of the loop.  `m_stream_list[x]` is a new null pointer where there is no entry, and
to delete a null pointer does nothing. -/
def deleteStream (cleanup : Cleanup) : Cleanup :=
  let streamInd := cleanup.x.toUInt32
  { cleanup with
    streamList := cleanup.streamList.insert streamInd none
    deleted := cleanup.deleted ++ cleanup.streamList[streamInd]?.join.toList }

/-- `x++`, which must not overflow. -/
def increment (cleanup : Cleanup) : Outcome Cleanup :=
  if cleanup.x = Int32.maxValue then .fault else .ok { cleanup with x := cleanup.x + 1 }

/-- The loop, if so many passes are enough. -/
def run : Nat → Cleanup → Option (Outcome Cleanup)
  | 0, _ => none
  | passes + 1, cleanup =>
      if cleanup.inside then
        match cleanup.deleteStream.increment with
        | .ok next => run passes next
        | .err => some .err
        | .fault => some .fault
      else some (.ok cleanup)

end Cleanup

/-- The streams of a list. -/
def streamsOf (streamList : Std.TreeMap UInt32 (Option StreamPtr)) : List StreamPtr :=
  streamList.toList.filterMap Prod.snd

/-- With `x0` in the counter the loop comes to an end, and it deletes every stream of the list
once and nothing else. -/
def Deletes (x0 : Int32) (streamList : Std.TreeMap UInt32 (Option StreamPtr)) : Prop :=
  ∃ passes final, Cleanup.run passes ⟨x0, streamList, []⟩ = some (.ok final) ∧
    final.deleted.Perm (streamsOf streamList)

/-- The entries of a list from one number to another one. -/
def entriesIn (streamList : Std.TreeMap UInt32 (Option StreamPtr)) (low high : Nat) :
    List (UInt32 × Option StreamPtr) :=
  streamList.toList.filter fun entry => low ≤ entry.1.toNat ∧ entry.1.toNat < high

/-- The counter starts neither below 0 nor above a stream, and up to each stream the start and the
entries from it on are fewer than the list has.  Up to the largest `int` they are not. -/
structure Sweeps (x0 : Int32) (streamList : Std.TreeMap UInt32 (Option StreamPtr)) : Prop where
  reaches : ∀ (streamInd : UInt32) stream, streamList[streamInd]? = some (some stream) →
    0 ≤ x0.toInt ∧ x0.toInt.toNat ≤ streamInd.toNat ∧
      x0.toInt.toNat + (entriesIn streamList x0.toInt.toNat streamInd.toNat).length <
        streamList.size
  ends : 0 ≤ x0.toInt →
    streamList.size ≤
      x0.toInt.toNat + (entriesIn streamList x0.toInt.toNat (2 ^ 31 - 1)).length

variable {streamList : Std.TreeMap UInt32 (Option StreamPtr)}

/-! ## Entries between numbers -/

theorem toList_nodup (streamList : Std.TreeMap UInt32 (Option StreamPtr)) :
    streamList.toList.Nodup := by
  have distinct := Std.TreeMap.distinct_keys_toList (t := streamList)
  refine distinct.imp ?_
  rintro entry other differs rfl
  simp at differs

theorem mem_entriesIn {low high : Nat} {streamInd : UInt32} {pointer : Option StreamPtr} :
    (streamInd, pointer) ∈ entriesIn streamList low high ↔
      streamList[streamInd]? = some pointer ∧ low ≤ streamInd.toNat ∧ streamInd.toNat < high := by
  simp [entriesIn, Std.TreeMap.mem_toList_iff_getElem?_eq_some]

theorem entriesIn_nodup (low high : Nat) : (entriesIn streamList low high).Nodup :=
  (toList_nodup streamList).filter _

theorem entriesIn_self (low : Nat) : entriesIn streamList low low = [] := by
  rw [entriesIn, List.filter_eq_nil_iff]
  simp

/-- One number more adds the entry under it. -/
theorem entriesIn_succ (streamList : Std.TreeMap UInt32 (Option StreamPtr)) {low : Nat}
    {streamInd : UInt32} (inside : low ≤ streamInd.toNat) :
    (entriesIn streamList low (streamInd.toNat + 1)).Perm
      (entriesIn streamList low streamInd.toNat ++
        streamList[streamInd]?.toList.map (streamInd, ·)) := by
  have disjoint : ∀ entry ∈ entriesIn streamList low streamInd.toNat,
      ∀ other ∈ streamList[streamInd]?.toList.map (streamInd, ·), entry ≠ other := by
    rintro ⟨first, pointer⟩ member other otherMember rfl
    have below := (mem_entriesIn.mp member).2.2
    simp only [List.mem_map, Prod.mk.injEq] at otherMember
    obtain ⟨_, _, rfl, _⟩ := otherMember
    omega
  have single : (streamList[streamInd]?.toList.map (streamInd, ·)).Nodup := by
    cases streamList[streamInd]? <;> simp
  refine (List.perm_ext_iff_of_nodup (entriesIn_nodup low _)
    (List.nodup_append.mpr ⟨entriesIn_nodup low _, single, disjoint⟩)).mpr ?_
  rintro ⟨first, pointer⟩
  simp only [List.mem_append, mem_entriesIn, List.mem_map, Option.mem_toList,
    Prod.mk.injEq]
  constructor
  · rintro ⟨listed, above, below⟩
    by_cases same : first = streamInd
    · subst same
      exact .inr ⟨pointer, listed, rfl, rfl⟩
    · have differs : first.toNat ≠ streamInd.toNat := fun equal => same (UInt32.toNat_inj.mp equal)
      exact .inl ⟨listed, above, by omega⟩
  · rintro (⟨listed, above, below⟩ | ⟨_, listed, rfl, rfl⟩)
    · exact ⟨listed, above, by omega⟩
    · exact ⟨listed, inside, by omega⟩

theorem entriesIn_length_mono (streamList : Std.TreeMap UInt32 (Option StreamPtr)) (low : Nat)
    {high high' : Nat} (mono : high ≤ high') :
    (entriesIn streamList low high).length ≤ (entriesIn streamList low high').length := by
  have sublist : (entriesIn streamList low high).Sublist (entriesIn streamList low high') := by
    refine List.monotone_filter_right _ ?_
    intro entry within
    simp only [decide_eq_true_eq] at within ⊢
    omega
  exact sublist.length_le

/-- The streams between two numbers are all streams exactly if none is elsewhere. -/
theorem perm_streamsOf_iff {low high : Nat} :
    ((entriesIn streamList low high).filterMap Prod.snd).Perm (streamsOf streamList) ↔
      ∀ (streamInd : UInt32) stream, streamList[streamInd]? = some (some stream) →
        low ≤ streamInd.toNat ∧ streamInd.toNat < high := by
  let within : UInt32 × Option StreamPtr → Bool :=
    fun entry => low ≤ entry.1.toNat ∧ entry.1.toNat < high
  let elsewhere := (streamList.toList.filter (! within ·)).filterMap Prod.snd
  have parts : ((entriesIn streamList low high).filterMap Prod.snd ++ elsewhere).Perm
      (streamsOf streamList) := by
    rw [← List.filterMap_append]
    exact (List.filter_append_perm within streamList.toList).filterMap _
  have allWithin : elsewhere = [] ↔ ∀ (streamInd : UInt32) stream,
      streamList[streamInd]? = some (some stream) →
        low ≤ streamInd.toNat ∧ streamInd.toNat < high := by
    simp only [elsewhere, List.filterMap_eq_nil_iff, List.mem_filter, Prod.forall,
      Std.TreeMap.mem_toList_iff_getElem?_eq_some, within]
    constructor
    · intro none' streamInd stream listed
      by_contra outside
      have isNone := none' streamInd (some stream)
        ⟨listed, by rw [Bool.not_eq_true', decide_eq_false_iff_not]; exact outside⟩
      simp at isNone
    · rintro inside streamInd pointer ⟨listed, outside⟩
      cases pointer with
      | none => rfl
      | some stream => simp [inside streamInd stream listed] at outside
  rw [← allWithin]
  constructor
  · intro same
    have lengths := (parts.trans same.symm).length_eq
    rw [List.length_append] at lengths
    exact List.length_eq_zero_iff.mp (by omega)
  · intro empty
    rwa [empty, List.append_nil] at parts

theorem entriesIn_length_le_size (streamList : Std.TreeMap UInt32 (Option StreamPtr))
    (low high : Nat) :
    (entriesIn streamList low high).length ≤ streamList.size := by
  rw [← Std.TreeMap.length_toList]
  exact List.length_filter_le _ _

theorem entriesIn_length_succ (streamList : Std.TreeMap UInt32 (Option StreamPtr))
    {low high : Nat} (ordered : low ≤ high) (bound : high < 2 ^ 32) :
    (entriesIn streamList low (high + 1)).length ≤
      (entriesIn streamList low high).length + 1 := by
  have number : (UInt32.ofNat high).toNat = high := UInt32.toNat_ofNat_of_lt' bound
  have within : low ≤ (UInt32.ofNat high).toNat := number.symm ▸ ordered
  have added := (entriesIn_succ streamList within).length_eq
  rw [number, List.length_append, List.length_map] at added
  have single : streamList[UInt32.ofNat high]?.toList.length ≤ 1 := by
    cases streamList[UInt32.ofNat high]? <;> simp
  omega

theorem entriesIn_length_le (streamList : Std.TreeMap UInt32 (Option StreamPtr)) (high : Nat)
    (bound : high ≤ 2 ^ 32) :
    (entriesIn streamList 0 high).length ≤ high := by
  induction high with
  | zero => simp [entriesIn_self]
  | succ high hyp =>
      have before := hyp (by omega)
      have added := entriesIn_length_succ streamList (Nat.zero_le high) bound
      omega

theorem length_entriesIn_of_all {low high : Nat}
    (within : ∀ (streamInd : UInt32) pointer, streamList[streamInd]? = some pointer →
      low ≤ streamInd.toNat ∧ streamInd.toNat < high) :
    (entriesIn streamList low high).length = streamList.size := by
  rw [← Std.TreeMap.length_toList, entriesIn, List.filter_eq_self.mpr]
  rintro ⟨streamInd, pointer⟩ member
  rw [Std.TreeMap.mem_toList_iff_getElem?_eq_some] at member
  exact decide_eq_true (within streamInd pointer member)

theorem size_le (streamList : Std.TreeMap UInt32 (Option StreamPtr)) :
    streamList.size ≤ 2 ^ 32 := by
  have all : (entriesIn streamList 0 (2 ^ 32)).length = streamList.size :=
    length_entriesIn_of_all fun streamInd _ _ => ⟨Nat.zero_le _, streamInd.toNat_lt⟩
  rw [← all]
  exact entriesIn_length_le streamList (2 ^ 32) le_rfl

/-! ## One pass -/

theorem toNat_toUInt32 {x : Int32} (nonneg : 0 ≤ x.toInt) :
    x.toUInt32.toNat = x.toInt.toNat :=
  Int32.toNat_toUInt32_of_le (Int32.le_iff_toInt_le.mpr nonneg)

theorem lt_maxValue {x : Int32} (differs : x ≠ Int32.maxValue) : x.toInt < 2 ^ 31 - 1 := by
  have bound := x.toInt_lt
  have notMax : x.toInt ≠ 2 ^ 31 - 1 := fun same => differs (Int32.toInt_inj.mp same)
  omega

theorem toInt_add_one {x : Int32} (differs : x ≠ Int32.maxValue) :
    (x + 1).toInt = x.toInt + 1 := by
  have low := x.le_toInt
  have high := lt_maxValue differs
  rw [Int32.toInt_add, Int32.toInt_one, Int.bmod_eq_of_le] <;> omega

namespace Cleanup

theorem inside_iff {cleanup : Cleanup} (nonneg : 0 ≤ cleanup.x.toInt) :
    cleanup.inside ↔ cleanup.x.toInt.toNat < cleanup.streamList.size := by
  have high := cleanup.x.toInt_lt
  have same : cleanup.x.toInt % 2 ^ 64 = cleanup.x.toInt := by omega
  rw [inside, decide_eq_true_eq, same]

/-- A negative counter is larger than every size. -/
theorem not_inside {cleanup : Cleanup} (negative : cleanup.x.toInt < 0) :
    ¬cleanup.inside := by
  have low := cleanup.x.le_toInt
  have bound := size_le cleanup.streamList
  have wraps : cleanup.x.toInt % 2 ^ 64 = cleanup.x.toInt + 2 ^ 64 := by omega
  rw [inside, decide_eq_true_eq, wraps]
  omega

/-- What the passes from `x0` on have done. -/
structure Swept (x0 : Nat) (streamList : Std.TreeMap UInt32 (Option StreamPtr))
    (cleanup : Cleanup) : Prop where
  start : x0 ≤ cleanup.x.toInt
  rest : ∀ streamInd : UInt32, cleanup.x.toInt.toNat ≤ streamInd.toNat →
    cleanup.streamList[streamInd]? = streamList[streamInd]?
  size : cleanup.streamList.size + (entriesIn streamList x0 cleanup.x.toInt.toNat).length + x0 =
    streamList.size + cleanup.x.toInt.toNat
  deleted : cleanup.deleted.Perm
    ((entriesIn streamList x0 cleanup.x.toInt.toNat).filterMap Prod.snd)

variable {x0 : Nat} {cleanup : Cleanup}

theorem Swept.nonneg (swept : Swept x0 streamList cleanup) : 0 ≤ cleanup.x.toInt := by
  have start := swept.start
  omega

theorem Swept.inside_iff (swept : Swept x0 streamList cleanup) :
    cleanup.inside ↔
      x0 + (entriesIn streamList x0 cleanup.x.toInt.toNat).length < streamList.size := by
  have size := swept.size
  have start := swept.start
  rw [Cleanup.inside_iff swept.nonneg]
  omega

theorem Swept.deleteStream (swept : Swept x0 streamList cleanup)
    (notLast : cleanup.x ≠ Int32.maxValue) :
    Swept x0 streamList { cleanup.deleteStream with x := cleanup.x + 1 } := by
  have start := swept.start
  have number := toNat_toUInt32 swept.nonneg
  have nextNumber : (cleanup.x + 1).toInt.toNat = cleanup.x.toUInt32.toNat + 1 := by
    rw [toInt_add_one notLast, number]
    omega
  have listed := swept.rest cleanup.x.toUInt32 number.ge
  have entries := entriesIn_succ streamList (show x0 ≤ cleanup.x.toUInt32.toNat by omega)
  constructor
  case start =>
    change (x0 : Int) ≤ (cleanup.x + 1).toInt
    rw [toInt_add_one notLast]
    omega
  case rest =>
    intro streamInd above
    change (cleanup.x + 1).toInt.toNat ≤ streamInd.toNat at above
    rw [nextNumber] at above
    have differs : cleanup.x.toUInt32 ≠ streamInd := by
      rintro rfl
      omega
    change (cleanup.streamList.insert cleanup.x.toUInt32 none)[streamInd]? = _
    rw [Std.TreeMap.getElem?_insert, if_neg (by simpa using differs)]
    exact swept.rest streamInd (by omega)
  case size =>
    have before := swept.size
    have lengths := entries.length_eq
    rw [List.length_append, List.length_map] at lengths
    change (cleanup.streamList.insert cleanup.x.toUInt32 none).size +
      (entriesIn streamList x0 (cleanup.x + 1).toInt.toNat).length + x0 =
        streamList.size + (cleanup.x + 1).toInt.toNat
    rw [nextNumber, lengths, Std.TreeMap.size_insert,
      Std.TreeMap.contains_eq_isSome_getElem?, listed]
    rw [← number] at before
    cases streamList[cleanup.x.toUInt32]? with
    | none => simp; omega
    | some pointer => simp; omega
  case deleted =>
    change (cleanup.deleted ++ cleanup.streamList[cleanup.x.toUInt32]?.join.toList).Perm
      ((entriesIn streamList x0 (cleanup.x + 1).toInt.toNat).filterMap Prod.snd)
    have before := swept.deleted
    rw [← number] at before
    have current : (streamList[cleanup.x.toUInt32]?.toList.map (cleanup.x.toUInt32, ·)).filterMap
        Prod.snd = streamList[cleanup.x.toUInt32]?.join.toList := by
      cases streamList[cleanup.x.toUInt32]? with
      | none => rfl
      | some pointer => cases pointer <;> rfl
    rw [nextNumber, listed, ← current]
    have after := entries.filterMap Prod.snd
    rw [List.filterMap_append] at after
    exact (before.append_right _).trans after.symm

/-! ## All passes -/

theorem run_inside (passes : Nat) (inside : cleanup.inside)
    (notLast : cleanup.x ≠ Int32.maxValue) :
    run (passes + 1) cleanup =
      run passes { cleanup.deleteStream with x := cleanup.x + 1 } := by
  have sameX : cleanup.deleteStream.x = cleanup.x := rfl
  rw [run, if_pos inside, increment, sameX, if_neg notLast]

theorem run_last (passes : Nat) (inside : cleanup.inside) (last : cleanup.x = Int32.maxValue) :
    run (passes + 1) cleanup = some .fault := by
  have sameX : cleanup.deleteStream.x = cleanup.x := rfl
  rw [run, if_pos inside, increment, sameX, if_pos last]

theorem run_not_inside (passes : Nat) (outside : ¬cleanup.inside) :
    run (passes + 1) cleanup = some (.ok cleanup) := by
  rw [run, if_neg outside]

/-- Every pass of a loop that has come to an end was inside, and the last comparison was not. -/
theorem Swept.run_ok {final : Cleanup} {passes : Nat} (swept : Swept x0 streamList cleanup)
    (ran : run passes cleanup = some (.ok final)) :
    Swept x0 streamList final ∧ ¬final.inside ∧
      ∀ number, cleanup.x.toInt.toNat ≤ number → number < final.x.toInt.toNat →
        x0 + (entriesIn streamList x0 number).length < streamList.size := by
  induction passes generalizing cleanup with
  | zero => cases ran
  | succ passes hyp =>
      by_cases inside : cleanup.inside
      · by_cases last : cleanup.x = Int32.maxValue
        · rw [run_last passes inside last] at ran
          cases ran
        · rw [run_inside passes inside last] at ran
          obtain ⟨finalSwept, outside, between⟩ := hyp (swept.deleteStream last) ran
          refine ⟨finalSwept, outside, ?_⟩
          intro number above below
          by_cases current : number = cleanup.x.toInt.toNat
          · rw [current]
            exact swept.inside_iff.mp inside
          · refine between number ?_ below
            have nonneg := swept.nonneg
            change (cleanup.x + 1).toInt.toNat ≤ number
            rw [toInt_add_one last]
            omega
      · rw [run_not_inside passes inside] at ran
        cases ran
        exact ⟨swept, inside, fun number above below => absurd above (by omega)⟩

/-- The loop comes to an end if the list is too short to reach the largest `int`. -/
theorem Swept.run_exists (swept : Swept x0 streamList cleanup)
    (ends : streamList.size ≤ x0 + (entriesIn streamList x0 (2 ^ 31 - 1)).length) :
    ∃ passes final, run passes cleanup = some (.ok final) := by
  induction left : 2 ^ 31 - 1 - cleanup.x.toInt.toNat generalizing cleanup with
  | zero =>
      have high := cleanup.x.toInt_lt
      have last : cleanup.x.toInt.toNat = 2 ^ 31 - 1 := by omega
      have outside : ¬cleanup.inside := by
        rw [swept.inside_iff, last]
        omega
      exact ⟨1, cleanup, run_not_inside 0 outside⟩
  | succ fewer hyp =>
      by_cases inside : cleanup.inside
      · have notLast : cleanup.x ≠ Int32.maxValue := by
          intro last
          have isMax : Int32.maxValue.toInt = 2 ^ 31 - 1 := rfl
          rw [last, isMax] at left
          omega
        have nonneg := swept.nonneg
        have nextLeft : 2 ^ 31 - 1 - (cleanup.x + 1).toInt.toNat = fewer := by
          rw [toInt_add_one notLast]
          omega
        obtain ⟨passes, final, ran⟩ := hyp (swept.deleteStream notLast) nextLeft
        exact ⟨passes + 1, final, by rw [run_inside passes inside notLast, ran]⟩
      · exact ⟨1, cleanup, run_not_inside 0 inside⟩

theorem swept_start (streamList : Std.TreeMap UInt32 (Option StreamPtr)) {start : Int32}
    (nonneg : 0 ≤ start.toInt) :
    Swept start.toInt.toNat streamList ⟨start, streamList, []⟩ := by
  constructor
  case start => exact (Int.toNat_of_nonneg nonneg).le
  case rest => exact fun _ _ => rfl
  case size => simp [entriesIn_self]
  case deleted => simp [entriesIn_self]

end Cleanup

theorem streamsOf_eq_nil_iff :
    streamsOf streamList = [] ↔
      ∀ (streamInd : UInt32) stream, streamList[streamInd]? ≠ some (some stream) := by
  simp only [streamsOf, List.filterMap_eq_nil_iff, Prod.forall,
    Std.TreeMap.mem_toList_iff_getElem?_eq_some]
  constructor
  · intro none' streamInd stream listed
    cases none' streamInd _ listed
  · intro none' streamInd pointer listed
    cases pointer with
    | none => rfl
    | some stream => exact absurd listed (none' streamInd stream)

/-- With a negative counter there is no pass. -/
theorem deletes_iff_of_neg {x0 : Int32} (negative : x0.toInt < 0) :
    Deletes x0 streamList ↔ streamsOf streamList = [] := by
  have outside : ¬(⟨x0, streamList, []⟩ : Cleanup).inside := Cleanup.not_inside negative
  constructor
  · rintro ⟨passes, final, ran, same⟩
    cases passes with
    | zero => cases ran
    | succ passes =>
        rw [Cleanup.run_not_inside passes outside] at ran
        cases ran
        exact List.nil_perm.mp same
  · intro none'
    exact ⟨1, _, Cleanup.run_not_inside 0 outside, by rw [none']⟩

theorem Deletes.sweeps {x0 : Int32} (deletes : Deletes x0 streamList) : Sweeps x0 streamList := by
  by_cases nonneg : 0 ≤ x0.toInt
  · obtain ⟨passes, final, ran, same⟩ := deletes
    obtain ⟨swept, outside, between⟩ := (Cleanup.swept_start streamList nonneg).run_ok ran
    rw [swept.inside_iff] at outside
    have within := perm_streamsOf_iff.mp (swept.deleted.symm.trans same)
    constructor
    case reaches =>
      intro streamInd stream listed
      obtain ⟨above, below⟩ := within streamInd stream listed
      exact ⟨nonneg, above, between streamInd.toNat above below⟩
    case ends =>
      intro _
      have high := final.x.toInt_lt
      have more := entriesIn_length_mono streamList x0.toInt.toNat
        (show final.x.toInt.toNat ≤ 2 ^ 31 - 1 by omega)
      omega
  · rw [deletes_iff_of_neg (Int.not_le.mp nonneg), streamsOf_eq_nil_iff] at deletes
    constructor
    case reaches => exact fun streamInd stream listed => absurd listed (deletes streamInd stream)
    case ends => exact fun isNonneg => absurd isNonneg nonneg

theorem Sweeps.deletes {x0 : Int32} (sweeps : Sweeps x0 streamList) : Deletes x0 streamList := by
  by_cases nonneg : 0 ≤ x0.toInt
  · have start := Cleanup.swept_start streamList nonneg
    obtain ⟨passes, final, ran⟩ := start.run_exists (sweeps.ends nonneg)
    obtain ⟨swept, outside, _⟩ := start.run_ok ran
    rw [swept.inside_iff] at outside
    refine ⟨passes, final, ran, swept.deleted.trans (perm_streamsOf_iff.mpr ?_)⟩
    intro streamInd stream listed
    obtain ⟨_, above, below⟩ := sweeps.reaches streamInd stream listed
    refine ⟨above, ?_⟩
    by_contra beyond
    have more := entriesIn_length_mono streamList x0.toInt.toNat
      (Nat.le_of_not_lt beyond)
    omega
  · rw [deletes_iff_of_neg (Int.not_le.mp nonneg), streamsOf_eq_nil_iff]
    intro streamInd stream listed
    exact nonneg (sweeps.reaches streamInd stream listed).1

/-- The destructor deletes every stream once exactly if its counter sweeps over the list. -/
theorem deletes_iff_sweeps (x0 : Int32)
    (streamList : Std.TreeMap UInt32 (Option StreamPtr)) :
    Deletes x0 streamList ↔ Sweeps x0 streamList :=
  ⟨Deletes.sweeps, Sweeps.deletes⟩

/-- One stream, and a counter that starts where it is listed: the loop ends before its first
pass. -/
theorem not_deletes : ¬Deletes 1 ((∅ : Std.TreeMap UInt32 (Option StreamPtr)).insert 1
    (some ⟨1, 0⟩)) := by
  rintro ⟨passes, final, ran, same⟩
  cases passes with
  | zero => cases ran
  | succ passes =>
      rw [Cleanup.run_not_inside passes (by decide)] at ran
      cases ran
      have none' := List.nil_perm.mp same
      revert none'
      decide

/-! ## Lists without null pointers -/

/-- In the constructor no stream is listed yet. -/
theorem sweeps_of_size_eq_zero (x0 : Int32) (empty : streamList.size = 0) :
    Sweeps x0 streamList := by
  constructor
  case reaches =>
    intro streamInd stream listed
    rw [← Std.TreeMap.mem_toList_iff_getElem?_eq_some] at listed
    rw [← Std.TreeMap.length_toList] at empty
    have member := List.length_pos_of_mem listed
    omega
  case ends =>
    intro _
    omega

/-- From 0 on there is no gap that the list is too short for. -/
theorem sweeps_zero
    (small : ∀ (streamInd : UInt32) pointer, streamList[streamInd]? = some pointer →
      streamInd.toNat < 2 ^ 31 - 1) : Sweeps 0 streamList := by
  have isZero : (0 : Int32).toInt.toNat = 0 := rfl
  constructor
  case reaches =>
    intro streamInd stream listed
    have added := (entriesIn_succ streamList streamInd.toNat.zero_le).length_eq
    have bound := entriesIn_length_le_size streamList 0 (streamInd.toNat + 1)
    rw [listed, List.length_append] at added
    simp only [Option.toList_some, List.map_cons, List.map_nil, List.length_singleton] at added
    rw [isZero]
    exact ⟨le_rfl, streamInd.toNat.zero_le, by omega⟩
  case ends =>
    intro _
    rw [isZero, length_entriesIn_of_all
      fun streamInd pointer listed => ⟨streamInd.toNat.zero_le, small streamInd pointer listed⟩]
    omega

theorem exists_stream (present : ∀ streamInd : UInt32, streamList[streamInd]? ≠ some none)
    (nonempty : streamList.size ≠ 0) :
    ∃ (streamInd : UInt32) (stream : StreamPtr), streamList[streamInd]? = some (some stream) := by
  rw [← Std.TreeMap.length_toList, ← Nat.pos_iff_ne_zero] at nonempty
  obtain ⟨⟨streamInd, pointer⟩, member⟩ := List.exists_mem_of_length_pos nonempty
  rw [Std.TreeMap.mem_toList_iff_getElem?_eq_some] at member
  cases pointer with
  | none => exact absurd member (present streamInd)
  | some stream => exact ⟨streamInd, stream, member⟩

/-- Where no pointer is null, the only right start is 0. -/
theorem deletes_iff_of_streams {x0 : Int32}
    (present : ∀ streamInd : UInt32, streamList[streamInd]? ≠ some none) :
    Deletes x0 streamList ↔
      streamList.size = 0 ∨
        (x0 = 0 ∧ ∀ (streamInd : UInt32) pointer, streamList[streamInd]? = some pointer →
          streamInd.toNat < 2 ^ 31 - 1) := by
  constructor
  · intro deletes
    by_cases empty : streamList.size = 0
    · exact .inl empty
    right
    obtain ⟨streamInd, stream, listed⟩ := exists_stream present empty
    have nonneg := (deletes.sweeps.reaches streamInd stream listed).1
    obtain ⟨passes, final, ran, same⟩ := deletes
    obtain ⟨swept, _, between⟩ := (Cleanup.swept_start streamList nonneg).run_ok ran
    have streamsWithin := perm_streamsOf_iff.mp (swept.deleted.symm.trans same)
    have within : ∀ (streamInd : UInt32) pointer, streamList[streamInd]? = some pointer →
        x0.toInt.toNat ≤ streamInd.toNat ∧ streamInd.toNat < final.x.toInt.toNat := by
      intro streamInd pointer listed
      cases pointer with
      | none => exact absurd listed (present streamInd)
      | some stream => exact streamsWithin streamInd stream listed
    have finalBound := final.x.toInt_lt
    constructor
    · -- The last pass was inside with every entry but one gone past.
      obtain ⟨above, below⟩ := within streamInd _ listed
      obtain ⟨number, isFinal⟩ : ∃ number, final.x.toInt.toNat = number + 1 :=
        ⟨final.x.toInt.toNat - 1, by omega⟩
      have inside := between number (by change x0.toInt.toNat ≤ number; omega) (by omega)
      have added := entriesIn_length_succ streamList
        (show x0.toInt.toNat ≤ number by omega) (by omega)
      rw [← isFinal, length_entriesIn_of_all within] at added
      have isZero : x0.toInt = 0 := by omega
      exact Int32.toInt_inj.mp isZero
    · intro streamInd pointer listed
      have below := (within streamInd pointer listed).2
      omega
  · rintro (empty | ⟨rfl, small⟩)
    · exact (sweeps_of_size_eq_zero x0 empty).deletes
    · exact (sweeps_zero small).deletes

end Http2

end HeapHttpd
