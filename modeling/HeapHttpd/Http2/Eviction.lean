import HeapHttpd.Http2.ProtParse

/-!
# The stream that goes

The loop of `CHttp2::ProtParse` over a full list of streams, whose pointers may be null, and
which lists it finds the right entry of.
-/

namespace HeapHttpd

namespace Http2

namespace Eviction

variable {X : Type}

/-- An entry of `m_stream_list`. -/
abbrev StreamEntry (X : Type) := Nat × Option (Http2Stream X)

/-- Whether an entry has a stream that is closed. -/
def IsClosed (entry : StreamEntry X) : Prop :=
  ∃ stream, entry.2 = some stream ∧ stream.streamState = .closed

/-- When the stream of an entry was used. -/
def lastUsedTime (entry : StreamEntry X) : Nat :=
  match entry.2 with
  | some stream => stream.lastUsedTime
  | none => 0

/-- The loop, from the oldest entry so far. -/
def oldestLoop : StreamEntry X → List (StreamEntry X) → Option (StreamEntry X)
  | oldest, [] => some oldest
  | oldest, each :: rest =>
      match each.2, oldest.2 with
      | none, _ => some each
      | some stream, none =>
          -- the stream of the oldest entry is only used if this one is not closed
          if stream.streamState = .closed then oldestLoop each rest else none
      | some stream, some oldestStream =>
          if stream.streamState = .closed ∨ stream.lastUsedTime < oldestStream.lastUsedTime then
            oldestLoop each rest
          else oldestLoop oldest rest

/-- The entry that is evicted. -/
def evicted : List (StreamEntry X) → Option (StreamEntry X)
  | [] => none
  | first :: rest => oldestLoop first (first :: rest)

/-- A null entry if there is one, otherwise a closed stream if there is one, otherwise a stream
that was used no later than any other. -/
structure WellChosen (streams : List (StreamEntry X)) (entry : StreamEntry X) : Prop where
  member : entry ∈ streams
  null : (∃ other ∈ streams, other.2 = none) → entry.2 = none
  closed : (∀ other ∈ streams, other.2 ≠ none) → (∃ other ∈ streams, IsClosed other) →
    IsClosed entry
  oldest : (∀ other ∈ streams, other.2 ≠ none) → (∀ other ∈ streams, ¬IsClosed other) →
    ∀ other ∈ streams, lastUsedTime entry ≤ lastUsedTime other

/-- A well chosen entry is evicted. -/
def EvictsWell (streams : List (StreamEntry X)) : Prop :=
  ∃ entry, evicted streams = some entry ∧ WellChosen streams entry

/-- An entry is null, or no stream behind the last closed one was used before it. -/
def ClosedOutlast (streams : List (StreamEntry X)) : Prop :=
  (∃ entry ∈ streams, entry.2 = none) ∨
    ∀ front closed rest, streams = front ++ closed :: rest → IsClosed closed →
      (∀ other ∈ rest, ¬IsClosed other) →
      ∀ other ∈ rest, lastUsedTime closed ≤ lastUsedTime other

/-! ## The loop -/

section Loop

variable {oldest each : StreamEntry X} {front rest : List (StreamEntry X)}

/-- A stream that is not used, closed or older is passed by. -/
theorem oldestLoop_cons (there : oldest.2 ≠ none) (isStream : each.2 ≠ none)
    [Decidable (IsClosed each)] :
    oldestLoop oldest (each :: rest) =
      if IsClosed each ∨ lastUsedTime each < lastUsedTime oldest then oldestLoop each rest
      else oldestLoop oldest rest := by
  obtain ⟨oldestStream, isOldest⟩ := Option.ne_none_iff_exists'.mp there
  obtain ⟨stream, isEach⟩ := Option.ne_none_iff_exists'.mp isStream
  have closed : IsClosed each ↔ stream.streamState = .closed := by
    rw [IsClosed, isEach]
    exact ⟨fun ⟨other, same, isClosed⟩ => Option.some.inj same ▸ isClosed,
      fun isClosed => ⟨stream, rfl, isClosed⟩⟩
  rw [oldestLoop, isOldest, isEach]
  simp only [closed, lastUsedTime, isOldest, isEach]

/-- A null entry ends the loop. -/
theorem oldestLoop_null (there : oldest.2 ≠ none) (null : ∃ entry ∈ rest, entry.2 = none) :
    ∃ entry ∈ rest, oldestLoop oldest rest = some entry ∧ entry.2 = none := by
  classical
  induction rest generalizing oldest with
  | nil =>
      obtain ⟨entry, member, -⟩ := null
      cases member
  | cons each rest ih =>
      by_cases isNull : each.2 = none
      · exact ⟨each, List.mem_cons_self, by rw [oldestLoop, isNull], isNull⟩
      · have later : ∃ entry ∈ rest, entry.2 = none := by
          obtain ⟨entry, member, entryNull⟩ := null
          rcases List.mem_cons.mp member with rfl | member
          · exact absurd entryNull isNull
          · exact ⟨entry, member, entryNull⟩
        rw [oldestLoop_cons there isNull]
        split
        · obtain ⟨entry, member, found⟩ := ih isNull later
          exact ⟨entry, List.mem_cons_of_mem _ member, found⟩
        · obtain ⟨entry, member, found⟩ := ih there later
          exact ⟨entry, List.mem_cons_of_mem _ member, found⟩

/-- A closed stream is taken whatever was found before it. -/
theorem oldestLoop_closed {closed : StreamEntry X} (there : oldest.2 ≠ none)
    (streams : ∀ entry ∈ front, entry.2 ≠ none) (isClosed : IsClosed closed) :
    oldestLoop oldest (front ++ closed :: rest) = oldestLoop closed rest := by
  classical
  induction front generalizing oldest with
  | nil =>
      have isStream : closed.2 ≠ none := by
        obtain ⟨stream, isStream, -⟩ := isClosed
        rw [isStream]
        exact Option.some_ne_none stream
      rw [List.nil_append, oldestLoop_cons there isStream, if_pos (.inl isClosed)]
  | cons each front ih =>
      have isStream := streams each List.mem_cons_self
      have later : ∀ entry ∈ front, entry.2 ≠ none := fun entry member =>
        streams entry (List.mem_cons_of_mem _ member)
      rw [List.cons_append, oldestLoop_cons there isStream]
      split
      · exact ih isStream later
      · exact ih there later

/-- Among streams that are not closed, one that was used first is found. -/
theorem oldestLoop_open (there : oldest.2 ≠ none) (streams : ∀ entry ∈ rest, entry.2 ≠ none)
    (noneClosed : ∀ entry ∈ rest, ¬IsClosed entry) :
    ∃ entry, oldestLoop oldest rest = some entry ∧ entry ∈ oldest :: rest ∧
      (∀ other ∈ oldest :: rest, lastUsedTime entry ≤ lastUsedTime other) ∧
      ((∀ other ∈ rest, lastUsedTime oldest ≤ lastUsedTime other) → entry = oldest) := by
  classical
  induction rest generalizing oldest with
  | nil =>
      refine ⟨oldest, rfl, List.mem_cons_self, fun other member => ?_, fun _ => rfl⟩
      rw [List.mem_singleton.mp member]
  | cons each rest ih =>
      have isStream := streams each List.mem_cons_self
      have notClosed := noneClosed each List.mem_cons_self
      have laterStreams : ∀ entry ∈ rest, entry.2 ≠ none := fun entry member =>
        streams entry (List.mem_cons_of_mem _ member)
      have laterOpen : ∀ entry ∈ rest, ¬IsClosed entry := fun entry member =>
        noneClosed entry (List.mem_cons_of_mem _ member)
      rw [oldestLoop_cons there isStream]
      by_cases older : lastUsedTime each < lastUsedTime oldest
      · obtain ⟨entry, found, member, least, -⟩ := ih isStream laterStreams laterOpen
        rw [if_pos (.inr older)]
        refine ⟨entry, found, List.mem_cons_of_mem _ member, fun other inAll => ?_, fun all => ?_⟩
        · rcases List.mem_cons.mp inAll with rfl | inRest
          · exact Nat.le_of_lt (Nat.lt_of_le_of_lt (least each List.mem_cons_self) older)
          · exact least other inRest
        · exact absurd (all each List.mem_cons_self) (Nat.not_le_of_lt older)
      · obtain ⟨entry, found, member, least, same⟩ := ih there laterStreams laterOpen
        rw [if_neg (fun taken => taken.elim notClosed older)]
        refine ⟨entry, found, ?_, fun other inAll => ?_, fun all =>
          same fun other inRest => all other (List.mem_cons_of_mem _ inRest)⟩
        · rcases List.mem_cons.mp member with rfl | inRest
          · exact List.mem_cons_self
          · exact List.mem_cons_of_mem _ (List.mem_cons_of_mem _ inRest)
        · rcases List.mem_cons.mp inAll with rfl | inRest
          · exact least other List.mem_cons_self
          · rcases List.mem_cons.mp inRest with rfl | inRest
            · exact Nat.le_trans (least oldest List.mem_cons_self) (Nat.le_of_not_lt older)
            · exact least other (List.mem_cons_of_mem _ inRest)

/-- A list with a closed stream has a last one. -/
theorem exists_lastClosed {streams : List (StreamEntry X)}
    (closed : ∃ entry ∈ streams, IsClosed entry) :
    ∃ front closed rest, streams = front ++ closed :: rest ∧ IsClosed closed ∧
      ∀ other ∈ rest, ¬IsClosed other := by
  induction streams with
  | nil =>
      obtain ⟨entry, member, -⟩ := closed
      cases member
  | cons each streams ih =>
      by_cases later : ∃ entry ∈ streams, IsClosed entry
      · obtain ⟨front, last, rest, rfl, isClosed, noneBehind⟩ := ih later
        exact ⟨each :: front, last, rest, rfl, isClosed, noneBehind⟩
      · obtain ⟨entry, member, isClosed⟩ := closed
        rcases List.mem_cons.mp member with rfl | member
        · exact ⟨[], entry, streams, rfl, isClosed, fun other inRest otherClosed =>
            later ⟨other, inRest, otherClosed⟩⟩
        · exact absurd ⟨entry, member, isClosed⟩ later

end Loop

/-! ## The choice -/

/-- A null entry is found. -/
theorem evicted_null {streams : List (StreamEntry X)} (null : ∃ entry ∈ streams, entry.2 = none) :
    ∃ entry ∈ streams, evicted streams = some entry ∧ entry.2 = none := by
  cases streams with
  | nil =>
      obtain ⟨entry, member, -⟩ := null
      cases member
  | cons first rest =>
      rw [evicted]
      by_cases firstNull : first.2 = none
      · exact ⟨first, List.mem_cons_self, by rw [oldestLoop, firstNull], firstNull⟩
      · exact oldestLoop_null firstNull null

/-- Behind the last closed stream, the one that was used first is found. -/
theorem evicted_lastClosed {front rest : List (StreamEntry X)} {closed : StreamEntry X}
    (streams : ∀ entry ∈ front ++ closed :: rest, entry.2 ≠ none) (isClosed : IsClosed closed) :
    evicted (front ++ closed :: rest) = oldestLoop closed rest := by
  have inFront : ∀ entry ∈ front, entry.2 ≠ none := fun entry member =>
    streams entry (List.mem_append_left _ member)
  cases front with
  | nil =>
      rw [List.nil_append, evicted]
      exact @oldestLoop_closed _ closed [] rest closed (streams closed List.mem_cons_self)
        inFront isClosed
  | cons first front =>
      rw [List.cons_append, evicted, ← List.cons_append]
      exact oldestLoop_closed (inFront first List.mem_cons_self) inFront isClosed

/-- Without a null entry, a list with a closed stream is served well exactly if no stream behind
the last closed one was used before it. -/
theorem evictsWell_closed {front rest : List (StreamEntry X)} {closed : StreamEntry X}
    (streams : ∀ entry ∈ front ++ closed :: rest, entry.2 ≠ none) (isClosed : IsClosed closed)
    (noneBehind : ∀ other ∈ rest, ¬IsClosed other) :
    EvictsWell (front ++ closed :: rest) ↔
      ∀ other ∈ rest, lastUsedTime closed ≤ lastUsedTime other := by
  have inRest : ∀ entry ∈ rest, entry.2 ≠ none := fun entry member =>
    streams entry (List.mem_append_right _ (List.mem_cons_of_mem _ member))
  have inAll : closed ∈ front ++ closed :: rest :=
    List.mem_append_right _ List.mem_cons_self
  obtain ⟨entry, found, member, least, same⟩ :=
    oldestLoop_open (streams closed inAll) inRest noneBehind
  have isFound : evicted (front ++ closed :: rest) = some entry := by
    rw [evicted_lastClosed streams isClosed, found]
  constructor
  case mp =>
    rintro ⟨other, otherFound, well⟩
    rw [isFound] at otherFound
    cases otherFound
    have entryClosed := well.closed streams ⟨closed, inAll, isClosed⟩
    rcases List.mem_cons.mp member with rfl | behind
    · exact fun other inRest => least other (List.mem_cons_of_mem _ inRest)
    · exact absurd entryClosed (noneBehind entry behind)
  case mpr =>
    intro outlasts
    refine ⟨entry, isFound, ?_⟩
    rw [same outlasts]
    exact ⟨inAll, fun ⟨other, member, null⟩ => absurd null (streams other member),
      fun _ _ => isClosed, fun _ noneClosed => absurd isClosed (noneClosed closed inAll)⟩

/-- A list of streams that are not closed is served well. -/
theorem evictsWell_open {first : StreamEntry X} {rest : List (StreamEntry X)}
    (streams : ∀ entry ∈ first :: rest, entry.2 ≠ none)
    (noneClosed : ∀ entry ∈ first :: rest, ¬IsClosed entry) : EvictsWell (first :: rest) := by
  obtain ⟨entry, found, member, least, -⟩ :=
    oldestLoop_open (streams first List.mem_cons_self) streams noneClosed
  refine ⟨entry, found, ?_, ?_, ?_, ?_⟩
  · rcases List.mem_cons.mp member with rfl | inAll
    · exact List.mem_cons_self
    · exact inAll
  · exact fun ⟨other, member, null⟩ => absurd null (streams other member)
  · exact fun _ ⟨other, member, isClosed⟩ => absurd isClosed (noneClosed other member)
  · exact fun _ _ other inAll => least other (List.mem_cons_of_mem _ inAll)

/-- The loop takes the stream of the connection's model, where no entry is null. -/
theorem evicted_streams (streams : List (Nat × Http2Stream X)) :
    evicted (streams.map fun stream => (stream.1, some stream.2)) =
      (oldestOne streams).map fun stream => (stream.1, some stream.2) := by
  have loop (rest : List (Nat × Http2Stream X)) (oldest : Nat × Http2Stream X) :
      oldestLoop (oldest.1, some oldest.2) (rest.map fun stream => (stream.1, some stream.2)) =
        some ((rest.foldl (fun oldest each =>
          if each.2.streamState = .closed ∨ each.2.lastUsedTime < oldest.2.lastUsedTime then each
          else oldest) oldest).1,
          some (rest.foldl (fun oldest each =>
          if each.2.streamState = .closed ∨ each.2.lastUsedTime < oldest.2.lastUsedTime then each
          else oldest) oldest).2) := by
    induction rest generalizing oldest with
    | nil => rfl
    | cons each rest ih =>
        rw [List.map_cons, oldestLoop, List.foldl_cons]
        simp only
        split
        · exact ih each
        · exact ih oldest
  cases streams with
  | nil => rfl
  | cons first rest => exact loop (first :: rest) first

/-- The right entry is evicted exactly if no stream behind the last closed one was used before
it. -/
theorem evictsWell_iff (streams : List (StreamEntry X)) (nonempty : streams ≠ []) :
    EvictsWell streams ↔ ClosedOutlast streams := by
  by_cases null : ∃ entry ∈ streams, entry.2 = none
  · obtain ⟨entry, member, found, isNull⟩ := evicted_null null
    have notAll : ¬∀ other ∈ streams, other.2 ≠ none := fun all => all entry member isNull
    exact ⟨fun _ => .inl null, fun _ => ⟨entry, found, member, fun _ => isNull,
      fun all => absurd all notAll, fun all => absurd all notAll⟩⟩
  · have all : ∀ entry ∈ streams, entry.2 ≠ none := fun entry member isNull =>
      null ⟨entry, member, isNull⟩
    by_cases closed : ∃ entry ∈ streams, IsClosed entry
    · constructor
      case mp =>
        rintro well
        refine .inr fun front closed rest isStreams isClosed noneBehind => ?_
        subst isStreams
        exact (evictsWell_closed all isClosed noneBehind).mp well
      case mpr =>
        intro outlast
        obtain ⟨front, closed, rest, isStreams, isClosed, noneBehind⟩ := exists_lastClosed closed
        have outlasts := (outlast.resolve_left null) front closed rest isStreams isClosed noneBehind
        subst isStreams
        exact (evictsWell_closed all isClosed noneBehind).mpr outlasts
    · have noneClosed : ∀ entry ∈ streams, ¬IsClosed entry := fun entry member isClosed =>
        closed ⟨entry, member, isClosed⟩
      obtain ⟨first, rest, rfl⟩ := List.exists_cons_of_ne_nil nonempty
      refine ⟨fun _ => .inr fun front last behind isStreams isClosed _ => ?_,
        fun _ => evictsWell_open all noneClosed⟩
      exact absurd isClosed (noneClosed last (isStreams ▸ List.mem_append_right _
        List.mem_cons_self))

/-! ## Trials -/

def trialStream (streamState : StreamState) (lastUsedTime : Nat) : Http2Stream Unit where
  object := 0
  path := []
  method := []
  authority := []
  scheme := []
  http1 := .new ()
  hpack := none
  pushPromiseTriggerHeader := []
  dependencyStream := 0
  priorityWeight := 16
  streamState := streamState
  peerWindowSize := 0
  localWindowSize := 0
  lastUsedTime := lastUsedTime

theorem evictsWell_trial : [(1, some (trialStream .idle 5))] ≠ [] ∧
    EvictsWell [(1, some (trialStream .idle 5))] :=
  ⟨List.cons_ne_nil _ _, (evictsWell_iff _ (List.cons_ne_nil _ _)).mpr (.inr (by
    intro front closed rest isStreams isClosed
    have member : closed ∈ [(1, some (trialStream .idle 5))] :=
      isStreams ▸ List.mem_append_right _ List.mem_cons_self
    rw [List.mem_singleton.mp member] at isClosed
    obtain ⟨stream, isStream, isClosed⟩ := isClosed
    cases isStream
    cases isClosed))⟩

/-- A stream that was used before the closed one, but stands behind it, is evicted. -/
theorem not_evictsWell :
    ¬EvictsWell [(1, some (trialStream .closed 10)), (3, some (trialStream .halfClosedRemote 5))] := by
  rintro ⟨entry, found, well⟩
  cases found
  obtain ⟨stream, isStream, isClosed⟩ := well.closed
    (fun other member => by
      rcases List.mem_cons.mp member with rfl | member
      · exact Option.some_ne_none _
      · rw [List.mem_singleton.mp member]
        exact Option.some_ne_none _)
    ⟨_, List.mem_cons_self, _, rfl, rfl⟩
  cases isStream
  cases isClosed

end Eviction

end Http2

end HeapHttpd
