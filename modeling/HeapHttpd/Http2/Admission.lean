import HeapHttpd.Http2.Runs

/-!
# Admission

What `ProtParse` does before it looks at a frame: the stream of the frame is
looked up or made, and its state decides whether the frame is admitted.
-/

namespace HeapHttpd

namespace Http2

open General Hpack Http1

variable {X : Type}

section Instances

variable (env : Env X) (conn : Conn X)

theorem getStreamInstance_modifyStream (streamInd key : Nat)
    (change : Http2Stream X → Http2Stream X) :
    (conn.modifyStream streamInd change).getStreamInstance key =
      if key = streamInd then (conn.getStreamInstance key).map change
      else conn.getStreamInstance key := by
  unfold Conn.getStreamInstance Conn.modifyStream
  rw [Std.TreeMap.getElem?_modify]
  by_cases same : key = streamInd
  · subst same
    split <;> simp
  · have different : compare streamInd key ≠ .eq := by
      rw [Ne, Std.LawfulEqCmp.compare_eq_iff_eq]
      exact fun swapped => same swapped.symm
    simp [same, different]

theorem getStreamInstance_createStream {streamInd : Nat} (positive : 0 < streamInd) :
    (conn.createStream env streamInd).getStreamInstance streamInd = some (conn.newStream env) := by
  have created : (conn.createStream env streamInd).streamList =
      conn.streamList.insert streamInd (conn.newStream env) := rfl
  simp [Conn.getStreamInstance, positive, created]

theorem getStreamInstance_congr {conn conn' : Conn X} (same : conn'.streamList = conn.streamList)
    (streamInd : Nat) : conn'.getStreamInstance streamInd = conn.getStreamInstance streamInd := by
  unfold Conn.getStreamInstance
  rw [same]

@[simp]
theorem getStreamInstance_log (event : Event) (streamInd : Nat) :
    (conn.log event).getStreamInstance streamInd = conn.getStreamInstance streamInd :=
  rfl

@[simp]
theorem getStreamInstance_httpSend (frames : List SentFrame) (sender : Option StreamPtr)
    (streamInd : Nat) :
    (conn.httpSend env frames sender).1.getStreamInstance streamInd =
      conn.getStreamInstance streamInd :=
  getStreamInstance_congr (by rw [httpSend_fst]) streamInd

@[simp]
theorem getStreamInstance_zero : conn.getStreamInstance 0 = none :=
  rfl

theorem pointer_modifyStream (streamInd key : Nat) {change : Http2Stream X → Http2Stream X}
    (same : ∀ stream, (change stream).object = stream.object) :
    (conn.modifyStream streamInd change).pointer key = conn.pointer key := by
  unfold Conn.pointer
  rw [getStreamInstance_modifyStream]
  split
  · simp [Option.map_map, Function.comp_def, same]
  · rfl

theorem pointer_setDependencyStream (streamInd dependencyStream key : Nat) :
    (conn.setDependencyStream streamInd dependencyStream).pointer key = conn.pointer key :=
  pointer_modifyStream conn streamInd key fun _ => rfl

/-- A priority changes which stream depends on which, but not which streams there
are. -/
theorem pointer_setPriority (streamInd depInd weight : Nat) (exclusive : Bool) (key : Nat) :
    (conn.setPriority streamInd depInd weight exclusive).pointer key = conn.pointer key := by
  have passes (conn : Conn X) :
      (conn.insertDependency streamInd depInd).pointer key = conn.pointer key := by
    unfold Conn.insertDependency
    generalize conn.streamList.toList = entries
    induction entries generalizing conn with
    | nil => rfl
    | cons entry entries ih =>
        rw [List.foldl_cons, ih]
        split
        · split
          · exact pointer_setDependencyStream conn entry.1 streamInd key
          · rfl
        · rfl
  have weighted : ((conn.setDependencyStream streamInd depInd).modifyStream streamInd fun stream =>
      { stream with priorityWeight := weight }).pointer key = conn.pointer key := by
    rw [pointer_modifyStream]
    · exact pointer_setDependencyStream conn streamInd depInd key
    · exact fun _ => rfl
  unfold Conn.setPriority
  dsimp only
  split
  · exact (passes _).trans weighted
  · exact weighted

end Instances

/-- The state of a stream, which is idle if there is no such stream. -/
def Conn.stateOf (conn : Conn X) (streamInd : Nat) : StreamState :=
  match conn.getStreamInstance streamInd with
  | some stream => stream.streamState
  | none => .idle

/-- There is a stream for a frame, or it can be made. -/
def Conn.HasRoom (conn : Conn X) (streamInd : Nat) : Prop :=
  streamInd = 0 ∨ (conn.getStreamInstance streamInd).isSome ∨ conn.nullEntry = false ∨
    conn.listSize < conn.maxConcurrentStreams

section Admission

variable {env : Env X} {conn : Conn X} {frame : HTTP2Frame}

theorem oldestOne_isSome {streams : List (Nat × Http2Stream X)} (present : streams ≠ []) :
    ∃ oldest, oldestOne streams = some oldest := by
  cases streams with
  | nil => exact absurd rfl present
  | cons first rest => exact ⟨_, rfl⟩

variable (env) in
/-- The null entry of the list is what eviction stumbles over. -/
theorem makeRoom_ok (room : conn.nullEntry = false ∨ conn.listSize < conn.maxConcurrentStreams) :
    ∃ roomy, conn.makeRoom env = .ok roomy ∧ roomy.nullEntry = conn.nullEntry := by
  unfold Conn.makeRoom
  split
  · rename_i full
    have noNull : conn.nullEntry = false := room.resolve_right (by omega)
    have present : conn.streamList.toList ≠ [] := by
      intro empty
      have size := full.1
      have length := Std.TreeMap.length_toList (t := conn.streamList)
      rw [empty, List.length_nil] at length
      simp [Conn.listSize, noNull, ← length] at size
    rcases oldestOne_isSome present with ⟨⟨streamInd, stream⟩, found⟩
    refine ⟨_, by simp only [Conn.evict, noNull, found]; rfl, ?_⟩
    unfold Conn.eraseStream Conn.sendRstStream Conn.assign Conn.log
    rw [httpSend_fst]
    split <;> rfl
  · exact ⟨conn, rfl, rfl⟩

theorem makeRoom_fault (nullEntry : conn.nullEntry = true)
    (full : conn.maxConcurrentStreams ≤ conn.listSize) : conn.makeRoom env = .fault := by
  have present : 0 < conn.listSize := by simp [Conn.listSize, nullEntry]
  simp [Conn.makeRoom, present, full, Conn.evict, nullEntry]

theorem admit_zero (whole : frame.streamInd = 0) : conn.admit env frame = .ok (conn, none) :=
  if_pos whole

theorem admit_listed {stream : Http2Stream X}
    (found : conn.getStreamInstance frame.streamInd = some stream) :
    conn.admit env frame =
      .ok (conn.refresh env frame.streamInd, refusal stream.streamState frame.type) := by
  have positive := (getStreamInstance_eq_some.mp found).1
  have provided : conn.provideStream env frame.streamInd = .ok conn := by
    simp [Conn.provideStream, found]
  simp [ Conn.admit, Nat.ne_of_gt positive, provided, Conn.refresh,
    getStreamInstance_modifyStream, found]

theorem admit_absent (positive : 0 < frame.streamInd)
    (absent : conn.getStreamInstance frame.streamInd = none) {roomy : Conn X}
    (room : conn.makeRoom env = .ok roomy) :
    conn.admit env frame =
      .ok ((roomy.createStream env frame.streamInd).refresh env frame.streamInd,
        refusal .idle frame.type) := by
  have provided : conn.provideStream env frame.streamInd =
      .ok (roomy.createStream env frame.streamInd) := by
    simp [Conn.provideStream, absent, room]
  simp [ Conn.admit, Nat.ne_of_gt positive, provided, Conn.refresh,
    getStreamInstance_modifyStream, getStreamInstance_createStream env roomy positive,
    Conn.newStream]

variable (env conn) in
/-- What admission leaves behind when there is room. -/
theorem admit_ok (positive : 0 < frame.streamInd) (room : conn.HasRoom frame.streamInd) :
    ∃ admitted stream,
      conn.admit env frame =
        .ok (admitted, refusal (conn.stateOf frame.streamInd) frame.type) ∧
      admitted.getStreamInstance frame.streamInd = some stream ∧
      stream.streamState = conn.stateOf frame.streamInd ∧
      admitted.nullEntry = conn.nullEntry ∧
      ∀ listed, conn.getStreamInstance frame.streamInd = some listed →
        stream.http1 = listed.http1 := by
  cases found : conn.getStreamInstance frame.streamInd with
  | some stream =>
      refine ⟨conn.refresh env frame.streamInd, { stream with lastUsedTime := conn.now env },
        ?_, ?_, ?_, rfl, ?_⟩
      · rw [admit_listed found, Conn.stateOf, found]
      · rw [Conn.refresh, getStreamInstance_modifyStream, if_pos rfl, found]
        rfl
      · rw [Conn.stateOf, found]
      · rintro listed ⟨rfl⟩
        rfl
  | none =>
      have roomy : conn.nullEntry = false ∨ conn.listSize < conn.maxConcurrentStreams := by
        rcases room with zero | listed | roomy
        · omega
        · simp [found] at listed
        · exact roomy
      rcases makeRoom_ok env roomy with ⟨middle, made, same⟩
      refine ⟨(middle.createStream env frame.streamInd).refresh env frame.streamInd,
        { middle.newStream env with
          lastUsedTime := (middle.createStream env frame.streamInd).now env },
        ?_, ?_, ?_, same, ?_⟩
      · rw [admit_absent positive found made, Conn.stateOf, found]
      · rw [Conn.refresh, getStreamInstance_modifyStream, if_pos rfl,
          getStreamInstance_createStream env middle positive]
        rfl
      · rw [Conn.stateOf, found]
        rfl
      · intro listed present
        cases present

variable (env conn) in
theorem admit_fault (full : ¬conn.HasRoom frame.streamInd) : conn.admit env frame = .fault := by
  simp only [Conn.HasRoom, not_or, Bool.not_eq_false, Nat.not_lt] at full
  rcases full with ⟨positive, absent, nullEntry, many⟩
  have missing : conn.getStreamInstance frame.streamInd = none := by simpa using absent
  simp [ Conn.admit, positive, Conn.provideStream, missing, makeRoom_fault nullEntry many]

end Admission

end Http2

end HeapHttpd
