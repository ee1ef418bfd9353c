import HeapHttpd.Http2.Send

/-!
# Listed streams

What the operations of a connection do to the streams that pointers point to.
-/

namespace HeapHttpd

namespace Http2

variable {X : Type}

theorem listed_eq_some {conn : Conn X} {pointer : StreamPtr} {stream : Http2Stream X} :
    conn.listed pointer = some stream ↔
      conn.streamList[pointer.streamInd]? = some stream ∧ stream.object = pointer.object := by
  unfold Conn.listed
  cases conn.streamList[pointer.streamInd]? with
  | none => simp
  | some other =>
      simp only [Option.ite_none_right_eq_some, Option.some.injEq]
      constructor
      · rintro ⟨object, rfl⟩
        exact ⟨rfl, object⟩
      · rintro ⟨rfl, object⟩
        exact ⟨object, rfl⟩

/-- Pointers to listed streams are told apart by the keys. -/
theorem eq_of_listed {conn : Conn X} {first second : StreamPtr} {one other : Http2Stream X}
    (firstListed : conn.listed first = some one) (secondListed : conn.listed second = some other)
    (same : first.streamInd = second.streamInd) : first = second := by
  rcases listed_eq_some.mp firstListed with ⟨onePresent, oneObject⟩
  rcases listed_eq_some.mp secondListed with ⟨otherPresent, otherObject⟩
  rw [same, otherPresent, Option.some.injEq] at onePresent
  cases first with
  | mk firstInd firstObject =>
      cases second with
      | mk secondInd secondObject =>
          simp_all

theorem getStreamInstance_eq_some {conn : Conn X} {streamInd : Nat} {stream : Http2Stream X} :
    conn.getStreamInstance streamInd = some stream ↔
      0 < streamInd ∧ conn.streamList[streamInd]? = some stream := by
  unfold Conn.getStreamInstance
  split <;> simp [*]

theorem listed_of_getStreamInstance {conn : Conn X} {streamInd : Nat} {stream : Http2Stream X}
    (found : conn.getStreamInstance streamInd = some stream) :
    conn.listed ⟨streamInd, stream.object⟩ = some stream :=
  listed_eq_some.mpr ⟨(getStreamInstance_eq_some.mp found).2, rfl⟩

theorem pointer_eq_some {conn : Conn X} {streamInd : Nat} {pointer : StreamPtr} :
    conn.pointer streamInd = some pointer ↔
      0 < streamInd ∧ pointer.streamInd = streamInd ∧ (conn.listed pointer).isSome := by
  unfold Conn.pointer
  rw [Option.map_eq_some_iff]
  constructor
  · rintro ⟨stream, found, rfl⟩
    exact ⟨(getStreamInstance_eq_some.mp found).1, rfl, by simp [listed_of_getStreamInstance found]⟩
  · rintro ⟨positive, rfl, listed⟩
    rcases Option.isSome_iff_exists.mp listed with ⟨stream, present⟩
    rcases listed_eq_some.mp present with ⟨found, object⟩
    exact ⟨stream, getStreamInstance_eq_some.mpr ⟨positive, found⟩, by rw [object]⟩

theorem listed_congr {conn conn' : Conn X} (same : conn'.streamList = conn.streamList)
    (pointer : StreamPtr) : conn'.listed pointer = conn.listed pointer := by
  unfold Conn.listed
  rw [same]

@[simp]
theorem listed_log (conn : Conn X) (event : Event) (pointer : StreamPtr) :
    (conn.log event).listed pointer = conn.listed pointer :=
  rfl

theorem listed_modifyStream {conn : Conn X} {streamInd : Nat}
    {change : Http2Stream X → Http2Stream X} {pointer : StreamPtr}
    (same : ∀ stream, (change stream).object = stream.object) :
    (conn.modifyStream streamInd change).listed pointer =
      if pointer.streamInd = streamInd then (conn.listed pointer).map change
      else conn.listed pointer := by
  unfold Conn.listed Conn.modifyStream
  rw [Std.TreeMap.getElem?_modify]
  by_cases equal : pointer.streamInd = streamInd
  · subst equal
    cases conn.streamList[pointer.streamInd]? with
    | none => simp
    | some stream => by_cases object : stream.object = pointer.object <;> simp [same, object]
  · have different : compare streamInd pointer.streamInd ≠ .eq := by
      rw [Ne, Std.LawfulEqCmp.compare_eq_iff_eq]
      exact fun swapped => equal swapped.symm
    simp [equal, different]

theorem listed_assign {conn : Conn X} {stream : StreamPtr}
    {change : Http2Stream X → Http2Stream X} {pointer : StreamPtr}
    (same : ∀ stream, (change stream).object = stream.object) :
    (conn.assign stream change).listed pointer =
      if pointer = stream then (conn.listed pointer).map change else conn.listed pointer := by
  unfold Conn.assign
  split
  · rename_i listed
    have modified : (conn.modifyStream stream.streamInd change).listed pointer = _ :=
      listed_modifyStream same
    unfold Conn.modifyStream at modified
    rw [modified]
    by_cases equal : pointer = stream
    · simp [equal]
    · rw [if_neg equal]
      split
      · rename_i sameKey
        rcases Option.isSome_iff_exists.mp listed with ⟨present, found⟩
        cases absent : conn.listed pointer with
        | none => rfl
        | some other => exact absurd (eq_of_listed absent found sameKey) equal
      · rfl
  · rename_i absent
    have unchanged :
        ({ conn with leaked := conn.leaked.modify stream.object change } : Conn X).listed pointer =
          conn.listed pointer := listed_congr rfl pointer
    rw [unchanged]
    split
    · rename_i equal
      rw [equal, Option.not_isSome_iff_eq_none.mp absent]
      rfl
    · rfl

theorem isSome_listed_assign {conn conn' : Conn X} {stream pointer : StreamPtr}
    {change : Http2Stream X → Http2Stream X}
    (assigned : conn'.streamList = (conn.assign stream change).streamList)
    (same : ∀ stream, (change stream).object = stream.object) :
    (conn'.listed pointer).isSome = (conn.listed pointer).isSome := by
  rw [listed_congr assigned, listed_assign same]
  split <;> simp

theorem listed_createStream {env : Env X} {conn : Conn X} {streamInd : Nat} {pointer : StreamPtr}
    (fresh : conn.streamList[streamInd]? = none) :
    (conn.createStream env streamInd).listed pointer =
      if pointer = ⟨streamInd, conn.nextObject⟩ then some (conn.newStream env)
      else conn.listed pointer := by
  have inserted : (conn.createStream env streamInd).streamList =
      conn.streamList.insert streamInd (conn.newStream env) := rfl
  unfold Conn.listed
  rw [inserted, Std.TreeMap.getElem?_insert]
  cases pointer with
  | mk ind object =>
      by_cases equal : streamInd = ind
      · subst equal
        by_cases sameObject : conn.nextObject = object
        · simp [Conn.newStream, sameObject]
        · have different : object ≠ conn.nextObject := fun swapped => sameObject swapped.symm
          simp [Conn.newStream, sameObject, different, fresh]
      · have different : ind ≠ streamInd := fun swapped => equal swapped.symm
        simp [equal, different]

theorem listed_erased {conn conn' : Conn X} {stream pointer : StreamPtr}
    (listed : (conn.listed stream).isSome)
    (erased : conn'.streamList = conn.streamList.erase stream.streamInd) :
    conn'.listed pointer = if pointer = stream then none else conn.listed pointer := by
  rcases Option.isSome_iff_exists.mp listed with ⟨present, found⟩
  have looked : conn'.streamList[pointer.streamInd]? =
      if stream.streamInd = pointer.streamInd then none
      else conn.streamList[pointer.streamInd]? := by
    rw [erased, Std.TreeMap.getElem?_erase]
    simp
  by_cases equal : pointer = stream
  · subst equal
    simp [Conn.listed, looked]
  · rw [if_neg equal]
    by_cases sameKey : stream.streamInd = pointer.streamInd
    · cases other : conn.listed pointer with
      | none => simp [Conn.listed, looked, sameKey]
      | some otherStream => exact absurd (eq_of_listed other found sameKey.symm) equal
    · simp [Conn.listed, looked, sameKey]

theorem listed_eraseStream {conn : Conn X} {stream pointer : StreamPtr}
    (listed : (conn.listed stream).isSome) :
    (conn.eraseStream stream).listed pointer =
      if pointer = stream then none else conn.listed pointer :=
  listed_erased listed rfl

theorem listed_resetStream {conn : Conn X} {stream pointer : StreamPtr} :
    (conn.resetStream stream).listed pointer =
      if pointer = stream then none else conn.listed pointer := by
  unfold Conn.resetStream
  split
  · rename_i reset found
    exact listed_erased (by simp [found]) rfl
  · split
    · rename_i absent equal
      rw [equal, absent]
    · rfl

theorem absent_assign {conn : Conn X} {stream : StreamPtr}
    {change : Http2Stream X → Http2Stream X} {streamInd : Nat}
    (absent : conn.streamList[streamInd]? = none) :
    (conn.assign stream change).streamList[streamInd]? = none := by
  unfold Conn.assign
  split
  · rw [Std.TreeMap.getElem?_modify]
    split
    · rename_i equal
      rw [Std.LawfulEqCmp.eq_of_compare equal, absent]
      rfl
    · exact absent
  · exact absent

theorem absent_eraseStream {conn : Conn X} {stream : StreamPtr} {streamInd : Nat}
    (absent : conn.streamList[streamInd]? = none) :
    (conn.eraseStream stream).streamList[streamInd]? = none := by
  unfold Conn.eraseStream Conn.log
  rw [Std.TreeMap.getElem?_erase, absent]
  simp

end Http2

end HeapHttpd
