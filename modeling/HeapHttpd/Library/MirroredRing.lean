import Mathlib.Data.List.Basic

/-!
# Rings with a mirrored second half

A ring of `capacity` cells that is laid out twice, so that a stretch of it that
wraps can be written and read in one piece: what a write puts into the second
half is copied down to the first.  Nothing copies the first half up, so the second
half mirrors only what a wrapping write has put there.
-/

namespace HeapHttpd

namespace MirroredRing

variable {α : Type*}

/-- Cells with data written over them from an offset on. -/
def store (cells : Int → α) (offset : Int) (data : List α) : Int → α :=
  fun address =>
    if offset ≤ address then (data[(address - offset).toNat]?).getD (cells address)
    else cells address

/-- So many cells from an offset on. -/
def load (cells : Int → α) (offset : Int) (count : Nat) : List α :=
  (List.range count).map fun index : Nat => cells (offset + index)

@[simp]
theorem length_load (cells : Int → α) (offset : Int) (count : Nat) :
    (load cells offset count).length = count := by
  simp [load]

theorem getElem?_load (cells : Int → α) (offset : Int) {count index : Nat}
    (inside : index < count) :
    (load cells offset count)[index]? = some (cells (offset + index)) := by
  simp [load, inside]

theorem store_before (cells : Int → α) {offset address : Int} (data : List α)
    (before : address < offset) : store cells offset data address = cells address := by
  rw [store, if_neg (by omega)]

theorem store_behind (cells : Int → α) {offset address : Int} {data : List α}
    (behind : offset + data.length ≤ address) :
    store cells offset data address = cells address := by
  rw [store, if_pos (by omega), List.getElem?_eq_none (by omega)]
  rfl

theorem store_at (cells : Int → α) (offset : Int) {data : List α} {index : Nat} {item : α}
    (found : data[index]? = some item) : store cells offset data (offset + index) = item := by
  rw [store, if_pos (by omega)]
  have position : (offset + index - offset).toNat = index := by omega
  rw [position, found]
  rfl

/-- Cells that hold a stream from position `start` on: in the first half, and once
the stream has begun a new lap since `start`, in the second half too. -/
structure Holds (capacity : Nat) (cells : Int → α) (stream : List α) (start : Nat) : Prop where
  started : start ≤ stream.length
  fits : stream.length ≤ start + capacity
  lower : ∀ position item, start ≤ position → stream[position]? = some item →
    cells (position % capacity : Nat) = item
  upper : ∀ position item, start / capacity < position / capacity →
    stream[position]? = some item → cells ((position % capacity : Nat) + capacity) = item

variable {capacity start : Nat} {cells : Int → α} {stream : List α}

theorem Holds.empty (capacity : Nat) (cells : Int → α) : Holds capacity cells [] 0 where
  started := Nat.le_refl _
  fits := Nat.zero_le _
  lower _ _ _ found := by simp at found
  upper _ _ _ found := by simp at found

/-- Positions that lie no further apart than a lap are in one lap or in two that
follow each other. -/
theorem lap_cases {first second : Nat} (ordered : first ≤ second)
    (near : second < first + capacity) :
    (second / capacity = first / capacity ∧
        second % capacity = first % capacity + (second - first)) ∨
      (second / capacity = first / capacity + 1 ∧
        second % capacity + capacity = first % capacity + (second - first)) := by
  have positive : 0 < capacity := by omega
  have firstSplit := Nat.div_add_mod first capacity
  have firstBound := Nat.mod_lt first positive
  by_cases same : first % capacity + (second - first) < capacity
  · have split : second / capacity = first / capacity ∧
        second % capacity = first % capacity + (second - first) :=
      (Nat.div_mod_unique positive).mpr ⟨by omega, same⟩
    exact .inl split
  · have next : capacity * (first / capacity + 1) =
        capacity * (first / capacity) + capacity := Nat.mul_succ ..
    have split : second / capacity = first / capacity + 1 ∧
        second % capacity = first % capacity + (second - first) - capacity :=
      (Nat.div_mod_unique positive).mpr ⟨by omega, by omega⟩
    exact .inr ⟨split.1, by omega⟩

/-- What is read in one piece from `start` on is the stream from there on. -/
theorem Holds.load_eq (holds : Holds capacity cells stream start) :
    load cells (start % capacity : Nat) (stream.length - start) = stream.drop start := by
  have fits := holds.fits
  apply List.ext_getElem?
  intro index
  by_cases inside : index < stream.length - start
  · have found : stream[start + index]? = some stream[start + index] :=
      List.getElem?_eq_getElem (by omega)
    rw [getElem?_load cells _ inside, List.getElem?_drop, found]
    congr 1
    rcases @lap_cases capacity start (start + index)
      (by omega) (by omega) with ⟨-, place⟩ | ⟨lap, place⟩
    · have cell := holds.lower _ _ (by omega) found
      rw [← cell]
      congr 1
      omega
    · have cell := holds.upper _ _ (by omega) found
      rw [← cell]
      congr 1
      omega
  · rw [List.getElem?_eq_none (by simpa using inside),
      List.getElem?_eq_none (by simp; omega)]

/-- Reading on. -/
theorem Holds.advance (holds : Holds capacity cells stream start) {count : Nat}
    (inside : count ≤ stream.length - start) :
    Holds capacity cells stream (start + count) where
  started := by
    have started := holds.started
    omega
  fits := by
    have fits := holds.fits
    omega
  lower position item behind found := holds.lower position item (by omega) found
  upper position item later found := by
    have before : start / capacity ≤ (start + count) / capacity :=
      Nat.div_le_div_right (by omega)
    exact holds.upper position item (by omega) found

/-- Where a written item is found. -/
theorem getElem?_append_cases {data : List α} {position : Nat} {item : α}
    (found : (stream ++ data)[position]? = some item) :
    stream[position]? = some item ∨
      ∃ index, position = stream.length + index ∧ index < data.length ∧
        data[index]? = some item := by
  rcases Nat.lt_or_ge position stream.length with old | new
  · exact .inl (by rwa [List.getElem?_append_left old] at found)
  · rw [List.getElem?_append_right new] at found
    have inside := (List.getElem?_eq_some_iff.mp found).1
    exact .inr ⟨position - stream.length, by omega, inside, found⟩

/-- The cells after a write in one piece and the copy of what it puts into the
second half. -/
def append (capacity : Nat) (cells : Int → α) (offset : Nat) (data : List α) : Int → α :=
  let written := store cells offset data
  if capacity < offset + data.length then
    store written 0 (load written capacity (offset + data.length - capacity))
  else written

variable {offset : Nat} {data : List α}

theorem store_nil (cells : Int → α) (offset : Int) : store cells offset [] = cells := by
  funext address
  simp [store]

/-- A write of nothing. -/
theorem append_nil (cells : Int → α) {offset : Nat} (inside : offset ≤ capacity) :
    append capacity cells offset [] = cells := by
  simp only [append, store_nil]
  rw [if_neg (by simp; omega)]

/-- Cells of the first half that neither the write nor the copy reaches. -/
theorem append_untouched {address : Nat} (before : address < offset)
    (clear : offset + data.length ≤ address + capacity) :
    append capacity cells offset data address = cells address := by
  have kept : store cells offset data address = cells address :=
    store_before cells data (by omega)
  simp only [append]
  split
  · rw [store_behind _ (by simp; omega), kept]
  · exact kept

/-- Cells that the write reaches and the copy does not. -/
theorem append_written {index : Nat} {item : α} (found : data[index]? = some item)
    (short : data.length ≤ capacity) :
    append capacity cells offset data (offset + index : Nat) = item := by
  have written : store cells offset data (offset + index : Nat) = item := by
    simpa using store_at cells offset found
  simp only [append]
  split
  · rename_i wraps
    have clear : 0 + ((load (store cells offset data) capacity
        (offset + data.length - capacity)).length : Int) ≤ (offset + index : Nat) := by
      simp
      omega
    rw [store_behind _ clear, written]
  · exact written

/-- Cells of the second half that the write reaches. -/
theorem append_upper {index place : Nat} {item : α} (found : data[index]? = some item)
    (second : offset + index = place + capacity) (short : offset + data.length ≤ 2 * capacity) :
    append capacity cells offset data (place + capacity) = item := by
  have inside := (List.getElem?_eq_some_iff.mp found).1
  have written : store cells offset data (place + capacity) = item := by
    have cell := store_at cells offset found
    have same : (offset : Int) + index = place + capacity := by omega
    rwa [same] at cell
  simp only [append]
  rw [if_pos (by omega), store_behind _ (by simp; omega), written]

/-- The copy of a cell of the second half that the write reaches. -/
theorem append_copied {index place : Nat} {item : α} (found : data[index]? = some item)
    (second : offset + index = place + capacity) :
    append capacity cells offset data place = item := by
  have inside := (List.getElem?_eq_some_iff.mp found).1
  have written : store cells offset data (capacity + place) = item := by
    have cell := store_at cells offset found
    have same : (offset : Int) + index = capacity + place := by omega
    rwa [same] at cell
  simp only [append]
  rw [if_pos (by omega)]
  have copied : (load (store cells offset data) capacity
      (offset + data.length - capacity))[place]? = some item := by
    rw [getElem?_load _ _ (by omega), written]
  simpa using store_at (store cells offset data) 0 copied

/-- A write that begins in the lap of `start` goes on with the stream. -/
theorem Holds.append_data (holds : Holds capacity cells stream start)
    (sameLap : start / capacity = stream.length / capacity)
    (room : stream.length + data.length ≤ start + capacity) :
    Holds capacity (append capacity cells (stream.length % capacity) data)
      (stream ++ data) start := by
  have started := holds.started
  have place {index : Nat} (inside : index < data.length) :=
    @lap_cases capacity stream.length (stream.length + index)
      (by omega) (by omega)
  have reached : stream.length % capacity + data.length ≤ 2 * capacity ∨ data = [] := by
    rcases data.eq_nil_or_concat with empty | ⟨_, _, rfl⟩
    · exact .inr empty
    · have bound := Nat.mod_lt stream.length (y := capacity) (by simp at room; omega)
      exact .inl (by omega)
  constructor
  case started => simp; omega
  case fits => simpa using room
  case lower =>
    intro position item behind found
    rcases getElem?_append_cases found with old | ⟨index, rfl, inside, new⟩
    · have before := (List.getElem?_eq_some_iff.mp old).1
      rw [← holds.lower position item behind old]
      have near : stream.length ≠ start + capacity := by
        intro full
        rw [full, Nat.add_div_right _ (by omega)] at sameLap
        omega
      rcases @lap_cases capacity position stream.length
        (by omega) (by omega) with ⟨-, same⟩ | ⟨next, -⟩
      · exact append_untouched (by omega) (by omega)
      · have ordered : start / capacity ≤ position / capacity := Nat.div_le_div_right behind
        omega
    · rcases place inside with ⟨-, same⟩ | ⟨-, next⟩
      · rw [same, Nat.add_sub_cancel_left]
        exact append_written new (by omega)
      · exact append_copied new (by omega)
  case upper =>
    intro position item later found
    rcases getElem?_append_cases found with old | ⟨index, rfl, inside, new⟩
    · have before := (List.getElem?_eq_some_iff.mp old).1
      have ordered : position / capacity ≤ stream.length / capacity :=
        Nat.div_le_div_right (by omega)
      omega
    · rcases place inside with ⟨same, -⟩ | ⟨-, next⟩
      · omega
      · rcases reached with short | rfl
        · exact append_upper new (by omega) short
        · simp at new

end MirroredRing

end HeapHttpd
