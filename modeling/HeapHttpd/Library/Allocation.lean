import HeapHttpd.Library.Outcome

/-!
# Allocated memory

A block of memory has a size, and is written from its front on.  What has not been written is
not read.
-/

namespace HeapHttpd

/-- A block of memory with the values stored at its front. -/
structure Allocation (α : Type*) where
  size : Nat
  stored : List α
  fits : stored.length ≤ size

namespace Allocation

variable {α : Type*} {memory : Allocation α} {written data rest : List α}

/-- New memory. -/
def fresh (size : Nat) : Allocation α :=
  { size, stored := [], fits := Nat.zero_le size }

/-- Memory filled with a value. -/
def filled (size : Nat) (value : α) : Allocation α :=
  { size, stored := List.replicate size value, fits := Nat.le_of_eq List.length_replicate }

/-- Values are stored over the ones there, or directly behind them. -/
def write (offset : Nat) (data : List α) (memory : Allocation α) : Outcome (Allocation α) :=
  if room : offset ≤ memory.stored.length ∧ offset + data.length ≤ memory.size then
    .ok
      { size := memory.size
        stored := memory.stored.take offset ++ data ++ memory.stored.drop (offset + data.length)
        fits := by
          have fits := memory.fits
          simp only [List.length_append, List.length_take, List.length_drop]
          omega }
  else .fault

/-- Stored values are read. -/
def read (offset count : Nat) (memory : Allocation α) : Outcome (List α) :=
  if offset + count ≤ memory.stored.length then .ok ((memory.stored.drop offset).take count)
  else .fault

/-- A write behind what was written before. -/
theorem write_behind (stored : memory.stored = written ++ rest)
    (room : written.length + data.length ≤ memory.size) :
    ∃ next : Allocation α, memory.write written.length data = .ok next ∧
      next.size = memory.size ∧ next.stored = written ++ data ++ rest.drop data.length := by
  have behind : written.length ≤ memory.stored.length := by
    rw [stored, List.length_append]
    omega
  rw [write, dif_pos ⟨behind, room⟩]
  refine ⟨_, rfl, rfl, ?_⟩
  change memory.stored.take written.length ++ data ++
    memory.stored.drop (written.length + data.length) = _
  rw [stored, List.take_left, List.drop_append]
  have past : written.drop (written.length + data.length) = [] :=
    List.drop_eq_nil_of_le (Nat.le_add_right _ _)
  rw [past, List.nil_append, Nat.add_sub_cancel_left]

/-- A write behind all that is stored. -/
theorem write_end (room : memory.stored.length + data.length ≤ memory.size) :
    ∃ next : Allocation α, memory.write memory.stored.length data = .ok next ∧
      next.size = memory.size ∧ next.stored = memory.stored ++ data := by
  have behind := write_behind (List.append_nil memory.stored).symm room
  rwa [List.drop_nil, List.append_nil] at behind

/-- The first write into new memory. -/
theorem write_fresh {size : Nat} (room : data.length ≤ size) :
    ∃ next : Allocation α, (fresh size).write 0 data = .ok next ∧
      next.size = size ∧ next.stored = data :=
  write_end (show (fresh size : Allocation α).stored.length + data.length ≤ size from
    Nat.le_trans (Nat.le_of_eq (Nat.zero_add _)) room)

theorem read_eq_ok {offset count : Nat} (within : offset + count ≤ memory.stored.length) :
    memory.read offset count = .ok ((memory.stored.drop offset).take count) :=
  if_pos within

theorem read_front (stored : memory.stored = written ++ rest) :
    memory.read 0 written.length = .ok written := by
  have within : 0 + written.length ≤ memory.stored.length := by
    rw [stored, List.length_append]
    omega
  rw [read_eq_ok within, stored, List.drop_zero, List.take_left]

theorem read_all : memory.read 0 memory.stored.length = .ok memory.stored :=
  read_front (List.append_nil _).symm

end Allocation

end HeapHttpd
