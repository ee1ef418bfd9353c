import HeapHttpd.Http1.LineSock

/-!
# Lines and blocks from one socket

`linesock::lrecv` and `linesock::drecv` in any order, on one `linesock`.  What a line read
has received behind its line is delivered by the reads after it.
-/

namespace HeapHttpd

namespace Http1

/-- A call, with the length limit it is given. -/
inductive LineRead
  | lrecv (blen : Nat)
  | drecv (blen : Nat)
  deriving DecidableEq, Repr

namespace LineSock

/-- A new `linesock`, on a socket whose stream does not end. -/
def opened (arriving : List (List UInt8)) : LineSock :=
  { recvBuf := [], arriving, ending := none }

/-- A call, without a result as long as it waits. -/
def read (sock : LineSock) : LineRead → Option (List UInt8 × LineSock)
  | .lrecv blen => sock.lrecv blen
  | .drecv blen => sock.drecv blen

/-- Calls one after the other, with all octets that they deliver. -/
def reads : List LineRead → LineSock → Option (List UInt8 × LineSock)
  | [], sock => some ([], sock)
  | call :: calls, sock =>
      match sock.read call with
      | none => none
      | some (data, sock) => (reads calls sock).map fun later => (data ++ later.1, later.2)

/-- The octets of a stream that the socket has given. -/
def Received (sock : LineSock) (stream : List (List UInt8)) (octets : List UInt8) : Prop :=
  stream.flatten = octets ++ sock.arriving.flatten

variable {sock left : LineSock} {data : List UInt8}

theorem ending_lrecv {blen : Nat} (line : sock.lrecv blen = some (data, left)) :
    left.ending = sock.ending := by
  unfold lrecv at line
  split at line
  · cases line
    rfl
  · cases loop : lrecvSegments blen sock.recvBuf sock.arriving with
    | none => simp [loop] at line
    | some result =>
        obtain ⟨text, recvBuf, arriving⟩ := result
        rw [loop] at line
        cases line
        rfl

/-- A call delivers what comes next, and leaves the rest. -/
theorem read_append {call : LineRead} (endless : sock.ending = none)
    (result : sock.read call = some (data, left)) :
    sock.octets = data ++ left.octets ∧ left.ending = none := by
  cases call with
  | lrecv blen => exact ⟨lrecv_append result, (ending_lrecv result).trans endless⟩
  | drecv blen =>
      have enough : blen ≤ sock.octets.length := by
        by_contra few
        have waits := drecv_eq_none (not_le.mp few) endless
        rw [read, waits] at result
        cases result
      obtain ⟨left', block, rest, ending⟩ := drecv_of_le enough
      rw [read, block, Option.some_inj, Prod.mk.injEq] at result
      obtain ⟨rfl, rfl⟩ := result
      exact ⟨by rw [rest, List.take_append_drop], ending.trans endless⟩

/-- And so do calls one after the other. -/
theorem reads_append {calls : List LineRead} (endless : sock.ending = none)
    (result : sock.reads calls = some (data, left)) : sock.octets = data ++ left.octets := by
  induction calls generalizing sock data with
  | nil =>
      cases result
      rfl
  | cons call calls ih =>
      rw [reads] at result
      cases first : sock.read call with
      | none => simp [first] at result
      | some next =>
          obtain ⟨block, sock'⟩ := next
          obtain ⟨whole, endless'⟩ := read_append endless first
          simp only [first, Option.map_eq_some_iff] at result
          obtain ⟨later, isLater, same⟩ := result
          rw [Prod.mk.injEq] at same
          obtain ⟨rfl, rfl⟩ := same
          rw [whole, ih endless' isLater, List.append_assoc]

/-- What has been delivered and what is held are what has been received, and no line read
delivers octets behind a line end. -/
theorem received_reads {arriving : List (List UInt8)} {calls : List LineRead}
    {delivered : List UInt8} (result : (opened arriving).reads calls = some (delivered, sock)) :
    sock.Received arriving (delivered ++ sock.recvBuf) ∧
      ∀ blen line left, sock.lrecv blen = some (line, left) → 0x0a ∉ line.dropLast := by
  have whole := reads_append rfl result
  rw [octets, octets, opened, List.nil_append, ← List.append_assoc] at whole
  exact ⟨whole, fun blen line left => noLine_lrecv⟩

/-- A line with a limit, the rest of it, and a block that begins in the look-ahead. -/
theorem received_reads_three :
    let arriving : List (List UInt8) := [[1, 2], [3, 0x0a, 4], [5, 6]]
    let sock : LineSock := { recvBuf := [], arriving := [[6]], ending := none }
    sock.Received arriving ([1, 2, 3, 0x0a, 4, 5] ++ sock.recvBuf) ∧
      ∀ blen line left, sock.lrecv blen = some (line, left) → 0x0a ∉ line.dropLast :=
  received_reads (show (opened _).reads [.lrecv 1, .lrecv 8, .drecv 2] = some (_, _) by decide)

end LineSock

end Http1

end HeapHttpd
