import HeapHttpd.General

/-!
# Reading from a client

The readers of `base.h`, `util/general.h` and `http.cpp`.  What comes from the
client is a list of segments, with what follows them where that is known.  A
reader of the synchronous build that has to wait for more has no result.
-/

namespace HeapHttpd

namespace Http1

/-- What follows the last segment: nothing for longer than a read waits, or the
end of the stream. -/
inductive Ending
  | silent
  | closed
  deriving DecidableEq, Repr

/-- `linesock`, with the socket it reads from. -/
structure LineSock where
  recvBuf : List UInt8
  arriving : List (List UInt8)
  ending : Option Ending
  deriving DecidableEq, Repr

/-- The octets a socket still has to give. -/
def LineSock.octets (sock : LineSock) : List UInt8 :=
  sock.recvBuf ++ sock.arriving.flatten

/-- The loop of `_Recv_` while segments come. -/
def recvSegments (count : Nat) : List (List UInt8) → List UInt8 × List (List UInt8)
  | [] => ([], [])
  | segment :: arriving =>
      if segment.length < count then
        let next := recvSegments (count - segment.length) arriving
        (segment ++ next.1, next.2)
      else (segment.take count, segment.drop count :: arriving)

theorem recvSegments_taken (count : Nat) (arriving : List (List UInt8)) :
    (recvSegments count arriving).1 = arriving.flatten.take count := by
  induction arriving generalizing count with
  | nil => simp [recvSegments]
  | cons segment arriving ih =>
      rw [recvSegments]
      split
      · rename_i short
        simp only [ih, List.flatten_cons]
        rw [List.take_append, List.take_of_length_le (Nat.le_of_lt short)]
      · rename_i long
        rw [List.flatten_cons, List.take_append_of_le_length (Nat.not_lt.mp long)]

theorem recvSegments_left (count : Nat) (arriving : List (List UInt8)) :
    (recvSegments count arriving).2.flatten = arriving.flatten.drop count := by
  induction arriving generalizing count with
  | nil => simp [recvSegments]
  | cons segment arriving ih =>
      rw [recvSegments]
      split
      · rename_i short
        simp only [ih, List.flatten_cons]
        rw [List.drop_append, List.drop_of_length_le (Nat.le_of_lt short), List.nil_append]
      · rename_i long
        rw [List.flatten_cons, List.flatten_cons,
          List.drop_append_of_le_length (Nat.not_lt.mp long)]

/-- `linesock::drecv`.  A read that is cut off by a silence does not count what
it has read from the socket. -/
def LineSock.drecv (count : Nat) (sock : LineSock) : Option (List UInt8 × LineSock) :=
  if count ≤ sock.recvBuf.length then
    some (sock.recvBuf.take count, { sock with recvBuf := sock.recvBuf.drop count })
  else
    let read := recvSegments (count - sock.recvBuf.length) sock.arriving
    let left := { sock with recvBuf := [], arriving := read.2 }
    if count - sock.recvBuf.length ≤ read.1.length then some (sock.recvBuf ++ read.1, left)
    else
      match sock.ending with
      | none => none
      | some .closed => some (sock.recvBuf ++ read.1, left)
      | some .silent => some (sock.recvBuf, left)

namespace LineSock

variable {count : Nat} {sock : LineSock}

/-- A read of octets that are there takes them and no others. -/
theorem drecv_of_le (enough : count ≤ sock.octets.length) :
    ∃ left, sock.drecv count = some (sock.octets.take count, left) ∧
      left.octets = sock.octets.drop count ∧ left.ending = sock.ending := by
  unfold drecv
  by_cases buffered : count ≤ sock.recvBuf.length
  · refine ⟨{ sock with recvBuf := sock.recvBuf.drop count }, ?_, ?_, rfl⟩
    · rw [if_pos buffered, octets, List.take_append_of_le_length buffered]
    · simp [octets, List.drop_append_of_le_length buffered]
  · have rest : count - sock.recvBuf.length ≤ sock.arriving.flatten.length := by
      rw [octets, List.length_append] at enough
      omega
    have full : count - sock.recvBuf.length ≤
        (recvSegments (count - sock.recvBuf.length) sock.arriving).1.length := by
      rw [recvSegments_taken, List.length_take]
      omega
    refine ⟨{ sock with
      recvBuf := []
      arriving := (recvSegments (count - sock.recvBuf.length) sock.arriving).2 }, ?_, ?_, rfl⟩
    · simp only [if_neg buffered, if_pos full]
      rw [recvSegments_taken, octets, List.take_append, List.take_of_length_le (not_le.mp buffered).le]
    · simp only [octets, List.nil_append, recvSegments_left]
      rw [List.drop_append, List.drop_of_length_le (not_le.mp buffered).le, List.nil_append]

/-- A read of more octets than there are waits as long as more may come. -/
theorem drecv_eq_none (few : sock.octets.length < count) (pending : sock.ending = none) :
    sock.drecv count = none := by
  rw [octets, List.length_append] at few
  have notBuffered : ¬count ≤ sock.recvBuf.length := by omega
  have short : ¬count - sock.recvBuf.length ≤
      (recvSegments (count - sock.recvBuf.length) sock.arriving).1.length := by
    rw [recvSegments_taken, List.length_take]
    omega
  simp only [drecv, if_neg notBuffered, if_neg short, pending]

/-- Nothing is left behind a read of more octets than there are. -/
theorem drecv_of_ended {ending : Ending} (few : sock.octets.length < count)
    (ended : sock.ending = some ending) :
    ∃ taken left, sock.drecv count = some (taken, left) ∧
      taken.length ≤ sock.octets.length ∧ left.octets = [] ∧ left.ending = some ending := by
  rw [octets, List.length_append] at few
  have notBuffered : ¬count ≤ sock.recvBuf.length := by omega
  have short : ¬count - sock.recvBuf.length ≤
      (recvSegments (count - sock.recvBuf.length) sock.arriving).1.length := by
    rw [recvSegments_taken, List.length_take]
    omega
  have drained : (recvSegments (count - sock.recvBuf.length) sock.arriving).2.flatten = [] := by
    rw [recvSegments_left, List.drop_eq_nil_iff]
    omega
  cases ending with
  | silent =>
      refine ⟨_, _, by simp only [drecv, if_neg notBuffered, if_neg short, ended]; rfl, ?_, ?_, rfl⟩
      · rw [octets, List.length_append]
        exact Nat.le_add_right _ _
      · simpa [octets] using drained
  | closed =>
      refine ⟨_, _, by simp only [drecv, if_neg notBuffered, if_neg short, ended]; rfl, ?_, ?_, rfl⟩
      · rw [octets, List.length_append, List.length_append, recvSegments_taken,
          List.length_take]
        exact Nat.add_le_add_left (Nat.min_le_right _ _) _
      · simpa [octets] using drained

/-- A read takes from the buffer first. -/
theorem recvBuf_drecv {taken : List UInt8} {left : LineSock}
    (read : sock.drecv count = some (taken, left)) :
    left.recvBuf = sock.recvBuf.drop taken.length := by
  unfold drecv at read
  split at read
  · rename_i buffered
    cases read
    rw [List.length_take, Nat.min_eq_left buffered]
  · have beyond (more : List UInt8) : sock.recvBuf.drop (sock.recvBuf ++ more).length = [] := by
      rw [List.drop_eq_nil_iff, List.length_append]
      exact Nat.le_add_right _ _
    simp only at read
    split at read
    · cases read
      rw [beyond]
    · cases ended : sock.ending with
      | none =>
          rw [ended] at read
          cases read
      | some ending =>
          cases ending with
          | silent =>
              rw [ended] at read
              cases read
              rw [List.drop_length]
          | closed =>
              rw [ended] at read
              cases read
              rw [beyond]

end LineSock

/-- The first line of a buffer with its line end, or all of the buffer, up to a
limit. -/
def cutLine (limit : Nat) (buffer : List UInt8) : List UInt8 × List UInt8 :=
  let left :=
    if 0x0a ∈ buffer then (buffer.takeWhile (· ≠ 0x0a)).length + 1 else buffer.length
  (buffer.take (min left limit), buffer.drop (min left limit))

/-- `CHttp::AsyncProtRecv`, with what is left of `m_async_recv_buf`. -/
def asyncProtRecv (len : Nat) (asyncRecvBuf : List UInt8) : List UInt8 × List UInt8 :=
  cutLine len asyncRecvBuf

/-- The loop of `linesock::lrecv`: what it returns, what it keeps in `recv_buf`, and
what it leaves on the socket. -/
def lrecvSegments (blen : Nat) (got : List UInt8) :
    List (List UInt8) → Option (List UInt8 × List UInt8 × List (List UInt8))
  | [] => if blen ≤ got.length then some (got, [], []) else none
  | segment :: arriving =>
      if blen ≤ got.length then some (got, [], segment :: arriving)
      else
        let read := got ++ segment.take (blen - got.length)
        let left := segment.drop (blen - got.length)
        if 0x0a ∈ read then
          let line := cutLine blen read
          some (line.1, line.2, left :: arriving)
        else if left.isEmpty then lrecvSegments blen read arriving
        else some (read, [], left :: arriving)

/-- `linesock::lrecv`.  Without a result it waits for more, or the connection is
gone. -/
def LineSock.lrecv (blen : Nat) (sock : LineSock) : Option (List UInt8 × LineSock) :=
  if 0x0a ∈ sock.recvBuf ∨ blen < sock.recvBuf.length then
    let line := cutLine blen sock.recvBuf
    some (line.1, { sock with recvBuf := line.2 })
  else
    match lrecvSegments blen sock.recvBuf sock.arriving with
    | none => none
    | some (line, recvBuf, arriving) => some (line, { sock with recvBuf, arriving })

theorem cutLine_append (limit : Nat) (buffer : List UInt8) :
    (cutLine limit buffer).1 ++ (cutLine limit buffer).2 = buffer :=
  List.take_append_drop _ _

theorem cutLine_ne_nil {limit : Nat} {buffer : List UInt8} (positive : 0 < limit)
    (nonempty : buffer ≠ []) : (cutLine limit buffer).1 ≠ [] := by
  have length := List.length_pos_iff_ne_nil.mpr nonempty
  rw [cutLine, ← List.length_pos_iff_ne_nil, List.length_take]
  split <;> omega

theorem noLine_takeWhile (buffer : List UInt8) : 0x0a ∉ buffer.takeWhile (· ≠ 0x0a) := by
  intro member
  simpa using List.mem_takeWhile_imp member

/-- A line end ends what is cut off. -/
theorem noLine_cutLine (limit : Nat) (buffer : List UInt8) :
    0x0a ∉ (cutLine limit buffer).1.dropLast := by
  rw [cutLine, List.dropLast_eq_take, List.length_take, List.take_take]
  by_cases hasLine : 0x0a ∈ buffer
  · rw [if_pos hasLine]
    set line := buffer.takeWhile (· ≠ 0x0a) with isLine
    have split : buffer = line ++ buffer.dropWhile (· ≠ 0x0a) :=
      List.takeWhile_append_dropWhile.symm
    have short : min (min (min (line.length + 1) limit) buffer.length - 1)
        (min (line.length + 1) limit) ≤ line.length := by omega
    intro member
    rw [split, List.take_append_of_le_length (by rwa [← split])] at member
    exact noLine_takeWhile buffer (List.mem_of_mem_take member)
  · exact fun member => hasLine (List.mem_of_mem_take member)

/-- The loop neither loses nor changes an octet. -/
theorem lrecvSegments_append {blen : Nat} {got line recvBuf : List UInt8}
    {segments arriving : List (List UInt8)}
    (read : lrecvSegments blen got segments = some (line, recvBuf, arriving)) :
    line ++ recvBuf ++ arriving.flatten = got ++ segments.flatten := by
  induction segments generalizing got with
  | nil =>
      rw [lrecvSegments] at read
      split at read
      · cases read
        simp
      · cases read
  | cons segment segments ih =>
      rw [lrecvSegments] at read
      split at read
      · cases read
        simp
      · simp only at read
        split at read
        · cases read
          rw [cutLine_append, List.flatten_cons, List.append_assoc, ← List.append_assoc (List.take _ _),
            List.take_append_drop, List.flatten_cons]
        · split at read
          · rename_i noneLeft
            have whole := List.take_append_drop (blen - got.length) segment
            rw [List.isEmpty_iff.mp noneLeft, List.append_nil] at whole
            rw [ih read, whole, List.flatten_cons, List.append_assoc]
          · cases read
            rw [List.append_nil, List.flatten_cons, List.append_assoc,
              ← List.append_assoc (List.take _ _), List.take_append_drop, List.flatten_cons]

theorem lrecvSegments_ne_nil {blen : Nat} {got line recvBuf : List UInt8}
    {segments arriving : List (List UInt8)} (positive : 0 < blen)
    (read : lrecvSegments blen got segments = some (line, recvBuf, arriving)) : line ≠ [] := by
  induction segments generalizing got with
  | nil =>
      rw [lrecvSegments] at read
      split at read
      · rename_i full
        cases read
        exact List.length_pos_iff_ne_nil.mp (by omega)
      · cases read
  | cons segment segments ih =>
      rw [lrecvSegments] at read
      split at read
      · rename_i full
        cases read
        exact List.length_pos_iff_ne_nil.mp (by omega)
      · simp only at read
        split at read
        · rename_i hasLine
          cases read
          exact cutLine_ne_nil positive (List.ne_nil_of_mem hasLine)
        · split at read
          · exact ih read
          · rename_i notFull someLeft
            cases read
            have leftLength := List.length_pos_iff_ne_nil.mpr
              (fun empty => someLeft (List.isEmpty_iff.mpr empty))
            rw [List.length_drop] at leftLength
            rw [← List.length_pos_iff_ne_nil, List.length_append, List.length_take]
            omega

/-- A line end ends what the loop returns. -/
theorem noLine_lrecvSegments {blen : Nat} {got line recvBuf : List UInt8}
    {segments arriving : List (List UInt8)} (noLine : 0x0a ∉ got)
    (read : lrecvSegments blen got segments = some (line, recvBuf, arriving)) :
    0x0a ∉ line.dropLast := by
  induction segments generalizing got with
  | nil =>
      rw [lrecvSegments] at read
      split at read
      · cases read
        exact fun member => noLine ((List.dropLast_sublist _).subset member)
      · cases read
  | cons segment segments ih =>
      rw [lrecvSegments] at read
      split at read
      · cases read
        exact fun member => noLine ((List.dropLast_sublist _).subset member)
      · simp only at read
        split at read
        · cases read
          exact noLine_cutLine blen _
        · rename_i noLineRead
          split at read
          · exact ih noLineRead read
          · cases read
            exact fun member => noLineRead ((List.dropLast_sublist _).subset member)

/-- The loop only waits while no line has come. -/
theorem noLine_of_lrecvSegments {blen : Nat} {got : List UInt8}
    {segments : List (List UInt8)} (noLine : 0x0a ∉ got)
    (waits : lrecvSegments blen got segments = none) : 0x0a ∉ got ++ segments.flatten := by
  induction segments generalizing got with
  | nil => simpa using noLine
  | cons segment segments ih =>
      rw [lrecvSegments] at waits
      split at waits
      · cases waits
      · simp only at waits
        split at waits
        · cases waits
        · rename_i noLineRead
          split at waits
          · rename_i noneLeft
            have whole := List.take_append_drop (blen - got.length) segment
            rw [List.isEmpty_iff.mp noneLeft, List.append_nil] at whole
            have := ih noLineRead waits
            rwa [whole, List.append_assoc] at this
          · cases waits

namespace LineSock

variable {blen : Nat} {line : List UInt8} {sock left : LineSock}

theorem lrecv_append (read : sock.lrecv blen = some (line, left)) :
    sock.octets = line ++ left.octets := by
  unfold lrecv at read
  split at read
  · cases read
    rw [octets, octets, ← List.append_assoc, cutLine_append]
  · cases loop : lrecvSegments blen sock.recvBuf sock.arriving with
    | none => simp [loop] at read
    | some result =>
        obtain ⟨text, recvBuf, arriving⟩ := result
        rw [loop] at read
        cases read
        rw [octets, octets, ← List.append_assoc, lrecvSegments_append loop]

theorem lrecv_ne_nil (positive : 0 < blen) (read : sock.lrecv blen = some (line, left)) :
    line ≠ [] := by
  unfold lrecv at read
  split at read
  · rename_i buffered
    cases read
    apply cutLine_ne_nil positive
    rcases buffered with hasLine | full
    · exact List.ne_nil_of_mem hasLine
    · exact List.length_pos_iff_ne_nil.mp (by omega)
  · cases loop : lrecvSegments blen sock.recvBuf sock.arriving with
    | none => simp [loop] at read
    | some result =>
        obtain ⟨text, recvBuf, arriving⟩ := result
        rw [loop] at read
        cases read
        exact lrecvSegments_ne_nil positive loop

theorem noLine_lrecv (read : sock.lrecv blen = some (line, left)) : 0x0a ∉ line.dropLast := by
  unfold lrecv at read
  split at read
  · cases read
    exact noLine_cutLine blen _
  · rename_i buffered
    rw [not_or] at buffered
    cases loop : lrecvSegments blen sock.recvBuf sock.arriving with
    | none => simp [loop] at read
    | some result =>
        obtain ⟨text, recvBuf, arriving⟩ := result
        rw [loop] at read
        cases read
        exact noLine_lrecvSegments buffered.1 loop

theorem noLine_of_lrecv (waits : sock.lrecv blen = none) : 0x0a ∉ sock.octets := by
  unfold lrecv at waits
  split at waits
  · cases waits
  · rename_i buffered
    rw [not_or] at buffered
    cases loop : lrecvSegments blen sock.recvBuf sock.arriving with
    | none => exact noLine_of_lrecvSegments buffered.1 loop
    | some result => simp [loop] at waits

end LineSock

/-- `CHttp::AsyncHttpRecv`, with what is left of `m_async_recv_buf`. -/
def asyncHttpRecv (count : Nat) (asyncRecvBuf : List UInt8) : List UInt8 × List UInt8 :=
  (asyncRecvBuf.take count, asyncRecvBuf.drop count)

end Http1

end HeapHttpd
