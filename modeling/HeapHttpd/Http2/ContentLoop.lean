import HeapHttpd.Http2.Ownership
import HeapHttpd.Http2.Runs

/-!
# Progress of the content

What a pass of `CHttp2::TransHttp1SendHttp2Content` gets done, from any state that the
connection is in when the pass begins, and when the passes come to an end.
-/

namespace HeapHttpd

namespace Http2

open Code

namespace ContentLoop

variable {X : Type}

/-- How a pass ends: the loop is left, it goes on, or it goes on once a frame has come. -/
inductive PassEnd
  | leaves (ret : Int)
  | goesOn (sentLen : Nat)
  | waits (sentLen : Nat)

/-- A pass of `CHttp2::TransHttp1SendHttp2Content`, up to where it may wait. -/
def contentPass (env : Env X) (stream : StreamPtr) (buf : List UInt8) (sentLen : Nat) :
    Code X PassEnd := do
  let _ ← access stream
  let (ret, pre) ← attempt fun conn => conn.sendData env stream (buf.drop sentLen)
  if ret = -1 then return .leaves ret
  else if sentLen + pre = buf.length then return .leaves ret
  else
    let sender ← access stream
    if sender.peerWindowSize = 0 then return .waits (sentLen + pre)
    else return .goesOn (sentLen + pre)

/-- What follows a pass. -/
def afterPass (next : Nat → Code X Int) : PassEnd → Code X Int
  | .leaves ret => return ret
  | .goesOn sentLen => next sentLen
  | .waits sentLen => do
      Prog.wait
      next sentLen

theorem access_apply (stream : StreamPtr) (turn : Turn X) :
    access stream turn =
      match (turn.conn.touch (.stream stream)).deref stream with
      | some accessed => .done { turn with conn := turn.conn.touch (.stream stream) } accessed
      | none => .fault { turn with conn := turn.conn.touch (.stream stream) } := by
  have unfolded : access stream turn =
      (match (turn.conn.touch (.stream stream)).deref stream with
      | some accessed => (return accessed : Code X (Http2Stream X))
      | none => Prog.fault) { turn with conn := turn.conn.touch (.stream stream) } := rfl
  rw [unfolded]
  cases (turn.conn.touch (.stream stream)).deref stream <;> rfl

/-- The loop is its passes. -/
theorem sendContentLoop_succ (env : Env X) (stream : StreamPtr) (buf : List UInt8)
    (passes sentLen : Nat) :
    sendContentLoop env stream buf (passes + 1) sentLen =
      contentPass env stream buf sentLen >>= afterPass (sendContentLoop env stream buf passes) := by
  funext turn
  rw [sendContentLoop, contentPass]
  simp only [Prog.bind_apply, Proc.andThen_assoc]
  congr 1
  funext accessedTurn accessed
  congr 1
  funext sentTurn result
  split
  · rfl
  · split
    · rfl
    · simp only [Prog.bind_apply, Proc.andThen_assoc]
      congr 1
      funext lastTurn sender
      split <;> rfl

/-! ## What a pass gets done -/

/-- Octets of the content were sent, the loop is left, or there is no window while the
connection waits. -/
def PassEnd.Advances (conn : Conn X) (stream : StreamPtr) (sentLen : Nat) : PassEnd → Prop
  | .leaves _ => True
  | .goesOn later => sentLen < later
  | .waits later => sentLen < later ∨
      ∃ sender, conn.deref stream = some sender ∧ sender.peerWindowSize ≤ 0

/-- A pass that begins behind some octets of the content gets something done. -/
def Advances (env : Env X) (stream : StreamPtr) (buf : List UInt8) (turn : Turn X)
    (sentLen : Nat) : Prop :=
  ∃ turn' passEnd, contentPass env stream buf sentLen turn = .done turn' passEnd ∧
    passEnd.Advances turn'.conn stream sentLen

/-- The send of a pass fails. -/
def Unsent (env : Env X) (stream : StreamPtr) (conn : Conn X) : Prop :=
  ¬(env.async ∨ env.sendFails ((conn.touch (.stream stream)).trace.length + 1) = false)

/-- The octets of the frame of a pass. -/
def frameLength (conn : Conn X) (sender : Http2Stream X) (stream : StreamPtr)
    (rest : List UInt8) : Nat :=
  sizeofFrame +
    (contentFrame conn.maxFrameSize sender.peerWindowSize stream.streamInd rest).payload.length

/-- The stream is there, the length of the frame fits into an `int`, and frames may have a
payload unless there is nothing to send, no window, or the send fails. -/
def Fit (env : Env X) (stream : StreamPtr) (buf : List UInt8) (turn : Turn X)
    (sentLen : Nat) : Prop :=
  ∃ sender, turn.conn.deref stream = some sender ∧
    frameLength turn.conn sender stream (buf.drop sentLen) < 2 ^ 31 ∧
    (0 < turn.conn.maxFrameSize ∨ buf.length ≤ sentLen ∨ toUint sender.peerWindowSize = 0 ∨
      Unsent env stream turn.conn)

section Pass

variable {env : Env X} {stream : StreamPtr} {conn : Conn X} {sender : Http2Stream X}
  {buf rest : List UInt8} {turn : Turn X} {sentLen : Nat}

theorem deref_touch (conn : Conn X) (holding : Holding) :
    (conn.touch holding).deref stream = conn.deref stream ∧
      (conn.touch holding).maxFrameSize = conn.maxFrameSize := by
  rcases touch_eq_or conn holding with same | stale
  · rw [same]
    exact ⟨rfl, rfl⟩
  · rw [stale]
    exact ⟨rfl, rfl⟩

/-- A stream that is there is changed, wherever it is. -/
theorem deref_assign {change : Http2Stream X → Http2Stream X}
    (same : ∀ stream, (change stream).object = stream.object) :
    (conn.assign stream change).deref stream = (conn.deref stream).map change := by
  rw [Conn.deref, Conn.deref, listed_assign same, if_pos rfl]
  unfold Conn.assign
  split
  · rename_i isListed
    obtain ⟨present, found⟩ := Option.isSome_iff_exists.mp isListed
    rw [found]
    rfl
  · rename_i notListed
    rw [Option.not_isSome_iff_eq_none.mp notListed]
    simp

theorem preSendLen_eq_zero (maxFrameSize : Nat) (window : Int) (remaining : Nat) :
    preSendLen maxFrameSize window remaining = 0 ↔
      remaining = 0 ∨ maxFrameSize = 0 ∨ toUint window = 0 := by
  unfold preSendLen dataPaddingLen
  dsimp only
  split <;> omega

/-- How much a frame may have of the content. -/
theorem preSendLen_eq (maxFrameSize : Nat) : ∃ limit, (0 < maxFrameSize → 0 < limit) ∧
    ∀ window remaining,
      preSendLen maxFrameSize window remaining = min (min remaining limit) (toUint window) := by
  refine ⟨if dataPaddingLen + 1 < maxFrameSize then maxFrameSize - dataPaddingLen - 1
    else maxFrameSize, fun positive => ?_, fun window remaining => rfl⟩
  unfold dataPaddingLen
  split <;> omega

/-- A later pass of the same content sends no more than one that did not complete it. -/
theorem preSendLen_later {maxFrameSize remaining : Nat} {window : Int}
    (positive : 0 < maxFrameSize) (open' : 0 < window) (fits : window < 2 ^ 31)
    (enough : (remaining : Int) ≤ window)
    (incomplete : preSendLen maxFrameSize window remaining ≠ remaining) :
    0 < preSendLen maxFrameSize window remaining ∧
      preSendLen maxFrameSize window remaining < remaining ∧
      preSendLen maxFrameSize (window - preSendLen maxFrameSize window remaining)
          (remaining - preSendLen maxFrameSize window remaining) ≤
        preSendLen maxFrameSize window remaining := by
  obtain ⟨limit, room, isLen⟩ := preSendLen_eq maxFrameSize
  have some' := room positive
  have isWindow : toUint window = window.toNat := by
    rw [toUint]
    omega
  have first := isLen window remaining
  have second := isLen (window - preSendLen maxFrameSize window remaining)
    (remaining - preSendLen maxFrameSize window remaining)
  rw [isWindow] at first
  refine ⟨by omega, by omega, by omega⟩

/-- What the send of a pass does, if its frame can be built. -/
theorem sendData_of_small (found : conn.deref stream = some sender)
    (small : frameLength conn sender stream rest < 2 ^ 31) :
    ∃ conn' ret, conn.sendData env stream rest =
        .ok (conn', (ret, preSendLen conn.maxFrameSize sender.peerWindowSize rest.length)) ∧
      (ret = -1 ↔ ¬(env.async ∨ env.sendFails (conn.trace.length + 1) = false)) ∧
      (ret ≠ -1 → conn'.maxFrameSize = conn.maxFrameSize ∧
        conn'.deref stream = some { sender with
          peerWindowSize := toInt (sender.peerWindowSize -
            preSendLen conn.maxFrameSize sender.peerWindowSize rest.length) }) := by
  have length : (conn.log (.building stream rest.length conn.maxFrameSize
      sender.peerWindowSize)).trace.length = conn.trace.length + 1 := by
    rw [Conn.log, List.length_append, List.length_singleton]
  have result := @httpSend_snd_eq X env (conn.log (.building stream rest.length conn.maxFrameSize
    sender.peerWindowSize)) [contentFrame conn.maxFrameSize sender.peerWindowSize
      stream.streamInd rest] (some stream)
  rw [length] at result
  have there (after : Conn X) (sameList : after.streamList = conn.streamList)
      (sameLeaked : after.leaked = conn.leaked) : after.deref stream = some sender := by
    rw [← found, Conn.deref, Conn.deref, listed_congr sameList, sameLeaked]
  rw [frameLength] at small
  rw [Conn.sendData, found]
  simp only
  rw [if_neg (Nat.not_le_of_lt small)]
  by_cases fails : ((conn.log (.building stream rest.length conn.maxFrameSize
      sender.peerWindowSize)).httpSend env [contentFrame conn.maxFrameSize sender.peerWindowSize
        stream.streamInd rest] (some stream)).2 = -1
  · rw [if_neg (not_not.mpr fails)]
    exact ⟨_, _, rfl, result, fun sent => absurd fails sent⟩
  · rw [if_pos fails]
    have assigned : (((conn.log (.building stream rest.length conn.maxFrameSize
        sender.peerWindowSize)).httpSend env [contentFrame conn.maxFrameSize
          sender.peerWindowSize stream.streamInd rest] (some stream)).1.assign stream
        fun sending => { sending with
          peerWindowSize := toInt (sending.peerWindowSize -
            preSendLen conn.maxFrameSize sender.peerWindowSize rest.length) }).deref stream =
        some { sender with
          peerWindowSize := toInt (sender.peerWindowSize -
            preSendLen conn.maxFrameSize sender.peerWindowSize rest.length) } := by
      refine (deref_assign ?_).trans ?_
      · exact fun _ => rfl
      · rw [there _ (by rw [httpSend_fst]; rfl) (by rw [httpSend_fst]; rfl), Option.map_some]
    refine ⟨_, _, rfl, result, fun _ => ⟨?_, assigned⟩⟩
    rw [httpSend_fst]
    unfold Conn.assign
    split <;> rfl

/-- A frame that is too long is not built. -/
theorem sendData_of_long (found : conn.deref stream = some sender)
    (long : ¬frameLength conn sender stream rest < 2 ^ 31) :
    conn.sendData env stream rest = .fault := by
  rw [frameLength] at long
  rw [Conn.sendData, found]
  simp only
  rw [if_pos (Nat.le_of_not_lt long)]

/-- A pass without its stream goes wrong. -/
theorem contentPass_absent (absent : turn.conn.deref stream = none) :
    ∃ turn', contentPass env stream buf sentLen turn = .fault turn' := by
  have touched := (@deref_touch _ stream turn.conn (.stream stream)).1
  rw [contentPass, Prog.bind_apply, access_apply, touched, absent]
  exact ⟨_, rfl⟩

theorem contentPass_long (found : turn.conn.deref stream = some sender)
    (long : ¬frameLength turn.conn sender stream (buf.drop sentLen) < 2 ^ 31) :
    ∃ turn', contentPass env stream buf sentLen turn = .fault turn' := by
  obtain ⟨there, same⟩ := @deref_touch _ stream turn.conn (.stream stream)
  have tooLong : (turn.conn.touch (.stream stream)).sendData env stream (buf.drop sentLen) =
      .fault := by
    refine sendData_of_long (there.trans found) ?_
    rwa [frameLength, same]
  rw [contentPass, Prog.bind_apply, access_apply, there, found]
  simp only [Proc.done_andThen, Prog.bind_apply]
  rw [attempt_of_fault (fun conn result done => by rw [tooLong] at done; cases done)]
  exact ⟨_, rfl⟩

/-- A pass whose frame can be built. -/
theorem contentPass_small (found : turn.conn.deref stream = some sender)
    (small : frameLength turn.conn sender stream (buf.drop sentLen) < 2 ^ 31) :
    ∃ turn' passEnd, contentPass env stream buf sentLen turn = .done turn' passEnd ∧
      (Unsent env stream turn.conn → ∃ ret, passEnd = .leaves ret) ∧
      (¬Unsent env stream turn.conn →
        let pre := preSendLen turn.conn.maxFrameSize sender.peerWindowSize
          (buf.length - sentLen)
        let window := toInt (sender.peerWindowSize - pre)
        turn'.conn.maxFrameSize = turn.conn.maxFrameSize ∧
          turn'.conn.deref stream = some { sender with peerWindowSize := window } ∧
          ((sentLen + pre = buf.length ∧ ∃ ret, passEnd = .leaves ret) ∨
            sentLen + pre ≠ buf.length ∧
              passEnd = if window = 0 then .waits (sentLen + pre) else .goesOn (sentLen + pre))) := by
  obtain ⟨there, same⟩ := @deref_touch _ stream turn.conn (.stream stream)
  have smallTouched : frameLength (turn.conn.touch (.stream stream)) sender stream
      (buf.drop sentLen) < 2 ^ 31 := by
    rwa [frameLength, same]
  obtain ⟨conn', ret, sent, isUnsent, changed⟩ :=
    @sendData_of_small _ env _ _ _ _ (there.trans found) smallTouched
  rw [same, List.length_drop] at sent changed
  have start : contentPass env stream buf sentLen turn =
      (if ret = -1 then return .leaves ret
      else if sentLen + preSendLen turn.conn.maxFrameSize sender.peerWindowSize
          (buf.length - sentLen) = buf.length then return .leaves ret
      else do
        let sender' ← access stream
        if sender'.peerWindowSize = 0 then
          return .waits (sentLen + preSendLen turn.conn.maxFrameSize sender.peerWindowSize
            (buf.length - sentLen))
        else
          return .goesOn (sentLen + preSendLen turn.conn.maxFrameSize sender.peerWindowSize
            (buf.length - sentLen)) : Code X PassEnd) { turn with conn := conn' } := by
    rw [contentPass, Prog.bind_apply, access_apply, there, found]
    simp only [Proc.done_andThen, Prog.bind_apply]
    rw [attempt_of_ok sent]
    rfl
  by_cases unsent : ret = -1
  · rw [start, if_pos unsent]
    exact ⟨_, _, rfl, fun _ => ⟨ret, rfl⟩, fun isSent => absurd (isUnsent.mp unsent) isSent⟩
  · obtain ⟨sameSize, isThere⟩ := changed unsent
    have isSent : ¬Unsent env stream turn.conn := fun fails => unsent (isUnsent.mpr fails)
    rw [start, if_neg unsent]
    by_cases complete : sentLen + preSendLen turn.conn.maxFrameSize sender.peerWindowSize
        (buf.length - sentLen) = buf.length
    · rw [if_pos complete]
      exact ⟨_, _, rfl, fun fails => absurd fails isSent, fun _ =>
        ⟨sameSize, isThere, .inl ⟨complete, ret, rfl⟩⟩⟩
    · obtain ⟨thereAgain, sameAgain⟩ := @deref_touch _ stream conn' (.stream stream)
      rw [if_neg complete, Prog.bind_apply, access_apply, thereAgain, isThere]
      simp only [Proc.done_andThen]
      split
      case isTrue exhausted =>
        refine ⟨_, _, rfl, fun fails => absurd fails isSent, fun _ =>
          ⟨sameAgain.trans sameSize, thereAgain.trans isThere, .inr ⟨complete, rfl⟩⟩⟩
      case isFalse left =>
        refine ⟨_, _, rfl, fun fails => absurd fails isSent, fun _ =>
          ⟨sameAgain.trans sameSize, thereAgain.trans isThere, .inr ⟨complete, rfl⟩⟩⟩

/-- Which passes get something done. -/
theorem advances_iff_fit (inside : sentLen ≤ buf.length) :
    Advances env stream buf turn sentLen ↔ Fit env stream buf turn sentLen := by
  cases found : turn.conn.deref stream with
  | none =>
      obtain ⟨_, faults⟩ := @contentPass_absent _ env _ buf _ sentLen found
      constructor
      · rintro ⟨_, _, done, -⟩
        rw [faults] at done
        cases done
      · rintro ⟨_, present, -⟩
        rw [found] at present
        cases present
  | some sender =>
      have isFit : Fit env stream buf turn sentLen ↔
          frameLength turn.conn sender stream (buf.drop sentLen) < 2 ^ 31 ∧
            (0 < turn.conn.maxFrameSize ∨ buf.length ≤ sentLen ∨
              toUint sender.peerWindowSize = 0 ∨ Unsent env stream turn.conn) := by
        constructor
        · rintro ⟨other, present, fit⟩
          rw [found] at present
          cases present
          exact fit
        · exact fun fit => ⟨sender, found, fit⟩
      rw [isFit]
      by_cases small : frameLength turn.conn sender stream (buf.drop sentLen) < 2 ^ 31
      case neg =>
        obtain ⟨_, faults⟩ := @contentPass_long _ env _ _ _ _ _ found small
        refine ⟨?_, fun fit => absurd fit.1 small⟩
        rintro ⟨_, _, done, -⟩
        rw [faults] at done
        cases done
      case pos =>
        obtain ⟨turn', passEnd, done, leaves, goes⟩ :=
          @contentPass_small _ env _ _ _ _ _ found small
        have isAdvances : Advances env stream buf turn sentLen ↔
            passEnd.Advances turn'.conn stream sentLen := by
          rw [Advances, done]
          constructor
          · rintro ⟨_, _, same, advances⟩
            cases same
            exact advances
          · exact fun advances => ⟨turn', passEnd, rfl, advances⟩
        rw [isAdvances, and_iff_right small]
        by_cases unsent : Unsent env stream turn.conn
        · obtain ⟨ret, rfl⟩ := leaves unsent
          exact ⟨fun _ => .inr (.inr (.inr unsent)), fun _ => trivial⟩
        · obtain ⟨-, isThere, ends⟩ := goes unsent
          have zero := preSendLen_eq_zero turn.conn.maxFrameSize sender.peerWindowSize
            (buf.length - sentLen)
          have window : toInt (sender.peerWindowSize - 0) = 0 ↔
              toUint sender.peerWindowSize = 0 := by
            rw [toInt, toUint]
            omega
          rcases ends with ⟨complete, ret, rfl⟩ | ⟨incomplete, rfl⟩
          · refine ⟨fun _ => ?_, fun _ => trivial⟩
            omega
          · by_cases nothing : preSendLen turn.conn.maxFrameSize sender.peerWindowSize
                (buf.length - sentLen) = 0
            · rw [nothing, Nat.add_zero] at incomplete
              have isZero := zero.mp nothing
              rw [nothing, Nat.cast_zero] at isThere ⊢
              by_cases exhausted : toUint sender.peerWindowSize = 0
              · have noWindow := window.mpr exhausted
                rw [if_pos noWindow]
                exact ⟨fun _ => .inr (.inr (.inl exhausted)),
                  fun _ => .inr ⟨_, isThere, Int.le_of_eq noWindow⟩⟩
              · rw [if_neg fun noWindow => exhausted (window.mp noWindow)]
                constructor
                · intro later
                  exact absurd later (Nat.lt_irrefl sentLen)
                · rintro (positive | behind | none' | fails)
                  · omega
                  · omega
                  · exact absurd none' exhausted
                  · exact absurd fails unsent
            · refine ⟨fun _ => by omega, fun _ => ?_⟩
              split
              · exact .inl (by omega)
              · exact Nat.lt_add_of_pos_right (Nat.pos_of_ne_zero nothing)

end Pass

/-! ## The passes of a call -/

/-- The states in which the passes of a call begin: behind a pass that goes on in its state, and
behind one that waits in whatever state other frames leave the connection. -/
inductive Begins (env : Env X) (stream : StreamPtr) (buf : List UInt8) (call : Turn X) :
    Turn X → Nat → Prop
  | call : Begins env stream buf call call 0
  | goesOn {turn turn' : Turn X} {sentLen later : Nat}
      (begins : Begins env stream buf call turn sentLen)
      (pass : contentPass env stream buf sentLen turn = .done turn' (.goesOn later)) :
      Begins env stream buf call turn' later
  | waits {turn turn' : Turn X} {sentLen later : Nat}
      (begins : Begins env stream buf call turn sentLen)
      (pass : contentPass env stream buf sentLen turn = .done turn' (.waits later))
      (resumed : Turn X) : Begins env stream buf call resumed later

/-- The passes of a call come to an end without waiting. -/
def Ends (env : Env X) (stream : StreamPtr) (buf : List UInt8) (turn : Turn X) : Prop :=
  ∃ passes turn' ret, sendContentLoop env stream buf passes 0 turn = .done turn' ret

/-- The window of the stream is enough for the content. -/
def EnoughWindow (stream : StreamPtr) (buf : List UInt8) (turn : Turn X) : Prop :=
  ∃ sender, turn.conn.deref stream = some sender ∧ 0 < sender.peerWindowSize ∧
    buf.length ≤ sender.peerWindowSize ∧ sender.peerWindowSize < 2 ^ 31

section Call

variable {env : Env X} {stream : StreamPtr} {buf : List UInt8} {turn turn' call : Turn X}
  {sender : Http2Stream X} {sentLen later : Nat}

/-- No pass sends more than the content. -/
theorem later_le {passEnd : PassEnd} (inside : sentLen ≤ buf.length)
    (pass : contentPass env stream buf sentLen turn = .done turn' passEnd)
    (isLater : passEnd = .goesOn later ∨ passEnd = .waits later) : later ≤ buf.length := by
  cases found : turn.conn.deref stream with
  | none =>
      obtain ⟨_, faults⟩ := @contentPass_absent _ env _ buf _ sentLen found
      rw [faults] at pass
      cases pass
  | some sender =>
      by_cases small : frameLength turn.conn sender stream (buf.drop sentLen) < 2 ^ 31
      · obtain ⟨_, _, done, leaves, goes⟩ := @contentPass_small _ env _ _ _ _ _ found small
        rw [pass] at done
        cases done
        have within := preSendLen_le turn.conn.maxFrameSize sender.peerWindowSize
          (buf.length - sentLen)
        by_cases unsent : Unsent env stream turn.conn
        · obtain ⟨_, rfl⟩ := leaves unsent
          rcases isLater with same | same <;> cases same
        · obtain ⟨-, -, ⟨-, _, rfl⟩ | ⟨-, isEnd⟩⟩ := goes unsent
          · rcases isLater with same | same <;> cases same
          · rw [isEnd] at isLater
            split at isLater
            · rcases isLater with same | same <;> cases same
              omega
            · rcases isLater with same | same <;> cases same
              omega
      · obtain ⟨_, faults⟩ := @contentPass_long _ env _ _ _ _ _ found small
        rw [faults] at pass
        cases pass

theorem sentLen_le (begins : Begins env stream buf call turn sentLen) :
    sentLen ≤ buf.length := by
  induction begins with
  | call => exact Nat.zero_le _
  | goesOn begins pass ih => exact later_le ih pass (.inl rfl)
  | waits begins pass resumed ih => exact later_le ih pass (.inr rfl)

theorem frameLength_eq (conn : Conn X) (sender : Http2Stream X) (stream : StreamPtr)
    (rest : List UInt8) :
    frameLength conn sender stream rest =
      let pre := preSendLen conn.maxFrameSize sender.peerWindowSize rest.length
      sizeofFrame +
        if dataPaddingLen + 1 < conn.maxFrameSize then
          1 + pre + (dataPaddingLen - pre % dataPaddingLen)
        else pre := by
  have within := preSendLen_le conn.maxFrameSize sender.peerWindowSize rest.length
  rw [frameLength, contentFrame]
  dsimp only
  have taken : (rest.take (preSendLen conn.maxFrameSize sender.peerWindowSize
      rest.length)).length = preSendLen conn.maxFrameSize sender.peerWindowSize rest.length := by
    rw [List.length_take, Nat.min_eq_left within]
  split
  · rw [frameOf]
    simp only [List.cons_append, List.length_cons, List.length_append, List.length_replicate,
      taken]
    omega
  · rw [frameOf, taken]

/-- The passes come to an end if the window is enough for what is left. -/
theorem done_of_window (positive : 0 < turn.conn.maxFrameSize)
    (found : turn.conn.deref stream = some sender)
    (small : frameLength turn.conn sender stream (buf.drop sentLen) < 2 ^ 31)
    (inside : sentLen ≤ buf.length) (open' : 0 < sender.peerWindowSize)
    (enough : ((buf.length - sentLen : Nat) : Int) ≤ sender.peerWindowSize)
    (fits : sender.peerWindowSize < 2 ^ 31) :
    ∃ passes turn' ret, sendContentLoop env stream buf passes sentLen turn = .done turn' ret := by
  induction left : buf.length - sentLen using Nat.strongRecOn generalizing turn sender sentLen with
  | ind remaining ih =>
      subst left
      obtain ⟨turn', passEnd, pass, leaves, goes⟩ := @contentPass_small _ env _ _ _ _ _ found small
      have once (next : Nat → Code X Int) :
          (contentPass env stream buf sentLen >>= afterPass next) turn =
            afterPass next passEnd turn' := by
        rw [Prog.bind_apply, pass]
        rfl
      have leaving {ret : Int} (isEnd : passEnd = .leaves ret) : ∃ passes turn' ret,
          sendContentLoop env stream buf passes sentLen turn = .done turn' ret := by
        refine ⟨1, turn', ret, ?_⟩
        rw [sendContentLoop_succ, once, isEnd]
        rfl
      by_cases unsent : Unsent env stream turn.conn
      · obtain ⟨ret, isEnd⟩ := leaves unsent
        exact leaving isEnd
      · obtain ⟨sameSize, isThere, ⟨-, ret, isEnd⟩ | ⟨incomplete, isEnd⟩⟩ := goes unsent
        · exact leaving isEnd
        · have within := preSendLen_le turn.conn.maxFrameSize sender.peerWindowSize
            (buf.length - sentLen)
          have zero := preSendLen_eq_zero turn.conn.maxFrameSize sender.peerWindowSize
            (buf.length - sentLen)
          have isWindow : toUint sender.peerWindowSize = sender.peerWindowSize.toNat := by
            rw [toUint]
            omega
          have later := preSendLen_later positive open' fits enough (by omega)
          have isLeft : toInt (sender.peerWindowSize - preSendLen turn.conn.maxFrameSize
              sender.peerWindowSize (buf.length - sentLen)) = sender.peerWindowSize -
                preSendLen turn.conn.maxFrameSize sender.peerWindowSize
                  (buf.length - sentLen) := by
            rw [toInt]
            omega
          rw [isLeft] at isThere isEnd
          rw [if_neg (by omega)] at isEnd
          have smaller : frameLength turn'.conn { sender with
              peerWindowSize := sender.peerWindowSize - preSendLen turn.conn.maxFrameSize
                sender.peerWindowSize (buf.length - sentLen) } stream
              (buf.drop (sentLen + preSendLen turn.conn.maxFrameSize sender.peerWindowSize
                (buf.length - sentLen))) < 2 ^ 31 := by
            rw [frameLength_eq, List.length_drop] at small ⊢
            simp only [sameSize] at small ⊢
            rw [Nat.sub_add_eq]
            have fewer := later.2.2
            unfold dataPaddingLen at small ⊢
            split at small
            case isTrue padded =>
              rw [if_pos padded]
              omega
            case isFalse bare =>
              rw [if_neg bare]
              omega
          obtain ⟨passes, last, ret, done⟩ := ih _ (by omega) (sameSize ▸ positive) isThere
            smaller (by omega) (by simp only; omega) (by simp only; omega) (by simp only; omega) rfl
          refine ⟨passes + 1, last, ret, ?_⟩
          rw [sendContentLoop_succ, once, isEnd]
          exact done

/-- A call whose first pass is fit comes to an end if the window is enough. -/
theorem ends_of_enoughWindow (fit : Fit env stream buf turn 0)
    (enough : EnoughWindow stream buf turn) : Ends env stream buf turn := by
  obtain ⟨sender, found, small, reason⟩ := fit
  obtain ⟨other, isThere, open', room, fits⟩ := enough
  rw [found] at isThere
  cases isThere
  by_cases positive : 0 < turn.conn.maxFrameSize
  · exact done_of_window positive found small (Nat.zero_le _) open' (by rwa [Nat.sub_zero]) fits
  · obtain ⟨turn', passEnd, pass, leaves, goes⟩ := @contentPass_small _ env _ _ _ _ _ found small
    have isLeft : ∃ ret, passEnd = .leaves ret := by
      by_cases unsent : Unsent env stream turn.conn
      · exact leaves unsent
      · rcases reason with isPositive | empty | none' | fails
        · exact absurd isPositive positive
        · obtain ⟨-, -, ⟨-, isEnd⟩ | ⟨incomplete, -⟩⟩ := goes unsent
          · exact isEnd
          · have within := preSendLen_le turn.conn.maxFrameSize sender.peerWindowSize
              (buf.length - 0)
            omega
        · rw [toUint] at none'
          omega
        · exact absurd fails unsent
    obtain ⟨ret, rfl⟩ := isLeft
    refine ⟨1, turn', ret, ?_⟩
    rw [sendContentLoop_succ, Prog.bind_apply, pass]
    rfl

end Call

/-- A connection with a new stream, for which the client has set the size of frames. -/
def trialTurn (maxFrameSize : Nat) : Turn Unit :=
  { conn := { (Conn.new true).createStream (plainEnv true []) 1 with maxFrameSize }
    flags := 0
    incoming := [] }

theorem deref_trialTurn (maxFrameSize : Nat) : (trialTurn maxFrameSize).conn.deref ⟨1, 0⟩ =
    some ((Conn.new true).newStream (plainEnv true [])) := by
  have listed := @listed_createStream Unit (plainEnv true []) (Conn.new true) 1 ⟨1, 0⟩ rfl
  have same : (trialTurn maxFrameSize).conn.listed ⟨1, 0⟩ =
      ((Conn.new true).createStream (plainEnv true []) 1).listed ⟨1, 0⟩ := listed_congr rfl _
  have isPointer : (⟨1, 0⟩ : StreamPtr) = ⟨1, (Conn.new (X := Unit) true).nextObject⟩ := rfl
  rw [Conn.deref, same, listed, if_pos isPointer]
  rfl

end ContentLoop

end Http2

end HeapHttpd
