import HeapHttpd.Library.Outbox
import HeapHttpd.Library.Outcome
import HeapHttpd.Library.Replay
import Mathlib.Algebra.Group.Nat.Defs

/-!
# The send buffer of a session

`AsyncHttpSend`, `AsyncSend` and `AsyncHttpFlush` of `CHttp`, which writes in a loop, and of
`CHttp2`, which writes once, on a socket that takes as much as it likes.  The lengths are
`int`s.
-/

namespace HeapHttpd

namespace Sessions

open Replay (Throughout)

/-- What `send` or `SSL_write` comes back with.  It takes no more than it is given. -/
inductive SocketWrite
  | taken (count : Nat)
  | wouldBlock
  | failed
  deriving DecidableEq, Repr

/-- The class of a protocol object. -/
inductive Protocol
  | http1
  | http2
  deriving DecidableEq, Repr

/-- The buffer with what has gone to the socket, and all that `AsyncHttpSend` was given. -/
structure AsyncSender where
  box : Outbox UInt8
  given : List UInt8
  deriving DecidableEq

/-- A call, with what the calls of `send` come back with that it makes.  Behind these the socket
takes nothing. -/
inductive SenderCall
  | asyncHttpSend (buf : List UInt8) (results : List SocketWrite)
  | asyncSend (results : List SocketWrite)
  | asyncHttpFlush (results : List SocketWrite)
  deriving DecidableEq

/-- The octets that a call is given. -/
def SenderCall.buf : SenderCall → List UInt8
  | .asyncHttpSend buf _ => buf
  | .asyncSend _ | .asyncHttpFlush _ => []

/-- `INT_MAX`. -/
def intMax : Nat := 2 ^ 31 - 1

/-- The loop of `CHttp::AsyncSend`.  It goes on behind the last octet, and then ends with the
result for no octets. -/
def asyncSendLoop : List SocketWrite → Outbox UInt8 → Int × Outbox UInt8
  | [], box => (0, box)
  | .taken count :: results, box =>
      if min count box.held.length = 0 then (-1, box)
      else asyncSendLoop results (box.pass count)
  | .wouldBlock :: _, box => (0, box)
  | .failed :: _, box => (-1, box)

/-- `CHttp2::AsyncSend` with a buffer that is not empty. -/
def asyncSendOnce : List SocketWrite → Outbox UInt8 → Int × Outbox UInt8
  | [], box => (0, box)
  | .taken count :: _, box => (min count box.held.length, box.pass count)
  | .wouldBlock :: _, box => (0, box)
  | .failed :: _, box => (-1, box)

/-- `AsyncSend`. -/
def asyncSend (protocol : Protocol) (results : List SocketWrite) (box : Outbox UInt8) :
    Int × Outbox UInt8 :=
  if box.held = [] then (0, box)
  else
    match protocol with
    | .http1 => asyncSendLoop results box
    | .http2 => asyncSendOnce results box

namespace AsyncSender

/-- A new protocol object. -/
def new : AsyncSender :=
  { box := .empty, given := [] }

/-- A call, with what it returns. -/
def call (protocol : Protocol) (sender : AsyncSender) : SenderCall → Outcome (Int × AsyncSender)
  | .asyncHttpSend buf results =>
      if buf = [] then .ok (0, sender)
      else if intMax < sender.box.held.length + buf.length then .fault
      else
        .ok (buf.length,
          { box := (asyncSend protocol results (sender.box.put buf)).2
            given := sender.given ++ buf })
  | .asyncSend results =>
      let sent := asyncSend protocol results sender.box
      .ok (sent.1, { sender with box := sent.2 })
  | .asyncHttpFlush results =>
      let sent := asyncSend protocol results sender.box
      .ok (sent.2.held.length, { sender with box := sent.2 })

/-- The state behind a call. -/
def apply (protocol : Protocol) (sender : AsyncSender) (call : SenderCall) : AsyncSender :=
  match sender.call protocol call with
  | .ok (_, next) => next
  | _ => sender

/-- Behind a call, all octets given have gone to the socket or are in the buffer. -/
def Keeps (protocol : Protocol) (sender : AsyncSender) (call : SenderCall) : Prop :=
  ∃ returned next, sender.call protocol call = .ok (returned, next) ∧
    next.given = sender.given ++ call.buf ∧ next.box.Carries next.given

/-- What a call is given can be counted together with the buffer. -/
def Fits (sender : AsyncSender) (call : SenderCall) : Prop :=
  call.buf = [] ∨ sender.box.held.length + call.buf.length ≤ intMax

end AsyncSender

variable {protocol : Protocol} {results : List SocketWrite} {box : Outbox UInt8}
  {given : List UInt8} {sender : AsyncSender}

theorem carries_asyncSendLoop (carries : box.Carries given) :
    (asyncSendLoop results box).2.Carries given := by
  induction results generalizing box with
  | nil => exact carries
  | cons result results ih =>
      cases result with
      | taken count =>
          rw [asyncSendLoop]
          split
          · exact carries
          · exact ih (carries.pass count)
      | wouldBlock => exact carries
      | failed => exact carries

theorem carries_asyncSendOnce (carries : box.Carries given) :
    (asyncSendOnce results box).2.Carries given := by
  cases results with
  | nil => exact carries
  | cons result results =>
      cases result with
      | taken count => exact carries.pass count
      | wouldBlock => exact carries
      | failed => exact carries

theorem carries_asyncSend (carries : box.Carries given) :
    (asyncSend protocol results box).2.Carries given := by
  unfold asyncSend
  split
  · exact carries
  · cases protocol with
    | http1 => exact carries_asyncSendLoop carries
    | http2 => exact carries_asyncSendOnce carries

namespace AsyncSender

/-- Between the calls, what was given has gone or is held. -/
def Settled (sender : AsyncSender) : Prop :=
  sender.box.Carries sender.given

/-- For one call. -/
theorem keeps_iff_fits (carries : sender.Settled) (call : SenderCall) :
    sender.Keeps protocol call ↔ sender.Fits call := by
  cases call with
  | asyncHttpSend buf results =>
      unfold Keeps Fits
      rw [AsyncSender.call, SenderCall.buf]
      by_cases empty : buf = []
      · rw [if_pos empty]
        refine iff_of_true ⟨0, sender, rfl, ?_, carries⟩ (.inl empty)
        rw [empty, List.append_nil]
      · rw [if_neg empty]
        by_cases large : intMax < sender.box.held.length + buf.length
        · rw [if_pos large]
          refine iff_of_false ?_ ?_
          · rintro ⟨returned, next, faults, -⟩
            cases faults
          · exact not_or.mpr ⟨empty, by omega⟩
        · rw [if_neg large]
          exact iff_of_true ⟨_, _, rfl, rfl, carries_asyncSend (carries.put buf)⟩
            (.inr (Nat.not_lt.mp large))
  | asyncSend results =>
      exact iff_of_true ⟨_, _, rfl, (List.append_nil _).symm, carries_asyncSend carries⟩
        (.inl rfl)
  | asyncHttpFlush results =>
      exact iff_of_true ⟨_, _, rfl, (List.append_nil _).symm, carries_asyncSend carries⟩
        (.inl rfl)

/-- In which runs no octet is lost, sent twice or sent out of order. -/
theorem keeps_run_iff (protocol : Protocol) (calls : List SenderCall) :
    Throughout (apply protocol) (Keeps protocol) new calls ↔
      Throughout (apply protocol) Fits new calls := by
  have settled : new.Settled := Outbox.carries_empty
  refine Replay.throughout_iff settled fun sender settled call =>
    ⟨keeps_iff_fits settled call, ?_⟩
  rintro ⟨returned, next, result, -, kept⟩
  rw [apply, result]
  exact kept

/-- Two blocks that the client does not take, and that are too long together. -/
theorem not_keeps_overflow :
    ¬∀ protocol calls, Throughout (apply protocol) (Keeps protocol) new calls := by
  intro keeps
  let block : List UInt8 := List.replicate (2 ^ 30) 0
  have length : block.length = 2 ^ 30 := List.length_replicate
  have nonempty : block ≠ [] := by
    intro empty
    rw [empty] at length
    cases length
  have both := keeps .http1 [.asyncHttpSend block [], .asyncHttpSend block []]
  simp only [Replay.throughout_cons] at both
  obtain ⟨-, second, -⟩ := both
  have first : apply .http1 new (.asyncHttpSend block []) = ⟨⟨block, []⟩, block⟩ := by
    have small : ¬intMax < new.box.held.length + block.length := by
      rw [length]
      decide
    rw [apply, call, if_neg nonempty, if_neg small]
    have held : (new.box.put block).held = block := rfl
    simp only [asyncSend, held, if_neg nonempty, asyncSendLoop]
    rfl
  obtain ⟨returned, next, result, -⟩ := second
  rw [first, call, if_neg nonempty, length] at result
  have large : intMax < 2 ^ 30 + 2 ^ 30 := by decide
  rw [if_pos large] at result
  cases result

end AsyncSender

end Sessions

end HeapHttpd
