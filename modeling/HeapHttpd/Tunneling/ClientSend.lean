import HeapHttpd.Sessions.SendBuffer

/-!
# Sending to the client of a tunnel

`client_send` and `client_flush` of `http_tunneling` in the synchronous build.  From 4096
octets on all of them are sent before the call returns; fewer are sent once, and what is left
of them stays in the buffer.
-/

namespace HeapHttpd

namespace Tunneling

open Replay (Throughout)
open Sessions (SocketWrite intMax)

/-- How a call went: what it returns, the buffer with what has gone to the socket, and whether
the socket has reported an error that the connection does not survive. -/
structure ClientSent where
  returned : Int
  box : Outbox UInt8
  fatal : Bool

/-- The octets in the buffer are given up. -/
def giveUp (box : Outbox UInt8) : Outbox UInt8 :=
  { box with held := [] }

/-- `_Send_` and `SSLWrite` with a buffer that is not empty.  Behind the results listed, the
socket takes all.  A `select` that does not come back with 1, be it for the idle timeout, has
failed as well: the socket is closed there. -/
def sendAll : List SocketWrite → Outbox UInt8 → ClientSent
  | [], box => { returned := 0, box := box.pass box.held.length, fatal := false }
  | .taken count :: results, box =>
      if min count box.held.length = 0 then { returned := -1, box, fatal := true }
      else if (box.pass count).held = [] then
        { returned := 0, box := box.pass count, fatal := false }
      else sendAll results (box.pass count)
  | .wouldBlock :: results, box => sendAll results box
  | .failed :: _, box => { returned := -1, box, fatal := true }

/-- The branch for fewer than 4096 octets.  With octets to send, 0 is the end of the
connection. -/
def sendSome (results : List SocketWrite) (box : Outbox UInt8) : ClientSent :=
  match results.headD (.taken box.held.length) with
  | .taken count =>
      if min count box.held.length = 0 then
        { returned := 0, box := giveUp box, fatal := box.held ≠ [] }
      else
        let sentLen := min count box.held.length
        { returned := sentLen, box := box.pass count, fatal := false }
  | .wouldBlock => { returned := -1, box, fatal := false }
  | .failed => { returned := -1, box := giveUp box, fatal := true }

/-- The buffer of `http_tunneling`, and how many octets there is memory for. -/
structure ClientSender where
  capacity : Nat
  box : Outbox UInt8

/-- A call, with what the calls of `send` or `SSL_write` come back with that it makes. -/
inductive ClientCall
  | clientSend (buf : List UInt8) (results : List SocketWrite)
  | clientFlush (results : List SocketWrite)

/-- The octets that a call is given. -/
def ClientCall.buf : ClientCall → List UInt8
  | .clientSend buf _ => buf
  | .clientFlush _ => []

/-- What `http_client::processing` and `http_chunk::processing` make of the result: they return
`false` at once, or go on. -/
def relayGoesOn (returned : Int) : Bool :=
  !decide (returned < 0)

namespace ClientSender

/-- The constructor. -/
def new : ClientSender :=
  { capacity := 4095, box := .empty }

/-- `client_send`. -/
def clientSend (buf : List UInt8) (results : List SocketWrite) (sender : ClientSender) :
    Outcome (ClientSent × ClientSender) :=
  let used := sender.box.held.length + buf.length
  let box := sender.box.put buf
  if sender.capacity < used ∧ intMax < used + 1 then .fault
  else
    let capacity := if sender.capacity < used then used else sender.capacity
    if 4096 ≤ used then
      let sent := sendAll results box
      .ok (sent, { capacity, box := giveUp sent.box })
    else
      let sent := sendSome results box
      .ok (sent, { capacity, box := sent.box })

/-- `client_flush`, which returns what is left to send. -/
def clientFlush (results : List SocketWrite) (sender : ClientSender) :
    ClientSent × ClientSender :=
  if sender.box.held = [] then
    ({ returned := 0, box := sender.box, fatal := false }, sender)
  else
    let sent := sendSome results sender.box
    let returned : Int := if sent.fatal then -1 else sent.box.held.length
    ({ sent with returned }, { sender with box := sent.box })

/-- A call. -/
def call (sender : ClientSender) : ClientCall → Outcome (ClientSent × ClientSender)
  | .clientSend buf results => sender.clientSend buf results
  | .clientFlush results => .ok (sender.clientFlush results)

/-- The state behind a call. -/
def apply (sender : ClientSender) (call : ClientCall) : ClientSender :=
  match sender.call call with
  | .ok (_, next) => next
  | _ => sender

/-- Unless the socket has reported a fatal error, the relay goes on behind the call, and what
had gone or was held before it, and what it was given, has gone or is held now, once and in
order. -/
def Relays (sender : ClientSender) (call : ClientCall) : Prop :=
  ∃ sent next, sender.call call = .ok (sent, next) ∧
    (sent.fatal = true ∨ relayGoesOn sent.returned = true ∧
      next.box.Carries (sender.box.gone ++ sender.box.held ++ call.buf))

/-- The octets can be counted, and where fewer than 4096 are sent the socket does not put the
call off. -/
def Flows (sender : ClientSender) : ClientCall → Prop
  | .clientSend buf results =>
      sender.box.held.length + buf.length + 1 ≤ intMax ∧
        (sender.box.held.length + buf.length < 4096 → results.head? ≠ some .wouldBlock)
  | .clientFlush _ => True

end ClientSender

variable {results : List SocketWrite} {box : Outbox UInt8} {given : List UInt8}
  {sender : ClientSender}

/-- All of it goes to a socket that reports no error. -/
theorem sendAll_fatal_or (carries : box.Carries given) :
    (sendAll results box).fatal = true ∨
      (sendAll results box).returned = 0 ∧ (giveUp (sendAll results box).box).Carries given := by
  have drained {rest : Outbox UInt8} (none : rest.held = []) (carried : rest.Carries given) :
      (giveUp rest).Carries given := by
    rw [Outbox.Carries, carried, giveUp, none]
  induction results generalizing box with
  | nil => exact .inr ⟨rfl, drained Outbox.pass_all (carries.pass box.held.length)⟩
  | cons result results ih =>
      cases result with
      | taken count =>
          rw [sendAll]
          by_cases zero : min count box.held.length = 0
          · rw [if_pos zero]
            exact .inl rfl
          · rw [if_neg zero]
            by_cases all : (box.pass count).held = []
            · rw [if_pos all]
              exact .inr ⟨rfl, drained all (carries.pass count)⟩
            · rw [if_neg all]
              exact ih (carries.pass count)
      | wouldBlock => exact ih carries
      | failed => exact .inl rfl

/-- What one `send` leaves is still held. -/
theorem sendSome_fatal_or (carries : box.Carries given) :
    (sendSome results box).fatal = true ∨ (sendSome results box).box.Carries given := by
  unfold sendSome
  split
  · split
    · by_cases empty : box.held = []
      · right
        rw [Outbox.Carries, carries, giveUp, empty]
      · exact .inl (decide_eq_true empty)
    · exact .inr (carries.pass _)
  · exact .inr carries
  · exact .inl rfl

@[simp]
theorem relayGoesOn_iff {returned : Int} : relayGoesOn returned = true ↔ 0 ≤ returned := by
  unfold relayGoesOn
  rw [Bool.not_eq_true', decide_eq_false_iff_not, Int.not_lt]

theorem sendSome_taken {count : Nat}
    (taken : results.headD (.taken box.held.length) = .taken count) :
    0 ≤ (sendSome results box).returned := by
  unfold sendSome
  rw [taken]
  dsimp only
  split
  · exact Int.le_refl 0
  · exact Int.natCast_nonneg _

/-- What one `send` returns is negative only for an error, or where the socket puts it off. -/
theorem sendSome_goesOn_iff :
    (sendSome results box).fatal = true ∨ relayGoesOn (sendSome results box).returned = true ↔
      results.head? ≠ some .wouldBlock := by
  rw [relayGoesOn_iff]
  cases results with
  | nil => exact iff_of_true (.inr (sendSome_taken rfl)) nofun
  | cons result results =>
      cases result with
      | taken count => exact iff_of_true (.inr (sendSome_taken rfl)) (by simp)
      | wouldBlock =>
          refine iff_of_false ?_ (by simp)
          simp [sendSome]
      | failed => exact iff_of_true (.inl rfl) (by simp)

namespace ClientSender

/-- There is memory for no more octets than can be counted. -/
def Counted (sender : ClientSender) : Prop :=
  sender.capacity + 1 ≤ intMax

/-- A call that is not too long to be counted. -/
theorem clientSend_counted {buf : List UInt8} (results : List SocketWrite)
    (room : sender.box.held.length + buf.length + 1 ≤ intMax) :
    ∃ capacity, capacity ≤ max sender.capacity (sender.box.held.length + buf.length) ∧
      sender.clientSend buf results =
        if 4096 ≤ sender.box.held.length + buf.length then
          let sent := sendAll results (sender.box.put buf)
          .ok (sent, { capacity, box := giveUp sent.box })
        else
          let sent := sendSome results (sender.box.put buf)
          .ok (sent, { capacity, box := sent.box }) := by
  refine ⟨if sender.capacity < sender.box.held.length + buf.length then
    sender.box.held.length + buf.length else sender.capacity, ?_, ?_⟩
  · split <;> omega
  · rw [clientSend, if_neg fun large => by omega]

theorem clientSend_fault {buf : List UInt8} (counted : sender.Counted)
    (large : ¬sender.box.held.length + buf.length + 1 ≤ intMax) :
    sender.clientSend buf results = .fault := by
  unfold Counted at counted
  rw [clientSend]
  exact if_pos ⟨by omega, by omega⟩

/-- For `client_send`. -/
theorem relays_clientSend_iff (counted : sender.Counted) (buf : List UInt8)
    (results : List SocketWrite) :
    sender.Relays (.clientSend buf results) ↔ sender.Flows (.clientSend buf results) := by
  have carries : (sender.box.put buf).Carries (sender.box.gone ++ sender.box.held ++ buf) :=
    Outbox.Carries.put rfl buf
  have flows : sender.Flows (.clientSend buf results) ↔
      sender.box.held.length + buf.length + 1 ≤ intMax ∧
        (sender.box.held.length + buf.length < 4096 → results.head? ≠ some .wouldBlock) :=
    Iff.rfl
  rw [flows, Relays, call]
  by_cases room : sender.box.held.length + buf.length + 1 ≤ intMax
  · obtain ⟨capacity, -, result⟩ := clientSend_counted results room
    rw [result, and_iff_right room]
    by_cases full : 4096 ≤ sender.box.held.length + buf.length
    · rw [if_pos full]
      refine iff_of_true ⟨_, _, rfl, ?_⟩ fun few => (Nat.not_lt.mpr full few).elim
      refine (sendAll_fatal_or carries).imp_right fun sent => ⟨?_, sent.2⟩
      rw [sent.1]
      rfl
    · rw [if_neg full, forall_prop_of_true (Nat.not_le.mp full), ← sendSome_goesOn_iff]
      constructor
      · rintro ⟨sent, next, same, settled⟩
        cases same
        exact settled.imp_right And.left
      · intro settled
        refine ⟨_, _, rfl, ?_⟩
        rcases settled with fatal | goesOn
        · exact .inl fatal
        · exact (sendSome_fatal_or carries).imp_right fun carried => ⟨goesOn, carried⟩
  · rw [clientSend_fault counted room]
    refine iff_of_false ?_ fun flows => room flows.1
    rintro ⟨sent, next, faults, -⟩
    cases faults

/-- For `client_flush`. -/
theorem relays_clientFlush (results : List SocketWrite) : sender.Relays (.clientFlush results) := by
  have carries : sender.box.Carries (sender.box.gone ++ sender.box.held ++ []) :=
    List.append_nil _
  refine ⟨(sender.clientFlush results).1, (sender.clientFlush results).2, rfl, ?_⟩
  unfold clientFlush
  by_cases empty : sender.box.held = []
  · rw [if_pos empty]
    exact .inr ⟨rfl, carries⟩
  · rw [if_neg empty]
    by_cases fatal : (sendSome results sender.box).fatal = true
    · exact .inl fatal
    · refine .inr ⟨?_, (sendSome_fatal_or carries).resolve_left fatal⟩
      dsimp only
      rw [if_neg fatal, relayGoesOn_iff]
      exact Int.natCast_nonneg _

/-- For one call. -/
theorem relays_iff_flows (counted : sender.Counted) (call : ClientCall) :
    sender.Relays call ↔ sender.Flows call := by
  cases call with
  | clientSend buf results => exact relays_clientSend_iff counted buf results
  | clientFlush results => exact iff_of_true (relays_clientFlush results) trivial

theorem Counted.apply (counted : sender.Counted) (call : ClientCall) :
    (sender.apply call).Counted := by
  unfold ClientSender.apply
  cases call with
  | clientSend buf results =>
      rw [ClientSender.call]
      by_cases room : sender.box.held.length + buf.length + 1 ≤ intMax
      · obtain ⟨capacity, bound, result⟩ := clientSend_counted results room
        have small : capacity + 1 ≤ intMax := by
          unfold Counted at counted
          omega
        rw [result]
        split_ifs
        · exact small
        · exact small
      · rw [clientSend_fault counted room]
        exact counted
  | clientFlush results =>
      have same : (sender.clientFlush results).2.capacity = sender.capacity := by
        unfold clientFlush
        split_ifs
        · rfl
        · rfl
      change (sender.clientFlush results).2.capacity + 1 ≤ intMax
      rw [same]
      exact counted

/-- In which runs a relay is not given up, and no octet lost or sent twice, before the socket
reports a fatal error. -/
theorem relays_run_iff (calls : List ClientCall) :
    Throughout apply Relays new calls ↔ Throughout apply Flows new calls := by
  have counted : new.Counted := by
    unfold Counted
    decide
  exact Replay.throughout_iff counted fun sender counted call =>
    ⟨relays_iff_flows counted call, fun _ => counted.apply call⟩

/-- One octet that the socket cannot take at once. -/
theorem not_relays_wouldBlock : ¬∀ calls, Throughout apply Relays new calls := by
  intro relays
  have first := relays [.clientSend [0x61] [.wouldBlock]]
  simp only [Replay.throughout_cons] at first
  obtain ⟨⟨sent, next, result, settled⟩, -⟩ := first
  cases result
  simp [relayGoesOn, sendSome] at settled

end ClientSender

end Tunneling

end HeapHttpd
