import HeapHttpd.Sessions.KeepAlive
import HeapHttpd.Sessions.SendBuffer

/-!
# The receive buffer of a session

`AsyncRecv` of `CHttp`, which reads in a loop, and of `CHttp2`, which reads once, and what
`Session_Group` makes of their verdicts.  A read comes to the same over TLS, where `SSL_read`
returns 0 at the end of the stream.
-/

namespace HeapHttpd

namespace Sessions

open Replay (Throughout)

/-- What `recv` or `SSL_read` comes back with. -/
inductive SocketRead
  | data (first : UInt8) (others : List UInt8)
  | wouldBlock
  | ended
  | failed
  deriving DecidableEq, Repr

namespace SocketRead

/-- The octets that are read. -/
def octets : SocketRead → List UInt8
  | .data first others => first :: others
  | _ => []

/-- Whether the connection is over. -/
def isOver : SocketRead → Bool
  | .ended | .failed => true
  | _ => false

end SocketRead

/-- `m_async_recv_buf` with the size of its memory, which is 0 as long as there is none. -/
structure AsyncReceiver where
  asyncRecvBuf : List UInt8
  asyncRecvBufSize : Nat
  deriving DecidableEq, Repr

namespace AsyncReceiver

def new : AsyncReceiver :=
  { asyncRecvBuf := [], asyncRecvBufSize := 0 }

/-- Octets are appended in `CHttp`, where memory has room to spare. -/
def appendHttp1 (octets : List UInt8) (receiver : AsyncReceiver) : Outcome AsyncReceiver :=
  let length := receiver.asyncRecvBuf.length + octets.length
  if intMax < length then .fault
  else if receiver.asyncRecvBufSize < length then
    if intMax < length + 4096 then .fault
    else
      .ok { asyncRecvBuf := receiver.asyncRecvBuf ++ octets, asyncRecvBufSize := length + 4096 }
  else .ok { receiver with asyncRecvBuf := receiver.asyncRecvBuf ++ octets }

/-- And in `CHttp2`. -/
def appendHttp2 (octets : List UInt8) (receiver : AsyncReceiver) : Outcome AsyncReceiver :=
  let length := receiver.asyncRecvBuf.length + octets.length
  if intMax < length then .fault
  else .ok { asyncRecvBuf := receiver.asyncRecvBuf ++ octets, asyncRecvBufSize := length }

/-- `CHttp::AsyncRecv`.  Behind the given results there is nothing to read. -/
def asyncRecvHttp1 : List SocketRead → AsyncReceiver → Outcome (Int × AsyncReceiver)
  | [], receiver => .ok (0, receiver)
  | .data first others :: results, receiver => do
      let receiver ← receiver.appendHttp1 (first :: others)
      asyncRecvHttp1 results receiver
  | .wouldBlock :: _, receiver => .ok (0, receiver)
  | .ended :: _, receiver => .ok (-1, receiver)
  | .failed :: _, receiver => .ok (-1, receiver)

/-- `CHttp2::AsyncRecv`. -/
def asyncRecvHttp2 (results : List SocketRead) (receiver : AsyncReceiver) :
    Outcome (Int × AsyncReceiver) :=
  match results.headD .wouldBlock with
  | .data first others => do
      let receiver ← receiver.appendHttp2 (first :: others)
      .ok (others.length + 1, receiver)
  | .wouldBlock => .ok (0, receiver)
  | .ended => .ok (0, receiver)
  | .failed => .ok (-1, receiver)

/-- `AsyncRecv`. -/
def asyncRecv (protocol : Protocol) (results : List SocketRead) (receiver : AsyncReceiver) :
    Outcome (Int × AsyncReceiver) :=
  match protocol with
  | .http1 => receiver.asyncRecvHttp1 results
  | .http2 => receiver.asyncRecvHttp2 results

end AsyncReceiver

/-- The results that a call of `CHttp` uses up: data and what follows it. -/
def metHttp1 : List SocketRead → List SocketRead
  | [] => []
  | .data first others :: results => .data first others :: metHttp1 results
  | last :: _ => [last]

/-- The results that a call uses up. -/
def met : Protocol → List SocketRead → List SocketRead
  | .http1, results => metHttp1 results
  | .http2, results => results.take 1

/-- A session: its buffer, all that it has received and what `AsyncHttpRecv` has handed on,
and whether it is still in the list of the group. -/
structure Receiving where
  receiver : AsyncReceiver
  received : List UInt8
  handedOn : List UInt8
  listed : Bool
  deriving DecidableEq, Repr

/-- The socket can be read, or the request takes octets from the buffer. -/
inductive ReceivingEvent
  | epollin (results : List SocketRead)
  | asyncHttpRecv (count : Nat)
  deriving DecidableEq

namespace Receiving

def new : Receiving :=
  { receiver := .new, received := [], handedOn := [], listed := true }

/-- An event as the group handles it: a session whose `AsyncRecv` is negative is removed. -/
def apply (protocol : Protocol) (session : Receiving) (event : ReceivingEvent) : Receiving :=
  match event with
  | .epollin results =>
      if session.listed then
        match session.receiver.asyncRecv protocol results with
        | .ok (verdict, receiver) =>
            { session with
              receiver
              received := session.received ++ (met protocol results).flatMap SocketRead.octets
              listed := 0 ≤ verdict }
        | _ => session
      else session
  | .asyncHttpRecv count =>
      let buf := session.receiver.asyncRecvBuf
      { session with
        receiver := { session.receiver with asyncRecvBuf := buf.drop count }
        handedOn := session.handedOn ++ buf.take count }

/-- The buffer holds what has been received and not been handed on. -/
def Holds (session : Receiving) : Prop :=
  session.received = session.handedOn ++ session.receiver.asyncRecvBuf

/-- A read appends what has been received, and its verdict is negative exactly when the
connection is over; and then the group removes the session, whatever it was to do for it. -/
def Faithful (protocol : Protocol) (session : Receiving) (event : ReceivingEvent) : Prop :=
  (session.apply protocol event).Holds ∧
    match event with
    | .epollin results => session.listed = true →
        ∃ verdict receiver,
          session.receiver.asyncRecv protocol results = .ok (verdict, receiver) ∧
          receiver.asyncRecvBuf = session.receiver.asyncRecvBuf ++
            (met protocol results).flatMap SocketRead.octets ∧
          (verdict < 0 ↔ ∃ result ∈ met protocol results, result.isOver = true) ∧
          ∀ (setting : KeepAliveSetting) (group : Group) (sockfd index : Nat)
            (work : ProtocolWork) (now : Int), group.sessionList sockfd = some index →
            (group.sessions index).protocol ≠ none →
            ((group.ready setting sockfd (verdict < 0) work now).sessionList sockfd = none ↔
              ∃ result ∈ met protocol results, result.isOver = true)
    | .asyncHttpRecv _ => True

/-- Whether `CHttp` can count the octets that come, with 4096 more where its memory has to
grow. -/
def RoomFor : Nat → Nat → List SocketRead → Prop
  | size, length, .data _ others :: results =>
      if length + (others.length + 1) ≤ size then
        RoomFor size (length + (others.length + 1)) results
      else
        length + (others.length + 1) + 4096 ≤ intMax ∧
          RoomFor (length + (others.length + 1) + 4096) (length + (others.length + 1)) results
  | _, _, _ => True

/-- The octets can be counted, and `CHttp2` does not meet the end of the stream. -/
def Readable (protocol : Protocol) (session : Receiving) (event : ReceivingEvent) : Prop :=
  match protocol, event with
  | .http1, .epollin results => session.listed = true →
      RoomFor session.receiver.asyncRecvBufSize session.receiver.asyncRecvBuf.length results
  | .http2, .epollin results => session.listed = true →
      results.head? ≠ some .ended ∧ session.receiver.asyncRecvBuf.length +
        (results.headD .wouldBlock).octets.length ≤ intMax
  | _, .asyncHttpRecv _ => True

end Receiving

/-! ## The group -/

/-- A session with a protocol object is removed exactly when its call fails. -/
theorem ready_removes_iff {setting : KeepAliveSetting} {group : Group} {sockfd index : Nat}
    (listed : group.sessionList sockfd = some index)
    (protected' : (group.sessions index).protocol ≠ none) (failed : Bool) (work : ProtocolWork)
    (now : Int) :
    (group.ready setting sockfd failed work now).sessionList sockfd = none ↔ failed = true := by
  have used := Group.useSession_clients index group
  have fails : (group.useSession index).asyncFails index failed = failed := by
    rw [Group.asyncFails, Group.sessions_of_clients used,
      Option.isNone_eq_false_iff.mpr (Option.isSome_iff_ne_none.mpr protected'), Bool.false_or]
  have isThere : (group.useSession index).sessionList sockfd = some index := by
    rw [Group.sessionList_of_clients used, listed]
  simp only [Group.ready, listed, fails]
  cases failed with
  | true =>
      obtain ⟨deleted, -, same⟩ := Group.remove_eq isThere
      rw [if_pos rfl, Group.sessionList_of_clients (Group.closeFd_clients _ _), same]
      exact iff_of_true (Function.update_self _ _ _) rfl
  | false =>
      have only := @Group.asyncProcessing_only index (group.useSession index) setting work now
      rw [if_neg Bool.false_ne_true, only.list, isThere]
      exact iff_of_false (Option.some_ne_none index) Bool.false_ne_true

/-! ## One read -/

namespace AsyncReceiver

variable {receiver next : AsyncReceiver} {results : List SocketRead} {octets : List UInt8}

/-- The octets are in the memory, and its size can be counted. -/
structure Bounded (receiver : AsyncReceiver) : Prop where
  inside : receiver.asyncRecvBuf.length ≤ receiver.asyncRecvBufSize
  size : receiver.asyncRecvBufSize ≤ intMax

/-- `CHttp` appends where there is room. -/
theorem appendHttp1_fits (bounded : receiver.asyncRecvBufSize ≤ intMax)
    (fits : receiver.asyncRecvBuf.length + octets.length ≤ receiver.asyncRecvBufSize) :
    receiver.appendHttp1 octets =
      .ok { receiver with asyncRecvBuf := receiver.asyncRecvBuf ++ octets } := by
  simp only [appendHttp1]
  rw [if_neg (by omega), if_neg (by omega)]

/-- And makes room where there is none. -/
theorem appendHttp1_grows
    (few : ¬receiver.asyncRecvBuf.length + octets.length ≤ receiver.asyncRecvBufSize) :
    receiver.appendHttp1 octets =
      if receiver.asyncRecvBuf.length + octets.length + 4096 ≤ intMax then
        .ok ⟨receiver.asyncRecvBuf ++ octets,
          receiver.asyncRecvBuf.length + octets.length + 4096⟩
      else .fault := by
  simp only [appendHttp1]
  by_cases room : receiver.asyncRecvBuf.length + octets.length + 4096 ≤ intMax
  · rw [if_neg (by omega), if_pos (by omega), if_neg (by omega), if_pos room]
  · rw [if_neg room]
    split
    · rfl
    · rw [if_pos (by omega), if_pos (by omega)]

/-- What is asked of one read. -/
def ReadsAll (protocol : Protocol) (results : List SocketRead) (receiver : AsyncReceiver) :
    Prop :=
  ∃ verdict next, receiver.asyncRecv protocol results = .ok (verdict, next) ∧
    next.asyncRecvBuf = receiver.asyncRecvBuf ++
      (met protocol results).flatMap SocketRead.octets ∧
    (verdict < 0 ↔ ∃ result ∈ met protocol results, result.isOver = true) ∧
    next.Bounded

theorem readsAll_http1 (bounded : receiver.Bounded)
    (room : Receiving.RoomFor receiver.asyncRecvBufSize receiver.asyncRecvBuf.length results) :
    receiver.ReadsAll .http1 results := by
  induction results generalizing receiver with
  | nil => exact ⟨0, receiver, rfl, by simp [met, metHttp1], by simp [met, metHttp1], bounded⟩
  | cons result results ih =>
      cases result with
      | data first others =>
          have step (next : AsyncReceiver)
              (appended : receiver.appendHttp1 (first :: others) = .ok next)
              (isNext : next.asyncRecvBuf = receiver.asyncRecvBuf ++ first :: others)
              (later : next.ReadsAll .http1 results) :
              receiver.ReadsAll .http1 (.data first others :: results) := by
            obtain ⟨verdict, last, reads, buf, isOver, bounded'⟩ := later
            refine ⟨verdict, last, ?_, ?_, ?_, bounded'⟩
            · simp only [asyncRecv, asyncRecvHttp1, appended, Outcome.ok_bind]
              exact reads
            · rw [buf, isNext]
              simp [met, metHttp1, SocketRead.octets]
            · rw [isOver]
              simp [met, metHttp1, SocketRead.isOver]
          have length : (first :: others).length = others.length + 1 := List.length_cons
          rw [Receiving.RoomFor] at room
          split at room
          · next fits =>
              refine step _ (appendHttp1_fits bounded.size (length ▸ fits)) rfl (ih ⟨?_, ?_⟩ ?_)
              · rwa [List.length_append, length]
              · exact bounded.size
              · rwa [List.length_append, length]
          · next few =>
              refine step ⟨receiver.asyncRecvBuf ++ first :: others, _⟩ ?_ rfl
                (ih ⟨?_, room.1⟩ ?_)
              · rw [appendHttp1_grows (length ▸ few), length, if_pos room.1]
              · rw [List.length_append, length]
                exact Nat.le_add_right _ _
              · rw [List.length_append, length]
                exact room.2
      | wouldBlock => exact ⟨0, receiver, rfl, by simp [met, metHttp1, SocketRead.octets],
          by simp [met, metHttp1, SocketRead.isOver], bounded⟩
      | ended => exact ⟨-1, receiver, rfl, by simp [met, metHttp1, SocketRead.octets],
          by simp [met, metHttp1, SocketRead.isOver], bounded⟩
      | failed => exact ⟨-1, receiver, rfl, by simp [met, metHttp1, SocketRead.octets],
          by simp [met, metHttp1, SocketRead.isOver], bounded⟩

/-- The loop of `CHttp` needs the room. -/
theorem roomFor_of_asyncRecvHttp1 (bounded : receiver.Bounded) {verdict : Int}
    (reads : receiver.asyncRecvHttp1 results = .ok (verdict, next)) :
    Receiving.RoomFor receiver.asyncRecvBufSize receiver.asyncRecvBuf.length results := by
  induction results generalizing receiver with
  | nil => trivial
  | cons result results ih =>
      cases result with
      | data first others =>
          have length : (first :: others).length = others.length + 1 := List.length_cons
          rw [asyncRecvHttp1, Outcome.bind_eq_ok] at reads
          obtain ⟨middle, appended, reads⟩ := reads
          rw [Receiving.RoomFor]
          split
          · next fits =>
              rw [appendHttp1_fits bounded.size (length ▸ fits), Outcome.ok.injEq] at appended
              subst appended
              have inside : (receiver.asyncRecvBuf ++ first :: others).length ≤
                  receiver.asyncRecvBufSize := by
                rwa [List.length_append, length]
              have later := @ih ⟨receiver.asyncRecvBuf ++ first :: others,
                receiver.asyncRecvBufSize⟩ ⟨inside, bounded.size⟩ reads
              rwa [List.length_append, length] at later
          · next few =>
              rw [appendHttp1_grows (length ▸ few), length] at appended
              split at appended
              · next room =>
                  cases appended
                  have inside : (receiver.asyncRecvBuf ++ first :: others).length ≤
                      receiver.asyncRecvBuf.length + (others.length + 1) + 4096 := by
                    rw [List.length_append, length]
                    exact Nat.le_add_right _ _
                  have later := @ih ⟨receiver.asyncRecvBuf ++ first :: others,
                    receiver.asyncRecvBuf.length + (others.length + 1) + 4096⟩
                    ⟨inside, room⟩ reads
                  rw [List.length_append, length] at later
                  exact ⟨room, later⟩
              · cases appended
      | wouldBlock | ended | failed => trivial

/-- `CHttp2` reads once. -/
theorem readsAll_http2_iff (bounded : receiver.Bounded) :
    receiver.ReadsAll .http2 results ↔
      results.head? ≠ some .ended ∧ receiver.asyncRecvBuf.length +
        (results.headD .wouldBlock).octets.length ≤ intMax := by
  have small := bounded.inside.trans bounded.size
  cases results with
  | nil =>
      refine iff_of_true ⟨0, receiver, rfl, ?_, ?_, bounded⟩ ⟨by simp, small⟩
      · simp [met]
      · simp [met]
  | cons result results =>
      cases result with
      | data first others =>
          rw [List.headD_cons, SocketRead.octets]
          by_cases room : receiver.asyncRecvBuf.length + (first :: others).length ≤ intMax
          · refine iff_of_true ⟨(others.length : Int) + 1,
              ⟨receiver.asyncRecvBuf ++ first :: others,
                receiver.asyncRecvBuf.length + (first :: others).length⟩, ?_, ?_, ?_, ?_⟩
              ⟨by simp, room⟩
            · simp only [asyncRecv, asyncRecvHttp2, List.headD_cons, appendHttp2]
              rw [if_neg (Nat.not_lt.mpr room)]
              rfl
            · simp [met, SocketRead.octets]
            · simp only [met, List.take_succ_cons, List.take_zero, List.mem_singleton,
                exists_eq_left, SocketRead.isOver, Bool.false_eq_true, iff_false]
              omega
            · exact ⟨List.length_append.le, room⟩
          · refine iff_of_false ?_ fun readable => room readable.2
            rintro ⟨verdict, next, reads, -⟩
            simp only [asyncRecv, asyncRecvHttp2, List.headD_cons, appendHttp2] at reads
            rw [if_pos (Nat.not_le.mp room)] at reads
            cases reads
      | wouldBlock =>
          refine iff_of_true ⟨0, receiver, rfl, ?_, ?_, bounded⟩ ⟨by simp, small⟩
          · simp [met, SocketRead.octets]
          · simp [met, SocketRead.isOver]
      | ended =>
          refine iff_of_false ?_ fun readable => readable.1 rfl
          rintro ⟨verdict, next, reads, -, isOver, -⟩
          cases reads
          simp [met, SocketRead.isOver] at isOver
      | failed =>
          refine iff_of_true ⟨-1, receiver, rfl, ?_, ?_, bounded⟩ ⟨by simp, small⟩
          · simp [met, SocketRead.octets]
          · simp [met, SocketRead.isOver]

/-- A read keeps to the memory. -/
theorem bounded_asyncRecv {protocol : Protocol} (bounded : receiver.Bounded) {verdict : Int}
    (reads : receiver.asyncRecv protocol results = .ok (verdict, next)) : next.Bounded := by
  cases protocol with
  | http1 =>
      obtain ⟨verdict', next', reads', -, -, bounded'⟩ :=
        readsAll_http1 bounded (roomFor_of_asyncRecvHttp1 bounded reads)
      rw [reads, Outcome.ok.injEq, Prod.mk.injEq] at reads'
      exact reads'.2 ▸ bounded'
  | http2 =>
      simp only [asyncRecv, asyncRecvHttp2] at reads
      split at reads
      · simp only [appendHttp2] at reads
        split at reads
        · cases reads
        · next small =>
            cases reads
            exact ⟨List.length_append.le, Nat.not_lt.mp small⟩
      · cases reads
        exact bounded
      · cases reads
        exact bounded
      · cases reads
        exact bounded

end AsyncReceiver

/-! ## Runs -/

namespace Receiving

open AsyncReceiver (ReadsAll)

variable {protocol : Protocol} {session : Receiving}

/-- For one read. -/
theorem readsAll_iff_readable (bounded : session.receiver.Bounded) (listed : session.listed = true)
    (results : List SocketRead) :
    session.receiver.ReadsAll protocol results ↔
      session.Readable protocol (.epollin results) := by
  cases protocol with
  | http1 =>
      constructor
      · rintro ⟨verdict, next, reads, -⟩ _
        exact AsyncReceiver.roomFor_of_asyncRecvHttp1 bounded reads
      · exact fun readable => AsyncReceiver.readsAll_http1 bounded (readable listed)
  | http2 =>
      rw [AsyncReceiver.readsAll_http2_iff bounded]
      exact ⟨fun readable _ => readable, fun readable => readable listed⟩

/-- What a run keeps. -/
structure Kept (session : Receiving) : Prop where
  holds : session.Holds
  bounded : session.receiver.Bounded

theorem kept_new : new.Kept :=
  ⟨rfl, ⟨Nat.zero_le _, Nat.zero_le _⟩⟩

theorem kept_asyncHttpRecv (kept : session.Kept) (count : Nat) :
    (session.apply protocol (.asyncHttpRecv count)).Kept := by
  refine ⟨?_, ⟨?_, kept.bounded.size⟩⟩
  · show session.received = session.handedOn ++ session.receiver.asyncRecvBuf.take count ++
      session.receiver.asyncRecvBuf.drop count
    rw [List.append_assoc, List.take_append_drop]
    exact kept.holds
  · show (session.receiver.asyncRecvBuf.drop count).length ≤ _
    rw [List.length_drop]
    exact (Nat.sub_le _ _).trans kept.bounded.inside

theorem kept_epollin (kept : session.Kept) (listed : session.listed = true)
    {results : List SocketRead} (reads : session.receiver.ReadsAll protocol results) :
    (session.apply protocol (.epollin results)).Kept := by
  obtain ⟨verdict, next, result, buf, -, bounded⟩ := reads
  simp only [apply, if_pos listed, result]
  refine ⟨?_, bounded⟩
  show session.received ++ _ = session.handedOn ++ next.asyncRecvBuf
  rw [buf, kept.holds, List.append_assoc]

theorem apply_unlisted (unlisted : ¬session.listed = true) (results : List SocketRead) :
    session.apply protocol (.epollin results) = session := by
  simp only [apply, if_neg unlisted]

/-- A read that appends what has come is one with a verdict that the group understands. -/
theorem faithful_of_readsAll (kept : session.Kept) {results : List SocketRead}
    (reads : session.listed = true → session.receiver.ReadsAll protocol results) :
    session.Faithful protocol (.epollin results) := by
  by_cases listed : session.listed = true
  · refine ⟨(kept_epollin kept listed (reads listed)).holds, fun _ => ?_⟩
    obtain ⟨verdict, next, result, buf, isOver, -⟩ := reads listed
    refine ⟨verdict, next, result, buf, isOver, ?_⟩
    intro setting group sockfd index work now inList protected'
    rw [ready_removes_iff inList protected', decide_eq_true_eq]
    exact isOver
  · refine ⟨?_, fun listed' => (listed listed').elim⟩
    rw [apply_unlisted listed]
    exact kept.holds

theorem readsAll_of_faithful (kept : session.Kept) {results : List SocketRead}
    (faithful : session.Faithful protocol (.epollin results)) (listed : session.listed = true) :
    session.receiver.ReadsAll protocol results := by
  obtain ⟨verdict, next, result, buf, isOver, -⟩ := faithful.2 listed
  exact ⟨verdict, next, result, buf, isOver,
    AsyncReceiver.bounded_asyncRecv kept.bounded result⟩

/-- For one event. -/
theorem faithful_iff_readable (kept : session.Kept) (event : ReceivingEvent) :
    session.Faithful protocol event ↔ session.Readable protocol event := by
  cases event with
  | epollin results =>
      constructor
      · intro faithful
        by_cases listed : session.listed = true
        · exact (readsAll_iff_readable kept.bounded listed results).mp
            (readsAll_of_faithful kept faithful listed)
        · cases protocol with
          | http1 => exact fun listed' => (listed listed').elim
          | http2 => exact fun listed' => (listed listed').elim
      · intro readable
        exact faithful_of_readsAll kept fun listed =>
          (readsAll_iff_readable kept.bounded listed results).mpr readable
  | asyncHttpRecv count =>
      refine iff_of_true ⟨(kept_asyncHttpRecv kept count).holds, trivial⟩ ?_
      cases protocol <;> trivial

theorem kept_apply (kept : session.Kept) {event : ReceivingEvent}
    (faithful : session.Faithful protocol event) : (session.apply protocol event).Kept := by
  cases event with
  | epollin results =>
      by_cases listed : session.listed = true
      · exact kept_epollin kept listed (readsAll_of_faithful kept faithful listed)
      · rw [apply_unlisted listed]
        exact kept
  | asyncHttpRecv count => exact kept_asyncHttpRecv kept count

/-- In which runs all reads are faithful. -/
theorem receivesFaithfully_iff (protocol : Protocol) (events : List ReceivingEvent) :
    Throughout (apply protocol) (Faithful protocol) new events ↔
      Throughout (apply protocol) (Readable protocol) new events :=
  Replay.throughout_iff kept_new fun _ kept event =>
    ⟨faithful_iff_readable kept event, kept_apply kept⟩

/-- The end of the stream is no failure for `CHttp2`. -/
theorem not_faithful_ended :
    ¬∀ protocol events, Throughout (apply protocol) (Faithful protocol) new events := by
  intro faithful
  have ended := faithful .http2 [.epollin [.ended]]
  rw [Replay.throughout_cons] at ended
  obtain ⟨verdict, next, result, -, isOver, -⟩ := ended.1.2 rfl
  cases result
  simp [met, SocketRead.isOver] at isOver

end Receiving

end Sessions

end HeapHttpd
