import HeapHttpd.Cgi.ApplicationOutput
import HeapHttpd.Library.Replay

/-!
# Requests over one FastCGI connection

One `fastcgi` object serves all requests of a session.  A request that is over may leave
records unread, which the next one reads.
-/

namespace HeapHttpd

namespace Cgi

open General
open Replay (Throughout)

/-- A record that has come, and the number of the request that was served at the time. -/
structure Arrived where
  request : Nat
  record : Record
  deriving DecidableEq

/-- The records that were read for a request. -/
structure Delivered where
  request : Nat
  requestId : UInt16
  arrived : List Arrived
  deriving DecidableEq

/-- `fastcgi`, with what is unread on its connection, the number of requests and the
records that were read. -/
structure Fastcgi where
  requestId : UInt16
  isConnected : Bool
  unread : List Arrived
  requests : Nat
  delivered : List Delivered

/-- What a request meets: the records that still come before it begins, whether the
connection is found closed, whether a new one is made, whether the request can be begun,
and the records that come while it is served. -/
structure Exchange where
  isHead : Bool
  late : List Record
  closed : Bool
  connects : Bool
  begins : Bool
  arriving : List Record

namespace Fastcgi

def new (requestId : UInt16) (isConnected : Bool) : Fastcgi :=
  { requestId, isConnected, unread := [], requests := 0, delivered := [] }

/-- `fastcgi::Connect`.  A connection with something to read is not found closed. -/
def connect (exchange : Exchange) (object : Fastcgi) : Fastcgi × Bool :=
  let unread := object.unread ++ exchange.late.map fun record => ⟨object.requests, record⟩
  let begun := { object with
    requestId := object.requestId + 1
    requests := object.requests + 1 }
  if object.isConnected && (!exchange.closed || !unread.isEmpty) then
    ({ begun with unread := unread }, true)
  else ({ begun with unread := [], isConnected := exchange.connects }, exchange.connects)

/-- The FastCGI part of `Htdoc::Response`, as to the records that it reads. -/
def serve (object : Fastcgi) (exchange : Exchange) : Fastcgi :=
  let (object, connected) := object.connect exchange
  if connected && exchange.begins then
    let unread := object.unread ++
      exchange.arriving.map fun record => ⟨object.requests, record⟩
    match response exchange.isHead (.fastcgi (unread.map Arrived.record)) with
    | some (_, .fastcgi left) =>
        { object with
          unread := unread.drop (unread.length - left.length)
          delivered := object.delivered ++
            [⟨object.requests, object.requestId, unread.take (unread.length - left.length)⟩] }
    | _ => object
  else object

end Fastcgi

/-- Records that are of the request they were read for, and came while it was served. -/
def Delivered.Own (delivered : Delivered) : Prop :=
  ∀ arrived ∈ delivered.arrived, arrived.record.requestId = delivered.requestId.toNat ∧
    arrived.request = delivered.request

instance (delivered : Delivered) : Decidable delivered.Own :=
  inferInstanceAs (Decidable (∀ arrived ∈ delivered.arrived,
    arrived.record.requestId = delivered.requestId.toNat ∧ arrived.request = delivered.request))

namespace Fastcgi

/-- A request that finds nothing unread, and for which only records of its own come. -/
structure Orderly (object : Fastcgi) (exchange : Exchange) : Prop where
  nothingUnread : object.isConnected = true → object.unread = [] ∧ exchange.late = []
  own : ∀ record ∈ exchange.arriving, record.requestId = (object.requestId + 1).toNat

instance (object : Fastcgi) (exchange : Exchange) : Decidable (object.Orderly exchange) :=
  decidable_of_iff
    ((object.isConnected = true → object.unread = [] ∧ exchange.late = []) ∧
      ∀ record ∈ exchange.arriving, record.requestId = (object.requestId + 1).toNat)
    ⟨fun orderly => ⟨orderly.1, orderly.2⟩, fun orderly => ⟨orderly.nothingUnread, orderly.own⟩⟩

theorem connect_unread {object : Fastcgi} {exchange : Exchange}
    (orderly : object.Orderly exchange) : (object.connect exchange).1.unread = [] := by
  unfold connect
  dsimp only
  split
  case isTrue reused =>
    rw [Bool.and_eq_true] at reused
    obtain ⟨unread, late⟩ := orderly.nothingUnread reused.1
    simp [unread, late]
  case isFalse => rfl

theorem connect_begun (object : Fastcgi) (exchange : Exchange) :
    (object.connect exchange).1.requestId = object.requestId + 1 ∧
      (object.connect exchange).1.delivered = object.delivered := by
  unfold connect
  dsimp only
  split <;> exact ⟨rfl, rfl⟩

theorem own_serve {object : Fastcgi} {exchange : Exchange} (orderly : object.Orderly exchange)
    (own : ∀ delivered ∈ object.delivered, delivered.Own) :
    ∀ delivered ∈ (object.serve exchange).delivered, delivered.Own := by
  obtain ⟨requestId, delivered⟩ := object.connect_begun exchange
  have unread := connect_unread orderly
  unfold serve
  generalize object.connect exchange = connected at requestId delivered unread
  obtain ⟨begun, success⟩ := connected
  have kept : ∀ each ∈ begun.delivered, each.Own := by
    rw [delivered]
    exact own
  dsimp only at requestId unread ⊢
  split
  case isFalse => exact kept
  case isTrue =>
    split
    case h_2 => exact kept
    case h_1 =>
      intro each member
      rcases List.mem_append.mp member with before | now
      · exact kept each before
      · rw [List.mem_singleton] at now
        subst now
        intro arrived isArrived
        have isArrived := List.mem_of_mem_take isArrived
        rw [unread, List.nil_append, List.mem_map] at isArrived
        obtain ⟨record, came, rfl⟩ := isArrived
        refine ⟨?_, rfl⟩
        rw [requestId]
        exact orderly.own record came

/-- In every run of requests that find nothing unread and for which only records of their
own come, every record is read for the request it is of. -/
theorem own_run (requestId : UInt16) (isConnected : Bool) {exchanges : List Exchange}
    (orderly : Throughout serve Orderly (new requestId isConnected) exchanges) :
    ∀ delivered ∈ (exchanges.foldl serve (new requestId isConnected)).delivered,
      delivered.Own := by
  have none : ∀ delivered ∈ (new requestId isConnected).delivered, delivered.Own := by
    intro delivered member
    cases member
  exact orderly.invariant none fun object own exchange _ orderly => own_serve orderly own

/-- An application that answers a request with an output that begins in the first record
and with the end of the request. -/
def Answered (object : Fastcgi) (exchange : Exchange) : Prop :=
  ∃ first others, first ≠ [] ∧ exchange.late = [] ∧
    exchange.arriving = recordsOf (object.requestId + 1).toNat (⟨true, first⟩ :: others)

theorem requestId_of_recordsOf {requestId : Nat} {pieces : List Piece} {record : Record}
    (member : record ∈ recordsOf requestId pieces) : record.requestId = requestId := by
  rcases List.mem_append.mp member with isPiece | isEnd
  · obtain ⟨piece, -, rfl⟩ := List.mem_map.mp isPiece
    rfl
  · rw [List.mem_singleton] at isEnd
    rw [isEnd]

/-- Such an answer is read to the end. -/
theorem response_recordsOf (isHead : Bool) (requestId : Nat) {first : List UInt8}
    (nonempty : first ≠ []) (others : List Piece) :
    ∃ reply, response isHead (.fastcgi (recordsOf requestId (⟨true, first⟩ :: others))) =
      some (reply, .fastcgi []) := by
  have received : (Application.fastcgi (recordsOf requestId (⟨true, first⟩ :: others))).recv =
      ((first, true), .fastcgi (recordsOf requestId others)) := rfl
  have rests := @Application.recvRest_records requestId others
    ((Application.fastcgi (recordsOf requestId (⟨true, first⟩ :: others))).size + 1)
    (by simp [Application.size, recordsOf]; omega)
  unfold response
  rw [received]
  simp only [if_neg nonempty, rests, Option.map_some]
  exact ⟨_, rfl⟩

theorem unread_of_answered {object : Fastcgi} {exchange : Exchange}
    (answered : object.Answered exchange) (nothingUnread : object.unread = []) :
    object.Orderly exchange ∧ (object.serve exchange).unread = [] := by
  obtain ⟨first, others, nonempty, late, arriving⟩ := answered
  have orderly : object.Orderly exchange :=
    ⟨fun _ => ⟨nothingUnread, late⟩, fun record member => by
      rw [arriving] at member
      exact requestId_of_recordsOf member⟩
  refine ⟨orderly, ?_⟩
  have unread := connect_unread orderly
  unfold serve
  generalize object.connect exchange = connected at unread
  obtain ⟨begun, success⟩ := connected
  dsimp only at unread ⊢
  obtain ⟨reply, responds⟩ := response_recordsOf exchange.isHead
    (object.requestId + 1).toNat nonempty others
  have records : (begun.unread ++ exchange.arriving.map fun record =>
      (⟨begun.requests, record⟩ : Arrived)).map Arrived.record =
        recordsOf (object.requestId + 1).toNat (⟨true, first⟩ :: others) := by
    rw [unread, arriving, List.nil_append, List.map_map]
    exact List.map_id _
  rw [records, responds]
  split
  · simp
  · exact unread

/-- Where every request is answered so, each of them finds nothing unread. -/
theorem orderly_of_answered {object : Fastcgi} {exchanges : List Exchange}
    (answered : Throughout serve Answered object exchanges) (nothingUnread : object.unread = []) :
    Throughout serve Orderly object exchanges := by
  have kept : Throughout serve Orderly object exchanges ∧
      (exchanges.foldl serve object).unread = [] :=
    answered.keeps nothingUnread fun object nothingUnread exchange _ answered =>
      unread_of_answered answered nothingUnread
  exact kept.1

/-- An answer with the id of a request. -/
def answer (requestId : Nat) (pieces : List Piece) : Exchange :=
  ⟨false, [], false, true, true, recordsOf requestId pieces⟩

theorem own_answers :
    let exchanges := [answer 1 [⟨true, octets "A: b\r\n\r\nc"⟩, ⟨false, octets "note"⟩],
      answer 2 [⟨true, octets "A: d\r\n\r\n"⟩, ⟨true, octets "e"⟩]]
    ∀ delivered ∈ (exchanges.foldl serve (new 0 false)).delivered, delivered.Own :=
  own_run 0 false (by decide +kernel)

/-- A first record that is not of the output ends a request, and the next one is served
the records of it. -/
theorem not_own :
    let exchanges := [answer 1 [⟨false, octets "note"⟩, ⟨true, octets "A: b\r\n\r\nc"⟩],
      answer 2 [⟨true, octets "A: d\r\n\r\ne"⟩]]
    (exchanges.foldl serve (new 0 false)).delivered.map (fun delivered =>
        delivered.arrived.map fun arrived => (arrived.request, arrived.record.type)) =
      [[(1, RecordType.stderr)], [(1, RecordType.stdout), (1, RecordType.endRequest)]] ∧
    ¬∀ delivered ∈ (exchanges.foldl serve (new 0 false)).delivered, delivered.Own := by
  decide

end Fastcgi

end Cgi

end HeapHttpd
