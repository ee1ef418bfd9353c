import HeapHttpd.Tunneling.Relay
import Mathlib.Data.List.Infix

/-!
# What the relay of a CONNECT tunnel passes on

The stream of each direction against its ring buffer.  A receive that begins in a
later lap of the ring than the octets that are still unsent puts octets into the
first half that a send in one piece looks for in the second.
-/

namespace HeapHttpd

namespace Tunneling

open Http2 (toInt toInt_of_bounds)
open MirroredRing (store load)
open Replay (Throughout)

/-- The octets received and sent in one direction, and those last passed to `send`. -/
structure Flow where
  received : List UInt8
  sent : List UInt8
  passed : List UInt8

/-- A direction before it has received anything. -/
def Flow.empty : Flow :=
  { received := [], sent := [], passed := [] }

def Flow.apply (flow : Flow) : Event → Flow
  | .touched _ _ => flow
  | .received data => { flow with received := flow.received ++ data }
  | .passed data => { flow with passed := data }
  | .taken len => { flow with sent := flow.sent ++ flow.passed.take len }

/-- What is passed to `send` continues a prefix of what was received, and what is
touched lies in the allocated octets. -/
def Flow.Relays (flow : Flow) : Event → Prop
  | .touched offset count => 0 ≤ offset ∧ 0 ≤ count ∧ offset + count ≤ bufferDescrBufLen * 2 + 1
  | .received _ => True
  | .passed data => flow.sent ++ data <+: flow.received
  | .taken len => flow.sent ++ flow.passed.take len <+: flow.received

instance (flow : Flow) (event : Event) : Decidable (flow.Relays event) := by
  cases event <;> unfold Flow.Relays <;> infer_instance

/-- A receive begins in the lap of the ring in which the unsent octets begin, and the
positions stay in the range of an `int`. -/
def Flow.SameLap (flow : Flow) : Event → Prop
  | .received data =>
      flow.sent.length / bufferDescrBufLen = flow.received.length / bufferDescrBufLen ∧
        flow.received.length + data.length < 2 ^ 31
  | _ => True

instance (flow : Flow) (event : Event) : Decidable (flow.SameLap event) := by
  cases event <;> unfold Flow.SameLap <;> infer_instance

def Pipe.flow (pipe : Pipe) : Flow :=
  pipe.events.foldl Flow.apply .empty

/-- The buffer holds what was received and not yet sent. -/
structure Carries (descr : BufferDescr) (flow : Flow) : Prop where
  bufLen : descr.bufLen = bufferDescrBufLen
  rPos : descr.rPos = flow.sent.length
  wPos : descr.wPos = flow.received.length
  inRange : flow.received.length < 2 ^ 31
  prefixed : flow.sent <+: flow.received
  holds : MirroredRing.Holds bufferDescrBufLen descr.buf flow.received flow.sent.length

/-- As long as every receive begins in the lap of the unsent octets, the octets go
through and the buffer holds the rest. -/
def Pipe.Sound (pipe : Pipe) : Prop :=
  Throughout Flow.apply Flow.SameLap .empty pipe.events →
    Throughout Flow.apply Flow.Relays .empty pipe.events ∧ Carries pipe.descr pipe.flow

theorem Pipe.sound_new (buf : Int → UInt8) : (Pipe.new buf).Sound := by
  intro _
  refine ⟨Replay.throughout_nil, ?_⟩
  constructor
  case holds => exact MirroredRing.Holds.empty ..
  all_goals simp [Pipe.new, Pipe.flow, Flow.empty]

/-- What a step that notes some events has to show. -/
theorem Pipe.Sound.step {pipe pipe' : Pipe} {events : List Event} (sound : pipe.Sound)
    (noted : pipe'.events = pipe.events ++ events)
    (kept : Carries pipe.descr pipe.flow → Throughout Flow.apply Flow.SameLap pipe.flow events →
      Throughout Flow.apply Flow.Relays pipe.flow events ∧
        Carries pipe'.descr (events.foldl Flow.apply pipe.flow)) : pipe'.Sound := by
  intro sameLap
  rw [noted, Replay.throughout_append] at sameLap
  obtain ⟨relays, carries⟩ := sound sameLap.1
  obtain ⟨relays', carries'⟩ := kept carries sameLap.2
  have flow' : pipe'.flow = events.foldl Flow.apply pipe.flow := by
    rw [Pipe.flow, noted, List.foldl_append]
    rfl
  rw [noted, Replay.throughout_append, flow']
  exact ⟨⟨relays, relays'⟩, carries'⟩

namespace BufferDescr

/-- The length of what is unsent, as `relay_processing` computes it. -/
def wannaSendLen (descr : BufferDescr) : Int :=
  toInt (descr.wPos - descr.rPos)

/-- The room for what is received, as `relay_processing` computes it. -/
def wannaRecvLen (descr : BufferDescr) : Int :=
  toInt (descr.bufLen - descr.wannaSendLen)

/-- What a call of `send` notes before its result is known. -/
def sendEvents (descr : BufferDescr) : List Event :=
  let offset := descr.rPos.tmod descr.bufLen
  [.touched offset descr.wannaSendLen,
    .passed (load descr.buf offset descr.wannaSendLen.toNat)]

/-- What the copy behind a receive touches. -/
def copyEvents (data : List UInt8) (descr : BufferDescr) : List Event :=
  let offset := descr.wPos.tmod descr.bufLen
  let overflow := data.length - (descr.bufLen - offset)
  if descr.bufLen - offset < data.length then
    [.touched descr.bufLen overflow, .touched 0 overflow]
  else []

end BufferDescr

namespace Carries

variable {descr : BufferDescr} {flow : Flow}

theorem wannaSendLen_eq (carries : Carries descr flow) :
    descr.wannaSendLen = flow.received.length - flow.sent.length := by
  have fits := carries.holds.fits
  have started := carries.holds.started
  have inRange := carries.inRange
  rw [BufferDescr.wannaSendLen, carries.wPos, carries.rPos, toInt_of_bounds (by omega) (by omega)]

theorem wannaRecvLen_eq (carries : Carries descr flow) :
    descr.wannaRecvLen =
      bufferDescrBufLen - (flow.received.length - flow.sent.length) := by
  have fits := carries.holds.fits
  have started := carries.holds.started
  have small : bufferDescrBufLen < 2 ^ 31 := by decide
  rw [BufferDescr.wannaRecvLen, carries.wannaSendLen_eq, carries.bufLen,
    toInt_of_bounds (by omega) (by omega)]

theorem wOffset (carries : Carries descr flow) :
    descr.wPos.tmod descr.bufLen = (flow.received.length % bufferDescrBufLen : Nat) := by
  rw [carries.wPos, carries.bufLen, Int.ofNat_tmod]

theorem rOffset (carries : Carries descr flow) :
    descr.rPos.tmod descr.bufLen = (flow.sent.length % bufferDescrBufLen : Nat) := by
  rw [carries.rPos, carries.bufLen, Int.ofNat_tmod]

/-- What is passed to `send` is what is still unsent. -/
theorem passed_eq (carries : Carries descr flow) :
    load descr.buf (descr.rPos.tmod descr.bufLen) descr.wannaSendLen.toNat =
      flow.received.drop flow.sent.length := by
  have started := carries.holds.started
  have count : descr.wannaSendLen.toNat = flow.received.length - flow.sent.length := by
    rw [carries.wannaSendLen_eq]
    omega
  rw [carries.rOffset, count, carries.holds.load_eq]

theorem sent_append_unsent (carries : Carries descr flow) :
    flow.sent ++ flow.received.drop flow.sent.length = flow.received := by
  obtain ⟨rest, whole⟩ := carries.prefixed
  rw [← whole, List.drop_left]

/-- The flow behind the events of a call of `send`. -/
theorem foldl_sendEvents (carries : Carries descr flow) :
    descr.sendEvents.foldl Flow.apply flow =
      { flow with passed := flow.received.drop flow.sent.length } := by
  simp only [BufferDescr.sendEvents, carries.passed_eq]
  rfl

/-- What `send` is passed continues what has been sent, and lies in the allocated
octets. -/
theorem sends (carries : Carries descr flow) (positive : 0 < descr.wannaSendLen) :
    Throughout Flow.apply Flow.Relays flow descr.sendEvents := by
  have bound := Nat.mod_lt flow.sent.length (y := bufferDescrBufLen) (by decide)
  have fits := carries.holds.fits
  simp only [BufferDescr.sendEvents, Replay.throughout_cons, Replay.throughout_nil, and_true,
    carries.passed_eq]
  rw [carries.wannaSendLen_eq] at positive ⊢
  constructor
  · simp only [Flow.Relays, carries.rOffset]
    omega
  · show flow.sent ++ _ <+: flow.received
    rw [carries.sent_append_unsent]

/-- The octets that were last passed do not matter. -/
theorem with_passed (carries : Carries descr flow) (passed : List UInt8) :
    Carries descr { flow with passed } where
  bufLen := carries.bufLen
  rPos := carries.rPos
  wPos := carries.wPos
  inRange := carries.inRange
  prefixed := carries.prefixed
  holds := carries.holds

/-- Some of the unsent octets are taken. -/
theorem taken (carries : Carries descr flow) {len : Nat}
    (inside : len ≤ flow.received.length - flow.sent.length) :
    Carries { descr with rPos := toInt (descr.rPos + len) }
      { flow with sent := flow.sent ++ (flow.received.drop flow.sent.length).take len } := by
  have inRange := carries.inRange
  have started := carries.holds.started
  have count : ((flow.received.drop flow.sent.length).take len).length = len := by
    simp
    omega
  constructor
  case bufLen => exact carries.bufLen
  case wPos => exact carries.wPos
  case inRange => exact inRange
  case rPos =>
    simp only [carries.rPos, List.length_append, count]
    rw [toInt_of_bounds (by omega) (by omega)]
    simp
  case prefixed =>
    have partOf : flow.sent ++ (flow.received.drop flow.sent.length).take len <+:
        flow.sent ++ flow.received.drop flow.sent.length :=
      (List.prefix_append_right_inj _).mpr (List.take_prefix ..)
    rwa [carries.sent_append_unsent] at partOf
  case holds =>
    simp only [List.length_append, count]
    exact carries.holds.advance inside

end Carries

/-- Everything the arm that sends can do. -/
theorem Pipe.send_cases (pipe : Pipe) (answer : Sent) :
    ((pipe.send answer).1.descr = pipe.descr ∧ (pipe.send answer).1.events = pipe.events) ∨
      0 < pipe.descr.wannaSendLen ∧
        (((pipe.send answer).1.descr = pipe.descr ∧
            (pipe.send answer).1.events = pipe.events ++ pipe.descr.sendEvents) ∨
          ∃ len : Nat, len ≤ pipe.descr.wannaSendLen.toNat ∧
            (pipe.send answer).1.descr =
              { pipe.descr with rPos := toInt (pipe.descr.rPos + len) } ∧
            (pipe.send answer).1.events =
              pipe.events ++ (pipe.descr.sendEvents ++ [.taken len])) := by
  simp only [Pipe.send]
  split
  case isFalse => exact .inl ⟨rfl, rfl⟩
  split
  case isFalse =>
    split <;> exact .inl ⟨rfl, rfl⟩
  rename_i fits
  refine .inr ⟨fits.1, ?_⟩
  cases answer with
  | failed again => exact .inl ⟨rfl, by simp [note, BufferDescr.sendEvents, BufferDescr.wannaSendLen]⟩
  | count len =>
      simp only
      split
      · exact .inl ⟨rfl, by simp [note, BufferDescr.sendEvents, BufferDescr.wannaSendLen]⟩
      · exact .inr ⟨_, Nat.min_le_right .., rfl,
          by simp [note, BufferDescr.sendEvents, BufferDescr.wannaSendLen]⟩

/-- The arm that sends. -/
theorem Pipe.Sound.send {pipe : Pipe} (sound : pipe.Sound) (answer : Sent) :
    (pipe.send answer).1.Sound := by
  rcases pipe.send_cases answer with ⟨descr, events⟩ |
    ⟨positive, ⟨descr, events⟩ | ⟨len, short, descr, events⟩⟩
  · apply @Pipe.Sound.step _ _ [] sound (by simpa using events)
    intro carries _
    rw [descr]
    exact ⟨Replay.throughout_nil, carries⟩
  · apply sound.step events
    intro carries _
    rw [descr, carries.foldl_sendEvents]
    exact ⟨carries.sends positive, carries.with_passed _⟩
  · apply sound.step events
    intro carries _
    have started := carries.holds.started
    have inside : len ≤ pipe.flow.received.length - pipe.flow.sent.length := by
      rw [carries.wannaSendLen_eq] at short
      omega
    have behind := (carries.with_passed (pipe.flow.received.drop pipe.flow.sent.length)).taken inside
    rw [descr, Replay.throughout_append, List.foldl_append, carries.foldl_sendEvents]
    refine ⟨⟨carries.sends positive, ?_⟩, behind⟩
    rw [Replay.throughout_cons]
    exact ⟨behind.prefixed, Replay.throughout_nil⟩

theorem Pipe.fill_events (pipe : Pipe) (data : List UInt8) :
    (pipe.fill data).events = pipe.events ++ pipe.descr.copyEvents data := by
  simp only [Pipe.fill, BufferDescr.copyEvents]
  split <;> simp [memcpy]

/-- A receive leaves everything but the octets. -/
theorem Pipe.fill_descr (pipe : Pipe) (data : List UInt8) :
    (pipe.fill data).descr = { pipe.descr with buf := (pipe.fill data).descr.buf } := by
  simp only [Pipe.fill]
  split <;> rfl

/-- Everything the arm that receives can do. -/
theorem Pipe.receive_cases (pipe : Pipe) (answer : Received) :
    ((pipe.receive answer).1.descr = pipe.descr ∧ (pipe.receive answer).1.events = pipe.events) ∨
      0 < pipe.descr.wannaRecvLen ∧
        let called := pipe.note
          (.touched (pipe.descr.wPos.tmod pipe.descr.bufLen) pipe.descr.wannaRecvLen)
        (pipe.receive answer).1 = called ∨
          (pipe.receive answer).1 = called.fill [] ∨
          ∃ data : List UInt8, data.length ≤ pipe.descr.wannaRecvLen.toNat ∧
            (pipe.receive answer).1.descr =
              { (called.fill data).descr with wPos := toInt (pipe.descr.wPos + data.length) } ∧
            (pipe.receive answer).1.events = (called.fill data).events ++ [.received data] := by
  simp only [Pipe.receive]
  split
  case isFalse => exact .inl ⟨rfl, rfl⟩
  rename_i fits
  refine .inr ⟨fits.1, ?_⟩
  cases answer with
  | failed again => exact .inl rfl
  | octets whole =>
      refine .inr ?_
      simp only
      generalize taken : whole.take _ = data
      split
      · rename_i none
        rw [List.length_eq_zero_iff.mp none]
        exact .inl rfl
      · refine .inr ⟨data, ?_, rfl, rfl⟩
        rw [← taken]
        exact List.length_take_le ..

/-- What a receive writes is the write in one piece of the ring. -/
theorem Carries.fill_buf {pipe : Pipe} {flow : Flow} (carries : Carries pipe.descr flow)
    (data : List UInt8) :
    (pipe.fill data).descr.buf =
      MirroredRing.append bufferDescrBufLen pipe.descr.buf
        (flow.received.length % bufferDescrBufLen) data := by
  have bound := Nat.mod_lt flow.received.length (y := bufferDescrBufLen) (by decide)
  simp only [Pipe.fill, MirroredRing.append, carries.wOffset]
  simp only [carries.bufLen]
  by_cases wraps : bufferDescrBufLen <
      flow.received.length % bufferDescrBufLen + data.length
  · have count : (data.length - ((bufferDescrBufLen : Int) -
        (flow.received.length % bufferDescrBufLen : Nat))).toNat =
        flow.received.length % bufferDescrBufLen + data.length - bufferDescrBufLen := by
      omega
    rw [if_pos (by omega), if_pos wraps]
    simp only [Pipe.memcpy, count]
  · rw [if_neg (by omega), if_neg wraps]

namespace Carries

variable {descr : BufferDescr} {flow : Flow}

/-- What `recv` and the copy touch lies in the allocated octets. -/
theorem receives (carries : Carries descr flow) (flow' : Flow)
    (positive : 0 < descr.wannaRecvLen) {data : List UInt8}
    (short : data.length ≤ descr.wannaRecvLen.toNat) :
    Throughout Flow.apply Flow.Relays flow'
      (.touched (descr.wPos.tmod descr.bufLen) descr.wannaRecvLen :: descr.copyEvents data) := by
  have bound := Nat.mod_lt flow.received.length (y := bufferDescrBufLen) (by decide)
  have started := carries.holds.started
  have fits := carries.holds.fits
  rw [carries.wannaRecvLen_eq] at positive short ⊢
  simp only [BufferDescr.copyEvents, Replay.throughout_cons, carries.wOffset]
  simp only [carries.bufLen]
  constructor
  · simp only [Flow.Relays]
    omega
  · split
    · simp only [Replay.throughout_cons, Replay.throughout_nil, Flow.Relays, and_true]
      constructor <;> omega
    · exact Replay.throughout_nil

theorem foldl_copyEvents (descr : BufferDescr) (flow : Flow) (data : List UInt8) :
    (descr.copyEvents data).foldl Flow.apply flow = flow := by
  simp only [BufferDescr.copyEvents]
  split <;> rfl

/-- A receive that begins in the lap of the unsent octets. -/
theorem received {pipe : Pipe} (carries : Carries pipe.descr flow) {data : List UInt8}
    (short : data.length ≤ pipe.descr.wannaRecvLen.toNat)
    (sameLap : flow.SameLap (.received data)) :
    Carries { (pipe.fill data).descr with wPos := toInt (pipe.descr.wPos + data.length) }
      { flow with received := flow.received ++ data } := by
  have started := carries.holds.started
  have fits := carries.holds.fits
  obtain ⟨lap, inRange⟩ := sameLap
  rw [carries.wannaRecvLen_eq] at short
  rw [pipe.fill_descr, carries.fill_buf]
  constructor
  case bufLen => exact carries.bufLen
  case rPos => exact carries.rPos
  case wPos =>
    simp only [carries.wPos, List.length_append]
    rw [toInt_of_bounds (by omega) (by omega)]
    simp
  case inRange => simpa using inRange
  case prefixed => exact carries.prefixed.trans (List.prefix_append ..)
  case holds => exact carries.holds.append_data lap (by omega)

/-- A receive of nothing. -/
theorem received_nothing {pipe : Pipe} (carries : Carries pipe.descr flow) :
    Carries (pipe.fill []).descr flow := by
  have bound := Nat.mod_lt flow.received.length (y := bufferDescrBufLen) (by decide)
  have same : (pipe.fill []).descr = pipe.descr := by
    rw [pipe.fill_descr, carries.fill_buf, MirroredRing.append_nil _ (by omega)]
  rwa [same]

end Carries

/-- The arm that receives. -/
theorem Pipe.Sound.receive {pipe : Pipe} (sound : pipe.Sound) (answer : Received) :
    (pipe.receive answer).1.Sound := by
  rcases pipe.receive_cases answer with ⟨descr, events⟩ |
    ⟨positive, failed | closed | ⟨data, short, descr, events⟩⟩
  · apply @Pipe.Sound.step _ _ [] sound (by simpa using events)
    intro carries _
    rw [descr]
    exact ⟨Replay.throughout_nil, carries⟩
  · rw [failed]
    apply sound.step (by rfl)
    intro carries _
    have touches := Replay.throughout_cons.mp
      (@Carries.receives _ _ carries pipe.flow positive [] (Nat.zero_le _))
    exact ⟨Replay.throughout_cons.mpr ⟨touches.1, Replay.throughout_nil⟩, carries⟩
  · rw [closed]
    apply sound.step (by rw [Pipe.fill_events, Pipe.note, List.append_assoc])
    intro carries _
    refine ⟨carries.receives pipe.flow positive (Nat.zero_le _), ?_⟩
    rw [List.foldl_append, Carries.foldl_copyEvents]
    exact @Carries.received_nothing _ (pipe.note _) carries
  · rw [Pipe.fill_events, Pipe.note, List.append_assoc, List.append_assoc] at events
    apply sound.step events
    intro carries sameLap
    have behind := (Replay.throughout_append.mp (Replay.throughout_append.mp sameLap).2).2
    rw [Carries.foldl_copyEvents] at behind
    have now := (Replay.throughout_cons.mp behind).1
    have touches := carries.receives pipe.flow positive short
    rw [descr, List.foldl_append, List.foldl_append, Carries.foldl_copyEvents,
      ← List.append_assoc, Replay.throughout_append]
    refine ⟨⟨touches, ?_⟩, @Carries.received _ (pipe.note _) carries _ short now⟩
    exact Replay.throughout_cons.mpr ⟨trivial, Replay.throughout_nil⟩

/-- One turn of one direction. -/
theorem Pipe.Sound.turn {pipe : Pipe} (sound : pipe.Sound) (readable writable : Bool)
    (recv : Received) (send : Sent) : (pipe.turn readable writable recv send).1.Sound := by
  have selected : Pipe.Sound { pipe with writable := pipe.writable && writable } := sound
  simp only [Pipe.turn]
  split <;> split
  · exact (selected.receive recv).send send
  · exact selected.receive recv
  · exact selected.send send
  · exact selected

/-- Both directions are sound. -/
def Relay.Sound (relay : Relay) : Prop :=
  relay.frmClient.Sound ∧ relay.frmBackend.Sound

theorem Relay.Sound.turn {relay : Relay} (sound : relay.Sound) (turn : Turn) :
    (relay.turn turn).1.Sound := by
  simp only [Relay.turn]
  split
  · split
    · exact ⟨sound.1.turn _ _ _ _, sound.2.turn _ _ _ _⟩
    · exact ⟨sound.1.turn _ _ _ _, sound.2⟩
  · exact sound

theorem Relay.Sound.run {relay : Relay} (sound : relay.Sound) (turns : List Turn) :
    (relayProcessing turns relay).Sound := by
  induction turns generalizing relay with
  | nil => exact sound
  | cons turn turns ih =>
      simp only [relayProcessing]
      split
      · exact ih (sound.turn turn)
      · exact sound.turn turn

/-- The relay with buffers in memory that may hold anything. -/
def Relay.new (clientBuf backendBuf : Int → UInt8) : Relay :=
  { frmClient := Pipe.new clientBuf, frmBackend := Pipe.new backendBuf }

/-- What the relay noted of the octets from one socket. -/
def Relay.eventsFrom (relay : Relay) : End → List Event
  | .client => relay.frmClient.events
  | .backend => relay.frmBackend.events

/-- If every receive begins in the lap of the ring in which the unsent octets begin,
and the positions stay in range, then what the relay passes to `send` continues a
prefix of what it received, inside the allocated octets. -/
theorem relays_of_sameLap (clientBuf backendBuf : Int → UInt8) (turns : List Turn) (source : End)
    (sameLap : Throughout Flow.apply Flow.SameLap .empty
      ((relayProcessing turns (.new clientBuf backendBuf)).eventsFrom source)) :
    Throughout Flow.apply Flow.Relays .empty
      ((relayProcessing turns (.new clientBuf backendBuf)).eventsFrom source) := by
  have start : (Relay.new clientBuf backendBuf).Sound :=
    ⟨Pipe.sound_new clientBuf, Pipe.sound_new backendBuf⟩
  have sound := start.run turns
  cases source with
  | client => exact (sound.1 sameLap).1
  | backend => exact (sound.2 sameLap).1

/-- A turn in which only octets from the client arrive. -/
def Turn.fromClient (data : List UInt8) (send : Sent) : Turn :=
  { retVal := 1
    readable := fun side => side = .client
    writable := fun _ => false
    exceptional := fun _ => false
    recv := fun _ => .octets data
    send := fun _ => send }

theorem relays_of_sameLap_short :
    Throughout Flow.apply Flow.Relays .empty
      ((relayProcessing [.fromClient [1, 2, 3] (.count 2), .fromClient [4] (.count 5)]
        (.new (fun _ => 0) (fun _ => 0))).eventsFrom .client) :=
  relays_of_sameLap _ _ _ _ (by decide)

/-- Octets that arrive one by one at the end of a lap, while the first of them is
still unsent. -/
def turnsAtLapEnd : List Turn :=
  [.fromClient (List.replicate 12287 0) (.count 12287), .fromClient [0] (.failed true),
    .fromClient [1] (.count 2)]

theorem events_at_lapEnd {lap : List UInt8} (whole : lap.length = 12287) :
    let first := store (fun _ => 0) 0 lap
    let second := store first 12287 [0]
    (relayProcessing [.fromClient lap (.count 12287), .fromClient [0] (.failed true),
        .fromClient [1] (.count 2)] (.new (fun _ => 0) (fun _ => 0))).eventsFrom .client =
      [.touched 0 12288, .received lap, .touched 0 12287,
        .passed (load first 0 12287), .taken 12287, .touched 12287 12288, .received [0],
        .touched 12287 1, .passed (load second 12287 1), .touched 0 12287, .received [1],
        .touched 12287 2] ++
      .passed (load (store second 0 [1]) 12287 2) :: [.taken 2] := by
  have all : lap.take 12288 = lap := List.take_of_length_le (by omega)
  simp [relayProcessing, Relay.turn, Pipe.turn, Pipe.receive, Pipe.send, Pipe.fill, Pipe.note,
    Turn.fromClient, Relay.new, Pipe.new, Relay.eventsFrom, bufferDescrBufLen, toInt, whole, all]

/-- The last octet passed is what the second half of the ring held before. -/
theorem not_relays_lapEnd :
    ¬ Throughout Flow.apply Flow.Relays .empty
      ((relayProcessing turnsAtLapEnd (.new (fun _ => 0) (fun _ => 0))).eventsFrom .client) := by
  rw [turnsAtLapEnd, events_at_lapEnd List.length_replicate]
  intro relays
  obtain ⟨rest, whole⟩ := relays.at
  have octet := congrArg (fun octets => octets[12288]?) whole
  simp [Flow.apply, Flow.empty, List.getElem?_append, List.getElem?_replicate, load, store,
    -List.reduceReplicate] at octet

end Tunneling

end HeapHttpd
