import HeapHttpd.Http2.Histories

/-!
# Windows for what the server sends

What the peer has granted, beside the windows that the connection keeps.  The
connection takes the data of a frame from its windows, the peer the whole
payload, and the connection looks at one of the two windows.
-/

namespace HeapHttpd

namespace Http2

open General Hpack Http1 Replay

variable {X : Type}

/-- What a peer has granted to streams and to the connection, less what it has
been sent. -/
structure Credit where
  streams : StreamPtr → Int
  control : Int

/-- What the connection keeps, beside what the peer has granted. -/
structure Books where
  ledger : Ledger
  credit : Credit

/-- What an event does to windows, with the increment of a `WINDOW_UPDATE` frame
and what a `DATA` frame takes. -/
def Credit.apply (increment : Nat → List UInt8 → Nat) (charge : SentFrame → Nat)
    (credit : Credit) : Event → Credit
  | .created stream peerWindowSize _ =>
      { credit with
        streams := fun pointer =>
          if pointer = stream then peerWindowSize else credit.streams pointer }
  | .windowUpdate streamInd winSize payload =>
      if streamInd = 0 then { credit with control := credit.control + increment winSize payload }
      else
        { credit with
          streams := fun pointer =>
            if pointer.streamInd = streamInd then
              credit.streams pointer + increment winSize payload
            else credit.streams pointer }
  | .sent frame (some sender) =>
      if frame.type = FrameType.data then
        { streams := fun pointer =>
            if pointer = sender then credit.streams pointer - charge frame
            else credit.streams pointer
          control := credit.control - charge frame }
      else credit
  | _ => credit

/-- The windows at the start. -/
def Credit.start : Credit :=
  { streams := fun _ => 0
    control := defaultWindowSize }

/-- The books after an event. -/
def Books.apply (increment : Nat → List UInt8 → Nat) (charge : SentFrame → Nat) (books : Books)
    (event : Event) : Books :=
  { ledger := books.ledger.apply event
    credit := books.credit.apply increment charge event }

/-- The books at the start. -/
def Books.start : Books :=
  { ledger := .start
    credit := .start }

theorem SentFrame.IsControl.ne_data {frame : SentFrame} (isControl : frame.IsControl) :
    frame.type ≠ FrameType.data := by
  rcases isControl with isType | isType | isType
  all_goals
    rw [isType]
    decide

/-- Where `DATA` frames come from: content, the end of a stream, or a header
without a body. -/
theorem Happens.sent_data {async : Bool} {loose : Prop} {ledger : Ledger} {events : List Event}
    (happens : Happens async loose ledger events) :
    (∃ stream window rest succeeds,
      (∀ flow, ledger.flows stream = some flow → flow.peerWindowSize = window) ∧
      events = [.building stream rest.length ledger.maxFrameSize window,
        .sending succeeds (some stream)
          (contentFrame ledger.maxFrameSize window stream.streamInd rest)]) ∨
    (∃ stream padding succeeds, 0 < ledger.maxFrameSize ∧
      padding = min (ledger.maxFrameSize - 1) dataPaddingLen ∧
      events = [.sending succeeds (some stream)
        (frameOf FrameType.data (Flag.endStream ||| Flag.padded) stream.streamInd
          (UInt8.ofNat padding :: List.replicate padding 0))]) ∨
    ∀ frame sender, .sent frame sender ∈ events → frame.type = FrameType.data →
      ∃ stream, sender = some stream ∧ frame.flags = Flag.unset ∧ frame.payload = [] := by
  cases happens with
  | content stream window rest agrees listed succeeds =>
      exact .inl ⟨stream, window, rest, succeeds, agrees, rfl⟩
  | emptyContent stream listed padding some_ fills succeeds =>
      exact .inr (.inl ⟨stream, padding, succeeds, some_, fills, rfl⟩)
  | header stream listed frameType kind payload head succeeds =>
      refine .inr (.inr fun frame sender member isData => ?_)
      rcases List.mem_map.mp member with ⟨sent, isSent, same⟩
      rcases Event.sent_eq_sending same.symm with ⟨rfl, rfl⟩
      rcases List.mem_cons.mp isSent with rfl | isEmpty
      · rcases kind with rfl | rfl <;> cases isData
      · cases head with
        | false => cases isEmpty
        | true =>
            rw [List.mem_singleton.mp isEmpty]
            exact ⟨stream, rfl, rfl, rfl⟩
  | control frames isControl succeeds =>
      refine .inr (.inr fun frame sender member isData => ?_)
      rcases List.mem_map.mp member with ⟨sent, isSent, same⟩
      rw [(Event.sent_eq_sending same.symm).1] at isData
      exact absurd isData (isControl sent isSent).ne_data
  | rstStream stream listed succeeds =>
      refine .inr (.inr fun frame sender member isData => ?_)
      rw [(Event.sent_eq_sending (List.mem_singleton.mp member)).1] at isData
      cases isData
  | exchange synchronous succeeds =>
      refine .inr (.inr fun frame sender member isData => ?_)
      simp only [List.mem_cons, reduceCtorEq, false_or, List.not_mem_nil, or_false] at member
      rw [(Event.sent_eq_sending member).1] at isData
      cases isData
  | data streamInd length extra credits emptied returned =>
      refine .inr (.inr fun frame sender member isData => ?_)
      simp only [List.mem_cons, reduceCtorEq, false_or, List.mem_append] at member
      have isUpdate : frame.type = FrameType.windowUpdate := by
        rcases member with isExtra | isCredit
        · rcases emptied with rfl | ⟨-, credited⟩
          · cases isExtra
          · exact credited.sent isExtra
        · exact returned.sent isCredit
      rw [isUpdate] at isData
      cases isData
  | plain event plain =>
      refine .inr (.inr fun frame sender member _ => ?_)
      cases List.mem_singleton.mp member
      exact plain.elim
  | headersEnd stream method =>
      refine .inr (.inr fun frame sender member _ => ?_)
      split at member <;> simp at member
  | pushed stream contentLength stored complete =>
      refine .inr (.inr fun frame sender member _ => ?_)
      split at member <;> simp at member
  | _ => exact .inr (.inr fun frame sender member _ => by simp at member)

section FlowControl

/-- The increment of a `WINDOW_UPDATE` frame as the client wrote it. -/
def writtenIncrement (winSize : Nat) (payload : List UInt8) : Nat :=
  if 4 ≤ payload.length then ntoh (payload.take 4) % 2 ^ 31 else winSize

/-- The books of a peer that counts whole payloads. -/
def Books.deliver : Books → Event → Books :=
  Books.apply writtenIncrement fun frame => frame.payload.length

/-- Both windows of a stream have room for some octets. -/
def Books.HasRoom (books : Books) (stream : StreamPtr) (octets : Nat) : Prop :=
  octets ≤ books.credit.streams stream ∧ octets ≤ books.credit.control

/-- A `DATA` frame that is sent fits both windows. -/
def Obeys (books : Books) : Event → Prop
  | .sent frame sender =>
      frame.type = FrameType.data →
        ∃ stream, sender = some stream ∧ books.HasRoom stream frame.payload.length
  | _ => True

/-- The room that a `DATA` frame of content needs at most: with padding, the window
of the stream is of no help. -/
def roomNeeded (maxFrameSize : Nat) (window : Int) (remaining : Nat) : Nat :=
  if dataPaddingLen + 1 < maxFrameSize then
    min remaining (maxFrameSize - dataPaddingLen - 1) / dataPaddingLen * dataPaddingLen +
      dataPaddingLen + 1
  else preSendLen maxFrameSize window remaining

/-- Both windows have room for what is to be sent. -/
def Spacious (books : Books) : Event → Prop
  | .building stream remaining maxFrameSize window =>
      books.HasRoom stream (roomNeeded maxFrameSize window remaining)
  | .sent frame (some stream) =>
      frame.type = FrameType.data → hasFlag frame.flags Flag.endStream →
        books.HasRoom stream (min books.ledger.maxFrameSize (dataPaddingLen + 1))
  | _ => True

instance (books : Books) (stream : StreamPtr) (octets : Nat) :
    Decidable (books.HasRoom stream octets) :=
  inferInstanceAs (Decidable (_ ∧ _))

instance (books : Books) (event : Event) : Decidable (Obeys books event) :=
  match event with
  | .sent frame (some stream) =>
      decidable_of_iff (frame.type = FrameType.data → books.HasRoom stream frame.payload.length)
        (by simp [Obeys])
  | .sent frame none => decidable_of_iff (frame.type ≠ FrameType.data) (by simp [Obeys])
  | .received _ _ | .returned _ | .unsent _ _ | .building _ _ _ _ | .created _ _ _ | .promised _
  | .erased _ _ | .reset _ _ | .cleared _ _ | .stale _ | .opened _ | .ended _ | .settings _ _ _
  | .windowUpdate _ _ _ | .data _ _ | .credited _ _ | .pushed _ _ _ _ | .field _ | .line _ _
  | .headersEnd _ _ | .response _ => isTrue trivial

instance (books : Books) (event : Event) : Decidable (Spacious books event) :=
  match event with
  | .building stream remaining maxFrameSize window =>
      inferInstanceAs
        (Decidable (books.HasRoom stream (roomNeeded maxFrameSize window remaining)))
  | .sent _ (some _) => inferInstanceAs (Decidable (_ → _ → _))
  | .sent _ none | .received _ _ | .returned _ | .unsent _ _ | .created _ _ _ | .promised _
  | .erased _ _ | .reset _ _ | .cleared _ _ | .stale _ | .opened _ | .ended _ | .settings _ _ _
  | .windowUpdate _ _ _ | .data _ _ | .credited _ _ | .pushed _ _ _ _ | .field _ | .line _ _
  | .headersEnd _ _ | .response _ => isTrue trivial

/-- No window is overdrawn. -/
def Books.Solvent (books : Books) : Prop :=
  (∀ stream, 0 ≤ books.credit.streams stream) ∧ 0 ≤ books.credit.control

theorem length_contentFrame_le (maxFrameSize : Nat) (window : Int) (streamInd : Nat)
    (rest : List UInt8) :
    (contentFrame maxFrameSize window streamInd rest).payload.length ≤
      roomNeeded maxFrameSize window rest.length := by
  have taken : (rest.take (preSendLen maxFrameSize window rest.length)).length =
      preSendLen maxFrameSize window rest.length := by
    rw [List.length_take, min_eq_left (preSendLen_le maxFrameSize window rest.length)]
  unfold contentFrame roomNeeded
  split
  · rename_i padded
    have fewer : preSendLen maxFrameSize window rest.length ≤
        min rest.length (maxFrameSize - dataPaddingLen - 1) := by
      unfold preSendLen
      rw [if_pos padded]
      exact min_le_left _ _
    simp only [frameOf, taken, List.length_append, List.length_cons, List.length_replicate,
      dataPaddingLen] at *
    omega
  · exact Nat.le_of_eq taken

theorem HasRoom.mono {books : Books} {stream : StreamPtr} {few many : Nat}
    (room : books.HasRoom stream many) (fewer : few ≤ many) : books.HasRoom stream few :=
  ⟨by have := room.1; omega, by have := room.2; omega⟩

/-- Windows stay solvent as long as frames fit them. -/
theorem Books.Solvent.deliver {books : Books} (solvent : books.Solvent) (event : Event)
    (obeys : Obeys books event) : (books.deliver event).Solvent := by
  cases event with
  | created stream peerWindowSize localWindowSize =>
      refine ⟨fun pointer => ?_, solvent.2⟩
      have := solvent.1 pointer
      show 0 ≤ if pointer = stream then (peerWindowSize : Int) else books.credit.streams pointer
      split <;> omega
  | windowUpdate streamInd winSize payload =>
      simp only [Books.deliver, Books.apply, Credit.apply]
      split
      · exact ⟨solvent.1, by have := solvent.2; dsimp only; omega⟩
      · refine ⟨fun pointer => ?_, solvent.2⟩
        have := solvent.1 pointer
        dsimp only
        split <;> omega
  | sent frame sender =>
      cases sender with
      | none => exact solvent
      | some sender =>
          simp only [Books.deliver, Books.apply, Credit.apply]
          split
          · rename_i isData
            rcases obeys isData with ⟨stream, same, room⟩
            cases same
            refine ⟨fun pointer => ?_, by have := room.2; dsimp only; omega⟩
            have := solvent.1 pointer
            have := room.1
            dsimp only
            split
            · rename_i same
              rw [same]
              omega
            · omega
          · exact solvent
  | _ => exact solvent

theorem obeys_chunk {async : Bool} {loose : Prop} {books : Books} {events : List Event}
    (solvent : books.Solvent) (happens : Happens async loose books.ledger events)
    (spacious : Throughout Books.deliver Spacious books events) :
    Throughout Books.deliver Obeys books events ∧ (events.foldl Books.deliver books).Solvent := by
  rcases happens.sent_data with ⟨stream, window, rest, succeeds, _, rfl⟩ |
    ⟨stream, padding, succeeds, some_, fills, rfl⟩ | others
  · have fits : Obeys books (.sending succeeds (some stream)
        (contentFrame books.ledger.maxFrameSize window stream.streamInd rest)) := by
      cases succeeds with
      | false => trivial
      | true =>
          exact fun _ => ⟨stream, rfl, HasRoom.mono (throughout_cons.mp spacious).1 (length_contentFrame_le _ _ _ _)⟩
    exact ⟨.cons _ _ _ trivial (.cons _ _ _ fits (.nil _)), solvent.deliver _ fits⟩
  · have fits : Obeys books (.sending succeeds (some stream)
        (frameOf FrameType.data (Flag.endStream ||| Flag.padded) stream.streamInd
          (UInt8.ofNat padding :: List.replicate padding 0))) := by
      cases succeeds with
      | false => trivial
      | true =>
          refine fun isData => ⟨stream, rfl, ?_⟩
          have room := (throughout_cons.mp spacious).1 isData (show hasFlag (Flag.endStream ||| Flag.padded) _ = true by decide)
          refine HasRoom.mono room ?_
          simp only [frameOf, List.length_cons, List.length_replicate, dataPaddingLen] at *
          omega
    exact ⟨.cons _ _ _ fits (.nil _), solvent.deliver _ fits⟩
  · refine spacious.keeps solvent fun books solvent event member _ => ?_
    have fits : Obeys books event := by
      cases event with
      | sent frame sender =>
          intro isData
          rcases others frame sender member isData with ⟨stream, same, -, empty⟩
          refine ⟨stream, same, ?_⟩
          rw [empty]
          exact ⟨solvent.1 stream, solvent.2⟩
      | _ => trivial
    exact ⟨fits, solvent.deliver event fits⟩

/-- A response that fills a window of five octets. -/
theorem trace_filled :
    (afterFrames (plainEnv true [1, 2, 3, 4, 5]) true
      [some (⟨6, FrameType.settings, Flag.unset, 0⟩, [0, 4, 0, 0, 0, 5]),
        some (getRequest 1)]).state.conn.trace =
      [.sent ⟨6, 4, 0, 0, [0, 3, 0, 0, 0, 101]⟩ none,
        .sent ⟨6, 4, 0, 0, [0, 4, 127, 255, 255, 255]⟩ none,
        .received ⟨6, 4, 0, 0⟩ [0, 4, 0, 0, 0, 5], .settings 4 5 [0, 4, 0, 0, 0, 5],
        .sent ⟨0, 4, 1, 0, []⟩ none, .returned 6,
        .received ⟨2, 1, 5, 1⟩ [130, 132], .created ⟨1, 0⟩ 5 2147483647, .opened ⟨1, 0⟩,
        .field ⟨.indexed, 2, [58, 109, 101, 116, 104, 111, 100], [71, 69, 84]⟩,
        .line ⟨1, 0⟩ [71, 69, 84, 32, 47, 32, 72, 84, 84, 80, 47, 49, 46, 49, 13, 10],
        .field ⟨.indexed, 4, [58, 112, 97, 116, 104], [47]⟩,
        .headersEnd ⟨1, 0⟩ .get, .response ⟨1, 0⟩, .sent ⟨1, 1, 4, 1, [136]⟩ (some ⟨1, 0⟩),
        .building ⟨1, 0⟩ 5 16384 5,
        .sent ⟨9, 0, 8, 1, [3, 1, 2, 3, 4, 5, 0, 0, 0]⟩ (some ⟨1, 0⟩),
        .sent ⟨9, 0, 9, 1, [8, 0, 0, 0, 0, 0, 0, 0, 0]⟩ (some ⟨1, 0⟩),
        .cleared ⟨1, 0⟩ false, .ended ⟨1, 0⟩, .returned 2] := by
  decide +kernel

end FlowControl

section Range

/-- The books of a peer that counts as the connection does. -/
def Books.follow : Books → Event → Books :=
  Books.apply (fun winSize _ => winSize) SentFrame.dataLength

/-- What the client does would push a window above the maximum. -/
def Overflows (ledger : Ledger) : Event → Prop
  | .windowUpdate streamInd winSize payload =>
      if streamInd = 0 then
        maxWindowSize < ledger.peerControlWindowSize + writtenIncrement winSize payload
      else
        ∃ stream flow, stream.streamInd = streamInd ∧ ledger.flows stream = some flow ∧
          maxWindowSize < flow.peerWindowSize + writtenIncrement winSize payload
  | .settings identifier value _ =>
      identifier = SettingId.initialWindowSize ∧ maxWindowSize < value
  | _ => False

/-- The client pushes no window above the maximum, and the window of the connection
has room for the data of what is to be sent. -/
def Modest (books : Books) (event : Event) : Prop :=
  ¬Overflows books.ledger event ∧
    match event with
    | .building _ remaining maxFrameSize window =>
        preSendLen maxFrameSize window remaining ≤ books.ledger.peerControlWindowSize
    | _ => True

/-- A `GOAWAY` frame about flow control. -/
def Event.IsFlowControlError : Event → Prop
  | .sent frame _ | .unsent frame _ =>
      frame.type = FrameType.goaway ∧ frame.payload.drop 4 = htonl ErrorCode.flowControlError
  | _ => False

/-- The windows have not wrapped, and what would push them too far is reported and
not applied. -/
structure WindowsSound (conn : Conn X) : Prop where
  streams : ∀ pointer stream, conn.listed pointer = some stream →
    stream.peerWindowSize = (conn.trace.foldl Books.follow .start).credit.streams pointer ∧
      -(maxWindowSize : Int) ≤ stream.peerWindowSize ∧ stream.peerWindowSize ≤ maxWindowSize
  control :
    (conn.peerControlWindowSize : Int) = (conn.trace.foldl Books.follow .start).credit.control ∧
      conn.peerControlWindowSize ≤ maxWindowSize
  reported : ∀ before event after, conn.trace = before ++ event :: after →
    Overflows (Ledger.start.replay before) event →
      (Ledger.start.replay before).apply event = Ledger.start.replay before ∧
        ∃ reply ∈ after, reply.IsFlowControlError

/-- The windows of a ledger are those of the peer, and in their range. -/
structure Books.Ranged (books : Books) : Prop where
  streams : ∀ stream flow, books.ledger.flows stream = some flow →
    flow.peerWindowSize = books.credit.streams stream ∧ 0 ≤ flow.peerWindowSize ∧
      flow.peerWindowSize ≤ maxWindowSize
  control : (books.ledger.peerControlWindowSize : Int) = books.credit.control ∧
    books.ledger.peerControlWindowSize ≤ maxWindowSize
  initial : books.ledger.initialPeerWindowSize ≤ maxWindowSize

theorem toInt_of_range {value : Int} (positive : 0 ≤ value) (small : value ≤ maxWindowSize) :
    toInt value = value := by
  simp only [toInt, maxWindowSize] at *
  omega

theorem and_fe (octet : UInt8) : (octet &&& 0xfe).toNat = octet.toNat / 2 * 2 := by
  have octets : ∀ value < 256, value &&& 254 = value / 2 * 2 := by decide +kernel
  rw [UInt8.toNat_and]
  exact octets octet.toNat (UInt8.toNat_lt octet)

/-- The increment the connection reads is at most the one the client wrote. -/
theorem le_writtenIncrement {winSize : Nat} {payload : List UInt8}
    (read : 4 ≤ payload.length → winSize = ntoh31 (payload.take 4) % 2 ^ 31) :
    winSize ≤ writtenIncrement winSize payload := by
  unfold writtenIncrement
  split
  · rename_i enough
    rw [read enough]
    match payload, enough with
    | first :: second :: third :: fourth :: rest, _ =>
        have masked := and_fe first
        have := second.toNat_lt
        have := third.toNat_lt
        have := fourth.toNat_lt
        simp only [List.take_succ_cons, List.take_zero, ntoh31, ntoh, List.foldl_cons,
          List.foldl_nil, masked]
        omega
  · exact le_rfl

/-- A window update of the server is no frame of the client. -/
theorem Credits.no_windowUpdate {async : Bool} {ledger : Ledger} {streamInd increment : Nat}
    {events : List Event} (credits : Credits async ledger streamInd increment events)
    (ind winSize : Nat) (payload : List UInt8) : .windowUpdate ind winSize payload ∉ events := by
  cases credits with
  | finished => simp
  | stream _ _ _ _ _ succeeds => cases succeeds <;> simp [Event.sending]
  | control _ succeeds => cases succeeds <;> simp [Event.sending]

theorem Happens.read_increment {async : Bool} {loose : Prop} {ledger : Ledger}
    {events : List Event} (happens : Happens async loose ledger events) {streamInd winSize : Nat} {payload : List UInt8}
    (member : .windowUpdate streamInd winSize payload ∈ events) :
    4 ≤ payload.length → winSize = ntoh31 (payload.take 4) % 2 ^ 31 := by
  have quiet (sender : Option StreamPtr) (succeeds : Bool) (frames : List SentFrame) :
      .windowUpdate streamInd winSize payload ∉ frames.map (Event.sending succeeds sender) := by
    cases succeeds <;> simp [Event.sending]
  cases happens with
  | windowUpdate streamInd winSize payload increment =>
      cases List.mem_singleton.mp member
      exact increment
  | control frames => exact absurd member (quiet none _ frames)
  | header stream => exact absurd member (quiet (some stream) _ _)
  | rstStream stream => exact absurd member (quiet (some stream) _ [_])
  | emptyContent stream => exact absurd member (quiet (some stream) _ [_])
  | exchange synchronous succeeds => cases succeeds <;> simp [Event.sending] at member
  | content stream window rest agrees listed succeeds =>
      cases succeeds <;> simp [Event.sending] at member
  | data ind length extra credits emptied returned =>
      simp only [List.mem_cons, reduceCtorEq, false_or, List.mem_append] at member
      rcases member with isExtra | isCredit
      · rcases emptied with rfl | ⟨-, credited⟩
        · cases isExtra
        · exact absurd isExtra (credited.no_windowUpdate _ _ _)
      · exact absurd isCredit (returned.no_windowUpdate _ _ _)
  | plain event plain =>
      cases List.mem_singleton.mp member
      exact plain.elim
  | headersEnd => split at member <;> simp at member
  | pushed => split at member <;> simp at member
  | _ => simp at member

theorem Books.Ranged.bounded {books : Books} (ranged : books.Ranged) : books.ledger.Bounded := by
  refine ⟨fun stream flow present => ?_, ?_⟩
  · have range := (ranged.streams stream flow present).2
    exact toInt_of_range range.1 range.2
  · have := ranged.control.2
    simp only [maxWindowSize] at this
    omega

theorem Books.Ranged.update {books : Books} (ranged : books.Ranged)
    (concerns : StreamPtr → Bool) {change : Flow → Flow}
    (same : ∀ flow, (change flow).peerWindowSize = flow.peerWindowSize) :
    Books.Ranged ⟨books.ledger.update concerns change, books.credit⟩ := by
  refine ⟨fun stream flow present => ?_, ranged.control, ranged.initial⟩
  simp only [Ledger.update] at present
  split at present
  · rcases Option.map_eq_some_iff.mp present with ⟨before, found, rfl⟩
    rw [same]
    exact ranged.streams stream before found
  · exact ranged.streams stream flow present

theorem Books.Ranged.sends {books : Books} (ranged : books.Ranged) (frame : SentFrame)
    (sender : Option StreamPtr) :
    Books.Ranged ⟨books.ledger.sends frame sender, books.credit⟩ := by
  cases sender with
  | none => exact ranged
  | some sender =>
      refine ranged.update _ fun flow => ?_
      unfold Flow.sends
      split_ifs <;> rfl

/-- A frame without data takes nothing. -/
theorem credit_of_free (increment : Nat → List UInt8 → Nat) (credit : Credit) {frame : SentFrame}
    (sender : Option StreamPtr) (free : frame.type ≠ FrameType.data ∨ frame.dataLength = 0) :
    credit.apply increment SentFrame.dataLength (.sent frame sender) = credit := by
  cases sender with
  | none => rfl
  | some sender =>
      simp only [Credit.apply]
      split
      · rename_i isData
        have empty := free.resolve_left (not_not.mpr isData)
        simp [empty]
      · rfl

theorem Books.Ranged.put {books : Books} (ranged : books.Ranged) (stream : StreamPtr)
    (flow : Option Flow) {credit : Credit} (control : credit.control = books.credit.control)
    (others : ∀ other, other ≠ stream → credit.streams other = books.credit.streams other)
    (fresh : ∀ present, flow = some present →
      present.peerWindowSize = credit.streams stream ∧ 0 ≤ present.peerWindowSize ∧
        present.peerWindowSize ≤ maxWindowSize) :
    Books.Ranged ⟨books.ledger.put stream flow, credit⟩ := by
  refine ⟨fun other present found => ?_, ⟨ranged.control.1.trans control.symm, ranged.control.2⟩,
    ranged.initial⟩
  simp only [Ledger.put] at found
  by_cases same : other = stream
  · subst same
    exact fresh present (by simpa using found)
  · rw [if_neg same] at found
    rw [others other same]
    exact ranged.streams other present found

/-- A window update leaves the windows in their range, if it pushes none too far. -/
theorem Books.Ranged.windowUpdate {books : Books} (ranged : books.Ranged)
    (streamInd winSize : Nat) (payload : List UInt8)
    (modest : ¬Overflows books.ledger (.windowUpdate streamInd winSize payload))
    (read : winSize ≤ writtenIncrement winSize payload) :
    (books.follow (.windowUpdate streamInd winSize payload)).Ranged := by
  have range := ranged.control
  simp only [Overflows] at modest
  simp only [Books.follow, Books.apply, Ledger.apply, Credit.apply]
  by_cases control : streamInd = 0
  · rw [if_pos control, Nat.not_lt] at modest
    rw [if_pos control, if_pos control]
    split_ifs with none_
    · exact ⟨ranged.streams, ⟨by simp [none_, range.1], range.2⟩, ranged.initial⟩
    · refine ⟨ranged.streams, ?_, ranged.initial⟩
      simp only [maxWindowSize] at *
      omega
  · rw [if_neg control] at modest
    rw [if_neg control, if_neg control]
    split_ifs with none_
    · refine ⟨fun stream flow present => ?_, range, ranged.initial⟩
      simpa [none_] using ranged.streams stream flow present
    · refine ⟨fun stream flow present => ?_, range, ranged.initial⟩
      simp only [Ledger.update, decide_eq_true_eq] at present
      dsimp only
      split_ifs at present ⊢ with concerned
      · rcases Option.map_eq_some_iff.mp present with ⟨before, found, rfl⟩
        have known := ranged.streams stream before found
        have fits : ¬maxWindowSize < before.peerWindowSize + writtenIncrement winSize payload :=
          fun pushed => modest ⟨stream, before, concerned, found, pushed⟩
        have unwrapped : toInt (before.peerWindowSize + winSize) =
            before.peerWindowSize + winSize := toInt_of_range (by omega) (by omega)
        simp only [Flow.grants, unwrapped]
        omega
      · exact ranged.streams stream flow present

/-- Everything but data leaves the windows in their range, if the client pushes
none too far. -/
theorem Books.Ranged.follow {books : Books} (ranged : books.Ranged) (event : Event)
    (modest : ¬Overflows books.ledger event)
    (created : ∀ stream peerWindowSize localWindowSize,
      event = .created stream peerWindowSize localWindowSize →
        peerWindowSize = books.ledger.initialPeerWindowSize)
    (read : ∀ streamInd winSize payload, event = .windowUpdate streamInd winSize payload →
      winSize ≤ writtenIncrement winSize payload)
    (free : ∀ frame sender, event = .sent frame sender →
      frame.type ≠ FrameType.data ∨ frame.dataLength = 0) : (books.follow event).Ranged := by
  cases event with
  | sent frame sender =>
      have quiet := free frame sender rfl
      have credit := credit_of_free (fun winSize _ => winSize) books.credit sender quiet
      have ledger : books.ledger.apply (.sent frame sender) = books.ledger.sends frame sender :=
        Ledger.apply_sending ranged.bounded true quiet
      unfold Books.follow Books.apply
      rw [credit, ledger]
      exact ranged.sends frame sender
  | unsent frame sender => exact ranged.sends frame sender
  | created stream peerWindowSize localWindowSize =>
      have small := ranged.initial
      rw [← created stream peerWindowSize localWindowSize rfl] at small
      have unwrapped : toInt peerWindowSize = peerWindowSize :=
        toInt_of_range (by omega) (by omega)
      refine ranged.put stream _ rfl (fun other differs => if_neg differs) fun present isNew => ?_
      cases isNew
      simp [Flow.new, Credit.apply, unwrapped, small]
  | promised stream => exact ranged.update _ fun _ => rfl
  | erased stream inUse => exact ranged.put stream none rfl (fun _ _ => rfl) (by simp)
  | reset stream inUse => exact ranged.put stream none rfl (fun _ _ => rfl) (by simp)
  | opened stream => exact ranged.update _ fun _ => rfl
  | ended stream => exact ranged.update _ fun _ => rfl
  | settings identifier value payload =>
      simp only [Overflows, not_and, Nat.not_lt] at modest
      simp only [Books.follow, Books.apply, Ledger.apply]
      split_ifs with isInitial isMaximum
      · exact ⟨ranged.streams, ranged.control, modest isInitial⟩
      · exact ⟨ranged.streams, ranged.control, ranged.initial⟩
      · exact ranged
  | windowUpdate streamInd winSize payload =>
      exact ranged.windowUpdate streamInd winSize payload modest
        (read streamInd winSize payload rfl)
  | data streamInd length =>
      have updated : Books.Ranged ⟨books.ledger.update (fun pointer =>
          pointer.streamInd = streamInd) (Flow.takes length), books.credit⟩ :=
        ranged.update _ fun _ => rfl
      exact ⟨updated.streams, updated.control, updated.initial⟩
  | credited stream increment =>
      cases stream with
      | none => exact ⟨ranged.streams, ranged.control, ranged.initial⟩
      | some stream => exact ranged.update _ fun _ => rfl
  | field header => exact ⟨ranged.streams, ranged.control, ranged.initial⟩
  | _ => exact ranged

/-- Data that fit both windows leave them in their range. -/
theorem Books.Ranged.content {books : Books} (ranged : books.Ranged) (stream : StreamPtr)
    (maxFrameSize : Nat) (window : Int) (rest : List UInt8)
    (agrees : ∀ flow, books.ledger.flows stream = some flow → flow.peerWindowSize = window)
    (fits : preSendLen maxFrameSize window rest.length ≤ books.ledger.peerControlWindowSize) :
    (books.follow (.sent (contentFrame maxFrameSize window stream.streamInd rest)
      (some stream))).Ranged := by
  have isData : (contentFrame maxFrameSize window stream.streamInd rest).type = FrameType.data :=
    (type_contentFrame maxFrameSize window stream.streamInd rest).1
  have within (flow : Flow) (present : books.ledger.flows stream = some flow) :
      preSendLen maxFrameSize window rest.length ≤ flow.peerWindowSize := by
    have range := ranged.streams stream flow present
    rw [agrees flow present] at range ⊢
    have least : preSendLen maxFrameSize window rest.length ≤ toUint window := min_le_right _ _
    simp only [toUint, maxWindowSize] at *
    omega
  have control := ranged.control
  unfold Books.follow Books.apply
  rw [apply_sent_contentFrame]
  simp only [Credit.apply, isData, if_true, dataLength_contentFrame]
  refine ⟨fun pointer flow present => ?_, ?_, ranged.initial⟩
  · simp only [Ledger.update, decide_eq_true_eq] at present
    dsimp only
    split_ifs at present ⊢ with same
    · subst same
      rcases Option.map_eq_some_iff.mp present with ⟨before, found, rfl⟩
      have known := ranged.streams pointer before found
      have enough := within before found
      have unwrapped : toInt (before.peerWindowSize -
          preSendLen maxFrameSize window rest.length) =
          before.peerWindowSize - preSendLen maxFrameSize window rest.length :=
        toInt_of_range (by omega) (by omega)
      simp only [unwrapped]
      omega
    · exact ranged.streams pointer flow present
  · simp only [toUint, maxWindowSize] at *
    omega

theorem dataLength_padding {padding : Nat} (few : padding ≤ dataPaddingLen) (streamInd : Nat) :
    (frameOf FrameType.data (Flag.endStream ||| Flag.padded) streamInd
      (UInt8.ofNat padding :: List.replicate padding 0)).dataLength = 0 := by
  have padded : hasFlag (Flag.endStream ||| Flag.padded) Flag.padded = true := by decide
  have small : (UInt8.ofNat padding).toNat = padding := by
    simp only [dataPaddingLen] at few
    simp only [UInt8.toNat_ofNat']
    omega
  simp [SentFrame.dataLength, frameOf, padded, small]

theorem ranged_chunk {async : Bool} {loose : Prop} {books : Books} {events : List Event}
    (ranged : books.Ranged) (happens : Happens async loose books.ledger events)
    (modest : Throughout Books.follow Modest books events) :
    (events.foldl Books.follow books).Ranged := by
  rcases happens.creates with ⟨stream, rest, -, -, rfl, ends⟩ | uncreated
  · have created := ranged.follow (.created stream books.ledger.initialPeerWindowSize
      books.ledger.initialLocalWindowSize) (fun overflows => overflows.elim) (fun _ _ _ same => by cases same; rfl)
      (fun _ _ _ same => by cases same) (fun _ _ same => by cases same)
    rcases ends with rfl | rfl
    · exact created
    · exact created.follow (.promised stream) (fun overflows => overflows.elim)
        (fun _ _ _ same => by cases same) (fun _ _ _ same => by cases same)
        (fun _ _ same => by cases same)
  · have follows (free : ∀ frame sender, .sent frame sender ∈ events →
        frame.type ≠ FrameType.data ∨ frame.dataLength = 0) :
        (events.foldl Books.follow books).Ranged := by
      refine modest.invariant ranged fun books ranged event member met => ?_
      refine ranged.follow event met.1 ?_ ?_ ?_
      · rintro stream peerWindowSize localWindowSize rfl
        exact absurd member (uncreated stream peerWindowSize localWindowSize)
      · rintro streamInd winSize payload rfl
        exact le_writtenIncrement (happens.read_increment member)
      · rintro frame sender rfl
        exact free frame sender member
    rcases happens.sent_data with ⟨stream, window, rest, succeeds, agrees, rfl⟩ |
      ⟨stream, padding, succeeds, some_, fills, rfl⟩ | others
    · cases succeeds with
      | false => exact follows (by simp [Event.sending])
      | true =>
          exact ranged.content stream _ window rest agrees (throughout_cons.mp modest).1.2
    · refine follows fun frame sender member => .inr ?_
      rw [(Event.sent_eq_sending (List.mem_singleton.mp member)).1]
      exact dataLength_padding (by omega) stream.streamInd
    · refine follows fun frame sender member => ?_
      by_cases isData : frame.type = FrameType.data
      · rcases others frame sender member isData with ⟨stream, -, unset, empty⟩
        refine .inr ?_
        simp [SentFrame.dataLength, empty]
      · exact .inl isData

/-- As long as the client pushes no window too far and data fit the window of the
connection, the windows do not wrap. -/
theorem windowsSound_of_modest {env : Env X} {machine : Machine (Turn X) Int}
    (reachable : Reachable env machine)
    (modest : Throughout Books.follow Modest .start machine.state.conn.trace) :
    WindowsSound machine.state.conn := by
  have starts : Books.ledger Books.start = Ledger.start := rfl
  have initially : Books.Ranged .start := by
    refine ⟨fun stream flow present => ?_, ⟨rfl, by decide⟩, by decide⟩
    cases present
  have told := reachable.run.told
  have ranged := told.1.invariant starts (fun _ _ => rfl) initially
    (fun books events _ ranged happens met => ranged_chunk ranged happens met) modest
  have same : (machine.state.conn.trace.foldl Books.follow .start).ledger =
      machine.state.conn.ledger :=
    (ledger_foldl starts (fun _ _ => rfl) _).trans told.2.symm
  refine ⟨fun pointer stream listed => ?_, ?_, ?_⟩
  · have known := ranged.streams pointer stream.flow
      (by rw [same, flows_ledger, listed]; rfl)
    exact ⟨known.1, by have := known.2.1; simp only [Http2Stream.flow] at this; omega, known.2.2⟩
  · have known := ranged.control
    rw [same] at known
    exact known
  · intro before event after split overflows
    rw [split] at modest
    have now := modest.at.1
    rw [ledger_foldl starts (fun _ _ => rfl)] at now
    exact absurd overflows now

theorem windowsSound_of_modest_short :
    WindowsSound
      (afterFrames (plainEnv true [1, 2, 3]) true [some (getRequest 1)]).state.conn := by
  have modest : Throughout Books.follow Modest .start
      (afterFrames (plainEnv true [1, 2, 3]) true [some (getRequest 1)]).state.conn.trace := by
    rw [trace_short]
    simp only [throughout_cons, throughout_nil, Modest, Overflows, not_false_eq_true, and_true,
      true_and]
    decide +kernel
  have sound := windowsSound_of_modest
    (reachable_afterFrames (plainEnv true [1, 2, 3]) true [some (getRequest 1)] (.inl rfl))
  exact sound modest

/-- An initial window of all ones. -/
theorem trace_allOnes :
    (afterFrames (plainEnv true []) true
      [some (⟨6, FrameType.settings, Flag.unset, 0⟩, [0, 4, 255, 255, 255, 255])]).state.conn.trace =
      [.sent ⟨6, 4, 0, 0, [0, 3, 0, 0, 0, 101]⟩ none,
        .sent ⟨6, 4, 0, 0, [0, 4, 127, 255, 255, 255]⟩ none,
        .received ⟨6, 4, 0, 0⟩ [0, 4, 255, 255, 255, 255],
        .settings 4 4294967295 [0, 4, 255, 255, 255, 255],
        .sent ⟨0, 4, 1, 0, []⟩ none, .returned 6] := by
  decide +kernel

/-- It is applied, and not reported. -/
theorem not_windowsSound_allOnes :
    ¬WindowsSound
      (afterFrames (plainEnv true []) true
        [some (⟨6, FrameType.settings, Flag.unset, 0⟩,
          [0, 4, 255, 255, 255, 255])]).state.conn := by
  intro sound
  have pushed : Overflows Ledger.start (.settings 4 4294967295 [0, 4, 255, 255, 255, 255]) :=
    ⟨rfl, by decide⟩
  rcases sound.reported [.sent ⟨6, 4, 0, 0, [0, 3, 0, 0, 0, 101]⟩ none,
      .sent ⟨6, 4, 0, 0, [0, 4, 127, 255, 255, 255]⟩ none,
      .received ⟨6, 4, 0, 0⟩ [0, 4, 255, 255, 255, 255]] _ _ trace_allOnes pushed with
    ⟨-, reply, isReply, isError⟩
  simp only [List.mem_cons, List.not_mem_nil, or_false] at isReply
  rcases isReply with rfl | rfl
  · exact absurd isError.1 (by decide)
  · exact isError

end Range

end Http2

end HeapHttpd
