import HeapHttpd.Http2.Admission
import HeapHttpd.Hpack.ParseCorrect

/-!
# Payloads

What `ProtParse` reads of the payload of a frame: the fixed fields of its type,
without a look at the length, and a header block fragment or the data of a body
behind them.
-/

namespace HeapHttpd

namespace Http2

open General Hpack Http1

variable {X : Type}

/-- The octets the fixed fields of a frame take. -/
def HTTP2Frame.fixedLength (frame : HTTP2Frame) : Nat :=
  let padLength := if hasFlag frame.flags Flag.padded then 1 else 0
  if frame.type = FrameType.data then padLength
  else if frame.type = FrameType.headers then
    padLength + if hasFlag frame.flags Flag.priority then 5 else 0
  else if frame.type = FrameType.priority then 5
  else if frame.type = FrameType.rstStream then 4
  else if frame.type = FrameType.settings then
    if hasFlag frame.flags Flag.settingAck ∨ frame.length = 0 then 0 else 6
  else if frame.type = FrameType.pushPromise then padLength + 4
  else if frame.type = FrameType.ping then 8
  else if frame.type = FrameType.goaway then 8
  else if frame.type = FrameType.windowUpdate then 4
  else 0

/-- The length of the padding a frame announces. -/
def HTTP2Frame.paddingLen (frame : HTTP2Frame) (payload : List UInt8) : Nat :=
  if (frame.type = FrameType.data ∨ frame.type = FrameType.headers ∨
      frame.type = FrameType.pushPromise) ∧ hasFlag frame.flags Flag.padded then
    (payload.headD 0).toNat
  else 0

/-- The payload has no room for the fixed fields and the padding. -/
def HTTP2Frame.TooShort (frame : HTTP2Frame) (payload : List UInt8) : Prop :=
  payload.length < frame.fixedLength + frame.paddingLen payload

/-- A frame is refused, or answered by nothing but a `GOAWAY` frame. -/
def Rejects (env : Env X) (conn : Conn X) (frame : HTTP2Frame) (conn' : Conn X) (next : Next) :
    Prop :=
  next = .report (-1) ∨
    (frame.streamInd = 0 ∧ conn' = conn.sendGoaway env 0 ErrorCode.protocolError)

/-- A part of `ProtParse` that a connection has come to reads the payload only,
and rejects a frame that is too short. -/
def Inside (env : Env X) (conn : Conn X) (frame : HTTP2Frame) (payload : List UInt8)
    (part : Outcome (Conn X × Next)) : Prop :=
  ∃ conn' next, part = .ok (conn', next) ∧
    (frame.TooShort payload → Rejects env conn frame conn' next)

/-- What `ProtParse` does with a frame when there is nothing behind its payload.
Behind its front part `ProtParse` has no use for the payload. -/
def ReadsInside (env : Env X) (turn : Turn X) (frame : HTTP2Frame) (payload : List UInt8) :
    Prop :=
  Inside env (turn.received frame payload) frame payload
    ((turn.received frame payload).front env frame payload)

/-- The loop over the list in front of a fragment meets no null entry. -/
def Conn.PrioritySound (conn : Conn X) (frame : HTTP2Frame) (payload : List UInt8) : Prop :=
  hasFlag frame.flags Flag.priority → conn.nullEntry → ∀ depInd weight,
    readPriority payload (if hasFlag frame.flags Flag.padded then 1 else 0) =
      .ok (depInd, true, weight) → depInd = 0

/-- The octets of a `HEADERS` frame lie in its payload. -/
def Conn.HeadersFit (conn : Conn X) (frame : HTTP2Frame) (payload : List UInt8) : Prop :=
  ¬frame.TooShort payload ∧
    (0 < frame.streamInd →
      conn.PrioritySound frame payload ∧
        ParsesInside (payload.drop frame.fixedLength)
          (payload.length - frame.fixedLength - frame.paddingLen payload))

/-- The octets of a `DATA` frame lie in its payload. -/
def Conn.DataFit (conn : Conn X) (frame : HTTP2Frame) (payload : List UInt8) : Prop :=
  ∀ stream, conn.getStreamInstance frame.streamInd = some stream →
    stream.streamState = .open → hasFlag frame.flags Flag.padded →
    ¬frame.TooShort payload ∧
      (0 < frame.paddingLen payload ∨
        stream.http1.contentType = .applicationXWwwFormUrlencoded ∧
          maxApplicationXWwwFormUrlencodedLen < stream.http1.postdata.length)

/-- What `ProtParse` reads of an admitted frame lies in its payload. -/
def Conn.Fits (conn : Conn X) (frame : HTTP2Frame) (payload : List UInt8) : Prop :=
  if frame.type = FrameType.goaway then ¬frame.TooShort payload
  else if frame.type = FrameType.priority then frame.streamInd = 0 ∨ ¬frame.TooShort payload
  else if frame.type = FrameType.headers then conn.HeadersFit frame payload
  else if frame.type = FrameType.continuation then
    0 < frame.streamInd → ParsesInside payload payload.length
  else if frame.type = FrameType.pushPromise then True
  else if frame.type = FrameType.settings then
    hasFlag frame.flags Flag.settingAck ∨ 6 ≤ payload.length
  else if frame.type = FrameType.data then conn.DataFit frame payload
  else if frame.type = FrameType.rstStream then frame.streamInd = 0 ∨ ¬frame.TooShort payload
  else ¬frame.TooShort payload

section Arms

variable {env : Env X} {start conn : Conn X} {frame : HTTP2Frame} {payload : List UInt8}

theorem not_inside_fault : ¬Inside env start frame payload .fault := by
  rintro ⟨_, _, impossible, _⟩
  cases impossible

theorem inside_refuse (streamInd errorCode : Nat) :
    Inside env start frame payload (conn.refuse env streamInd errorCode) :=
  ⟨_, _, rfl, fun _ => .inl rfl⟩

/-- A part that succeeds, on a frame that is not too short. -/
theorem inside_ok {conn' : Conn X} {next : Next} (enough : ¬frame.TooShort payload) :
    Inside env start frame payload (.ok (conn', next)) :=
  ⟨conn', next, rfl, fun short => (enough short).elim⟩

/-- A frame that goes on to the rest of `ProtParse` is not rejected. -/
theorem inside_taken_iff {conn' : Conn X} {next : Next} (goesOn : next ≠ .report (-1))
    (kept : frame.streamInd = 0 → conn' = start) :
    Inside env start frame payload (.ok (conn', next)) ↔ ¬frame.TooShort payload := by
  refine ⟨?_, inside_ok⟩
  rintro ⟨_, _, same, rejects⟩ short
  cases same
  rcases rejects short with refused | ⟨whole, answered⟩
  · exact goesOn refused
  · rw [kept whole] at answered
    have traces := congrArg (fun conn => conn.trace.length) answered
    simp [Conn.sendGoaway, httpSend_fst] at traces

theorem report_ne (length : Nat) : Next.report length ≠ .report (-1) := by
  intro same
  cases same

theorem readOctets_ok {offset len : Nat} (enough : offset + len ≤ payload.length) :
    readOctets payload offset len = .ok ((payload.drop offset).take len) :=
  if_pos enough

theorem readOctets_fault {offset len : Nat} (short : payload.length < offset + len) :
    readOctets payload offset len = .fault :=
  if_neg (by omega)

variable (env start) in
/-- A part that begins with the fixed fields of its frame. -/
theorem inside_read_iff {len : Nat} {rest : List UInt8 → Outcome (Conn X × Next)}
    (fields : frame.TooShort payload ↔ payload.length < len)
    (ends : ∀ octets, ∃ conn' next, rest octets = .ok (conn', next)) :
    Inside env start frame payload (readOctets payload 0 len >>= rest) ↔
      ¬frame.TooShort payload := by
  rcases Nat.lt_or_ge payload.length len with short | enough
  · rw [readOctets_fault (by omega), Outcome.fault_bind]
    exact iff_of_false not_inside_fault (not_not.mpr (fields.mpr short))
  · have whole : ¬frame.TooShort payload := fun short => by
      have := fields.mp short
      omega
    rcases ends (payload.take len) with ⟨conn', next, done⟩
    rw [readOctets_ok (by omega), Outcome.ok_bind, List.drop_zero, done]
    exact iff_of_true (inside_ok whole) whole

theorem inside_priorityArm_iff (isPriority : frame.type = FrameType.priority) :
    Inside env start frame payload (conn.priorityArm env frame payload) ↔
      frame.streamInd = 0 ∨ ¬frame.TooShort payload := by
  have fields : frame.TooShort payload ↔ payload.length < 5 := by
    simp [HTTP2Frame.TooShort, HTTP2Frame.fixedLength, HTTP2Frame.paddingLen, isPriority,
      FrameType.data, FrameType.headers, FrameType.priority, FrameType.pushPromise]
  unfold Conn.priorityArm
  split
  · rename_i whole
    exact iff_of_true (inside_refuse _ _) (.inl whole)
  · rename_i positive
    have read := inside_read_iff env start fields fun octets =>
      ⟨conn.setPriority frame.streamInd (ntoh31 (octets.take 4) % 2 ^ 31)
        (octets.getD 4 0).toNat (octets.headD 0 &&& 1 == 1), .report frame.length, rfl⟩
    rw [or_iff_right positive, ← read]
    rcases Nat.lt_or_ge payload.length 5 with short | enough
    · simp [readPriority, readOctets_fault (show payload.length < 0 + 5 by omega)]
    · simp [readPriority, readOctets_ok (show 0 + 5 ≤ payload.length by omega)]

theorem inside_windowUpdateArm_iff (isWindowUpdate : frame.type = FrameType.windowUpdate) :
    Inside env start frame payload (conn.windowUpdateArm env frame payload) ↔
      ¬frame.TooShort payload := by
  have fields : frame.TooShort payload ↔ payload.length < 4 := by
    simp [HTTP2Frame.TooShort, HTTP2Frame.fixedLength, HTTP2Frame.paddingLen, isWindowUpdate,
      FrameType.data, FrameType.headers, FrameType.priority, FrameType.rstStream,
      FrameType.settings, FrameType.pushPromise, FrameType.ping, FrameType.goaway,
      FrameType.windowUpdate]
  refine inside_read_iff env start fields fun octets => ?_
  dsimp only
  split
  · exact ⟨_, _, rfl⟩
  · exact ⟨_, _, rfl⟩

theorem inside_rstStreamArm_iff (isRst : frame.type = FrameType.rstStream)
    (kept : frame.streamInd = 0 → conn = start)
    (used : 0 < frame.streamInd → ∃ stream,
      conn.getStreamInstance frame.streamInd = some stream ∧ stream.streamState ≠ .idle) :
    Inside env start frame payload (conn.rstStreamArm env frame payload) ↔
      frame.streamInd = 0 ∨ ¬frame.TooShort payload := by
  have fields : frame.TooShort payload ↔ payload.length < 4 := by
    simp [HTTP2Frame.TooShort, HTTP2Frame.fixedLength, HTTP2Frame.paddingLen, isRst,
      FrameType.data, FrameType.headers, FrameType.priority, FrameType.rstStream,
      FrameType.pushPromise]
  unfold Conn.rstStreamArm
  rcases Nat.eq_zero_or_pos frame.streamInd with whole | positive
  · refine iff_of_true ?_ (.inl whole)
    rw [whole, getStreamInstance_zero]
    exact ⟨_, _, rfl, fun _ => .inr ⟨whole, by rw [kept whole]⟩⟩
  · rcases used positive with ⟨stream, found, notIdle⟩
    rw [or_iff_right (Nat.ne_of_gt positive), found]
    simp only [notIdle, if_false]
    refine inside_read_iff env start fields fun octets => ?_
    split
    · exact ⟨_, _, rfl⟩
    · exact ⟨_, _, rfl⟩

theorem inside_pingArm_iff (isPing : frame.type = FrameType.ping)
    (kept : frame.streamInd = 0 → conn = start) :
    Inside env start frame payload (conn.pingArm env frame payload) ↔
      ¬frame.TooShort payload := by
  have fields : frame.TooShort payload ↔ payload.length < 8 := by
    simp [HTTP2Frame.TooShort, HTTP2Frame.fixedLength, HTTP2Frame.paddingLen, isPing,
      FrameType.data, FrameType.headers, FrameType.priority, FrameType.rstStream,
      FrameType.settings, FrameType.pushPromise, FrameType.ping]
  unfold Conn.pingArm
  split
  · exact inside_taken_iff (report_ne frame.length) kept
  · exact inside_read_iff env start fields fun octets => ⟨_, _, rfl⟩

theorem inside_settingsArm_iff (isSettings : frame.type = FrameType.settings)
    (length : frame.length = payload.length) :
    Inside env start frame payload (conn.settingsArm env frame payload) ↔
      hasFlag frame.flags Flag.settingAck ∨ 6 ≤ payload.length := by
  have fields : frame.TooShort payload ↔
      ¬hasFlag frame.flags Flag.settingAck ∧ 0 < payload.length ∧ payload.length < 6 := by
    simp only [HTTP2Frame.TooShort, HTTP2Frame.fixedLength, HTTP2Frame.paddingLen, isSettings,
      length, FrameType.data, FrameType.headers, FrameType.priority, FrameType.rstStream,
      FrameType.settings, FrameType.pushPromise]
    by_cases ack : hasFlag frame.flags Flag.settingAck <;> by_cases empty : payload.length = 0 <;>
      simp [ack, empty]
    omega
  unfold Conn.settingsArm
  split
  · rename_i ack
    exact iff_of_true (inside_ok fun short => (fields.mp short).1 ack) (.inl ack)
  · rename_i goesOn
    rw [or_iff_right goesOn]
    rcases Nat.lt_or_ge payload.length 6 with short | enough
    · rw [readOctets_fault (by omega), Outcome.fault_bind]
      exact iff_of_false not_inside_fault (by omega)
    · rw [readOctets_ok (by omega), Outcome.ok_bind]
      refine iff_of_true (inside_ok fun short => ?_) enough
      have := (fields.mp short).2.2
      omega

variable (conn) in
theorem hpackParse_ok (stream : StreamPtr) {fragment : List UInt8} {len : Int}
    {parsed : Parsed} (run : parse fragment len.toNat = .ok parsed) :
    ∃ conn', conn.hpackParse stream fragment len = .ok (conn', parsed.code) :=
  ⟨_, by rw [Conn.hpackParse, run]; rfl⟩

theorem hpackParse_not_ok {stream : StreamPtr} {fragment : List UInt8} {len : Int}
    (stuck : ¬∃ parsed, parse fragment len.toNat = .ok parsed) (result : Conn X × Int) :
    conn.hpackParse stream fragment len ≠ .ok result := by
  intro done
  rcases Outcome.bind_eq_ok.mp done with ⟨parsed, run, _⟩
  exact stuck ⟨parsed, run⟩

theorem inside_parseFragment_iff (stream : StreamPtr) {fragment : List UInt8} {len : Int}
    (fits : fragment.length < 2 ^ 31) (enough : ¬frame.TooShort payload) :
    Inside env start frame payload (conn.parseFragment env stream fragment len) ↔
      ParsesInside fragment len.toNat := by
  rw [← parse_defined_iff fits]
  constructor
  · rintro ⟨conn', next, done, _⟩
    by_contra stuck
    rcases Outcome.bind_eq_ok.mp done with ⟨result, parsed, _⟩
    exact hpackParse_not_ok stuck result parsed
  · rintro ⟨parsed, run⟩
    rcases hpackParse_ok conn stream run with ⟨conn', done⟩
    rw [Conn.parseFragment, done, Outcome.ok_bind]
    dsimp only
    split
    · exact inside_refuse _ _
    · exact inside_ok enough

/-- A fragment of no octets is parsed, whatever its frame says. -/
theorem inside_parseFragment_nil (stream : StreamPtr) (fragment : List UInt8) {len : Int}
    (positive : 0 < frame.streamInd) (nothing : len ≤ 0) :
    Inside env start frame payload (conn.parseFragment env stream fragment len) ↔
      ¬frame.TooShort payload := by
  have run : parse fragment len.toNat = .ok ⟨0, []⟩ := by
    rw [Int.toNat_of_nonpos nothing]
    rfl
  rcases hpackParse_ok conn stream run with ⟨conn', done⟩
  rw [Conn.parseFragment, done, Outcome.ok_bind]
  exact inside_taken_iff (by simp) fun whole => by omega

theorem inside_continuationArm_iff (length : frame.length = payload.length)
    (fits : payload.length < 2 ^ 24) (isContinuation : frame.type = FrameType.continuation)
    (present : 0 < frame.streamInd → (conn.pointer frame.streamInd).isSome) :
    Inside env start frame payload (conn.continuationArm env frame payload) ↔
      (0 < frame.streamInd → ParsesInside payload payload.length) := by
  have enough : ¬frame.TooShort payload := by
    simp [HTTP2Frame.TooShort, HTTP2Frame.fixedLength, HTTP2Frame.paddingLen, isContinuation,
      FrameType.data, FrameType.headers, FrameType.priority, FrameType.rstStream,
      FrameType.settings, FrameType.pushPromise, FrameType.ping, FrameType.goaway,
      FrameType.windowUpdate, FrameType.continuation]
  unfold Conn.continuationArm
  rcases Nat.eq_zero_or_pos frame.streamInd with whole | positive
  · have missing : conn.pointer frame.streamInd = none := by simp [Conn.pointer, whole]
    rw [missing]
    exact iff_of_true (inside_refuse _ _) fun positive => by omega
  · rcases Option.isSome_iff_exists.mp (present positive) with ⟨stream, found⟩
    rw [found]
    dsimp only
    rw [inside_parseFragment_iff stream (by omega) enough, length, Int.toNat_natCast]
    exact ⟨fun parses _ => parses, fun parses => parses positive⟩

/-- The pad length in front of a fragment. -/
theorem readPadLength_eq (isHeaders : frame.type = FrameType.headers) :
    readPadLength frame payload =
      if hasFlag frame.flags Flag.padded ∧ payload = [] then .fault
      else .ok (frame.paddingLen payload, if hasFlag frame.flags Flag.padded then 1 else 0) := by
  unfold readPadLength HTTP2Frame.paddingLen
  by_cases padded : hasFlag frame.flags Flag.padded
  · cases payload with
    | nil => simp [padded, readOctets]
    | cons octet rest => simp [padded, readOctets, isHeaders]
  · simp [padded]

theorem fixedLength_headers (isHeaders : frame.type = FrameType.headers) :
    frame.fixedLength =
      (if hasFlag frame.flags Flag.padded then 1 else 0) +
        if hasFlag frame.flags Flag.priority then 5 else 0 := by
  simp [HTTP2Frame.fixedLength, isHeaders, FrameType.headers, FrameType.data]

theorem headersPriority_ok (isHeaders : frame.type = FrameType.headers)
    (enough : frame.fixedLength ≤ payload.length)
    (sound : 0 < frame.streamInd → conn.PrioritySound frame payload) :
    ∃ conn',
      conn.headersPriority frame payload (if hasFlag frame.flags Flag.padded then 1 else 0) =
        .ok (conn', frame.fixedLength) ∧
      conn'.pointer frame.streamInd = conn.pointer frame.streamInd ∧
      (frame.streamInd = 0 → conn' = conn) := by
  have fixed := fixedLength_headers isHeaders
  unfold Conn.headersPriority
  by_cases priority : hasFlag frame.flags Flag.priority
  · rw [if_pos priority] at fixed ⊢
    rw [fixed] at enough ⊢
    unfold Conn.PrioritySound at sound
    unfold readPriority at sound ⊢
    rw [readOctets_ok enough] at sound ⊢
    simp only [Outcome.ok_bind, Outcome.ok.injEq, Prod.mk.injEq] at sound ⊢
    by_cases present : (conn.getStreamInstance frame.streamInd).isSome
    · rcases Option.isSome_iff_exists.mp present with ⟨stream, found⟩
      have positive := (getStreamInstance_eq_some.mp found).1
      rw [if_pos present, if_neg]
      · exact ⟨_, rfl, pointer_setPriority conn _ _ _ _ _, fun whole => by omega⟩
      · rintro ⟨exclusive, dependent, nullEntry⟩
        exact dependent (sound positive priority nullEntry _ _ ⟨rfl, exclusive, rfl⟩)
    · rw [if_neg present]
      exact ⟨conn, rfl, rfl, fun _ => rfl⟩
  · rw [if_neg priority] at fixed ⊢
    exact ⟨conn, by rw [fixed, Nat.add_zero], rfl, fun _ => rfl⟩

theorem headersPriority_short (isHeaders : frame.type = FrameType.headers)
    (some_ : (if hasFlag frame.flags Flag.padded then 1 else 0) ≤ payload.length)
    (short : payload.length < frame.fixedLength) :
    conn.headersPriority frame payload (if hasFlag frame.flags Flag.padded then 1 else 0) =
      .fault := by
  have fixed := fixedLength_headers isHeaders
  unfold Conn.headersPriority
  by_cases priority : hasFlag frame.flags Flag.priority
  · rw [if_pos priority] at fixed ⊢
    rw [readPriority, readOctets_fault (by omega)]
    rfl
  · rw [if_neg priority] at fixed
    omega

theorem headersPriority_unsound (unsound : ¬conn.PrioritySound frame payload)
    (present : (conn.getStreamInstance frame.streamInd).isSome) :
    conn.headersPriority frame payload (if hasFlag frame.flags Flag.padded then 1 else 0) =
      .fault := by
  simp only [Conn.PrioritySound, not_forall] at unsound
  rcases unsound with ⟨priority, nullEntry, depInd, weight, read, dependent⟩
  rw [Conn.headersPriority, if_pos priority, read, Outcome.ok_bind]
  dsimp only
  rw [if_pos present, if_pos ⟨rfl, dependent, nullEntry⟩]

theorem renewStream_of_open
    (open_ : 0 < frame.streamInd → ∃ stream,
      conn.getStreamInstance frame.streamInd = some stream ∧ stream.streamState ≠ .closed) :
    conn.renewStream env frame.streamInd = conn := by
  unfold Conn.renewStream
  rcases Nat.eq_zero_or_pos frame.streamInd with whole | positive
  · simp [whole]
  · rcases open_ positive with ⟨stream, found, notClosed⟩
    simp [found, notClosed]

theorem inside_headersArm_iff (isHeaders : frame.type = FrameType.headers)
    (length : frame.length = payload.length) (fits : payload.length < 2 ^ 24)
    (kept : frame.streamInd = 0 → conn = start)
    (open_ : 0 < frame.streamInd → ∃ stream,
      conn.getStreamInstance frame.streamInd = some stream ∧ stream.streamState ≠ .closed) :
    Inside env start frame payload (conn.headersArm env frame payload) ↔
      conn.HeadersFit frame payload := by
  have fixed := fixedLength_headers isHeaders
  have padding : frame.paddingLen payload < 2 ^ 8 := by
    unfold HTTP2Frame.paddingLen
    split
    · exact UInt8.toNat_lt _
    · decide
  have short_iff : frame.TooShort payload ↔
      payload.length < frame.fixedLength + frame.paddingLen payload := Iff.rfl
  unfold Conn.headersArm
  rw [renewStream_of_open open_, readPadLength_eq isHeaders]
  dsimp only
  by_cases empty : hasFlag frame.flags Flag.padded ∧ payload = []
  · rw [if_pos empty, Outcome.fault_bind]
    refine iff_of_false not_inside_fault fun fit => fit.1 (short_iff.mpr ?_)
    rw [empty.2, fixed, if_pos empty.1, List.length_nil]
    omega
  rw [if_neg empty, Outcome.ok_bind]
  dsimp only
  rcases Nat.lt_or_ge payload.length frame.fixedLength with short | enough
  · rw [headersPriority_short isHeaders ?_ short, Outcome.fault_bind]
    · exact iff_of_false not_inside_fault fun fit => fit.1 (short_iff.mpr (by omega))
    · split
      · rename_i padded
        have present : payload ≠ [] := fun nothing => empty ⟨padded, nothing⟩
        have := List.length_pos_iff.mpr present
        omega
      · omega
  by_cases sound : 0 < frame.streamInd → conn.PrioritySound frame payload
  · rcases headersPriority_ok isHeaders enough sound with ⟨conn', done, pointers, same⟩
    rw [done, Outcome.ok_bind]
    dsimp only
    rw [pointers, length]
    rcases Nat.eq_zero_or_pos frame.streamInd with whole | positive
    · have missing : conn.pointer frame.streamInd = none := by simp [Conn.pointer, whole]
      rw [missing]
      dsimp only
      rw [inside_taken_iff (report_ne _) fun _ => (same whole).trans (kept whole)]
      exact ⟨fun enough => ⟨enough, fun positive => by omega⟩, fun fit => fit.1⟩
    · rcases open_ positive with ⟨stream, found, -⟩
      have pointed : conn.pointer frame.streamInd = some ⟨frame.streamInd, stream.object⟩ := by
        rw [Conn.pointer, found]
        rfl
      rw [pointed]
      dsimp only
      by_cases tooShort : frame.TooShort payload
      · rw [inside_parseFragment_nil _ _ positive]
        · exact iff_of_false (not_not.mpr tooShort) fun fit => fit.1 tooShort
        · have := short_iff.mp tooShort
          unfold toInt
          omega
      · have room := Nat.le_of_not_lt (mt short_iff.mpr tooShort)
        have fragmentLen : (toInt (payload.length - frame.fixedLength -
            frame.paddingLen payload)).toNat =
              payload.length - frame.fixedLength - frame.paddingLen payload := by
          unfold toInt
          omega
        rw [inside_parseFragment_iff _ (by rw [List.length_drop]; omega) tooShort, fragmentLen]
        exact ⟨fun parses => ⟨tooShort, fun _ => ⟨sound positive, parses⟩⟩,
          fun fit => (fit.2 positive).2⟩
  · rcases Classical.not_imp.mp sound with ⟨positive, unsound⟩
    rcases open_ positive with ⟨stream, found, -⟩
    rw [headersPriority_unsound unsound (by simp [found]), Outcome.fault_bind]
    exact iff_of_false not_inside_fault fun fit => unsound (fit.2 positive).1

variable (payload) in
theorem fields_data (isData : frame.type = FrameType.data)
    (padded : hasFlag frame.flags Flag.padded) :
    frame.TooShort payload ↔ payload.length < 1 + (payload.headD 0).toNat := by
  simp [HTTP2Frame.TooShort, HTTP2Frame.fixedLength, HTTP2Frame.paddingLen, isData, padded]

theorem paddingLen_data (isData : frame.type = FrameType.data)
    (padded : hasFlag frame.flags Flag.padded) :
    frame.paddingLen payload = (payload.headD 0).toNat := by
  simp [HTTP2Frame.paddingLen, isData, padded]

theorem inside_pushPostData_iff {pushed : Http2Stream X} (isData : frame.type = FrameType.data)
    (length : frame.length = payload.length) (positive : 0 < frame.streamInd) :
    Inside env start frame payload (do
        let (offset, len) ← postDataBounds frame payload
        let buf ← readPostData pushed.http1 payload offset len
        .ok (conn.pushPostData ⟨frame.streamInd, pushed.object⟩ pushed.http1 buf)) ↔
      (hasFlag frame.flags Flag.padded → ¬frame.TooShort payload ∧
        (0 < frame.paddingLen payload ∨
          pushed.http1.contentType = .applicationXWwwFormUrlencoded ∧
            maxApplicationXWwwFormUrlencodedLen < pushed.http1.postdata.length)) := by
  have taken (buf : List UInt8) :
      Inside env start frame payload
          (.ok (conn.pushPostData ⟨frame.streamInd, pushed.object⟩ pushed.http1 buf)) ↔
        ¬frame.TooShort payload :=
    inside_taken_iff (by simp) fun whole => by omega
  unfold postDataBounds
  by_cases padded : hasFlag frame.flags Flag.padded
  · have short := fields_data payload isData padded
    rw [if_pos padded, paddingLen_data isData padded]
    cases payload with
    | nil =>
        rw [readOctets_fault (by simp), Outcome.fault_bind]
        refine iff_of_false not_inside_fault fun fit => (fit padded).1 (short.mpr ?_)
        simp
    | cons octet rest =>
        rw [readOctets_ok (by simp), Outcome.ok_bind, Outcome.ok_bind]
        unfold readPostData
        simp only [List.drop_zero, List.take_succ_cons, List.take_zero, List.headD_cons,
          List.length_cons] at short length ⊢
        split
        · rename_i full
          rw [Outcome.ok_bind, taken]
          exact ⟨fun enough _ => ⟨enough, .inr full⟩, fun fit => (fit padded).1⟩
        · rename_i room
          split
          · rename_i negative
            rw [Outcome.fault_bind]
            refine iff_of_false not_inside_fault fun fit => (fit padded).1 (short.mpr ?_)
            omega
          · rename_i notNegative
            rcases Nat.eq_zero_or_pos octet.toNat with none_ | some_
            · rw [readOctets_fault (by rw [none_, List.length_cons]; omega), Outcome.fault_bind]
              refine iff_of_false not_inside_fault fun fit => ?_
              exact (fit padded).2.elim (fun some_ => by omega) room
            · rw [readOctets_ok (by rw [List.length_cons]; omega), Outcome.ok_bind, taken]
              exact ⟨fun enough _ => ⟨enough, .inl some_⟩, fun fit => (fit padded).1⟩
  · have whole : ¬frame.TooShort payload := by
      simp [HTTP2Frame.TooShort, HTTP2Frame.fixedLength, HTTP2Frame.paddingLen, isData, padded]
    rw [if_neg padded, Outcome.ok_bind]
    dsimp only
    refine iff_of_true ?_ fun isPadded => absurd isPadded padded
    unfold readPostData
    split
    · exact (taken _).mpr whole
    · rw [if_neg (by omega), readOctets_ok (by omega), Outcome.ok_bind]
      exact (taken _).mpr whole

variable (conn) in
theorem getStreamInstance_takeData (streamInd payloadLen : Nat) :
    (conn.takeData streamInd payloadLen).getStreamInstance streamInd =
      (conn.getStreamInstance streamInd).map fun stream =>
        { stream with localWindowSize := toInt (stream.localWindowSize - payloadLen) } := by
  refine (getStreamInstance_modifyStream conn streamInd streamInd _).trans ?_
  rw [if_pos rfl]

/-- Window updates leave a stream as it is, up to its window. -/
theorem getStreamInstance_sendWindowUpdate {streamInd increment : Nat} {stream : Http2Stream X}
    (found : conn.getStreamInstance streamInd = some stream) :
    ∃ window, (conn.sendWindowUpdate env streamInd increment).getStreamInstance streamInd =
      some { stream with localWindowSize := window } := by
  unfold Conn.sendWindowUpdate
  rw [found]
  dsimp only
  split
  · exact ⟨stream.localWindowSize, found⟩
  · refine ⟨toInt (stream.localWindowSize + increment), ?_⟩
    rw [getStreamInstance_modifyStream, if_pos rfl, getStreamInstance_httpSend,
      getStreamInstance_log, found]
    rfl

/-- The stream of a `DATA` frame, once the windows are dealt with. -/
theorem getStreamInstance_receiveData {streamInd : Nat} {stream : Http2Stream X}
    (payloadLen increment : Nat) (found : conn.getStreamInstance streamInd = some stream) :
    ∃ window,
      ((conn.receiveData env streamInd payloadLen).sendWindowUpdate env streamInd
        increment).getStreamInstance streamInd =
          some { stream with localWindowSize := window } := by
  have taken := getStreamInstance_takeData conn streamInd payloadLen
  rw [found, Option.map_some] at taken
  have received : ∃ window, (conn.receiveData env streamInd payloadLen).getStreamInstance streamInd =
      some { stream with localWindowSize := window } := by
    unfold Conn.receiveData
    dsimp only
    rw [taken]
    dsimp only
    split
    · rcases getStreamInstance_sendWindowUpdate taken with ⟨window, later⟩
      exact ⟨window, later⟩
    · exact ⟨_, taken⟩
  rcases received with ⟨window, present⟩
  rcases getStreamInstance_sendWindowUpdate present with ⟨window', later⟩
  exact ⟨window', later⟩

theorem inside_dataArm_iff (isData : frame.type = FrameType.data)
    (length : frame.length = payload.length)
    (present : 0 < frame.streamInd → (conn.getStreamInstance frame.streamInd).isSome) :
    Inside env start frame payload (conn.dataArm env frame payload) ↔
      conn.DataFit frame payload := by
  unfold Conn.dataArm Conn.DataFit
  dsimp only
  rcases Nat.eq_zero_or_pos frame.streamInd with whole | positive
  · simp only [whole, getStreamInstance_zero, if_true]
    exact iff_of_true (inside_refuse _ _) fun stream impossible => by cases impossible
  · rcases Option.isSome_iff_exists.mp (present positive) with ⟨stream, found⟩
    rcases getStreamInstance_receiveData frame.length frame.length found with ⟨window, later⟩
    rw [later, found]
    dsimp only
    split
    · rename_i notOpen
      refine iff_of_true (inside_refuse _ _) ?_
      rintro other ⟨rfl⟩ isOpen
      exact absurd isOpen notOpen
    · rename_i isOpen
      rw [inside_pushPostData_iff isData length positive]
      constructor
      · rintro fit other ⟨rfl⟩ _
        exact fit
      · exact fun fit => fit stream rfl (not_not.mp isOpen)

/-- What an admitted frame needs of its payload. -/
theorem inside_arms_iff (length : frame.length = payload.length) (fits : payload.length < 2 ^ 24)
    (kept : frame.streamInd = 0 → conn = start)
    (admitted : 0 < frame.streamInd → ∃ stream,
      conn.getStreamInstance frame.streamInd = some stream ∧
        refusal stream.streamState frame.type = none) :
    Inside env start frame payload (conn.arms env frame payload) ↔ conn.Fits frame payload := by
  have present (positive : 0 < frame.streamInd) :
      (conn.getStreamInstance frame.streamInd).isSome := by
    rcases admitted positive with ⟨stream, found, -⟩
    simp [found]
  unfold Conn.arms Conn.Fits
  by_cases isGoaway : frame.type = FrameType.goaway
  · have fields : frame.TooShort payload ↔ payload.length < 8 := by
      simp [HTTP2Frame.TooShort, HTTP2Frame.fixedLength, HTTP2Frame.paddingLen, isGoaway,
        FrameType.data, FrameType.headers, FrameType.priority, FrameType.rstStream,
        FrameType.settings, FrameType.pushPromise, FrameType.ping, FrameType.goaway]
    rw [if_pos isGoaway, if_pos isGoaway]
    exact inside_read_iff env start fields fun octets => ⟨_, _, rfl⟩
  rw [if_neg isGoaway, if_neg isGoaway]
  by_cases isPriority : frame.type = FrameType.priority
  · rw [if_pos isPriority, if_pos isPriority]
    exact inside_priorityArm_iff isPriority
  rw [if_neg isPriority, if_neg isPriority]
  by_cases isHeaders : frame.type = FrameType.headers
  · rw [if_pos isHeaders, if_pos isHeaders]
    refine inside_headersArm_iff isHeaders length fits kept fun positive => ?_
    rcases admitted positive with ⟨stream, found, goesOn⟩
    refine ⟨stream, found, fun isClosed => ?_⟩
    simp [isClosed, refusal, isHeaders, FrameType.headers, FrameType.rstStream,
      FrameType.priority, FrameType.windowUpdate] at goesOn
  rw [if_neg isHeaders, if_neg isHeaders]
  by_cases isContinuation : frame.type = FrameType.continuation
  · rw [if_pos isContinuation, if_pos isContinuation]
    refine inside_continuationArm_iff length fits isContinuation fun positive => ?_
    simpa [Conn.pointer] using present positive
  rw [if_neg isContinuation, if_neg isContinuation]
  by_cases isPushPromise : frame.type = FrameType.pushPromise
  · rw [if_pos isPushPromise, if_pos isPushPromise]
    exact iff_of_true (inside_refuse _ _) trivial
  rw [if_neg isPushPromise, if_neg isPushPromise]
  by_cases isSettings : frame.type = FrameType.settings
  · rw [if_pos isSettings, if_pos isSettings]
    exact inside_settingsArm_iff isSettings length
  rw [if_neg isSettings, if_neg isSettings]
  by_cases isData : frame.type = FrameType.data
  · rw [if_pos isData, if_pos isData]
    exact inside_dataArm_iff isData length present
  rw [if_neg isData, if_neg isData]
  by_cases isWindowUpdate : frame.type = FrameType.windowUpdate
  · rw [if_pos isWindowUpdate, if_neg]
    · exact inside_windowUpdateArm_iff isWindowUpdate
    · rw [isWindowUpdate]
      decide
  rw [if_neg isWindowUpdate]
  by_cases isRst : frame.type = FrameType.rstStream
  · rw [if_pos isRst, if_pos isRst]
    refine inside_rstStreamArm_iff isRst kept fun positive => ?_
    rcases admitted positive with ⟨stream, found, goesOn⟩
    refine ⟨stream, found, fun isIdle => ?_⟩
    simp [isIdle, refusal, isRst, FrameType.headers, FrameType.rstStream,
      FrameType.priority] at goesOn
  rw [if_neg isRst, if_neg isRst]
  by_cases isPing : frame.type = FrameType.ping
  · rw [if_pos isPing]
    exact inside_pingArm_iff isPing kept
  rw [if_neg isPing]
  exact inside_taken_iff (report_ne frame.length) kept

end Arms

section Frames

variable {env : Env X} {turn : Turn X} {frame : HTTP2Frame} {payload : List UInt8}

theorem fits_congr {conn conn' : Conn X} (nullEntry : conn'.nullEntry = conn.nullEntry)
    (data : frame.type = FrameType.data →
      (conn'.DataFit frame payload ↔ conn.DataFit frame payload)) :
    conn'.Fits frame payload ↔ conn.Fits frame payload := by
  have headers : conn'.HeadersFit frame payload ↔ conn.HeadersFit frame payload := by
    simp only [Conn.HeadersFit, Conn.PrioritySound, nullEntry]
  unfold Conn.Fits
  by_cases isData : frame.type = FrameType.data
  · rw [headers, if_pos isData, if_pos isData, data isData]
  · rw [headers, if_neg isData, if_neg isData]

/-- Where `ProtParse` reads the payload only, and rejects what is too short. -/
theorem readsInside_iff (length : frame.length = payload.length)
    (fits : payload.length < 2 ^ 24) :
    ReadsInside env turn frame payload ↔
      turn.conn.HasRoom frame.streamInd ∧
        ((0 < frame.streamInd ∧
            refusal (turn.conn.stateOf frame.streamInd) frame.type ≠ none) ∨
          turn.conn.Fits frame payload) := by
  have same : (turn.received frame payload).stateOf frame.streamInd =
      turn.conn.stateOf frame.streamInd := rfl
  unfold ReadsInside Conn.front
  rcases Nat.eq_zero_or_pos frame.streamInd with whole | positive
  · rw [admit_zero whole, Outcome.ok_bind]
    dsimp only
    rw [inside_arms_iff length fits (fun _ => rfl) fun positive => by omega]
    constructor
    · exact fun fit => ⟨.inl whole, .inr fit⟩
    · rintro ⟨-, ⟨positive, -⟩ | fit⟩
      · omega
      · exact fit
  by_cases room : turn.conn.HasRoom frame.streamInd
  · have positive' := positive
    rcases admit_ok env (turn.received frame payload) positive room with
      ⟨admitted, stream, done, found, state, nullEntry, body⟩
    rw [same] at state
    rw [done, Outcome.ok_bind, same]
    cases refused : refusal (turn.conn.stateOf frame.streamInd) frame.type with
    | some errorCode =>
        exact iff_of_true (inside_refuse _ _) ⟨room, .inl ⟨positive, by simp⟩⟩
    | none =>
        dsimp only
        rw [inside_arms_iff length fits (fun whole => by omega) fun _ =>
          ⟨stream, found, by rw [state, refused]⟩]
        have agree : admitted.Fits frame payload ↔ turn.conn.Fits frame payload := by
          refine fits_congr nullEntry fun isData => ?_
          cases present : turn.conn.getStreamInstance frame.streamInd with
          | none =>
              have isIdle : turn.conn.stateOf frame.streamInd = .idle := by
                simp [Conn.stateOf, present]
              rw [isIdle] at refused
              simp [refusal, isData, FrameType.data, FrameType.headers,
                FrameType.priority] at refused
          | some listed =>
              have isState : turn.conn.stateOf frame.streamInd = listed.streamState := by
                simp [Conn.stateOf, present]
              have sameBody := body listed present
              simp only [Conn.DataFit, found, present, Option.some.injEq, forall_eq']
              rw [state, isState, sameBody]
        rw [agree]
        constructor
        · exact fun fit => ⟨room, .inr fit⟩
        · rintro ⟨-, ⟨-, impossible⟩ | fit⟩
          · exact absurd rfl impossible
          · exact fit
  · rw [admit_fault env (turn.received frame payload) room, Outcome.fault_bind]
    exact iff_of_false not_inside_fault fun holds => room holds.1

end Frames

/-- A `PING` frame of eight octets. -/
theorem readsInside_ping :
    ReadsInside (plainEnv false []) ⟨Conn.start (plainEnv false []) true, Flag.unset, []⟩
      ⟨8, FrameType.ping, Flag.unset, 0⟩ [1, 2, 3, 4, 5, 6, 7, 8] := by
  refine (readsInside_iff rfl (by decide)).mpr ⟨.inl rfl, .inr ?_⟩
  show ¬(8 < 8 + 0)
  decide

/-- The octets of an empty `PING` frame are copied all the same. -/
theorem not_readsInside_ping :
    ¬ReadsInside (plainEnv false []) ⟨Conn.start (plainEnv false []) true, Flag.unset, []⟩
      ⟨0, FrameType.ping, Flag.unset, 0⟩ [] := by
  rintro ⟨conn, next, done, _⟩
  cases done

end Http2

end HeapHttpd
