import HeapHttpd.Http2.Runs

/-!
# Settings

A `SETTINGS` frame may have any number of settings, of which `ProtParse` applies
the first.
-/

namespace HeapHttpd

namespace Http2

open General Hpack Http1

variable {X : Type}

/-- A setting, as it fits a frame. -/
structure Setting where
  identifier : Nat
  value : Nat
  identifier_lt : identifier < 2 ^ 16
  value_lt : value < 2 ^ 32

/-- `htons`. -/
def htons (value : Nat) : List UInt8 :=
  [UInt8.ofNat (value / 2 ^ 8), UInt8.ofNat value]

/-- The octets of a setting. -/
def Setting.octets (setting : Setting) : List UInt8 :=
  htons setting.identifier ++ htonl setting.value

/-- The payload of a `SETTINGS` frame. -/
def settingsPayload (settings : List Setting) : List UInt8 :=
  settings.flatMap Setting.octets

/-- What settings are about. -/
@[ext]
structure Parameters where
  headerTableSize : Nat
  enablePush : Bool
  maxConcurrentStreams : Nat
  initialPeerWindowSize : Nat
  maxFrameSize : Nat
  maxHeaderListSize : Nat
  peerWindowSize : StreamPtr → Option Int

/-- The part of a connection that settings are about. -/
def Conn.parameters (conn : Conn X) : Parameters :=
  { headerTableSize := conn.headerTableSize
    enablePush := conn.enablePush
    maxConcurrentStreams := conn.maxConcurrentStreams
    initialPeerWindowSize := conn.initialPeerWindowSize
    maxFrameSize := conn.maxFrameSize
    maxHeaderListSize := conn.maxHeaderListSize
    peerWindowSize := fun pointer => (conn.listed pointer).map Http2Stream.peerWindowSize }

/-- What a setting means: a new initial window moves the window of every stream. -/
def Parameters.apply (parameters : Parameters) (setting : Setting) : Parameters :=
  if setting.identifier = SettingId.headerTableSize then
    { parameters with headerTableSize := setting.value }
  else if setting.identifier = SettingId.enablePush then
    { parameters with enablePush := decide (setting.value ≠ 0) }
  else if setting.identifier = SettingId.maxConcurrentStreams then
    { parameters with maxConcurrentStreams := setting.value }
  else if setting.identifier = SettingId.initialWindowSize then
    { parameters with
      initialPeerWindowSize := setting.value
      peerWindowSize := fun stream => (parameters.peerWindowSize stream).map fun window =>
        window + ((setting.value : Int) - parameters.initialPeerWindowSize) }
  else if setting.identifier = SettingId.maxFrameSize then
    { parameters with maxFrameSize := setting.value }
  else if setting.identifier = SettingId.maxHeaderListSize then
    { parameters with maxHeaderListSize := setting.value }
  else parameters

/-- The value that some settings give to a parameter. -/
def given (identifier : Nat) (settings : List Setting) : Option Nat :=
  ((settings.filter fun setting => setting.identifier = identifier).getLast?).map Setting.value

@[simp]
theorem given_nil (identifier : Nat) : given identifier [] = none :=
  rfl

theorem given_cons (identifier : Nat) (setting : Setting) (settings : List Setting) :
    given identifier (setting :: settings) =
      (given identifier settings).or
        (if setting.identifier = identifier then some setting.value else none) := by
  unfold given
  by_cases same : setting.identifier = identifier
  · rw [List.filter_cons_of_pos (by simpa using same), List.getLast?_cons, if_pos same]
    cases (settings.filter fun setting => setting.identifier = identifier).getLast? <;> rfl
  · rw [List.filter_cons_of_neg (by simpa using same), if_neg same, Option.or_none]

/-- What settings mean one after the other. -/
theorem foldl_apply (settings : List Setting) (parameters : Parameters) :
    settings.foldl Parameters.apply parameters =
      { headerTableSize :=
          (given SettingId.headerTableSize settings).getD parameters.headerTableSize
        enablePush :=
          ((given SettingId.enablePush settings).map fun value => decide (value ≠ 0)).getD
            parameters.enablePush
        maxConcurrentStreams :=
          (given SettingId.maxConcurrentStreams settings).getD parameters.maxConcurrentStreams
        initialPeerWindowSize :=
          (given SettingId.initialWindowSize settings).getD parameters.initialPeerWindowSize
        maxFrameSize := (given SettingId.maxFrameSize settings).getD parameters.maxFrameSize
        maxHeaderListSize :=
          (given SettingId.maxHeaderListSize settings).getD parameters.maxHeaderListSize
        peerWindowSize := fun stream => (parameters.peerWindowSize stream).map fun window =>
          window + (((given SettingId.initialWindowSize settings).getD
            parameters.initialPeerWindowSize : Nat) - parameters.initialPeerWindowSize : Int) } := by
  induction settings generalizing parameters with
  | nil => ext <;> simp
  | cons setting settings ih =>
      rw [List.foldl_cons, ih]
      simp only [given_cons]
      unfold Parameters.apply
      split_ifs <;>
        simp_all [SettingId.headerTableSize, SettingId.enablePush,
          SettingId.maxConcurrentStreams, SettingId.initialWindowSize, SettingId.maxFrameSize,
          SettingId.maxHeaderListSize]

/-- What is noted in the trace changes no parameter. -/
theorem parameters_trace (conn : Conn X) (trace : List Event) :
    { conn with trace }.parameters = conn.parameters :=
  rfl

/-- What the switch of `ProtParse` does for a setting, which leaves the streams
alone. -/
theorem parameters_applySetting (conn : Conn X) (setting : Setting) :
    (conn.applySetting setting.identifier setting.value).parameters =
      { conn.parameters.apply setting with peerWindowSize := conn.parameters.peerWindowSize } := by
  unfold Conn.applySetting Parameters.apply
  split_ifs <;> rfl

theorem ntoh_htons {value : Nat} (fits : value < 2 ^ 16) : ntoh (htons value) = value := by
  simp [ntoh, htons]
  omega

theorem ntoh_htonl {value : Nat} (fits : value < 2 ^ 32) : ntoh (htonl value) = value := by
  simp [ntoh, htonl, hton24]
  omega

theorem Setting.length_octets (setting : Setting) : setting.octets.length = 6 :=
  rfl

theorem Setting.identifier_octets (setting : Setting) :
    ntoh (setting.octets.take 2) = setting.identifier :=
  ntoh_htons setting.identifier_lt

theorem Setting.value_octets (setting : Setting) :
    ntoh (setting.octets.drop 2) = setting.value :=
  ntoh_htonl setting.value_lt

theorem length_settingsPayload (settings : List Setting) :
    (settingsPayload settings).length = 6 * settings.length := by
  simp [settingsPayload, List.length_flatMap, Setting.length_octets]
  omega

section Frames

variable {env : Env X} {turn : Turn X} {frame : HTTP2Frame} {settings : List Setting}

/-- A `SETTINGS` frame on the connection as a whole is passed to its arm. -/
theorem front_settings (isSettings : frame.type = FrameType.settings) (whole : frame.streamInd = 0)
    (conn : Conn X) (memory : List UInt8) :
    conn.front env frame memory = conn.settingsArm env frame memory := by
  unfold Conn.front Conn.admit Conn.arms
  rw [if_pos whole, isSettings]
  rfl

/-- `ProtParse` applies the settings of a frame one after the other, whatever
follows the payload in memory. -/
def AppliesSettings (env : Env X) (turn : Turn X) (frame : HTTP2Frame)
    (settings : List Setting) : Prop :=
  ∀ memory, memory.take frame.length = settingsPayload settings →
    ∃ turn' result, protParse env frame memory turn = .done turn' result ∧
      turn'.conn.parameters = settings.foldl Parameters.apply turn.conn.parameters

/-- The settings that `ProtParse` looks at. -/
def lookedAt (frame : HTTP2Frame) (settings : List Setting) : List Setting :=
  if hasFlag frame.flags Flag.settingAck then [] else settings.take 1

/-- The last value for every parameter is the one of the settings that
`ProtParse` looks at, and the initial window stays what it is where there are
streams. -/
structure FirstSaysAll (parameters : Parameters) (first settings : List Setting) : Prop where
  headerTableSize : (given SettingId.headerTableSize settings).getD parameters.headerTableSize =
    (given SettingId.headerTableSize first).getD parameters.headerTableSize
  enablePush : ((given SettingId.enablePush settings).map fun value => decide (value ≠ 0)).getD
      parameters.enablePush =
    ((given SettingId.enablePush first).map fun value => decide (value ≠ 0)).getD
      parameters.enablePush
  maxConcurrentStreams :
    (given SettingId.maxConcurrentStreams settings).getD parameters.maxConcurrentStreams =
      (given SettingId.maxConcurrentStreams first).getD parameters.maxConcurrentStreams
  initialPeerWindowSize :
    (given SettingId.initialWindowSize settings).getD parameters.initialPeerWindowSize =
      (given SettingId.initialWindowSize first).getD parameters.initialPeerWindowSize
  maxFrameSize : (given SettingId.maxFrameSize settings).getD parameters.maxFrameSize =
    (given SettingId.maxFrameSize first).getD parameters.maxFrameSize
  maxHeaderListSize :
    (given SettingId.maxHeaderListSize settings).getD parameters.maxHeaderListSize =
      (given SettingId.maxHeaderListSize first).getD parameters.maxHeaderListSize
  streams : (∀ stream, parameters.peerWindowSize stream = none) ∨
    (given SettingId.initialWindowSize settings).getD parameters.initialPeerWindowSize =
      parameters.initialPeerWindowSize

theorem firstSaysAll_iff (parameters : Parameters) (first settings : List Setting) :
    { first.foldl Parameters.apply parameters with
        peerWindowSize := parameters.peerWindowSize } = settings.foldl Parameters.apply parameters ↔
      FirstSaysAll parameters first settings := by
  rw [foldl_apply, foldl_apply]
  constructor
  · intro same
    have part {α : Type} (project : Parameters → α) := congrArg project same.symm
    refine ⟨part Parameters.headerTableSize, part Parameters.enablePush,
      part Parameters.maxConcurrentStreams, part Parameters.initialPeerWindowSize,
      part Parameters.maxFrameSize, part Parameters.maxHeaderListSize, ?_⟩
    by_cases empty : ∀ stream, parameters.peerWindowSize stream = none
    · exact .inl empty
    · right
      rcases not_forall.mp empty with ⟨stream, listed⟩
      rcases Option.ne_none_iff_exists'.mp listed with ⟨window, found⟩
      have moved := congrFun (part Parameters.peerWindowSize) stream
      simp only [found, Option.map_some, Option.some.injEq] at moved
      omega
  · intro agrees
    refine Parameters.ext agrees.headerTableSize.symm agrees.enablePush.symm
      agrees.maxConcurrentStreams.symm agrees.initialPeerWindowSize.symm agrees.maxFrameSize.symm
      agrees.maxHeaderListSize.symm ?_
    funext stream
    rcases agrees.streams with empty | unmoved
    · simp [empty]
    · simp [unmoved]

/-- What an acknowledgement and the first setting of a frame do. -/
theorem parameters_settingsArm (env : Env X) (conn : Conn X) {memory : List UInt8}
    (payload : memory.take frame.length = settingsPayload settings)
    (length : frame.length = (settingsPayload settings).length)
    (readable : hasFlag frame.flags Flag.settingAck ∨ settings ≠ []) :
    ∃ conn' result, conn.settingsArm env frame memory = .ok (conn', .report result) ∧
      conn'.parameters = { (lookedAt frame settings).foldl Parameters.apply conn.parameters with
        peerWindowSize := conn.parameters.peerWindowSize } := by
  unfold Conn.settingsArm lookedAt
  by_cases ack : hasFlag frame.flags Flag.settingAck = true
  · simp only [ack, if_true]
    exact ⟨conn, frame.length, rfl, rfl⟩
  · cases settings with
    | nil => simp [ack] at readable
    | cons setting rest =>
        have enough : 6 ≤ (memory.take frame.length).length := by
          rw [payload, length_settingsPayload, List.length_cons]
          omega
        have first : memory.take 6 = setting.octets := by
          rw [← take_payload enough, payload]
          exact List.take_left' setting.length_octets
        have read : readOctets memory 0 6 = .ok setting.octets := by
          have := List.length_take_le frame.length memory
          rw [readOctets, if_pos (by rw [List.length_take] at enough; omega), List.drop_zero, first]
        rw [if_neg ack, if_neg ack, read]
        refine ⟨_, frame.length, rfl, ?_⟩
        rw [Conn.sendSettingAck, httpSend_fst, parameters_trace, Conn.receiveSetting, Conn.log,
          parameters_trace, setting.identifier_octets, setting.value_octets,
          parameters_applySetting]
        rfl

/-- The settings of a frame are applied one after the other exactly if the first
says all. -/
theorem appliesSettings_iff (isSettings : frame.type = FrameType.settings)
    (whole : frame.streamInd = 0) (length : frame.length = (settingsPayload settings).length) :
    AppliesSettings env turn frame settings ↔
      (hasFlag frame.flags Flag.settingAck ∨ settings ≠ []) ∧
        FirstSaysAll turn.conn.parameters (lookedAt frame settings) settings := by
  have arm {memory : List UInt8} (payload : memory.take frame.length = settingsPayload settings)
      (readable : hasFlag frame.flags Flag.settingAck ∨ settings ≠ []) :
      ∃ turn' result, protParse env frame memory turn = .done turn' result ∧
        turn'.conn.parameters =
          { (lookedAt frame settings).foldl Parameters.apply turn.conn.parameters with
            peerWindowSize := turn.conn.parameters.peerWindowSize } := by
    rcases parameters_settingsArm env (turn.received frame memory) payload length readable
      with ⟨conn, result, done, same⟩
    refine ⟨_, result, protParse_of_report ?_, same⟩
    rw [front_settings isSettings whole, done]
  constructor
  · intro applies
    have readable : hasFlag frame.flags Flag.settingAck ∨ settings ≠ [] := by
      by_contra empty
      rcases not_or.mp empty with ⟨goesOn, none_⟩
      have nothing : settings = [] := not_not.mp none_
      subst nothing
      rcases applies [] (by simp [settingsPayload]) with ⟨turn', result, done, _⟩
      have stuck : ∀ conn next, (turn.received frame []).front env frame [] ≠ .ok (conn, next) := by
        intro conn next
        rw [front_settings isSettings whole, Conn.settingsArm, if_neg goesOn]
        exact fun impossible => by cases impossible
      rcases protParse_of_fault stuck with ⟨turn'', fault⟩
      rw [fault] at done
      cases done
    refine ⟨readable, (firstSaysAll_iff _ _ _).mp ?_⟩
    have payload : (settingsPayload settings).take frame.length = settingsPayload settings := by
      rw [length, List.take_length]
    rcases arm payload readable with ⟨turn', result, done, same⟩
    rcases applies _ payload with ⟨turn'', result', done', applied⟩
    rw [done] at done'
    cases done'
    rw [← same, applied]
  · rintro ⟨readable, agrees⟩ memory payload
    rcases arm payload readable with ⟨turn', result, done, same⟩
    exact ⟨turn', result, done, same.trans ((firstSaysAll_iff _ _ _).mpr agrees)⟩

end Frames

/-- A larger maximum of the frame size. -/
def largeFrames : Setting :=
  ⟨SettingId.maxFrameSize, 32768, by decide, by decide⟩

/-- A larger initial window. -/
def largeWindows : Setting :=
  ⟨SettingId.initialWindowSize, 1048576, by decide, by decide⟩

theorem appliesSettings_largeFrames :
    AppliesSettings (plainEnv false []) ⟨Conn.start (plainEnv false []) true, Flag.unset, []⟩
      ⟨6, FrameType.settings, Flag.unset, 0⟩ [largeFrames] :=
  (appliesSettings_iff rfl rfl rfl).mpr
    ⟨.inr (by simp), ⟨rfl, rfl, rfl, rfl, rfl, rfl, .inr rfl⟩⟩

theorem not_appliesSettings_largeWindows :
    ¬AppliesSettings (plainEnv false []) ⟨Conn.start (plainEnv false []) true, Flag.unset, []⟩
      ⟨12, FrameType.settings, Flag.unset, 0⟩ [largeFrames, largeWindows] := by
  intro applies
  rcases applies (settingsPayload [largeFrames, largeWindows]) (by decide) with
    ⟨turn, result, done, same⟩
  have kept : (match protParse (plainEnv false []) ⟨12, FrameType.settings, Flag.unset, 0⟩
      (settingsPayload [largeFrames, largeWindows])
      ⟨Conn.start (plainEnv false []) true, Flag.unset, []⟩ with
    | .done turn _ => turn.conn.initialPeerWindowSize
    | _ => 0) = 65535 := by
    decide
  rw [done] at kept
  have moved : turn.conn.initialPeerWindowSize = 1048576 :=
    congrArg Parameters.initialPeerWindowSize same
  exact absurd (moved.symm.trans kept) (by decide)

end Http2

end HeapHttpd
