import HeapHttpd.Http2.Histories

/-!
# Pointers to streams

Code that waits has pointers to streams and to their decoded headers.  As long as
nothing takes away what such a pointer points to, no code uses a pointer to what
is gone, and no frame is sent for a stream that is gone.
-/

namespace HeapHttpd

namespace Http2

open General Hpack Http1 Replay

variable {X : Type}

/-- An event uses no pointer to what is gone. -/
def UsesOwned (ledger : Ledger) : Event → Prop
  | .stale _ => False
  | .sent _ (some stream) | .unsent _ (some stream) => (ledger.flows stream).isSome
  | _ => True

/-- What goes away is not in use. -/
def Event.Spares : Event → Prop
  | .erased _ inUse | .reset _ inUse | .cleared _ inUse => inUse = false
  | _ => True

instance (ledger : Ledger) (event : Event) : Decidable (UsesOwned ledger event) :=
  match event with
  | .stale _ => isFalse id
  | .sent _ (some stream) | .unsent _ (some stream) =>
      inferInstanceAs (Decidable ((ledger.flows stream).isSome = true))
  | .sent _ none | .unsent _ none | .received _ _ | .returned _ | .building _ _ _ _
  | .created _ _ _ | .promised _ | .erased _ _ | .reset _ _ | .cleared _ _ | .opened _ | .ended _
  | .settings _ _ _ | .windowUpdate _ _ _ | .data _ _ | .credited _ _ | .pushed _ _ _ _
  | .field _ | .line _ _ | .headersEnd _ _ | .response _ => isTrue trivial

instance (event : Event) : Decidable event.Spares :=
  match event with
  | .erased _ inUse | .reset _ inUse | .cleared _ inUse =>
      inferInstanceAs (Decidable (inUse = false))
  | .sent _ _ | .unsent _ _ | .received _ _ | .returned _ | .building _ _ _ _
  | .created _ _ _ | .promised _ | .stale _ | .opened _ | .ended _
  | .settings _ _ _ | .windowUpdate _ _ _ | .data _ _ | .credited _ _ | .pushed _ _ _ _
  | .field _ | .line _ _ | .headersEnd _ _ | .response _ => isTrue trivial

namespace Ledger

/-- The streams of a ledger are streams of another one. -/
def Lists (ledger ledger' : Ledger) : Prop :=
  ∀ stream, (ledger.flows stream).isSome → (ledger'.flows stream).isSome

theorem lists_update (ledger : Ledger) (concerns : StreamPtr → Bool) (change : Flow → Flow) :
    ledger.Lists (ledger.update concerns change) := by
  intro stream isListed
  simp only [update]
  split
  · simpa using isListed
  · exact isListed

theorem lists_sends (ledger : Ledger) (frame : SentFrame) (sender : Option StreamPtr) :
    ledger.Lists (ledger.sends frame sender) := by
  cases sender with
  | none => exact fun _ isListed => isListed
  | some sender => exact lists_update ledger _ _

theorem lists_charge (ledger : Ledger) (frame : SentFrame) (sender : Option StreamPtr) :
    ledger.Lists (ledger.charge frame sender) := by
  cases sender with
  | none => exact fun _ isListed => isListed
  | some sender =>
      unfold charge
      dsimp only
      split
      · exact lists_update ledger _ _
      · exact lists_update ledger _ _

/-- Events other than the end of a stream leave the streams listed. -/
theorem lists_apply (ledger : Ledger) {event : Event}
    (stays : ∀ stream inUse, event ≠ .erased stream inUse ∧ event ≠ .reset stream inUse) :
    ledger.Lists (ledger.apply event) := by
  have unchanged : ledger.Lists ledger := fun _ isListed => isListed
  cases event with
  | erased stream inUse => exact absurd rfl (stays stream inUse).1
  | reset stream inUse => exact absurd rfl (stays stream inUse).2
  | sent frame sender =>
      intro stream isListed
      exact lists_charge _ frame sender stream (lists_sends ledger frame sender stream isListed)
  | unsent frame sender => exact lists_sends ledger frame sender
  | created stream peerWindowSize localWindowSize =>
      intro other isListed
      simp only [apply, put]
      split
      · rfl
      · exact isListed
  | promised stream => exact lists_update ledger _ _
  | opened stream => exact lists_update ledger _ _
  | ended stream => exact lists_update ledger _ _
  | settings identifier value payload =>
      simp only [apply]
      split_ifs <;> exact unchanged
  | windowUpdate streamInd winSize payload =>
      simp only [apply]
      split_ifs
      · exact unchanged
      · exact unchanged
      · exact lists_update ledger _ _
  | data streamInd length => exact lists_update ledger _ _
  | credited stream increment =>
      cases stream with
      | none => exact unchanged
      | some stream => exact lists_update ledger _ _
  | field header => exact unchanged
  | _ => exact unchanged

end Ledger

theorem UsesOwned.mono {ledger ledger' : Ledger} {event : Event} (owned : UsesOwned ledger event)
    (lists : ledger.Lists ledger') : UsesOwned ledger' event := by
  cases event with
  | sent frame sender =>
      cases sender with
      | none => trivial
      | some sender => exact lists sender owned
  | unsent frame sender =>
      cases sender with
      | none => trivial
      | some sender => exact lists sender owned
  | stale holding => exact owned
  | _ => trivial

/-- Events whose senders are listed before all of them, and that end no stream. -/
theorem usesOwned_of_listed {ledger : Ledger} {events : List Event}
    (listed : ∀ event ∈ events, UsesOwned ledger event ∧
      ∀ stream inUse, event ≠ .erased stream inUse ∧ event ≠ .reset stream inUse) :
    Throughout Ledger.apply UsesOwned ledger events := by
  induction events generalizing ledger with
  | nil => exact throughout_nil
  | cons event events ih =>
      have first := listed event List.mem_cons_self
      refine .cons _ _ _ first.1 (ih fun later member => ?_)
      have behind := listed later (List.mem_cons_of_mem _ member)
      exact ⟨behind.1.mono (ledger.lists_apply first.2), behind.2⟩

theorem Event.sending_stays (succeeds : Bool) (sender : Option StreamPtr) (frame : SentFrame)
    (stream : StreamPtr) (inUse : Bool) :
    Event.sending succeeds sender frame ≠ .erased stream inUse ∧
      Event.sending succeeds sender frame ≠ .reset stream inUse := by
  cases succeeds <;> simp [Event.sending]

theorem usesOwned_sending {ledger : Ledger} {stream : StreamPtr}
    (listed : (ledger.flows stream).isSome) (succeeds : Bool) (frame : SentFrame) :
    UsesOwned ledger (.sending succeeds (some stream) frame) ∧
      ∀ other inUse, Event.sending succeeds (some stream) frame ≠ .erased other inUse ∧
        Event.sending succeeds (some stream) frame ≠ .reset other inUse := by
  refine ⟨?_, Event.sending_stays succeeds _ frame⟩
  cases succeeds <;> exact listed

theorem Credits.usesOwned {async : Bool} {ledger : Ledger} {streamInd increment : Nat}
    {events : List Event} (credits : Credits async ledger streamInd increment events) :
    Throughout Ledger.apply UsesOwned ledger events := by
  refine usesOwned_of_listed fun event member => ?_
  cases credits with
  | finished => cases member
  | stream stream flow same listed unfinished succeeds buffered =>
      rcases List.mem_cons.mp member with rfl | isSent
      · exact ⟨trivial, by simp⟩
      · cases List.mem_singleton.mp isSent
        exact usesOwned_sending (by simp [listed]) succeeds _
  | control absent succeeds buffered =>
      rcases List.mem_cons.mp member with rfl | isSent
      · exact ⟨trivial, by simp⟩
      · cases List.mem_singleton.mp isSent
        refine ⟨?_, Event.sending_stays succeeds _ _⟩
        cases succeeds <;> trivial

/-- As long as no pointer is loose, nothing uses a pointer to what is gone. -/
theorem Happens.usesOwned {async : Bool} {loose : Prop} {ledger : Ledger} {events : List Event}
    (happens : Happens async loose ledger events) (tight : ¬loose) :
    Throughout Ledger.apply UsesOwned ledger events := by
  cases happens with
  | stale holding isLoose => exact absurd isLoose tight
  | rstStream stream listed succeeds =>
      refine usesOwned_of_listed fun event member => ?_
      cases List.mem_singleton.mp member
      exact usesOwned_sending listed succeeds _
  | header stream listed frameType kind payload head succeeds =>
      refine usesOwned_of_listed fun event member => ?_
      rcases List.mem_map.mp member with ⟨frame, -, rfl⟩
      exact usesOwned_sending listed succeeds frame
  | emptyContent stream listed padding some_ fills succeeds =>
      refine usesOwned_of_listed fun event member => ?_
      cases List.mem_singleton.mp member
      exact usesOwned_sending listed succeeds _
  | content stream window rest agrees listed succeeds =>
      refine usesOwned_of_listed fun event member => ?_
      rcases List.mem_cons.mp member with rfl | isSent
      · exact ⟨trivial, by simp⟩
      · cases List.mem_singleton.mp isSent
        exact usesOwned_sending (listed.resolve_right tight) succeeds _
  | data streamInd length extra credits emptied returned =>
      refine .cons _ _ _ trivial (throughout_append.mpr ⟨?_, returned.usesOwned⟩)
      rcases emptied with rfl | ⟨-, credited⟩
      · exact throughout_nil
      · exact credited.usesOwned
  | control frames isControl succeeds =>
      refine usesOwned_of_listed fun event member => ?_
      rcases List.mem_map.mp member with ⟨frame, -, rfl⟩
      refine ⟨?_, Event.sending_stays succeeds _ _⟩
      cases succeeds <;> trivial
  | exchange synchronous succeeds =>
      cases succeeds <;> exact .cons _ _ _ trivial (.cons _ _ _ trivial (.nil _))
  | plain event plain =>
      refine .cons _ _ _ ?_ (.nil _)
      cases event <;> trivial
  | promise => exact .cons _ _ _ trivial (.cons _ _ _ trivial (.nil _))
  | headersEnd stream method =>
      split
      · exact .cons _ _ _ trivial (.nil _)
      · exact .cons _ _ _ trivial (.cons _ _ _ trivial (.nil _))
  | pushed stream contentLength stored complete =>
      split
      · exact .cons _ _ _ trivial (.cons _ _ _ trivial (.nil _))
      · exact .cons _ _ _ trivial (.nil _)
  | nothing => exact throughout_nil
  | _ => exact .cons _ _ _ trivial (.nil _)

/-- The streams of a connection go on to be listed, with the same decoded
headers. -/
def Conn.Survives (conn conn' : Conn X) (pointer : StreamPtr) : Prop :=
  ∀ stream, conn.listed pointer = some stream →
    ∃ stream', conn'.listed pointer = some stream' ∧
      ∀ hpack, stream.hpack = some hpack →
        ∃ hpack', stream'.hpack = some hpack' ∧ hpack'.object = hpack.object

section Survival

variable {env : Env X} {conn conn' : Conn X}

theorem touch_stream {stream : StreamPtr} :
    conn.touch (.stream stream) = conn ↔ (conn.listed stream).isSome := by
  refine ⟨isSome_listed_of_touch, fun isListed => ?_⟩
  rcases Option.isSome_iff_exists.mp isListed with ⟨present, found⟩
  simp [Conn.touch, Holding.owner, found]

theorem touch_headers {stream : StreamPtr} {object : Nat} :
    conn.touch (.headers stream object) = conn ↔
      ∃ present hpack, conn.listed stream = some present ∧ present.hpack = some hpack ∧
        hpack.object = object := by
  cases found : conn.listed stream with
  | none => simp [Conn.touch, Holding.owner, found, log_ne]
  | some present =>
      cases headers : present.hpack with
      | none => simp [Conn.touch, Holding.owner, found, headers, log_ne]
      | some hpack =>
          by_cases same : hpack.object = object
          · simp [Conn.touch, Holding.owner, found, headers, same]
          · simp [Conn.touch, Holding.owner, found, headers, same, log_ne]

/-- What survives can still be used. -/
theorem Conn.Survives.touch {holding : Holding} (survives : conn.Survives conn' holding.owner)
    (owned : conn.touch holding = conn) : conn'.touch holding = conn' := by
  cases holding with
  | stream stream =>
      rcases Option.isSome_iff_exists.mp (touch_stream.mp owned) with ⟨present, found⟩
      rcases survives present found with ⟨present', found', -⟩
      exact touch_stream.mpr (Option.isSome_iff_exists.mpr ⟨present', found'⟩)
  | headers stream object =>
      rcases touch_headers.mp owned with ⟨present, hpack, found, headers, same⟩
      rcases survives present found with ⟨present', found', kept⟩
      rcases kept hpack headers with ⟨hpack', headers', same'⟩
      exact touch_headers.mpr ⟨present', hpack', found', headers', same'.trans same⟩

theorem survives_of_listed {pointer : StreamPtr}
    (same : conn'.listed pointer = conn.listed pointer) : conn.Survives conn' pointer :=
  fun stream found => ⟨stream, same.trans found, fun hpack headers => ⟨hpack, headers, rfl⟩⟩

theorem Conn.Survives.trans {conn'' : Conn X} {pointer : StreamPtr}
    (first : conn.Survives conn' pointer) (second : conn'.Survives conn'' pointer) :
    conn.Survives conn'' pointer := by
  intro stream found
  rcases first stream found with ⟨stream', found', kept⟩
  rcases second stream' found' with ⟨stream'', found'', kept'⟩
  refine ⟨stream'', found'', fun hpack headers => ?_⟩
  rcases kept hpack headers with ⟨hpack', headers', same⟩
  rcases kept' hpack' headers' with ⟨hpack'', headers'', same'⟩
  exact ⟨hpack'', headers'', same'.trans same⟩

/-- A change of streams that their objects and headers survive. -/
structure KeepsHeaders (change : Http2Stream X → Http2Stream X) : Prop where
  object : ∀ before, (change before).object = before.object
  headers : ∀ before hpack, before.hpack = some hpack →
    ∃ hpack', (change before).hpack = some hpack' ∧ hpack'.object = hpack.object

theorem SameFlow.keepsHeaders {change : Http2Stream X → Http2Stream X}
    (same : ∀ before, SameFlow before (change before)) : KeepsHeaders change :=
  ⟨fun before => (same before).object, fun before => (same before).headers⟩

/-- A change that leaves the decoded headers alone. -/
theorem keepsHeaders_of_eq {change : Http2Stream X → Http2Stream X}
    (object : ∀ before, (change before).object = before.object)
    (headers : ∀ before, (change before).hpack = before.hpack) : KeepsHeaders change :=
  ⟨object, fun before hpack present => ⟨hpack, (headers before).trans present, rfl⟩⟩

namespace Conn.Survives

variable {pointer : StreamPtr}

theorem refl (conn : Conn X) (pointer : StreamPtr) : conn.Survives conn pointer :=
  fun stream found => ⟨stream, found, fun hpack headers => ⟨hpack, headers, rfl⟩⟩

theorem assign (survives : conn.Survives conn' pointer)
    {change : Http2Stream X → Http2Stream X} (keeps : KeepsHeaders change) (stream : StreamPtr) :
    conn.Survives (conn'.assign stream change) pointer := by
  refine survives.trans fun present found => ?_
  rw [listed_assign keeps.object, found]
  split
  · exact ⟨change present, rfl, keeps.headers present⟩
  · exact ⟨present, rfl, fun hpack headers => ⟨hpack, headers, rfl⟩⟩

theorem modifyStream (survives : conn.Survives conn' pointer)
    {change : Http2Stream X → Http2Stream X} (keeps : KeepsHeaders change) (streamInd : Nat) :
    conn.Survives (conn'.modifyStream streamInd change) pointer := by
  refine survives.trans fun present found => ?_
  rw [listed_modifyStream keeps.object, found]
  split
  · exact ⟨change present, rfl, keeps.headers present⟩
  · exact ⟨present, rfl, fun hpack headers => ⟨hpack, headers, rfl⟩⟩

theorem log (survives : conn.Survives conn' pointer) (event : Event) :
    conn.Survives (conn'.log event) pointer :=
  survives

theorem httpSend (survives : conn.Survives conn' pointer) (env : Env X)
    (frames : List SentFrame) (sender : Option StreamPtr) :
    conn.Survives (conn'.httpSend env frames sender).1 pointer := by
  rw [httpSend_fst]
  exact survives

theorem sendWindowUpdate (survives : conn.Survives conn' pointer) (env : Env X)
    (streamInd increment : Nat) :
    conn.Survives (conn'.sendWindowUpdate env streamInd increment) pointer := by
  unfold Conn.sendWindowUpdate
  dsimp only
  split
  · split
    · exact survives
    · exact ((survives.log _).httpSend env _ _).modifyStream
        (by exact keepsHeaders_of_eq (fun _ => rfl) fun _ => rfl) _
  · exact (survives.log _).httpSend env _ _

theorem receiveData (survives : conn.Survives conn' pointer) (env : Env X)
    (streamInd payloadLen : Nat) :
    conn.Survives (conn'.receiveData env streamInd payloadLen) pointer := by
  have taken : conn.Survives (conn'.takeData streamInd payloadLen) pointer := by
    exact survives.modifyStream (by exact keepsHeaders_of_eq (fun _ => rfl) fun _ => rfl) streamInd
  unfold Conn.receiveData
  dsimp only
  split
  · split
    · exact taken.sendWindowUpdate env _ _
    · exact taken
  · exact taken

theorem createStream (survives : conn.Survives conn' pointer) (env : Env X) {streamInd : Nat}
    (fresh : conn'.streamList[streamInd]? = none) :
    conn.Survives (conn'.createStream env streamInd) pointer := by
  refine survives.trans fun stream found => ?_
  refine ⟨stream, ?_, fun hpack headers => ⟨hpack, headers, rfl⟩⟩
  rw [listed_createStream fresh, if_neg, found]
  rintro rfl
  simp [Conn.listed, fresh] at found

theorem reserve (survives : conn.Survives conn' pointer) (streamInd : Nat) :
    conn.Survives (conn'.reserve streamInd) pointer := by
  unfold Conn.reserve
  split
  · exact (survives.assign (by exact keepsHeaders_of_eq (fun _ => rfl) fun _ => rfl) _).log _
  · exact survives

end Conn.Survives

/-- A step that everything in use survives leaves it owned. -/
theorem Conn.Owned.survive (owned : conn.Owned) (held : conn'.held = conn.held)
    (survives : ∀ holding ∈ conn.held, conn.Survives conn' holding.owner) : conn'.Owned := by
  intro holding member
  rw [held] at member
  exact (survives holding member).touch (owned holding member)

theorem not_inUse {stream : StreamPtr} (unused : conn.inUse stream = false) {holding : Holding}
    (member : holding ∈ conn.held) : holding.owner ≠ stream := by
  intro same
  have used : conn.inUse stream = true := List.any_eq_true.mpr ⟨holding, member, by simp [same]⟩
  rw [unused] at used
  cases used

@[simp]
theorem held_receiveData (streamInd payloadLen : Nat) :
    (conn.receiveData env streamInd payloadLen).held = conn.held := by
  unfold Conn.receiveData
  dsimp only
  split
  · split
    · exact held_sendWindowUpdate env _ streamInd _
    · rfl
  · rfl

/-- Decoded headers that are not in use can be cleared. -/
theorem Conn.Owned.clear (owned : conn.Owned) {stream : StreamPtr}
    (spares : ∀ event ∈ (conn.clearHpack stream).trace, event.Spares) :
    (conn.clearHpack stream).Owned := by
  have object (before : Http2Stream X) : ({ before with hpack := none } : Http2Stream X).object =
      before.object := rfl
  have unused : Event.Spares (.cleared stream _) :=
    spares _ (List.mem_append_right _ List.mem_cons_self)
  simp only [Event.Spares] at unused
  intro holding member
  have before : holding ∈ conn.held := by simpa [Conn.clearHpack] using member
  cases holding with
  | stream other =>
      refine touch_stream.mpr ?_
      rw [← touch_stream.mp (owned _ before)]
      exact isSome_listed_assign rfl object
  | headers other number =>
      have differs : other ≠ stream := by
        rintro rfl
        have used := List.any_eq_false.mp unused _ before
        simp at used
      have same : (conn.clearHpack stream).listed other = conn.listed other := by
        refine (listed_assign object).trans ?_
        rw [if_neg differs]
      exact (survives_of_listed same).touch (owned _ before)

/-- A step leaves owned what is in use, if what goes away is not in use. -/
theorem Step.owned (step : Step env conn conn') (owned : conn.Owned)
    (spares : ∀ event ∈ conn'.trace, event.Spares) : conn'.Owned := by
  have untouched (pointer : StreamPtr) : conn.Survives conn pointer := .refl conn pointer
  cases step with
  | note event plain => exact owned.survive rfl fun _ _ => untouched _
  | assign stream change same =>
      exact owned.survive (held_assign conn stream change) fun _ _ =>
        (untouched _).assign (SameFlow.keepsHeaders same) stream
  | modify streamInd change same =>
      exact owned.survive rfl fun _ _ =>
        (untouched _).modifyStream (SameFlow.keepsHeaders same) streamInd
  | members nullEntry pushedRequest pushedResponse =>
      exact owned.survive rfl fun _ _ => untouched _
  | parse _ stream field len code parsed =>
      refine owned.survive (held_hpackParse parsed) fun _ _ => ?_
      rcases Outcome.bind_eq_ok.mp parsed with ⟨result, _, rest⟩
      cases rest
      refine (untouched _).assign ⟨?_, ?_⟩ stream
      · exact fun _ => rfl
      · exact fun before hpack present => ⟨_, rfl, by simp [present]⟩
  | control frames isControl =>
      exact owned.survive (held_httpSend env conn frames none) fun _ _ =>
        (untouched _).httpSend env frames none
  | sendRstStream stream listed =>
      refine owned.survive (by simp [Conn.sendRstStream]) fun _ _ => ?_
      exact ((untouched _).httpSend env _ _).assign
        (by exact keepsHeaders_of_eq (fun _ => rfl) fun _ => rfl) stream
  | sendHeader _ streamInd text frameType promisedStreamInd ret kind sent =>
      refine owned.survive (held_transHttp1SendHttp2Header sent) fun _ _ => ?_
      rcases transHttp1SendHttp2Header_eq_ok sent with rfl | ⟨stream, payload, head, _, rfl⟩
      · exact untouched _
      · exact ((untouched _).httpSend env _ _).modifyStream
          (by exact keepsHeaders_of_eq (fun _ => rfl) fun _ => rfl) streamInd
  | sendEmptyContent _ streamInd ret sent =>
      refine owned.survive (held_sendHttp2EmptyContent sent) fun _ _ => ?_
      rcases sendHttp2EmptyContent_eq_ok sent with rfl | ⟨stream, padding, _, _, _, rfl⟩
      · exact untouched _
      · exact ((untouched _).httpSend env _ _).modifyStream
          (by exact keepsHeaders_of_eq (fun _ => rfl) fun _ => rfl) streamInd
  | sendData _ stream rest ret pre held sent =>
      refine owned.survive (held_sendData sent) fun _ _ => ?_
      rcases sendData_eq_ok sent with ⟨sender, succeeds, _, _, _, rfl⟩
      cases succeeds with
      | false => exact ((untouched _).log _).log _
      | true =>
          exact (((untouched _).log _).log _).assign
            (by exact keepsHeaders_of_eq (fun _ => rfl) fun _ => rfl) stream
  | create streamInd positive fresh =>
      exact owned.survive rfl fun _ _ => (untouched _).createStream env fresh
  | promise streamInd positive fresh =>
      exact owned.survive (by simp) fun _ _ =>
        ((untouched _).createStream env fresh).reserve streamInd
  | erase stream listed =>
      have unused : conn.inUse stream = false :=
        spares _ (List.mem_append_right _ List.mem_cons_self)
      refine owned.survive rfl fun holding member => survives_of_listed ?_
      rw [listed_eraseStream listed, if_neg (not_inUse unused member)]
  | reset stream =>
      refine owned.survive (by simp) fun holding member => ?_
      cases found : conn.listed stream with
      | none =>
          simp only [Conn.resetStream, found]
          exact untouched _
      | some reset =>
          have unused : conn.inUse stream = false := by
            refine spares (.reset stream (conn.inUse stream)) ?_
            simp [Conn.resetStream, found]
          refine survives_of_listed ?_
          rw [listed_resetStream, if_neg (not_inUse unused member)]
  | clear stream => exact owned.clear spares
  | opens stream listed =>
      exact owned.survive (by simp [Conn.openStream]) fun _ _ =>
        ((untouched _).assign (by exact keepsHeaders_of_eq (fun _ => rfl) fun _ => rfl) stream).log _
  | ends stream held =>
      exact owned.survive (by simp [Conn.endStream]) fun _ _ =>
        ((untouched _).assign (by exact keepsHeaders_of_eq (fun _ => rfl) fun _ => rfl) stream).log _
  | setting setting payload first =>
      refine owned.survive (held_applySetting conn _ _) fun _ _ => survives_of_listed ?_
      refine listed_congr ?_ _
      unfold Conn.receiveSetting Conn.applySetting
      dsimp only
      split_ifs <;> rfl
  | windowUpdate streamInd winSize payload increment =>
      refine owned.survive (by simp) fun _ _ => ?_
      unfold Conn.receiveWindowUpdate
      dsimp only
      split_ifs
      · exact untouched _
      · exact untouched _
      · exact ((untouched _).log _).modifyStream
          (by exact keepsHeaders_of_eq (fun _ => rfl) fun _ => rfl) streamInd
  | data streamInd payloadLen =>
      refine owned.survive ?_ fun _ _ => ?_
      · rw [held_sendWindowUpdate, held_receiveData]
      exact ((untouched _).receiveData env _ _).sendWindowUpdate env _ _
  | headersEnd stream method =>
      refine owned.survive (by simp) fun _ _ => survives_of_listed ?_
      unfold Conn.noteHeadersEnd
      split <;> rfl
  | pushed stream contentLength stored complete =>
      refine owned.survive (by simp) fun _ _ => survives_of_listed ?_
      unfold Conn.notePushed
      split <;> rfl
  | header header => exact owned.survive rfl fun _ _ => untouched _
  | hold holding isOwned =>
      intro other member
      have same (pointer : StreamPtr) : conn.Survives (conn.hold holding) pointer := untouched pointer
      rcases List.mem_cons.mp member with rfl | isOther
      · exact (same _).touch isOwned
      · exact (same _).touch (owned other isOther)
  | release =>
      intro other member
      have same (pointer : StreamPtr) : conn.Survives conn.release pointer := untouched pointer
      exact (same _).touch (owned other (List.mem_of_mem_tail member))
  | touch holding held =>
      rw [owned holding held]
      exact owned

/-- The prefaces are sent for no stream. -/
theorem usesOwned_start (pushPromise : Bool) :
    Throughout Ledger.apply UsesOwned .start (Conn.start env pushPromise).trace := by
  refine usesOwned_of_listed fun event member => ?_
  have unsent : ∀ (succeeds : Bool) (frame : SentFrame), event = .sending succeeds none frame →
      UsesOwned .start event ∧
        ∀ stream inUse, event ≠ .erased stream inUse ∧ event ≠ .reset stream inUse := by
    rintro succeeds frame rfl
    refine ⟨?_, Event.sending_stays succeeds _ _⟩
    cases succeeds <;> trivial
  simp only [Conn.start, Conn.sendInitialWindowSize, httpSend_fst, Conn.sendServerPreface,
    sending_eq, List.map_cons, List.map_nil, List.mem_append, List.mem_singleton] at member
  rcases member with before | rfl
  · split at before
    · simp only [Conn.new, List.nil_append, List.mem_singleton] at before
      exact unsent _ _ before
    · simp only [Conn.sendWindowUpdate, Conn.getStreamInstance, lt_irrefl, if_false, httpSend_fst,
        trace_log, sending_eq, List.map_cons, List.map_nil, List.mem_append, List.mem_singleton,
        Conn.new, List.nil_append] at before
      rcases before with (before | rfl) | before
      · exact unsent _ _ before
      · exact ⟨trivial, by simp⟩
      · exact unsent _ _ before
  · exact unsent _ _ rfl

/-- As long as what goes away is not in use, everything in use is owned. -/
theorem Run.owned (run : Run env conn) (spares : ∀ event ∈ conn.trace, event.Spares) :
    conn.Owned ∧ Throughout Ledger.apply UsesOwned .start conn.trace := by
  induction run with
  | start pushPromise exchanged =>
      refine ⟨fun holding member => ?_, usesOwned_start pushPromise⟩
      have nothing : (Conn.start env pushPromise).held = [] := by
        simp only [Conn.start, Conn.sendInitialWindowSize, held_httpSend]
        split <;> simp [Conn.sendServerPreface, Conn.new]
      rw [nothing] at member
      cases member
  | step conn conn' run once ih =>
      rcases once.notes run.told.bounded with ⟨events, happens, trace, -⟩
      have earlier : ∀ event ∈ conn.trace, event.Spares := fun event member =>
        spares event (trace ▸ List.mem_append_left _ member)
      rcases ih earlier with ⟨owned, uses⟩
      refine ⟨once.owned owned spares, ?_⟩
      rw [run.told.2] at happens
      rw [trace]
      exact throughout_append.mpr ⟨uses, happens.usesOwned (not_not.mpr owned)⟩

end Survival

/-- As long as nothing in use is taken away, no code uses a pointer to what is gone and
no frame is sent for a stream that is gone. -/
theorem usesOwned_of_spares {env : Env X} {machine : Machine (Turn X) Int}
    (reachable : Reachable env machine)
    (spares : ∀ event ∈ machine.state.conn.trace, event.Spares) :
    Throughout Ledger.apply UsesOwned .start machine.state.conn.trace :=
  (reachable.run.owned spares).2

theorem usesOwned_of_spares_short :
    Throughout Ledger.apply UsesOwned .start
      (afterFrames (plainEnv true [1, 2, 3]) true [some (getRequest 1)]).state.conn.trace := by
  have spares : ∀ event ∈ (afterFrames (plainEnv true [1, 2, 3]) true
      [some (getRequest 1)]).state.conn.trace, event.Spares := by
    rw [trace_short]
    decide +kernel
  have uses := usesOwned_of_spares
    (reachable_afterFrames (plainEnv true [1, 2, 3]) true [some (getRequest 1)] (.inl rfl))
  exact uses spares

/-- A stream is reset while its response waits for a window. -/
theorem trace_reset :
    (afterFrames (plainEnv true [1, 2]) true
      [some (⟨6, FrameType.settings, Flag.unset, 0⟩, [0, 4, 0, 0, 0, 0]), some (getRequest 1),
        some (⟨4, FrameType.rstStream, Flag.unset, 1⟩, [0, 0, 0, 0]), none]).state.conn.trace =
      [.sent ⟨6, 4, 0, 0, [0, 3, 0, 0, 0, 101]⟩ none,
        .sent ⟨6, 4, 0, 0, [0, 4, 127, 255, 255, 255]⟩ none,
        .received ⟨6, 4, 0, 0⟩ [0, 4, 0, 0, 0, 0], .settings 4 0 [0, 4, 0, 0, 0, 0],
        .sent ⟨0, 4, 1, 0, []⟩ none, .returned 6, .received ⟨2, 1, 5, 1⟩ [130, 132],
        .created ⟨1, 0⟩ 0 2147483647, .opened ⟨1, 0⟩,
        .field ⟨.indexed, 2, [58, 109, 101, 116, 104, 111, 100], [71, 69, 84]⟩,
        .line ⟨1, 0⟩ [71, 69, 84, 32, 47, 32, 72, 84, 84, 80, 47, 49, 46, 49, 13, 10],
        .field ⟨.indexed, 4, [58, 112, 97, 116, 104], [47]⟩,
        .headersEnd ⟨1, 0⟩ .get, .response ⟨1, 0⟩, .sent ⟨1, 1, 4, 1, [136]⟩ (some ⟨1, 0⟩),
        .building ⟨1, 0⟩ 2 16384 0,
        .sent ⟨9, 0, 8, 1, [8, 0, 0, 0, 0, 0, 0, 0, 0]⟩ (some ⟨1, 0⟩),
        .received ⟨4, 3, 0, 1⟩ [0, 0, 0, 0], .reset ⟨1, 0⟩ true, .returned 4,
        .stale (.stream ⟨1, 0⟩), .building ⟨1, 0⟩ 2 16384 0,
        .sent ⟨9, 0, 8, 1, [8, 0, 0, 0, 0, 0, 0, 0, 0]⟩ (some ⟨1, 0⟩),
        .stale (.stream ⟨1, 0⟩)] := by
  decide +kernel

/-- The response goes on to use the stream and to send for it. -/
theorem not_usesOwned_reset :
    ¬Throughout Ledger.apply UsesOwned .start
      (afterFrames (plainEnv true [1, 2]) true
        [some (⟨6, FrameType.settings, Flag.unset, 0⟩, [0, 4, 0, 0, 0, 0]), some (getRequest 1),
          some (⟨4, FrameType.rstStream, Flag.unset, 1⟩, [0, 0, 0, 0]),
          none]).state.conn.trace := by
  rw [trace_reset]
  decide

end Http2

end HeapHttpd
