import HeapHttpd.Http1.PostData

/-!
# What a request hands to CGI

`CHttp::Response` hands the body of a request, and its length as CONTENT_LENGTH, to
`m_cgi`.  The body is in one of two places, and the length always is that of the first.
The octets of a file that a long `fbuffer` spills to are those it was given.
-/

namespace HeapHttpd

namespace Http1

open General

variable {X : Type}

/-- `WebCGI`, less the variables that do not depend on the body. -/
structure WebCGI where
  contentLength : List UInt8
  data : List UInt8
  dataLen : Nat
  deriving DecidableEq, Repr

/-- `WebCGI::SetData`. -/
def WebCGI.setData (cgi : WebCGI) (data : List UInt8) (len : Nat) : WebCGI :=
  { cgi with data, dataLen := len % 2 ^ 32 }

/-- `WebCGI::SetMeta` of CONTENT_LENGTH with the length of `m_postdata`. -/
def WebCGI.setContentLength (cgi : WebCGI) (postdata : List UInt8) : WebCGI :=
  { cgi with contentLength := sprintfD ((postdata.length : Int).bmod (2 ^ 32)) }

/-- The octets a consumer of `m_cgi` reads. -/
def WebCGI.handed (cgi : WebCGI) : List UInt8 :=
  cgi.data.take cgi.dataLen

/-- What `CHttp::Response` does with `m_cgi`.  It has no result where `m_postdata_ex` is
NULL. -/
def CHttp.responseData (http1 : CHttp X) (cgi : WebCGI) : Option (CHttp X × WebCGI) :=
  if http1.httpState = .response then
    let responding := { http1 with httpState := .responding }
    match http1.contentType with
    | .multipartFormData =>
        match http1.postdataEx with
        | none => none
        | some postdataEx =>
            some (responding,
              (cgi.setData postdataEx postdataEx.length).setContentLength http1.postdata)
    | .applicationXWwwFormUrlencoded =>
        some (responding,
          (cgi.setContentLength http1.postdata).setData http1.postdata http1.postdata.length)
  else some (http1, cgi)

/-- A request that has passed its authentication. -/
def CHttp.authenticated (http1 : CHttp X) : CHttp X :=
  { http1 with httpState := .response }

/-- The body is handed to `m_cgi` with its length, and no buffer is missing. -/
def HandsBody (http1 : CHttp X) (cgi : WebCGI) (body : List UInt8) : Prop :=
  ∃ responding prepared, http1.authenticated.responseData cgi = some (responding, prepared) ∧
    prepared.contentLength = sprintfD prepared.dataLen ∧ prepared.handed = body

/-- A read of less than was asked for did not wait until a time-out cut it off. -/
def Counted (length : Int) (sock : LineSock) : Prop :=
  length ≤ sock.octets.length ∨ sock.ending ≠ some .silent ∨ sock.arriving.flatten = []

/-- The octets pushed with each frame find the form within its limit. -/
def WithinLimit : Nat → List (List UInt8) → Prop
  | _, [] => True
  | stored, buf :: frames =>
      (buf = [] ∨ stored ≤ maxApplicationXWwwFormUrlencodedLen) ∧
        WithinLimit (stored + buf.length) frames

/-- `CHttp::PushPostData` for the octets of each frame. -/
def CHttp.pushed (http1 : CHttp X) (frames : List (List UInt8)) : CHttp X :=
  frames.foldl (fun http1 buf => (pushPostData buf { http1 with httpState := .reqData }).1) http1

theorem sprintfD_zero_eq_iff {number : Nat} : sprintfD 0 = sprintfD number ↔ number = 0 := by
  rw [show sprintfD 0 = Decimal.digits 0 from sprintfD_natCast 0, sprintfD_natCast,
    Decimal.digits_inj, eq_comm]

section Prepared

variable {http1 : CHttp X} {cgi : WebCGI} {body : List UInt8}

/-- A form is handed as it is stored. -/
theorem handsBody_form_iff (form : http1.contentType = .applicationXWwwFormUrlencoded)
    (short : http1.postdata.length < 2 ^ 31) :
    HandsBody http1 cgi body ↔ http1.postdata = body := by
  have unwrapped : http1.postdata.length % 2 ^ 32 = http1.postdata.length := by omega
  have isInt : ((http1.postdata.length : Int)).bmod (2 ^ 32) = http1.postdata.length := by
    simp only [Int.bmod]
    omega
  rw [HandsBody, CHttp.responseData, if_pos (by rfl)]
  simp only [CHttp.authenticated, form]
  constructor
  case mp =>
    rintro ⟨responding, prepared, isPrepared, -, isBody⟩
    cases isPrepared
    rwa [WebCGI.handed, WebCGI.setData, unwrapped, List.take_length] at isBody
  case mpr =>
    intro isBody
    refine ⟨_, _, rfl, ?_, ?_⟩
    · simp only [WebCGI.setData, WebCGI.setContentLength, unwrapped, isInt]
    · rwa [WebCGI.handed, WebCGI.setData, unwrapped, List.take_length]

/-- A missing buffer is dereferenced. -/
theorem not_handsBody_of_missing (multipart : http1.contentType = .multipartFormData)
    (missing : http1.postdataEx = none) : ¬HandsBody http1 cgi body := by
  rintro ⟨responding, prepared, isPrepared, -⟩
  rw [CHttp.responseData, if_pos (by rfl)] at isPrepared
  simp only [CHttp.authenticated, multipart, missing] at isPrepared
  cases isPrepared

/-- Multipart data is handed with the length of a form that is empty. -/
theorem handsBody_multipart_iff {postdataEx : List UInt8}
    (multipart : http1.contentType = .multipartFormData)
    (stored : http1.postdataEx = some postdataEx) (noForm : http1.postdata = []) :
    HandsBody http1 cgi body ↔ postdataEx.length % 2 ^ 32 = 0 ∧ body = [] := by
  rw [HandsBody, CHttp.responseData, if_pos (by rfl)]
  simp only [CHttp.authenticated, multipart, stored, noForm]
  constructor
  case mp =>
    rintro ⟨responding, prepared, isPrepared, sameLength, isBody⟩
    cases isPrepared
    have zero := sprintfD_zero_eq_iff.mp sameLength
    refine ⟨zero, isBody.symm.trans ?_⟩
    rw [WebCGI.handed, zero, List.take_zero]
  case mpr =>
    rintro ⟨zero, isBody⟩
    refine ⟨_, _, rfl, sprintfD_zero_eq_iff.mpr zero, ?_⟩
    rw [isBody, WebCGI.handed]
    simp only [WebCGI.setData, WebCGI.setContentLength, zero, List.take_zero]

end Prepared

/-! ## The synchronous build -/

section Sync

variable {http1 : CHttp X} {cgi : WebCGI} {length : Int} {sock left : LineSock}
  {current : CHttp X} {taken : List UInt8} {count : Nat}

theorem drecv_of_lt (few : sock.octets.length < count)
    (read : sock.drecv count = some (taken, left)) :
    sock.ending = some .closed ∧ taken = sock.octets ∨
      sock.ending = some .silent ∧ taken = sock.recvBuf := by
  rw [LineSock.octets, List.length_append] at few
  have short : ¬count - sock.recvBuf.length ≤
      (recvSegments (count - sock.recvBuf.length) sock.arriving).1.length := by
    rw [recvSegments_taken, List.length_take]
    omega
  simp only [LineSock.drecv, if_neg (show ¬count ≤ sock.recvBuf.length by omega),
    if_neg short] at read
  cases ended : sock.ending with
  | none =>
      rw [ended] at read
      cases read
  | some ending =>
      rw [ended] at read
      cases ending with
      | silent =>
          cases read
          exact .inr ⟨rfl, rfl⟩
      | closed =>
          cases read
          refine .inl ⟨rfl, ?_⟩
          rw [recvSegments_taken, List.take_of_length_le (by omega), LineSock.octets]

/-- The read of a form gives its octets exactly when no time-out cuts them off. -/
theorem taken_drecv (read : sock.drecv length.toNat = some (taken, left)) :
    taken.length ≤ (sock.octets.take length.toNat).length ∧
      (taken = sock.octets.take length.toNat ↔ Counted length sock) := by
  rcases Nat.lt_or_ge sock.octets.length length.toNat with few | enough
  · have whole := List.take_of_length_le (Nat.le_of_lt few)
    have short : ¬length ≤ sock.octets.length := by omega
    rw [whole, Counted]
    rcases drecv_of_lt few read with ⟨closed, rfl⟩ | ⟨silent, rfl⟩
    · simp [closed]
    · refine ⟨?_, ?_⟩
      · rw [LineSock.octets, List.length_append]
        exact Nat.le_add_right _ _
      · rw [LineSock.octets, List.self_eq_append_right, ← LineSock.octets]
        simp [silent, short]
  · obtain ⟨_, readAll, -⟩ := @LineSock.drecv_of_le length.toNat sock enough
    rw [readAll] at read
    cases read
    exact ⟨Nat.le_refl _, by simp [Counted, show length ≤ sock.octets.length by omega]⟩

theorem cString_eq_iff {text : List UInt8} : cString text = text ↔ 0 ∉ text := by
  constructor
  case mp =>
    intro same nul
    have shorter := length_cString_lt nul
    rw [same] at shorter
    exact Nat.lt_irrefl _ shorter
  case mpr => exact cString_of_nulFree

/-- A form in the synchronous build. -/
theorem sync_form_iff
    (parsed : (http1.awaiting length .applicationXWwwFormUrlencoded).dataParse sock =
      some (current, left)) (reached : current.httpState = .authentication) :
    HandsBody current cgi (sock.octets.take length.toNat) ↔
      sock.octets.take length.toNat = [] ∨
        length < maxApplicationXWwwFormUrlencodedLen ∧ 0 ∉ sock.octets.take length.toNat ∧
          Counted length sock := by
  rw [CHttp.dataParse] at parsed
  split at parsed
  · cases parsed
    cases reached
  · rw [CHttp.recvPostData] at parsed
    simp only [CHttp.awaiting, List.nil_append] at parsed
    by_cases nothing : length ≤ 0
    · simp only [nothing, if_true] at parsed
      cases parsed
      rw [handsBody_form_iff (by rfl) (by exact Nat.two_pow_pos 31)]
      simp [show length.toNat = 0 by omega]
    · simp only [nothing, if_false] at parsed
      by_cases short : length < maxApplicationXWwwFormUrlencodedLen
      · simp only [short, if_true] at parsed
        cases read : sock.drecv length.toNat with
        | none =>
            rw [read] at parsed
            cases parsed
        | some result =>
            obtain ⟨taken, next⟩ := result
            rw [read] at parsed
            cases parsed
            obtain ⟨within, whole⟩ := taken_drecv read
            have cut := (List.takeWhile_prefix (l := taken) (· ≠ 0)).length_le
            have bounded := List.length_take_le length.toNat sock.octets
            have small : maxApplicationXWwwFormUrlencodedLen < 2 ^ 31 := by decide
            rw [handsBody_form_iff (by rfl) (show (cString taken).length < 2 ^ 31 by
              rw [cString]; omega)]
            show cString taken = _ ↔ _
            constructor
            case mp =>
              intro same
              have full : taken = cString taken := by
                refine ((List.takeWhile_prefix _).eq_of_length ?_).symm
                rw [cString] at same
                have := congrArg List.length same
                omega
              refine .inr ⟨short, ?_, whole.mp (full.trans same)⟩
              rw [← same, ← cString_eq_iff, ← full, ← full]
            case mpr =>
              rintro (empty | ⟨-, nulFree, counted⟩)
              · have noneTaken : taken = [] := by
                  rw [empty] at within
                  exact List.eq_nil_of_length_eq_zero (Nat.le_zero.mp within)
                rw [empty, noneTaken]
                rfl
              · rw [whole.mpr counted, cString_of_nulFree nulFree]
      · simp only [short, if_false] at parsed
        cases parsed
        rw [handsBody_form_iff (by rfl) (by exact Nat.two_pow_pos 31), eq_comm]
        exact (or_iff_left fun limited => short limited.1).symm

/-- Multipart data in the synchronous build. -/
theorem sync_multipart_iff
    (parsed : (http1.awaiting length .multipartFormData).dataParse sock = some (current, left))
    (reached : current.httpState = .authentication) :
    HandsBody current cgi (sock.octets.take length.toNat) ↔
      0 < length ∧ sock.octets.take length.toNat = [] := by
  rw [CHttp.dataParse] at parsed
  split at parsed
  · cases parsed
    cases reached
  · rw [CHttp.recvPostData] at parsed
    simp only [CHttp.awaiting, Option.getD_none] at parsed
    by_cases nothing : length ≤ 0
    · simp only [nothing, if_true] at parsed
      cases parsed
      have missing : ¬HandsBody { http1.awaiting length .multipartFormData with
          httpState := .authentication } cgi (sock.octets.take length.toNat) :=
        not_handsBody_of_missing rfl rfl
      exact iff_of_false missing fun positive => by omega
    · simp only [nothing, if_false] at parsed
      cases loop : recvMultipart length (sock.octets.length + 1) 0 [] sock with
      | none =>
          rw [loop] at parsed
          cases parsed
      | some result =>
          obtain ⟨postdataEx, next⟩ := result
          rw [loop] at parsed
          cases parsed
          rw [@handsBody_multipart_iff _ _ _ _ postdataEx (by rfl) rfl rfl]
          constructor
          case mp => exact fun hands => ⟨by omega, hands.2⟩
          case mpr =>
            rintro ⟨-, empty⟩
            refine ⟨?_, empty⟩
            have noOctets : sock.octets = [] :=
              (List.take_eq_nil_iff.mp empty).resolve_left (by omega)
            rw [noOctets, List.length_nil, recvMultipart, if_neg (by omega)] at loop
            cases read : sock.drecv (min 1448 (length - 0)).toNat with
            | none =>
                rw [read] at loop
                cases loop
            | some result =>
                obtain ⟨rbuf, after⟩ := result
                obtain ⟨within, -⟩ := taken_drecv read
                rw [noOctets, List.take_nil, List.length_nil, Nat.le_zero] at within
                have noneRead := List.eq_nil_of_length_eq_zero within
                subst noneRead
                rw [read] at loop
                cases loop
                rfl

end Sync

/-! ## The asynchronous build -/

section Async

variable {http1 : CHttp X} {cgi : WebCGI} {length : Int} {current : CHttp X × List UInt8}
  {segment : List UInt8} {segments : List (List UInt8)}

/-- What stays true of a form while it comes. -/
structure FormCame (length : Int) (http1 : CHttp X) : Prop where
  contentLength : http1.contentLength = length
  contentType : http1.contentType = .applicationXWwwFormUrlencoded
  nulFree : 0 ∉ http1.postdata
  nothing : length ≤ 0 → http1.postdata = []
  reached : http1.httpState = .authentication → 0 < length →
    (http1.postdata.length : Int) = length ∧ length < maxApplicationXWwwFormUrlencodedLen

/-- What stays true of multipart data while they come. -/
structure MultipartCame (length : Int) (http1 : CHttp X) : Prop where
  contentLength : http1.contentLength = length
  contentType : http1.contentType = .multipartFormData
  noForm : http1.postdata = []
  missing : length ≤ 0 → http1.postdataEx = none
  reached : http1.httpState = .authentication → 0 < length →
    ∃ postdataEx, http1.postdataEx = some postdataEx ∧
      (postdataEx.length % 2 ^ 32 : Nat) = length

theorem FormCame.wakeup (came : FormCame length current.1) :
    FormCame length (CHttp.wakeup current segment).1 := by
  unfold CHttp.wakeup CHttp.asyncReqData
  by_cases waiting : current.1.httpState = .reqData
  · simp only [if_pos waiting, CHttp.asyncRecvPostData, came.contentType, came.contentLength]
    by_cases positive : 0 < length
    · simp only [if_pos positive]
      by_cases short : length < maxApplicationXWwwFormUrlencodedLen
      · simp only [if_pos short]
        set postdata := current.1.postdata ++ cString (asyncHttpRecv
          (length - current.1.postdata.length).toNat (current.2 ++ segment)).1 with isPostdata
        have grown : 0 ∉ postdata := by
          rw [isPostdata, List.mem_append, not_or]
          exact ⟨came.nulFree, nulFree_cString _⟩
        split
        · rename_i full
          exact ⟨rfl, rfl, grown, by omega, fun _ _ => ⟨full, short⟩⟩
        · exact ⟨rfl, rfl, grown, by omega, by simp [waiting]⟩
      · simp only [if_neg short]
        exact came
    · simp only [if_neg positive]
      exact ⟨rfl, rfl, came.nulFree, came.nothing, fun _ holds => absurd holds positive⟩
  · simp only [if_neg waiting]
    exact came

theorem MultipartCame.wakeup (came : MultipartCame length current.1) :
    MultipartCame length (CHttp.wakeup current segment).1 := by
  unfold CHttp.wakeup CHttp.asyncReqData
  by_cases waiting : current.1.httpState = .reqData
  · simp only [if_pos waiting, CHttp.asyncRecvPostData, came.contentType, came.contentLength]
    by_cases positive : 0 < length
    · simp only [if_pos positive]
      split
      · rename_i full
        exact ⟨rfl, rfl, came.noForm, by omega, fun _ _ => ⟨_, rfl, full⟩⟩
      · exact ⟨rfl, rfl, came.noForm, by omega, by simp [waiting]⟩
    · simp only [if_neg positive]
      exact ⟨rfl, rfl, came.noForm, came.missing, fun _ holds => absurd holds positive⟩
  · simp only [if_neg waiting]
    exact came

theorem FormCame.foldl_wakeup (came : FormCame length current.1) :
    FormCame length (segments.foldl CHttp.wakeup current).1 := by
  induction segments generalizing current with
  | nil => exact came
  | cons segment segments ih => exact ih came.wakeup

theorem MultipartCame.foldl_wakeup (came : MultipartCame length current.1) :
    MultipartCame length (segments.foldl CHttp.wakeup current).1 := by
  induction segments generalizing current with
  | nil => exact came
  | cons segment segments ih => exact ih came.wakeup

variable {stream : List UInt8} {delivery : Delivery stream}

theorem formCame_asyncReceived (count : Nat) :
    FormCame length (delivery.asyncReceived count
      (http1.awaiting length .applicationXWwwFormUrlencoded)).1 := by
  rw [delivery.asyncReceived_eq_foldl]
  exact FormCame.foldl_wakeup ⟨rfl, rfl, List.not_mem_nil, fun _ => rfl, by intro reached; cases reached⟩

theorem multipartCame_asyncReceived (count : Nat) :
    MultipartCame length (delivery.asyncReceived count
      (http1.awaiting length .multipartFormData)).1 := by
  rw [delivery.asyncReceived_eq_foldl]
  exact MultipartCame.foldl_wakeup ⟨rfl, rfl, rfl, fun _ => rfl, by intro reached; cases reached⟩

/-- A form in the asynchronous build. -/
theorem async_form_iff
    (reached : (delivery.asyncReceived delivery.segments.length
      (http1.awaiting length .applicationXWwwFormUrlencoded)).1.httpState = .authentication) :
    HandsBody (delivery.asyncReceived delivery.segments.length
        (http1.awaiting length .applicationXWwwFormUrlencoded)).1 cgi
        (stream.take length.toNat) ↔
      0 ∉ stream.take length.toNat := by
  have came := @formCame_asyncReceived _ http1 length _ delivery delivery.segments.length
  have small : maxApplicationXWwwFormUrlencodedLen < 2 ^ 31 := by decide
  by_cases positive : 0 < length
  · obtain ⟨whole, short⟩ := came.reached reached positive
    rw [handsBody_form_iff came.contentType (by omega)]
    constructor
    case mp =>
      intro same
      rw [← same]
      exact came.nulFree
    case mpr =>
      intro nulFree
      have behind := @Delivery.asyncReceived_eq _ _ delivery http1 length
        .applicationXWwwFormUrlencoded (by omega) (.inr ⟨short, nulFree⟩)
        delivery.segments.length
      rw [delivery.come_all] at behind
      have isWhole : length ≤ stream.length := by
        by_contra few
        have notReached := @reached_behind _ http1 length .applicationXWwwFormUrlencoded stream
        rw [← behind, Http1.reached, if_pos reached, behindBody, if_neg few] at notReached
        cases notReached
      rw [behind, CHttp.behind, if_pos (by exact isWhole), CHttp.withBody,
        if_neg (by exact Int.ne_of_gt positive)]
      rfl
  · have noBody : stream.take length.toNat = [] := by
      rw [show length.toNat = 0 by omega, List.take_zero]
    have noForm := came.nothing (by omega)
    rw [handsBody_form_iff came.contentType (by rw [noForm]; exact Nat.two_pow_pos 31), noForm,
      noBody]
    simp

/-- Multipart data in the asynchronous build. -/
theorem not_async_multipart
    (reached : (delivery.asyncReceived delivery.segments.length
      (http1.awaiting length .multipartFormData)).1.httpState = .authentication) :
    ¬HandsBody (delivery.asyncReceived delivery.segments.length
      (http1.awaiting length .multipartFormData)).1 cgi (stream.take length.toNat) := by
  have came := @multipartCame_asyncReceived _ http1 length _ delivery delivery.segments.length
  by_cases positive : 0 < length
  · obtain ⟨postdataEx, stored, whole⟩ := came.reached reached positive
    rw [handsBody_multipart_iff came.contentType stored came.noForm]
    omega
  · exact not_handsBody_of_missing came.contentType (came.missing (by omega))

end Async

/-! ## A stream of HTTP/2 -/

section Pushed

variable {http1 : CHttp X} {cgi : WebCGI} {frames : List (List UInt8)}

theorem length_cString_le (text : List UInt8) : (cString text).length ≤ text.length :=
  (List.takeWhile_prefix _).length_le

/-- A form is stored with all its octets exactly when no frame has a NUL and each finds it
within its limit. -/
theorem pushed_form (form : http1.contentType = .applicationXWwwFormUrlencoded) :
    (http1.pushed frames).contentType = .applicationXWwwFormUrlencoded ∧
      (http1.pushed frames).postdata.length ≤ http1.postdata.length + frames.flatten.length ∧
      ((http1.pushed frames).postdata = http1.postdata ++ frames.flatten ↔
        0 ∉ frames.flatten ∧ WithinLimit http1.postdata.length frames) := by
  induction frames generalizing http1 with
  | nil => simp [CHttp.pushed, form, WithinLimit]
  | cons buf frames ih =>
      rw [show http1.pushed (buf :: frames) =
        (pushPostData buf { http1 with httpState := .reqData }).1.pushed frames from rfl]
      simp only [pushPostData, form, List.flatten_cons, List.length_append, WithinLimit,
        List.mem_append, not_or]
      by_cases limited : maxApplicationXWwwFormUrlencodedLen < http1.postdata.length
      · simp only [if_pos limited]
        obtain ⟨sameType, bounded, whole⟩ := @ih
          { http1 with httpState := .reqData, contentType := .applicationXWwwFormUrlencoded } rfl
        simp only at bounded whole
        refine ⟨sameType, by omega, ?_⟩
        constructor
        case mp =>
          intro same
          have noneLost : buf = [] := by
            have lengths := congrArg List.length same
            simp only [List.length_append] at lengths bounded
            exact List.eq_nil_of_length_eq_zero (by omega)
          subst noneLost
          obtain ⟨nulFree, within⟩ := whole.mp same
          exact ⟨⟨List.not_mem_nil, nulFree⟩, .inl rfl, within⟩
        case mpr =>
          rintro ⟨⟨-, nulFree⟩, empty | fits, within⟩
          · subst empty
            exact whole.mpr ⟨nulFree, within⟩
          · omega
      · simp only [if_neg limited]
        have cut := length_cString_le buf
        obtain ⟨sameType, bounded, whole⟩ := @ih
          { http1 with
            httpState := .reqData
            contentType := .applicationXWwwFormUrlencoded
            postdata := http1.postdata ++ cString buf } rfl
        simp only [List.length_append] at bounded whole
        refine ⟨sameType, by omega, ?_⟩
        constructor
        case mp =>
          intro same
          have nulFree : 0 ∉ buf := by
            intro nul
            have shorter := length_cString_lt nul
            have lengths := congrArg List.length same
            simp only [List.length_append] at lengths
            omega
          rw [cString_of_nulFree nulFree, List.append_assoc] at whole
          rw [cString_of_nulFree nulFree] at same
          obtain ⟨restNulFree, within⟩ := whole.mp same
          exact ⟨⟨nulFree, restNulFree⟩, .inr (Nat.not_lt.mp limited), within⟩
        case mpr =>
          rintro ⟨⟨nulFree, restNulFree⟩, -, within⟩
          rw [cString_of_nulFree nulFree, List.append_assoc] at whole
          rw [cString_of_nulFree nulFree]
          exact whole.mpr ⟨restNulFree, within⟩

/-- A form is not stored beyond one frame more than its limit. -/
theorem length_pushed_form (form : http1.contentType = .applicationXWwwFormUrlencoded)
    {bound : Nat} (isFrame : ∀ buf ∈ frames, buf.length ≤ bound)
    (within : http1.postdata.length ≤ maxApplicationXWwwFormUrlencodedLen + bound) :
    (http1.pushed frames).postdata.length ≤ maxApplicationXWwwFormUrlencodedLen + bound := by
  induction frames generalizing http1 with
  | nil => exact within
  | cons buf frames ih =>
      have cut := length_cString_le buf
      have bufBound := isFrame buf List.mem_cons_self
      rw [show http1.pushed (buf :: frames) =
        (pushPostData buf { http1 with httpState := .reqData }).1.pushed frames from rfl]
      have restFrames (other : List UInt8) (member : other ∈ frames) :=
        isFrame other (List.mem_cons_of_mem _ member)
      simp only [pushPostData, form]
      split
      · exact ih rfl restFrames within
      · refine ih rfl restFrames ?_
        simp only [List.length_append]
        omega

/-- Multipart data are stored with all their octets once there is a frame. -/
theorem pushed_multipart (multipart : http1.contentType = .multipartFormData) :
    (http1.pushed frames).contentType = .multipartFormData ∧
      (http1.pushed frames).postdata = http1.postdata ∧
      (http1.pushed frames).postdataEx =
        if frames = [] then http1.postdataEx
        else some (http1.postdataEx.getD [] ++ frames.flatten) := by
  induction frames generalizing http1 with
  | nil => exact ⟨multipart, rfl, rfl⟩
  | cons buf frames ih =>
      rw [show http1.pushed (buf :: frames) =
        (pushPostData buf { http1 with httpState := .reqData }).1.pushed frames from rfl]
      simp only [pushPostData, multipart]
      obtain ⟨sameType, sameForm, stored⟩ := @ih
        { http1 with
          httpState := .reqData
          contentType := .multipartFormData
          postdataEx := some (http1.postdataEx.getD [] ++ buf) } rfl
      refine ⟨sameType, sameForm, ?_⟩
      rw [stored, if_neg (List.cons_ne_nil _ _)]
      split
      · rename_i last
        rw [last, List.flatten_cons, List.flatten_nil, List.append_nil]
      · rw [List.flatten_cons, Option.getD_some, List.append_assoc]

/-- A form of a stream of HTTP/2. -/
theorem http2_form_iff {length : Int} (isFrame : ∀ buf ∈ frames, buf.length < 2 ^ 24) :
    HandsBody ((http1.awaiting length .applicationXWwwFormUrlencoded).pushed frames) cgi
        frames.flatten ↔
      0 ∉ frames.flatten ∧ WithinLimit 0 frames := by
  obtain ⟨sameType, -, whole⟩ := @pushed_form _
    (http1.awaiting length .applicationXWwwFormUrlencoded) frames rfl
  have short := @length_pushed_form _ (http1.awaiting length .applicationXWwwFormUrlencoded)
    frames rfl (2 ^ 24) (fun buf member => Nat.le_of_lt (isFrame buf member)) (Nat.zero_le _)
  have small : maxApplicationXWwwFormUrlencodedLen = 2 ^ 22 := by decide
  rw [handsBody_form_iff sameType (by omega)]
  exact whole

/-- Multipart data of a stream of HTTP/2. -/
theorem http2_multipart_iff {length : Int} :
    HandsBody ((http1.awaiting length .multipartFormData).pushed frames) cgi frames.flatten ↔
      frames ≠ [] ∧ frames.flatten = [] := by
  obtain ⟨sameType, noForm, stored⟩ := @pushed_multipart _
    (http1.awaiting length .multipartFormData) frames rfl
  by_cases noFrame : frames = []
  · rw [if_pos noFrame] at stored
    exact iff_of_false (not_handsBody_of_missing sameType stored) fun some => some.1 noFrame
  · rw [if_neg noFrame] at stored
    rw [handsBody_multipart_iff sameType stored noForm]
    constructor
    case mp => exact fun hands => ⟨noFrame, hands.2⟩
    case mpr =>
      rintro ⟨-, empty⟩
      exact ⟨by rw [empty]; rfl, empty⟩

end Pushed

/-! ## Every request -/

/-- The requests of the synchronous build whose body is handed. -/
def SyncSuits (length : Int) (sock : LineSock) : PostContentType → Prop
  | .applicationXWwwFormUrlencoded =>
      sock.octets.take length.toNat = [] ∨
        length < maxApplicationXWwwFormUrlencodedLen ∧ 0 ∉ sock.octets.take length.toNat ∧
          Counted length sock
  | .multipartFormData => 0 < length ∧ sock.octets.take length.toNat = []

/-- The requests of the asynchronous build whose body is handed. -/
def AsyncSuits (length : Int) (stream : List UInt8) : PostContentType → Prop
  | .applicationXWwwFormUrlencoded => 0 ∉ stream.take length.toNat
  | .multipartFormData => False

/-- The requests of HTTP/2 whose body is handed. -/
def Http2Suits (frames : List (List UInt8)) : PostContentType → Prop
  | .applicationXWwwFormUrlencoded => 0 ∉ frames.flatten ∧ WithinLimit 0 frames
  | .multipartFormData => frames ≠ [] ∧ frames.flatten = []

section Requests

variable {http1 : CHttp X} {cgi : WebCGI} {length : Int} {type : PostContentType}

theorem handsBody_iff :
    (∀ sock current left, (http1.awaiting length type).dataParse sock = some (current, left) →
        current.httpState = .authentication →
          (HandsBody current cgi (sock.octets.take length.toNat) ↔ SyncSuits length sock type)) ∧
      (∀ stream (delivery : Delivery stream),
        let current :=
          (delivery.asyncReceived delivery.segments.length (http1.awaiting length type)).1
        current.httpState = .authentication →
          (HandsBody current cgi (stream.take length.toNat) ↔ AsyncSuits length stream type)) ∧
      ∀ frames : List (List UInt8), (∀ buf ∈ frames, buf.length < 2 ^ 24) →
        (HandsBody ((http1.awaiting length type).pushed frames) cgi frames.flatten ↔
          Http2Suits frames type) := by
  cases type with
  | applicationXWwwFormUrlencoded =>
      exact ⟨fun _ _ _ => sync_form_iff, fun _ _ => async_form_iff, fun _ => http2_form_iff⟩
  | multipartFormData =>
      exact ⟨fun _ _ _ => sync_multipart_iff,
        fun _ _ reached => iff_of_false (not_async_multipart reached) id,
        fun _ _ => http2_multipart_iff⟩

/-- A form of two octets in both builds and in a frame. -/
theorem handsBody_form :
    let http1 := (CHttp.new ()).awaiting 2 .applicationXWwwFormUrlencoded
    HandsBody (http1.withBody [0x61, 0x3d]) ⟨[], [], 0⟩ [0x61, 0x3d] ∧
      HandsBody ((⟨[0x61], [[0x3d]], rfl⟩ : Delivery [0x61, 0x3d]).asyncReceived 1 http1).1
        ⟨[], [], 0⟩ [0x61, 0x3d] ∧
      HandsBody (http1.pushed [[0x61, 0x3d]]) ⟨[], [], 0⟩ [0x61, 0x3d] :=
  have iffs := @handsBody_iff _ (CHttp.new ()) ⟨[], [], 0⟩ 2 .applicationXWwwFormUrlencoded
  ⟨(iffs.1 ⟨[0x61, 0x3d], [], some .closed⟩ _ _ rfl rfl).mpr
      (.inr ⟨by decide, by decide, .inl (by decide)⟩),
    (iffs.2.1 _ ⟨[0x61], [[0x3d]], rfl⟩ rfl).mpr (show 0 ∉ [0x61, 0x3d] by decide),
    (iffs.2.2 [[0x61, 0x3d]] (by decide)).mpr ⟨by decide, .inr (Nat.zero_le _), trivial⟩⟩

/-- Multipart data without a body, and with one octet. -/
theorem not_handsBody :
    (∃ current left,
      ((CHttp.new ()).awaiting 0 .multipartFormData).dataParse ⟨[], [], some .closed⟩ =
          some (current, left) ∧
        current.httpState = .authentication ∧ ¬HandsBody current ⟨[], [], 0⟩ []) ∧
      ∃ current left,
        ((CHttp.new ()).awaiting 1 .multipartFormData).dataParse ⟨[0x61], [], some .closed⟩ =
            some (current, left) ∧
          current.httpState = .authentication ∧ ¬HandsBody current ⟨[], [], 0⟩ [0x61] := by
  refine ⟨⟨_, _, rfl, rfl, not_handsBody_of_missing rfl rfl⟩, _, _, rfl, rfl, ?_⟩
  rw [@handsBody_multipart_iff _ _ _ _ [0x61] (by rfl) rfl rfl]
  exact fun hands => List.cons_ne_nil _ _ hands.2

end Requests

end Http1

end HeapHttpd
