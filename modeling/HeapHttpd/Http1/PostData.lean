import HeapHttpd.Http1.CHttp
import HeapHttpd.Http1.LineSock

/-!
# The body of a request

How both builds read a body behind a blank line, from `http.cpp`.  The
synchronous build reads until the body is there, the asynchronous one takes what
has come whenever it is woken up.
-/

namespace HeapHttpd

namespace Http1

open General

variable {X : Type}

/-- The loop of `CHttp::RecvPostData` over multipart data, where `nRecv` is an
`int`. -/
def recvMultipart (length : Int) :
    Nat → Int → List UInt8 → LineSock → Option (List UInt8 × LineSock)
  | 0, _, _, _ => none
  | passes + 1, nRecv, postdataEx, sock =>
      if nRecv = length then some (postdataEx, sock)
      else
        match sock.drecv (min 1448 (length - nRecv)).toNat with
        | none => none
        | some (rbuf, sock) =>
            if rbuf.isEmpty then some (postdataEx, sock)
            else
              recvMultipart length passes ((nRecv + rbuf.length).bmod (2 ^ 32))
                (postdataEx ++ rbuf) sock

/-- `CHttp::RecvPostData` on a socket. -/
def CHttp.recvPostData (http1 : CHttp X) (sock : LineSock) : Option (CHttp X × LineSock) :=
  let http1' := { http1 with httpState := .authentication }
  if http1.contentLength ≤ 0 then some (http1', sock)
  else
    match http1.contentType with
    | .applicationXWwwFormUrlencoded =>
        if http1.contentLength < maxApplicationXWwwFormUrlencodedLen then
          match sock.drecv http1.contentLength.toNat with
          | none => none
          | some (postData, sock) =>
              some ({ http1' with postdata := http1.postdata ++ cString postData }, sock)
        else some (http1', sock)
    | .multipartFormData =>
        match recvMultipart http1.contentLength (sock.octets.length + 1) 0
            (http1.postdataEx.getD []) sock with
        | none => none
        | some (postdataEx, sock) => some ({ http1' with postdataEx := some postdataEx }, sock)

/-- `CHttp::DataParse` of the synchronous build, up to the response.  It answers
a negative length itself. -/
def CHttp.dataParse (http1 : CHttp X) (sock : LineSock) : Option (CHttp X × LineSock) :=
  if http1.contentLength < 0 then some (http1, sock) else http1.recvPostData sock

/-- The loop of `CHttp::AsyncRecvPostData` over multipart data. -/
def asyncRecvMultipart (length : Int) :
    Nat → List UInt8 → List UInt8 → List UInt8 × List UInt8
  | 0, postdataEx, asyncRecvBuf => (postdataEx, asyncRecvBuf)
  | passes + 1, postdataEx, asyncRecvBuf =>
      let count := (min 4095 (length - (postdataEx.length % 2 ^ 32 : Nat))).toNat
      let (rbuf, left) := asyncHttpRecv count asyncRecvBuf
      if rbuf.isEmpty then (postdataEx, asyncRecvBuf)
      else asyncRecvMultipart length passes (postdataEx ++ rbuf) left

/-- `CHttp::AsyncRecvPostData`, with `m_async_recv_buf`. -/
def CHttp.asyncRecvPostData (http1 : CHttp X) (asyncRecvBuf : List UInt8) :
    CHttp X × List UInt8 :=
  if 0 < http1.contentLength then
    match http1.contentType with
    | .applicationXWwwFormUrlencoded =>
        if http1.contentLength < maxApplicationXWwwFormUrlencodedLen then
          let count := (http1.contentLength - http1.postdata.length).toNat
          let (postData, left) := asyncHttpRecv count asyncRecvBuf
          let postdata := http1.postdata ++ cString postData
          if postdata.length = http1.contentLength then
            ({ http1 with postdata, httpState := .authentication }, left)
          else ({ http1 with postdata }, left)
        else (http1, asyncRecvBuf)
    | .multipartFormData =>
        let (postdataEx, left) := asyncRecvMultipart http1.contentLength
          (asyncRecvBuf.length + 1) (http1.postdataEx.getD []) asyncRecvBuf
        if (postdataEx.length % 2 ^ 32 : Nat) = http1.contentLength then
          ({ http1 with postdataEx := some postdataEx, httpState := .authentication }, left)
        else ({ http1 with postdataEx := some postdataEx }, left)
  else if http1.contentLength = 0 then
    ({ http1 with httpState := .authentication }, asyncRecvBuf)
  else (http1, asyncRecvBuf)

/-- What `CHttp::AsyncProcessing` does while it waits for a body. -/
def CHttp.asyncReqData (http1 : CHttp X) (asyncRecvBuf : List UInt8) : CHttp X × List UInt8 :=
  if http1.httpState = .reqData then
    if 0 < http1.contentLength then http1.asyncRecvPostData asyncRecvBuf
    else ({ http1 with httpState := .authentication }, asyncRecvBuf)
  else (http1, asyncRecvBuf)

/-- A wakeup for one segment. -/
def CHttp.wakeup (current : CHttp X × List UInt8) (segment : List UInt8) :
    CHttp X × List UInt8 :=
  current.1.asyncReqData (current.2 ++ segment)

/-- A request behind its blank line. -/
def CHttp.awaiting (http1 : CHttp X) (length : Int) (type : PostContentType) : CHttp X :=
  { http1 with
    httpState := .reqData
    contentType := type
    contentLength := length
    postdata := []
    postdataEx := none }

/-- How a stream comes: what is in the buffer when the blank line is read, and
the segments behind it. -/
structure Delivery (stream : List UInt8) where
  early : List UInt8
  segments : List (List UInt8)
  whole : early ++ segments.flatten = stream

namespace Delivery

variable {stream : List UInt8}

/-- What has come of a stream with some of its segments. -/
def come (delivery : Delivery stream) (count : Nat) : List UInt8 :=
  delivery.early ++ (delivery.segments.take count).flatten

/-- The socket with some of the segments. -/
def sock (delivery : Delivery stream) (count : Nat) (ending : Option Ending) : LineSock :=
  { recvBuf := delivery.early, arriving := delivery.segments.take count, ending }

/-- The synchronous build behind some of the segments, once it does not wait any
more. -/
def received (delivery : Delivery stream) (count : Nat) (ending : Option Ending)
    (http1 : CHttp X) : Option (CHttp X × LineSock) :=
  http1.dataParse (delivery.sock count ending)

/-- The asynchronous build behind some of the segments. -/
def asyncReceived (delivery : Delivery stream) (count : Nat) (http1 : CHttp X) :
    CHttp X × List UInt8 :=
  (delivery.segments.take count).foldl CHttp.wakeup (http1.asyncReqData delivery.early)

end Delivery

/-- What a connection still holds when a request is at its authentication. -/
def reached (http1 : CHttp X) (left : List UInt8) : Option (List UInt8) :=
  if http1.httpState = .authentication then some left else none

/-- What is behind a declared body, once it is there. -/
def behindBody (length : Int) (come : List UInt8) : Option (List UInt8) :=
  if length ≤ come.length then some (come.drop length.toNat) else none

/-- Both builds are at the authentication exactly when the declared body has come,
have taken it and nothing else, and end with the same data. -/
structure SamePostData {stream : List UInt8} (sync async : Delivery stream) (ending : Ending)
    (http1 : CHttp X) : Prop where
  sync_exact : ∀ count, ((sync.received count none http1).bind fun current =>
    reached current.1 current.2.octets) = behindBody http1.contentLength (sync.come count)
  sync_ended : ((sync.received sync.segments.length (some ending) http1).bind fun current =>
    reached current.1 current.2.octets) = behindBody http1.contentLength stream
  async_exact : ∀ count, reached (async.asyncReceived count http1).1
    (async.asyncReceived count http1).2 = behindBody http1.contentLength (async.come count)
  same : ∀ current, sync.received sync.segments.length (some ending) http1 = some current →
    let last := (async.asyncReceived async.segments.length http1).1
    current.1.postdata = last.postdata ∧ current.1.postdataEx = last.postdataEx

/-- Neither build meets a limit of its own or a NUL in such a body. -/
def Readable (length : Int) (type : PostContentType) (stream : List UInt8) : Prop :=
  length = 0 ∨
    match type with
    | .applicationXWwwFormUrlencoded =>
        length < maxApplicationXWwwFormUrlencodedLen ∧ 0 ∉ stream.take length.toNat
    | .multipartFormData => length < 2 ^ 31

/-- The bodies that both builds can receive. -/
def Receivable (length : Int) (type : PostContentType) (stream : List UInt8) : Prop :=
  0 ≤ length ∧ length ≤ stream.length ∧ Readable length type stream

/-! ## Reading a body in the synchronous build -/

section Multipart

variable {length nRecv : Int} {passes : Nat} {postdataEx : List UInt8} {sock : LineSock}

/-- The loop reads to the end of a body that is there. -/
theorem recvMultipart_of_le (small : length < 2 ^ 31) (notNegative : 0 ≤ nRecv)
    (within : nRecv ≤ length) (enough : length - nRecv ≤ sock.octets.length)
    (patient : length - nRecv < passes) :
    ∃ left, recvMultipart length passes nRecv postdataEx sock =
        some (postdataEx ++ sock.octets.take (length - nRecv).toNat, left) ∧
      left.octets = sock.octets.drop (length - nRecv).toNat := by
  induction passes generalizing nRecv postdataEx sock with
  | zero => omega
  | succ passes ih =>
      rw [recvMultipart]
      by_cases atEnd : nRecv = length
      · exact ⟨sock, by simp [atEnd], by simp [atEnd]⟩
      · set count := (min 1448 (length - nRecv)).toNat with isCount
        obtain ⟨left, read, leftOctets, -⟩ :=
          @LineSock.drecv_of_le count sock (by omega)
        have taken : (sock.octets.take count).length = count := by
          rw [List.length_take]
          omega
        have some_read : (sock.octets.take count).isEmpty = false := by
          rw [List.isEmpty_eq_false_iff, ← List.length_pos_iff_ne_nil, taken]
          omega
        have wrapped : (nRecv + (count : Int)).bmod (2 ^ 32) = nRecv + count := by
          simp only [Int.bmod]
          omega
        have leftLength : left.octets.length = sock.octets.length - count := by
          rw [leftOctets, List.length_drop]
        obtain ⟨last, loop, lastOctets⟩ := @ih (nRecv + count)
          (postdataEx ++ sock.octets.take count) left (by omega) (by omega) (by omega)
          (by omega)
        have split : (length - nRecv).toNat = count + (length - (nRecv + count)).toNat := by
          omega
        refine ⟨last, ?_, ?_⟩
        · rw [if_neg atEnd, read]
          simp only [some_read, Bool.false_eq_true, if_false, taken, wrapped]
          rw [loop, leftOctets, split, List.take_add, List.append_assoc]
        · rw [lastOctets, leftOctets, List.drop_drop, split]

/-- The loop waits for a body that is not there yet. -/
theorem recvMultipart_eq_none (small : length < 2 ^ 31) (notNegative : 0 ≤ nRecv)
    (few : sock.octets.length < length - nRecv) (pending : sock.ending = none) :
    recvMultipart length passes nRecv postdataEx sock = none := by
  induction passes generalizing nRecv postdataEx sock with
  | zero => rfl
  | succ passes ih =>
      rw [recvMultipart, if_neg (by omega)]
      set count := (min 1448 (length - nRecv)).toNat with isCount
      rcases Nat.lt_or_ge sock.octets.length count with short | long
      · rw [sock.drecv_eq_none short pending]
      · obtain ⟨left, read, leftOctets, leftEnding⟩ := sock.drecv_of_le long
        have taken : (sock.octets.take count).length = count := by
          rw [List.length_take]
          omega
        have wrapped : (nRecv + (count : Int)).bmod (2 ^ 32) = nRecv + count := by
          simp only [Int.bmod]
          omega
        have some_read : (sock.octets.take count).isEmpty = false := by
          rw [List.isEmpty_eq_false_iff, ← List.length_pos_iff_ne_nil, taken]
          omega
        have leftLength : left.octets.length = sock.octets.length - count := by
          rw [leftOctets, List.length_drop]
        rw [read]
        simp only [some_read, Bool.false_eq_true, if_false, taken, wrapped]
        exact ih (by omega) (by omega) (leftEnding.trans pending)

/-- The counter of the loop never is a length that is no `int`. -/
theorem recvMultipart_long (large : 2 ^ 31 ≤ length) (isInt : nRecv < 2 ^ 31)
    (pending : sock.ending = none) :
    recvMultipart length passes nRecv postdataEx sock = none := by
  induction passes generalizing nRecv postdataEx sock with
  | zero => rfl
  | succ passes ih =>
      rw [recvMultipart, if_neg (by omega)]
      set count := (min 1448 (length - nRecv)).toNat with isCount
      rcases Nat.lt_or_ge sock.octets.length count with short | long
      · rw [sock.drecv_eq_none short pending]
      · obtain ⟨left, read, leftOctets, leftEnding⟩ := sock.drecv_of_le long
        have some_read : (sock.octets.take count).isEmpty = false := by
          rw [List.isEmpty_eq_false_iff, ← List.length_pos_iff_ne_nil, List.length_take]
          omega
        rw [read]
        simp only [some_read, Bool.false_eq_true, if_false]
        exact ih (by simp only [Int.bmod]; omega) (leftEnding.trans pending)

/-- The loop comes to an end behind the last segment. -/
theorem recvMultipart_of_ended {ending : Ending} (ended : sock.ending = some ending)
    (patient : sock.octets.length < passes) :
    ∃ current, recvMultipart length passes nRecv postdataEx sock = some current := by
  induction passes generalizing nRecv postdataEx sock with
  | zero => omega
  | succ passes ih =>
      rw [recvMultipart]
      split
      · exact ⟨_, rfl⟩
      · set count := (min 1448 (length - nRecv)).toNat with isCount
        rcases Nat.lt_or_ge sock.octets.length count with short | long
        · obtain ⟨taken, left, read, takenLength, leftOctets, leftEnding⟩ :=
            sock.drecv_of_ended short ended
          rw [read]
          simp only
          by_cases nothing : taken.isEmpty
          · exact ⟨_, by rw [if_pos nothing]⟩
          · rw [if_neg nothing]
            have takes : 0 < taken.length := by
              rw [List.length_pos_iff_ne_nil]
              simpa using nothing
            exact ih leftEnding (by rw [leftOctets, List.length_nil]; omega)
        · obtain ⟨left, read, leftOctets, leftEnding⟩ := sock.drecv_of_le long
          rw [read]
          simp only
          by_cases nothing : (sock.octets.take count).isEmpty
          · exact ⟨_, by rw [if_pos nothing]⟩
          · rw [if_neg nothing]
            have takes : 0 < (sock.octets.take count).length := by
              rw [List.length_pos_iff_ne_nil]
              simpa using nothing
            rw [List.length_take] at takes
            have leftLength : left.octets.length = sock.octets.length - count := by
              rw [leftOctets, List.length_drop]
            exact ih (leftEnding.trans ended) (by omega)

/-- The loop takes from the buffer first. -/
theorem recvBuf_recvMultipart {whole : List UInt8} {left : LineSock}
    (loop : recvMultipart length passes nRecv postdataEx sock = some (whole, left)) :
    ∃ taken, whole = postdataEx ++ taken ∧ left.recvBuf = sock.recvBuf.drop taken.length := by
  induction passes generalizing nRecv postdataEx sock with
  | zero => cases loop
  | succ passes ih =>
      rw [recvMultipart] at loop
      split at loop
      · cases loop
        exact ⟨[], by simp⟩
      · cases read : sock.drecv (min 1448 (length - nRecv)).toNat with
        | none =>
            rw [read] at loop
            cases loop
        | some result =>
            obtain ⟨rbuf, next⟩ := result
            rw [read] at loop
            simp only at loop
            split at loop
            · rename_i nothing
              cases loop
              rw [LineSock.recvBuf_drecv read, List.isEmpty_iff.mp nothing]
              exact ⟨[], by simp⟩
            · obtain ⟨taken, isWhole, isLeft⟩ := ih loop
              refine ⟨rbuf ++ taken, by rw [isWhole, List.append_assoc], ?_⟩
              rw [isLeft, LineSock.recvBuf_drecv read, List.drop_drop, List.length_append]

end Multipart

/-- A request at its authentication, with its body. -/
def CHttp.withBody (http1 : CHttp X) (body : List UInt8) : CHttp X :=
  if http1.contentLength = 0 then { http1 with httpState := .authentication }
  else
    match http1.contentType with
    | .applicationXWwwFormUrlencoded =>
        { http1 with httpState := .authentication, postdata := body }
    | .multipartFormData =>
        { http1 with httpState := .authentication, postdataEx := some body }

section Sync

variable {http1 : CHttp X} {length : Int} {type : PostContentType} {sock : LineSock}

/-- A body that is there is read as one string of octets is. -/
theorem recvPostData_of_le (enough : length ≤ sock.octets.length)
    (small : type = .multipartFormData → length < 2 ^ 31) :
    ∃ left, (http1.awaiting length type).recvPostData sock =
        some ((recvPostData sock.octets (http1.awaiting length type)).1, left) ∧
      left.octets = (recvPostData sock.octets (http1.awaiting length type)).2 := by
  by_cases nothing : length ≤ 0
  · exact ⟨sock, by simp [CHttp.recvPostData, recvPostData, CHttp.awaiting, nothing],
      by simp [recvPostData, CHttp.awaiting, nothing]⟩
  · cases type with
    | applicationXWwwFormUrlencoded =>
        by_cases short : length < maxApplicationXWwwFormUrlencodedLen
        · obtain ⟨left, read, leftOctets, -⟩ :=
            @LineSock.drecv_of_le length.toNat sock (by omega)
          refine ⟨left, ?_, ?_⟩
          · simp [CHttp.recvPostData, recvPostData, CHttp.awaiting, nothing, short, read]
          · simp [recvPostData, CHttp.awaiting, nothing, short, leftOctets]
        · exact ⟨sock, by simp [CHttp.recvPostData, recvPostData, CHttp.awaiting, nothing, short],
            by simp [recvPostData, CHttp.awaiting, nothing, short]⟩
    | multipartFormData =>
        obtain ⟨left, loop, leftOctets⟩ := @recvMultipart_of_le _ _
          (sock.octets.length + 1) [] _ (small rfl) (Int.le_refl 0) (by omega)
          (show length - 0 ≤ sock.octets.length by omega) (by omega)
        simp only [Int.sub_zero, List.nil_append] at loop leftOctets
        refine ⟨left, ?_, ?_⟩
        · simp [CHttp.recvPostData, recvPostData, CHttp.awaiting, nothing, loop]
        · simp [recvPostData, CHttp.awaiting, nothing, leftOctets]

/-- What one string of octets gives for a body that can be received. -/
theorem recvPostData_of_receivable {come : List UInt8}
    (receivable : Receivable length type come) :
    recvPostData come (http1.awaiting length type) =
      ((http1.awaiting length type).withBody (come.take length.toNat),
        come.drop length.toNat) := by
  obtain ⟨notNegative, enough, readable⟩ := receivable
  by_cases nothing : length = 0
  · simp [recvPostData, CHttp.withBody, CHttp.awaiting, nothing]
  · have positive : ¬length ≤ 0 := by omega
    have readable := readable.resolve_left nothing
    cases type with
    | applicationXWwwFormUrlencoded =>
        obtain ⟨short, nulFree⟩ := readable
        simp [recvPostData, CHttp.withBody, CHttp.awaiting, nothing, positive, short,
          cString_of_nulFree nulFree]
    | multipartFormData =>
        simp [recvPostData, CHttp.withBody, CHttp.awaiting, nothing, positive]

theorem dataParse_awaiting (notNegative : 0 ≤ length) :
    (http1.awaiting length type).dataParse sock =
      (http1.awaiting length type).recvPostData sock :=
  if_neg (Int.not_lt.mpr notNegative)

/-- The synchronous build reads a body that can be received, and only it. -/
theorem dataParse_of_receivable (receivable : Receivable length type sock.octets) :
    ∃ left, (http1.awaiting length type).dataParse sock =
        some ((http1.awaiting length type).withBody (sock.octets.take length.toNat), left) ∧
      left.octets = sock.octets.drop length.toNat := by
  have small : type = .multipartFormData → length < 2 ^ 31 := by
    rintro rfl
    rcases receivable.2.2 with nothing | small
    · omega
    · exact small
  obtain ⟨left, read, leftOctets⟩ :=
    @recvPostData_of_le _ http1 _ _ _ receivable.2.1 small
  rw [recvPostData_of_receivable receivable] at read leftOctets
  exact ⟨left, (dataParse_awaiting receivable.1).trans read, leftOctets⟩

/-- The synchronous build waits for a body that is not there yet. -/
theorem dataParse_eq_none (few : sock.octets.length < length) (pending : sock.ending = none)
    (short : type = .applicationXWwwFormUrlencoded →
      length < maxApplicationXWwwFormUrlencodedLen) :
    (http1.awaiting length type).dataParse sock = none := by
  have positive : ¬length ≤ 0 := by omega
  rw [dataParse_awaiting (by omega), CHttp.recvPostData]
  cases type with
  | applicationXWwwFormUrlencoded =>
      have read := @LineSock.drecv_eq_none length.toNat sock (by omega) pending
      simp [CHttp.awaiting, positive, short rfl, read]
  | multipartFormData =>
      have loop : recvMultipart length (sock.octets.length + 1) 0 [] sock = none := by
        rcases Int.lt_or_le length (2 ^ 31) with small | large
        · exact recvMultipart_eq_none small (Int.le_refl 0) (by omega) pending
        · exact recvMultipart_long large (by omega) pending
      simp [CHttp.awaiting, positive, loop]

/-- Behind the last segment the synchronous build goes on to the authentication. -/
theorem dataParse_of_ended {ending : Ending} (notNegative : 0 ≤ length)
    (ended : sock.ending = some ending) :
    ∃ current left, (http1.awaiting length type).dataParse sock = some (current, left) ∧
      current.httpState = .authentication := by
  rw [dataParse_awaiting notNegative, CHttp.recvPostData]
  by_cases nothing : length ≤ 0
  · exact ⟨_, sock, if_pos nothing, rfl⟩
  · rw [if_neg (show ¬(http1.awaiting length type).contentLength ≤ 0 from nothing)]
    cases type with
    | applicationXWwwFormUrlencoded =>
        by_cases short : length < maxApplicationXWwwFormUrlencodedLen
        · obtain ⟨taken, left, read⟩ :
              ∃ taken left, sock.drecv length.toNat = some (taken, left) := by
            rcases Nat.lt_or_ge sock.octets.length length.toNat with few | enough
            · obtain ⟨taken, left, read, -⟩ := sock.drecv_of_ended few ended
              exact ⟨taken, left, read⟩
            · obtain ⟨left, read, -⟩ := sock.drecv_of_le enough
              exact ⟨_, left, read⟩
          exact ⟨_, left, by simp [CHttp.awaiting, short, read]; rfl, rfl⟩
        · exact ⟨_, sock, by simp [CHttp.awaiting, short]; rfl, rfl⟩
    | multipartFormData =>
        obtain ⟨current, loop⟩ := @recvMultipart_of_ended length 0 _ [] _ _
          ended (Nat.lt_succ_self sock.octets.length)
        exact ⟨_, current.2, by simp [CHttp.awaiting, loop]; rfl, rfl⟩

end Sync

/-! ## Reading a body in the asynchronous build -/

section Async

variable {http1 : CHttp X} {length : Int} {type : PostContentType}

/-- The loop takes what the body still lacks. -/
theorem asyncRecvMultipart_eq {passes : Nat} {postdataEx asyncRecvBuf : List UInt8}
    (small : length < 2 ^ 31) (within : postdataEx.length ≤ length)
    (patient : asyncRecvBuf.length < passes) :
    asyncRecvMultipart length passes postdataEx asyncRecvBuf =
      (postdataEx ++ asyncRecvBuf.take (length - postdataEx.length).toNat,
        asyncRecvBuf.drop (length - postdataEx.length).toNat) := by
  induction passes generalizing postdataEx asyncRecvBuf with
  | zero => omega
  | succ passes ih =>
      have unwrapped : postdataEx.length % 2 ^ 32 = postdataEx.length := by omega
      rw [asyncRecvMultipart, asyncHttpRecv, unwrapped]
      set count := (min 4095 (length - postdataEx.length)).toNat with isCount
      by_cases nothing : (asyncRecvBuf.take count).isEmpty
      · have none_left : asyncRecvBuf = [] ∨ length - postdataEx.length = 0 := by
          rcases List.take_eq_nil_iff.mp (List.isEmpty_iff.mp nothing) with zero | empty
          · right
            omega
          · exact .inl empty
        simp only [if_pos nothing]
        rcases none_left with rfl | zero
        · simp
        · simp [zero]
      · simp only [if_neg nothing]
        have takes : 0 < (asyncRecvBuf.take count).length := by
          rw [List.length_pos_iff_ne_nil]
          simpa using nothing
        rw [List.length_take] at takes
        rw [ih (by rw [List.length_append, List.length_take]; omega)
          (by rw [List.length_drop]; omega)]
        have taken : (length - ((postdataEx ++ asyncRecvBuf.take count).length : Nat)).toNat =
            (length - postdataEx.length).toNat - (asyncRecvBuf.take count).length := by
          rw [List.length_append]
          omega
        have short : (asyncRecvBuf.take count).length ≤ (length - postdataEx.length).toNat := by
          rw [List.length_take]
          omega
        rw [taken]
        conv_rhs => rw [← List.take_append_drop count asyncRecvBuf]
        rw [List.take_append, List.take_of_length_le short, List.drop_append,
          List.drop_of_length_le short, List.nil_append, List.append_assoc]

theorem Readable.of_append {come rest : List UInt8}
    (readable : Readable length type (come ++ rest)) : Readable length type come := by
  rcases readable with nothing | readable
  · exact .inl nothing
  · cases type with
    | applicationXWwwFormUrlencoded =>
        refine .inr ⟨readable.1, fun member => readable.2 ?_⟩
        rw [List.take_append]
        exact List.mem_append_left _ member
    | multipartFormData => exact .inr readable

/-- A request with a part of its body. -/
def CHttp.withPart (http1 : CHttp X) (part : List UInt8) : CHttp X :=
  match http1.contentType with
  | .applicationXWwwFormUrlencoded => { http1 with postdata := part }
  | .multipartFormData => { http1 with postdataEx := some part }

/-- The asynchronous build behind what has come of a stream. -/
def CHttp.behind (http1 : CHttp X) (come : List UInt8) : CHttp X × List UInt8 :=
  if http1.contentLength ≤ come.length then
    (http1.withBody (come.take http1.contentLength.toNat),
      come.drop http1.contentLength.toNat)
  else (http1.withPart come, [])

theorem withBody_httpState (body : List UInt8) :
    (http1.withBody body).httpState = .authentication := by
  unfold CHttp.withBody
  split
  · rfl
  · split <;> rfl

theorem asyncReqData_withBody (body asyncRecvBuf : List UInt8) :
    (http1.withBody body).asyncReqData asyncRecvBuf = (http1.withBody body, asyncRecvBuf) := by
  rw [CHttp.asyncReqData, withBody_httpState, if_neg (by decide)]

theorem take_body {come segment : List UInt8} (few : come.length < length) :
    (come ++ segment).take length.toNat =
      come ++ segment.take (length - come.length).toNat := by
  rw [List.take_append, List.take_of_length_le (by omega)]
  congr 2
  omega

theorem drop_body {come segment : List UInt8} (few : come.length < length) :
    (come ++ segment).drop length.toNat = segment.drop (length - come.length).toNat := by
  rw [List.drop_append, List.drop_of_length_le (by omega), List.nil_append]
  congr 1
  omega

theorem take_lacking {come segment : List UInt8} (few : ¬length ≤ (come ++ segment).length) :
    segment.take (length - come.length).toNat = segment := by
  rw [List.length_append] at few
  exact List.take_of_length_le (by omega)

theorem drop_lacking {come segment : List UInt8} (few : ¬length ≤ (come ++ segment).length) :
    segment.drop (length - come.length).toNat = [] := by
  rw [List.length_append] at few
  exact List.drop_of_length_le (by omega)

/-- More of a form. -/
theorem asyncReqData_urlencoded {come segment : List UInt8} (few : come.length < length)
    (readable : Readable length .applicationXWwwFormUrlencoded (come ++ segment)) :
    ({ http1.awaiting length .applicationXWwwFormUrlencoded with postdata := come }
        ).asyncReqData segment =
      (http1.awaiting length .applicationXWwwFormUrlencoded).behind (come ++ segment) := by
  obtain ⟨short, nulFree⟩ := readable.resolve_left (by omega)
  have split := @take_body _ _ segment few
  have dropped := @drop_body _ _ segment few
  rw [split] at nulFree
  have cut := cString_of_nulFree fun member => nulFree (List.mem_append_right come member)
  simp only [CHttp.asyncReqData, CHttp.awaiting, CHttp.asyncRecvPostData, asyncHttpRecv,
    CHttp.behind, CHttp.withBody, CHttp.withPart, show 0 < length by omega, short,
    show length ≠ 0 by omega, if_true, if_false, cut, split, dropped]
  by_cases whole : length ≤ (come ++ segment).length
  · rw [if_pos whole, if_pos]
    rw [← split, List.length_take]
    omega
  · rw [if_neg whole, take_lacking whole, drop_lacking whole, if_neg]
    omega

/-- More of multipart data. -/
theorem asyncReqData_multipart {come segment : List UInt8} {postdataEx : Option (List UInt8)}
    (few : come.length < length) (some_come : postdataEx.getD [] = come)
    (readable : Readable length .multipartFormData (come ++ segment)) :
    ({ http1.awaiting length .multipartFormData with postdataEx }).asyncReqData segment =
      (http1.awaiting length .multipartFormData).behind (come ++ segment) := by
  have small : length < 2 ^ 31 := readable.resolve_left (by omega)
  have split := @take_body _ _ segment few
  have dropped := @drop_body _ _ segment few
  have loop := @asyncRecvMultipart_eq _ (segment.length + 1) _ segment
    small (Int.le_of_lt few) (Nat.lt_succ_self _)
  simp only [CHttp.asyncReqData, CHttp.awaiting, CHttp.asyncRecvPostData, CHttp.behind,
    CHttp.withBody, CHttp.withPart, show 0 < length by omega, show length ≠ 0 by omega,
    if_true, if_false, some_come, loop, split, dropped]
  by_cases whole : length ≤ (come ++ segment).length
  · rw [if_pos whole, if_pos]
    rw [← split, List.length_take]
    omega
  · rw [if_neg whole, take_lacking whole, drop_lacking whole, if_neg]
    omega

/-- The asynchronous build when the blank line is read. -/
theorem asyncReqData_awaiting {early : List UInt8} (notNegative : 0 ≤ length)
    (readable : Readable length type early) :
    (http1.awaiting length type).asyncReqData early =
      (http1.awaiting length type).behind early := by
  by_cases nothing : length = 0
  · simp [CHttp.asyncReqData, CHttp.behind, CHttp.withBody, CHttp.awaiting, nothing]
  · cases type with
    | applicationXWwwFormUrlencoded =>
        exact @asyncReqData_urlencoded _ _ _ [] _ (by rw [List.length_nil]; omega) readable
    | multipartFormData =>
        exact @asyncReqData_multipart _ _ _ [] _ none (by rw [List.length_nil]; omega) rfl readable

/-- One wakeup. -/
theorem wakeup_behind {come segment : List UInt8}
    (readable : Readable length type (come ++ segment)) :
    CHttp.wakeup ((http1.awaiting length type).behind come) segment =
      (http1.awaiting length type).behind (come ++ segment) := by
  by_cases whole : length ≤ come.length
  · have wholeAfter : length ≤ (come ++ segment).length := by
      rw [List.length_append]
      omega
    have come_whole : length.toNat ≤ come.length := by omega
    rw [CHttp.wakeup, CHttp.behind, CHttp.behind,
      if_pos (show (http1.awaiting length type).contentLength ≤ _ from whole),
      if_pos (show (http1.awaiting length type).contentLength ≤ _ from wholeAfter),
      asyncReqData_withBody,
      show (http1.awaiting length type).contentLength = length from rfl,
      List.take_append_of_le_length come_whole, List.drop_append_of_le_length come_whole]
  · rw [CHttp.wakeup]
    conv_lhs => rw [CHttp.behind,
      if_neg (show ¬(http1.awaiting length type).contentLength ≤ _ from whole)]
    rw [List.nil_append]
    cases type with
    | applicationXWwwFormUrlencoded =>
        exact asyncReqData_urlencoded (Int.not_le.mp whole) readable
    | multipartFormData =>
        exact asyncReqData_multipart (Int.not_le.mp whole) rfl readable

/-- All wakeups. -/
theorem foldl_wakeup {come : List UInt8} {segments : List (List UInt8)}
    (readable : Readable length type (come ++ segments.flatten)) :
    segments.foldl CHttp.wakeup ((http1.awaiting length type).behind come) =
      (http1.awaiting length type).behind (come ++ segments.flatten) := by
  induction segments generalizing come with
  | nil => simp
  | cons segment segments ih =>
      rw [List.flatten_cons, ← List.append_assoc] at readable ⊢
      rw [List.foldl_cons, wakeup_behind readable.of_append, ih readable]

/-- A form that has reached its authentication is as long as declared. -/
theorem postdata_length_of_wakeup {current : CHttp X × List UInt8} {segment : List UInt8}
    (positive : 0 < current.1.contentLength)
    (form : current.1.contentType = .applicationXWwwFormUrlencoded)
    (before : current.1.httpState = .authentication →
      (current.1.postdata.length : Int) = current.1.contentLength) :
    let next := (CHttp.wakeup current segment).1
    next.contentLength = current.1.contentLength ∧
      next.contentType = current.1.contentType ∧
      (next.httpState = .authentication → (next.postdata.length : Int) = next.contentLength) := by
  unfold CHttp.wakeup CHttp.asyncReqData
  by_cases waiting : current.1.httpState = .reqData
  · simp only [if_pos waiting, if_pos positive, CHttp.asyncRecvPostData, form]
    split
    · split
      · rename_i full
        exact ⟨rfl, rfl, fun _ => full⟩
      · exact ⟨rfl, rfl, by simp [waiting]⟩
    · exact ⟨rfl, form, by simp [waiting]⟩
  · simp only [if_neg waiting]
    exact ⟨trivial, trivial, before⟩

theorem postdata_length_of_run {current : CHttp X × List UInt8}
    {segments : List (List UInt8)} (positive : 0 < current.1.contentLength)
    (form : current.1.contentType = .applicationXWwwFormUrlencoded)
    (before : current.1.httpState = .authentication →
      (current.1.postdata.length : Int) = current.1.contentLength) :
    let last := (segments.foldl CHttp.wakeup current).1
    last.httpState = .authentication →
      (last.postdata.length : Int) = current.1.contentLength := by
  induction segments generalizing current with
  | nil => exact before
  | cons segment segments ih =>
      obtain ⟨sameLength, sameType, after⟩ :=
        @postdata_length_of_wakeup _ _ segment positive form before
      rw [← sameLength]
      exact ih (sameLength ▸ positive) (sameType ▸ form) after

theorem reached_behind {come : List UInt8} :
    reached ((http1.awaiting length type).behind come).1
      ((http1.awaiting length type).behind come).2 = behindBody length come := by
  rw [CHttp.behind, behindBody, show (http1.awaiting length type).contentLength = length from rfl]
  split
  · rw [reached, withBody_httpState, if_pos rfl]
  · have waiting : ((http1.awaiting length type).withPart come).httpState = .reqData := by
      unfold CHttp.withPart
      split <;> rfl
    rw [reached, waiting, if_neg (by decide)]

end Async

namespace Delivery

variable {stream : List UInt8} (delivery : Delivery stream) {http1 : CHttp X}
  {length : Int} {type : PostContentType}

theorem come_append (count : Nat) :
    delivery.come count ++ (delivery.segments.drop count).flatten = stream := by
  rw [come, List.append_assoc, ← List.flatten_append, List.take_append_drop]
  exact delivery.whole

theorem come_all : delivery.come delivery.segments.length = stream := by
  rw [come, List.take_length]
  exact delivery.whole

theorem octets_sock (count : Nat) (ending : Option Ending) :
    (delivery.sock count ending).octets = delivery.come count :=
  rfl

theorem octets_sock_all (ending : Option Ending) :
    (delivery.sock delivery.segments.length ending).octets = stream :=
  delivery.come_all

theorem asyncReceived_eq (notNegative : 0 ≤ length) (readable : Readable length type stream)
    (count : Nat) :
    delivery.asyncReceived count (http1.awaiting length type) =
      (http1.awaiting length type).behind (delivery.come count) := by
  rw [← delivery.come_append count] at readable
  have soFar := readable.of_append
  rw [asyncReceived, asyncReqData_awaiting notNegative soFar.of_append, foldl_wakeup soFar,
    come]

theorem asyncReceived_eq_foldl (count : Nat) :
    delivery.asyncReceived count http1 =
      (delivery.early :: delivery.segments.take count).foldl CHttp.wakeup (http1, []) :=
  rfl

end Delivery

/-! ## Where the builds agree -/

section Agreement

variable {stream : List UInt8} {sync async : Delivery stream} {ending : Ending}
  {http1 : CHttp X} {length : Int} {type : PostContentType}

theorem contentLength_awaiting : (http1.awaiting length type).contentLength = length :=
  rfl

theorem samePostData_of_receivable (receivable : Receivable length type stream) :
    SamePostData sync async ending (http1.awaiting length type) := by
  obtain ⟨notNegative, enough, readable⟩ := receivable
  obtain ⟨left, parsed, leftOctets⟩ := @dataParse_of_receivable _ http1 _ _
    (sync.sock sync.segments.length (some ending))
    (by rw [sync.octets_sock_all]; exact ⟨notNegative, enough, readable⟩)
  rw [sync.octets_sock_all] at parsed leftOctets
  constructor
  case sync_exact =>
    intro count
    have soFar := readable
    rw [← sync.come_append count] at soFar
    rw [contentLength_awaiting, behindBody, Delivery.received]
    by_cases whole : length ≤ (sync.come count).length
    · obtain ⟨left, parsed, leftOctets⟩ := @dataParse_of_receivable _ http1 _ _
        (sync.sock count none) ⟨notNegative, whole, soFar.of_append⟩
      rw [if_pos whole, parsed, Option.bind_some, reached, withBody_httpState, if_pos rfl,
        leftOctets, sync.octets_sock]
    · have waits := @dataParse_eq_none _ http1 _ type
        (sync.sock count none) (Int.not_le.mp whole) rfl (by
          rintro rfl
          exact (readable.resolve_left (by omega)).1)
      rw [if_neg whole, waits, Option.bind_none]
  case sync_ended =>
    rw [Delivery.received, parsed, Option.bind_some, reached, withBody_httpState, if_pos rfl,
      leftOctets, contentLength_awaiting, behindBody, if_pos enough]
  case async_exact =>
    intro count
    rw [async.asyncReceived_eq notNegative readable count, reached_behind,
      contentLength_awaiting]
  case same =>
    intro current received
    rw [Delivery.received, parsed, Option.some_inj] at received
    rw [async.asyncReceived_eq notNegative readable, async.come_all, ← received, CHttp.behind,
      if_pos (by exact enough)]
    exact ⟨rfl, rfl⟩

theorem receivable_of_samePostData
    (same : SamePostData sync async ending (http1.awaiting length type)) :
    Receivable length type stream := by
  have notNegative : 0 ≤ length := by
    by_contra negative
    have start := same.sync_exact 0
    rw [Delivery.received, CHttp.dataParse, if_pos (by exact Int.not_le.mp negative),
      Option.bind_some, contentLength_awaiting, behindBody, if_pos (by omega)] at start
    exact Option.some_ne_none _ start.symm
  have ended := same.sync_ended
  have enough : length ≤ stream.length := by
    by_contra few
    obtain ⟨current, left, parsed, authenticated⟩ := @dataParse_of_ended _ http1 _
      type (sync.sock sync.segments.length (some ending)) _ notNegative rfl
    rw [Delivery.received, parsed, Option.bind_some, reached, if_pos authenticated,
      contentLength_awaiting, behindBody, if_neg few] at ended
    exact Option.some_ne_none _ ended
  refine ⟨notNegative, enough, ?_⟩
  by_contra unreadable
  have positive : ¬length ≤ 0 := fun atMost => unreadable (.inl (by omega))
  rw [contentLength_awaiting, behindBody, if_pos enough] at ended
  cases type with
  | multipartFormData =>
      have large : 2 ^ 31 ≤ length := by
        by_contra small
        exact unreadable (.inr (Int.not_le.mp small))
      have whole := same.sync_exact sync.segments.length
      have loop := @recvMultipart_long _ 0
        ((sync.sock sync.segments.length none).octets.length + 1) []
        (sync.sock sync.segments.length none) large (by omega) rfl
      rw [Delivery.received, dataParse_awaiting notNegative, CHttp.recvPostData,
        if_neg (by exact positive), sync.come_all, contentLength_awaiting, behindBody,
        if_pos enough] at whole
      simp [CHttp.awaiting, loop] at whole
  | applicationXWwwFormUrlencoded =>
      obtain ⟨left, read, leftOctets⟩ := @recvPostData_of_le _ http1 length
        .applicationXWwwFormUrlencoded
        (sync.sock sync.segments.length (some ending))
        (by rw [sync.octets_sock_all]; exact enough) (by simp)
      rw [sync.octets_sock_all] at read leftOctets
      rw [Delivery.received, dataParse_awaiting notNegative, read, Option.bind_some,
        leftOctets] at ended
      by_cases short : length < maxApplicationXWwwFormUrlencodedLen
      · have nul : 0 ∈ stream.take length.toNat := by
          by_contra nulFree
          exact unreadable (.inr ⟨short, nulFree⟩)
        have cut := length_cString_lt nul
        have atEnd := same.async_exact async.segments.length
        rw [async.come_all, contentLength_awaiting, behindBody, if_pos enough, reached,
          ite_eq_iff] at atEnd
        obtain ⟨authenticated, -⟩ := atEnd.resolve_right fun ⟨_, none_left⟩ =>
          Option.some_ne_none _ none_left.symm
        have asyncLength := @postdata_length_of_run _
          (http1.awaiting length .applicationXWwwFormUrlencoded, [])
          (async.early :: async.segments.take async.segments.length)
          (by exact Int.not_le.mp positive) rfl
          (by simp [CHttp.awaiting]) authenticated
        obtain ⟨samePostdata, -⟩ := same.same _ ((dataParse_awaiting notNegative).trans read)
        have syncPostdata : (recvPostData stream
            (http1.awaiting length .applicationXWwwFormUrlencoded)).1.postdata =
              cString (stream.take length.toNat) := by
          simp [recvPostData, CHttp.awaiting, positive, short]
        rw [← async.asyncReceived_eq_foldl, ← samePostdata, syncPostdata,
          contentLength_awaiting] at asyncLength
        rw [List.length_take] at cut
        omega
      · simp only [recvPostData, CHttp.awaiting, positive, short, reached, if_false, if_true,
          Option.some_inj] at ended
        have lengths := congrArg List.length ended
        rw [List.length_drop] at lengths
        omega

theorem samePostData_iff :
    SamePostData sync async ending (http1.awaiting length type) ↔
      Receivable length type stream :=
  ⟨receivable_of_samePostData, samePostData_of_receivable⟩

/-- The asynchronous build waits for a form with a NUL in it for ever. -/
theorem not_samePostData_nul :
    ¬@SamePostData _ [0x61, 0, 0x62] ⟨[0x61, 0, 0x62], [], rfl⟩
      ⟨[0x61, 0, 0x62], [], rfl⟩ .closed
      ((CHttp.new ()).awaiting 3 .applicationXWwwFormUrlencoded) := by
  intro same
  exact absurd (same.async_exact 0) (by decide)

end Agreement

end Http1

end HeapHttpd
