import HeapHttpd.Http1.Authorization
import HeapHttpd.Library.Replay

/-!
# Requests on one connection

`Session::Processing` and `Session::AsyncProcessing`, from `session.cpp`, with the
requests that a client sends back to back.  Every request has a `CHttp` of its own,
and what this has read from the socket goes with it.
-/

namespace HeapHttpd

namespace Http1

open General

/-! ## Requests -/

/-- The length that the lines behind a request line declare. -/
def declaredLength (fields : List (List UInt8)) : Int :=
  fields.foldl (fun length line =>
    if strncasecmp line (octets "Content-Length:") 15 then
      atoll (strtrim (strcutFrom (octets "Content-Length:") line))
    else length) 0

/-- A complete request: a request line, header fields, a blank line, and a body as
long as declared. -/
structure Request where
  header : List UInt8
  body : List UInt8
  method : HttpMethod
  requestLine : List UInt8
  fields : List (List UInt8)
  nulFree : 0 ∉ header
  lines : linesOf header = (requestLine :: fields ++ [[]], [])
  isMethod : methodOf requestLine = some method
  areFields : ∀ line ∈ fields, line ≠ [] ∧ methodOf line = none
  declared : declaredLength fields = body.length

/-- A request as the client sends it. -/
def Request.text (request : Request) : List UInt8 :=
  request.header ++ request.body

/-- Requests back to back. -/
def streamOf (requests : List Request) : List UInt8 :=
  (requests.map Request.text).flatten

/-! ## The synchronous build -/

/-- What a session meets with one request: what it tells the new `CHttp`, what the
calls of that come back with, and whether the keep-alive tickets or the time of the
connection are used up behind it. -/
structure Turn where
  keepAlive : Bool
  metaVars : StringMap
  outside : Outside
  expired : Bool

/-- The `CHttp` of a request. -/
def Turn.http1 (turn : Turn) : CHttp RequestHeader :=
  CHttp.new (.new turn.keepAlive turn.metaVars)

/-- `CHttp::Processing`.  Without a result it waits. -/
def CHttp.syncProcessing (server : Server) (outside : Outside) :
    Nat → CHttp RequestHeader → LineSock → Option (LineSock × HttpConnection)
  | 0, _, _ => none
  | passes + 1, http1, sock =>
      match sock.lrecv 4095 with
      | none => sock.ending.map fun _ => (sock, .httpClose)
      | some (szHttpData, sock) =>
          match (http1.syncLineParse server outside (cString szHttpData) sock).2 with
          | none => none
          | some ((http1, sock), connection) =>
              if connection = .httpContinue then
                syncProcessing server outside passes http1 sock
              else some (sock, connection)

/-- Where a connection is. -/
inductive Phase
  | alive
  | waiting
  | closed
  deriving DecidableEq, Repr

/-- A session: its socket, and what was still to come on the socket whenever it
created a `CHttp`. -/
structure Session where
  sock : LineSock
  starts : List (List UInt8)
  phase : Phase

/-- The loop of `Session::Processing`, once.  The buffer of the socket belongs to the
`CHttp` and is deleted with it. -/
def Session.serve (server : Server) (session : Session) (turn : Turn) : Session :=
  match session.phase with
  | .alive =>
      let session := { session with starts := session.starts ++ [session.sock.octets] }
      match turn.http1.syncProcessing server turn.outside (session.sock.octets.length + 1)
          session.sock with
      | none => { session with phase := .waiting }
      | some (left, connection) =>
          { session with
            sock := { left with recvBuf := [] }
            phase :=
              if connection = .httpKeepAlive ∧ turn.expired = false then .alive else .closed }
  | _ => session

/-- A connection on which the segments of a stream come. -/
def Session.new (segments : List (List UInt8)) (ending : Option Ending) : Session :=
  { sock := { recvBuf := [], arriving := segments, ending }, starts := [], phase := .alive }

/-- What a session has started with, and what it starts with next. -/
def Session.begins (session : Session) : List (List UInt8) :=
  match session.phase with
  | .alive => session.starts ++ [session.sock.octets]
  | _ => session.starts

/-- Requests are parsed in order, each from its own first octet: what is begun with is
what was to come with each of them, and unless the connection has been closed, all of
them have been begun. -/
structure InOrder (requests : List Request) (begins : List (List UInt8)) (closed : Prop) :
    Prop where
  ordered : begins <+: requests.tails.map streamOf
  complete : ¬closed → requests.length ≤ begins.length

/-! ## The asynchronous build -/

/-- A session of the asynchronous build: its `CHttp`, as long as there is one, and what
was still to come whenever it created one. -/
structure AsyncSession where
  protocol : Option Current
  starts : List (List UInt8)
  phase : Phase

/-- What `Session_Group` does with a segment: `AsyncRecv`, which fails without a
`CHttp`, and `AsyncProcessing`. -/
def AsyncSession.serve (server : Server) (session : AsyncSession)
    (event : List UInt8 × Outside) : AsyncSession :=
  match session.phase, session.protocol with
  | .alive, none => { session with phase := .closed }
  | .alive, some current =>
      let ((current, _), connection) :=
        CHttp.asyncProcessing server event.2 (current.1, current.2 ++ event.1)
      { session with protocol := if connection = .httpContinue then some current else none }
  | _, _ => session

/-- A connection on which a stream is to come. -/
def AsyncSession.new (turn : Turn) (stream : List UInt8) : AsyncSession :=
  { protocol := some (turn.http1, []), starts := [stream], phase := .alive }

/-! ## When nothing is lost -/

/-- A request is answered, and the connection is not left to the `CHttp` that has read
it: it is authorized where that is asked for, and its tunnel is complete. -/
def Answered (server : Server) (outside : Outside) (header : RequestHeader) : Prop :=
  if header.tunnelingConnection = .none then
    server.wwwAuthScheme.Asks → header.passedWwwauth = true
  else
    (server.proxyAuthScheme.Asks → header.passedProxyauth = true) ∧
      outside.tunnlingComplete = true

instance (server : Server) (outside : Outside) (header : RequestHeader) :
    Decidable (Answered server outside header) :=
  inferInstanceAs (Decidable (ite _ _ _))

/-- `RecvPostData` reads a body of a length. -/
def PostContentType.Reads : PostContentType → Nat → Prop
  | .applicationXWwwFormUrlencoded, length => length < maxApplicationXWwwFormUrlencodedLen
  | .multipartFormData, length => length < 2 ^ 31

instance : ∀ (type : PostContentType) (length : Nat), Decidable (type.Reads length)
  | .applicationXWwwFormUrlencoded, _ => inferInstanceAs (Decidable (_ < _))
  | .multipartFormData, _ => inferInstanceAs (Decidable (_ < _))

/-- A body is read: there is none, or the method has one of its length. -/
def ReadsBody (request : Request) (type : PostContentType) : Prop :=
  request.body = [] ∨ request.method ≠ .head ∧ type.Reads request.body.length

instance (request : Request) (type : PostContentType) : Decidable (ReadsBody request type) :=
  inferInstanceAs (Decidable (_ ∨ _))

/-- What has been read when the blank line of a request comes. -/
def Turn.atBlankLine (server : Server) (turn : Turn) (sock : LineSock) :
    CHttp RequestHeader × LineSock :=
  turn.http1.processing server.toSite (sock.octets.length + 1) sock

/-- The reads of the header have taken no octet behind the body from the socket, the
body is read, and the request is answered. -/
def Undisturbed (server : Server) (sock : LineSock) (request : Request) (turn : Turn) : Prop :=
  (turn.atBlankLine server sock).2.recvBuf.length ≤ request.body.length ∧
    ReadsBody request (turn.atBlankLine server sock).1.contentType ∧
    Answered server turn.outside (turn.atBlankLine server sock).1.rest

instance (server : Server) (sock : LineSock) (request : Request) (turn : Turn) :
    Decidable (Undisturbed server sock request turn) :=
  inferInstanceAs (Decidable (_ ∧ _))

/-! ## The header of a request -/

section Header

variable {site : Site} {http1 : CHttp RequestHeader}

/-- A text of which `LineParse` leaves nothing behind a blank line. -/
structure CHttp.Ends (site : Site) (http1 : CHttp RequestHeader) (header : List UInt8)
    (final : CHttp RequestHeader) : Prop where
  parsed : http1.lineParse site header = (final, true)
  done : final.lineText = []

/-- The first piece of such a text. -/
theorem CHttp.Ends.piece {piece more : List UInt8} {final : CHttp RequestHeader}
    (ends : http1.Ends site (piece ++ more) final) :
    (more = [] ∧ http1.lineParse site piece = (final, true)) ∨
      ((http1.lineParse site piece).2 = false ∧
        (http1.lineParse site piece).1.Ends site more final) := by
  have parsed := ends.parsed
  rw [CHttp.lineParse_append] at parsed
  simp only at parsed
  cases blank : (http1.lineParse site piece).2 with
  | true =>
      rw [if_pos blank, Prod.mk.injEq] at parsed
      have left := ends.done
      rw [← parsed.1] at left
      simp only [List.append_eq_nil_iff] at left
      refine .inl ⟨left.2, Prod.ext ?_ blank⟩
      rw [← parsed.1, left.2, List.append_nil]
  | false =>
      rw [if_neg (by simp [blank])] at parsed
      exact .inr ⟨rfl, parsed, ends.done⟩

theorem CHttp.Ends.hasLine {header : List UInt8} {final : CHttp RequestHeader}
    (ends : http1.Ends site header final) (noLine : 0x0a ∉ http1.lineText) : 0x0a ∈ header := by
  by_contra noLineRead
  have parsed := ends.parsed
  rw [CHttp.lineParse_of_noLine (by simp [noLine, noLineRead])] at parsed
  cases parsed

/-- A read of a header does not go beyond it. -/
theorem prefix_of_lrecv {header rest line octets : List UInt8} (hasLine : 0x0a ∈ header)
    (noLine : 0x0a ∉ line.dropLast) (split : header ++ rest = line ++ octets) :
    ∃ more, header = line ++ more ∧ octets = more ++ rest := by
  rcases List.append_eq_append_iff.mp split with ⟨behind, isLine, isRest⟩ | ⟨more, isHeader, isOctets⟩
  · by_cases exact : behind = []
    · subst exact
      exact ⟨[], by simp [isLine], by simpa using isRest.symm⟩
    · rw [isLine, List.dropLast_append_of_ne_nil exact] at noLine
      exact absurd (List.mem_append_left _ hasLine) noLine
  · exact ⟨more, isHeader, isOctets⟩

/-- The reads of a header take it and leave what is behind it. -/
theorem CHttp.processing_header {passes : Nat} {sock : LineSock} {header rest : List UInt8}
    {final : CHttp RequestHeader} (noLine : 0x0a ∉ http1.lineText) (nulFree : 0 ∉ header)
    (ends : http1.Ends site header final) (octets : sock.octets = header ++ rest)
    (patient : header.length < passes) :
    ∃ left, http1.processing site passes sock = (final, left) ∧ left.octets = rest := by
  induction passes generalizing http1 sock header with
  | zero => omega
  | succ passes ih =>
      have hasLine := ends.hasLine noLine
      rw [processing]
      cases read : sock.lrecv 4095 with
      | none =>
          have none_there := LineSock.noLine_of_lrecv read
          rw [octets] at none_there
          exact absurd (List.mem_append_left _ hasLine) none_there
      | some result =>
          obtain ⟨line, left⟩ := result
          obtain ⟨more, isHeader, isOctets⟩ := prefix_of_lrecv hasLine
            (LineSock.noLine_lrecv read) (octets.symm.trans (LineSock.lrecv_append read))
          have nonempty := List.length_pos_iff_ne_nil.mpr (LineSock.lrecv_ne_nil (by decide) read)
          subst isHeader
          rw [List.mem_append, not_or] at nulFree
          rw [List.length_append] at patient
          simp only [cString_of_nulFree nulFree.1]
          rcases ends.piece with ⟨isEnd, parsed⟩ | ⟨goesOn, ends'⟩
          · rw [parsed]
            exact ⟨left, rfl, by rw [isOctets, isEnd, List.nil_append]⟩
          · rw [if_neg (by simp [goesOn])]
            exact ih (CHttp.noLine_of_lineParse goesOn) nulFree.2 ends' isOctets (by omega)

/-- Behind the blank line the synchronous build goes on to the body and the answer. -/
theorem CHttp.syncProcessing_header {server : Server} {outside : Outside} {passes : Nat}
    {sock left left' : LineSock} {header : List UInt8} {final ready : CHttp RequestHeader}
    (nulFree : 0 ∉ header) (ends : http1.Ends server.toSite header final)
    (octets : ∃ rest, sock.octets = header ++ rest) (noLine : 0x0a ∉ http1.lineText)
    (patient : header.length < passes)
    (reads : http1.processing server.toSite passes sock = (final, left))
    (notNegative : 0 ≤ final.contentLength) (body : final.dataParse left = some (ready, left'))
    (answered : (ready.responseReply server outside).2 ≠ .httpContinue) :
    http1.syncProcessing server outside passes sock =
      some (left', (ready.responseReply server outside).2) := by
  induction passes generalizing http1 sock header with
  | zero => omega
  | succ passes ih =>
      obtain ⟨rest, octets⟩ := octets
      have hasLine := ends.hasLine noLine
      rw [processing] at reads
      rw [syncProcessing]
      cases read : sock.lrecv 4095 with
      | none =>
          have none_there := LineSock.noLine_of_lrecv read
          rw [octets] at none_there
          exact absurd (List.mem_append_left _ hasLine) none_there
      | some result =>
          obtain ⟨line, next⟩ := result
          obtain ⟨more, isHeader, isOctets⟩ := prefix_of_lrecv hasLine
            (LineSock.noLine_lrecv read) (octets.symm.trans (LineSock.lrecv_append read))
          have nonempty := List.length_pos_iff_ne_nil.mpr (LineSock.lrecv_ne_nil (by decide) read)
          subst isHeader
          rw [List.mem_append, not_or] at nulFree
          rw [List.length_append] at patient
          simp only [read, cString_of_nulFree nulFree.1] at reads ⊢
          rcases ends.piece with ⟨isEnd, parsed⟩ | ⟨goesOn, ends'⟩
          · rw [parsed, if_pos rfl, Prod.mk.injEq] at reads
            rw [reads.2]
            simp only [syncLineParse, parsed, if_true, Int.not_lt.mpr notNegative, if_false, body,
              if_neg answered]
          · rw [if_neg (by simp [goesOn])] at reads
            simp only [syncLineParse, goesOn, Bool.false_eq_true, if_false, if_true]
            exact ih nulFree.2 ends' ⟨rest, isOctets⟩ (CHttp.noLine_of_lineParse goesOn) (by omega)
              reads

end Header

section Fields

variable {X : Type} {otherLine : List UInt8 → X → X}

/-- What no line changes. -/
theorem readLines_kept {α : Type} (member : CHttp X → α)
    (kept : ∀ line http1, member (parseLine otherLine line http1) = member http1)
    (lines : List (List UInt8)) (http1 : CHttp X) :
    member (readLines otherLine lines http1) = member http1 := by
  unfold readLines
  induction lines.filter fun line => !line.isEmpty generalizing http1 with
  | nil => rfl
  | cons line lines ih => rw [List.foldl_cons, ih, kept]

theorem postdata_parseLine (line : List UInt8) (http1 : CHttp X) :
    ((parseLine otherLine line http1).postdata, (parseLine otherLine line http1).postdataEx) =
      (http1.postdata, http1.postdataEx) := by
  unfold parseLine parseFieldLine
  cases methodOf line with
  | some method => rfl
  | none =>
      simp only
      split
      · rfl
      · split
        · rfl
        · rfl

theorem parseLine_field {line : List UInt8} (isField : methodOf line = none)
    (http1 : CHttp X) :
    (parseLine otherLine line http1).httpMethod = http1.httpMethod ∧
      (parseLine otherLine line http1).contentLength =
        if strncasecmp line (octets "Content-Length:") 15 then
          if http1.httpMethod = .head then 0
          else atoll (strtrim (strcutFrom (octets "Content-Length:") line))
        else http1.contentLength := by
  unfold parseLine parseFieldLine
  rw [isField]
  simp only
  split
  · exact ⟨rfl, rfl⟩
  · split
    · exact ⟨rfl, rfl⟩
    · exact ⟨rfl, rfl⟩

/-- The length that header fields declare, unless the method has no body. -/
theorem contentLength_foldl (fields : List (List UInt8))
    (areFields : ∀ line ∈ fields, methodOf line = none) (http1 : CHttp X)
    (noBody : http1.httpMethod = .head → http1.contentLength = 0) :
    (fields.foldl (fun http1 line => parseLine otherLine line http1) http1).contentLength =
      if http1.httpMethod = .head then 0
      else fields.foldl (fun length line =>
        if strncasecmp line (octets "Content-Length:") 15 then
          atoll (strtrim (strcutFrom (octets "Content-Length:") line))
        else length) http1.contentLength := by
  induction fields generalizing http1 with
  | nil =>
      split
      · rename_i isHead
        exact noBody isHead
      · rfl
  | cons line fields ih =>
      obtain ⟨sameMethod, length⟩ :=
        @parseLine_field X otherLine line (areFields line List.mem_cons_self) http1
      rw [List.foldl_cons, List.foldl_cons,
        ih (fun line member => areFields line (List.mem_cons_of_mem _ member)), sameMethod, length]
      · by_cases isHead : http1.httpMethod = .head
        · rw [if_pos isHead, if_pos isHead]
        · simp only [if_neg isHead]
      · intro isHead
        rw [sameMethod] at isHead
        rw [length, if_pos isHead, noBody isHead, ite_self]

end Fields

section Requests

variable {site : Site} {request : Request} {turn : Turn}

/-- What `LineParse` makes of the header of a request. -/
def Turn.parsed (site : Site) (turn : Turn) (request : Request) : CHttp RequestHeader :=
  (turn.http1.lineParse site request.header).1

theorem filter_lines (request : Request) :
    (request.requestLine :: request.fields ++ [[]]).filter (fun line => !line.isEmpty) =
      request.requestLine :: request.fields := by
  have named : request.requestLine ≠ [] := by
    intro blank
    have isMethod := request.isMethod
    rw [blank, show methodOf [] = none by decide] at isMethod
    cases isMethod
  have fields : request.fields.filter (fun line => !line.isEmpty) = request.fields :=
    List.filter_eq_self.mpr fun line member => by
      simpa using (request.areFields line member).1
  rw [List.filter_append, List.filter_cons_of_pos (by simpa using named), fields]
  simp

theorem parsed_eq (site : Site) (turn : Turn) (request : Request) :
    ∃ rest, turn.http1.lineParse site request.header =
      ({ readLines (RequestHeader.readLine site) (request.requestLine :: request.fields ++ [[]])
          turn.http1 with lineText := [], httpState := .reqData, rest }, true) := by
  have lines : linesOf (turn.http1.lineText ++ request.header) =
      (request.requestLine :: request.fields ++ [[]], []) := request.lines
  set read := readLines (RequestHeader.readLine site)
    (request.requestLine :: request.fields ++ [[]]) turn.http1 with isRead
  refine ⟨{ read.rest with headerContent := read.rest.headerContent ++ Tunneling.crlf }, ?_⟩
  rw [CHttp.lineParse, lineParse_eq, lines]
  simp only [List.mem_append, List.mem_singleton, or_true, if_true, ← isRead]

theorem ends_parsed (site : Site) (turn : Turn) (request : Request) :
    turn.http1.Ends site request.header (turn.parsed site request) := by
  obtain ⟨rest, parsed⟩ := parsed_eq site turn request
  refine ⟨?_, ?_⟩
  · rw [Turn.parsed, parsed]
  · rw [Turn.parsed, parsed]

/-- A request with its header waits for its body. -/
theorem parsed_awaiting (site : Site) (turn : Turn) (request : Request) :
    turn.parsed site request =
      (turn.parsed site request).awaiting (if request.method = .head then 0 else (request.body.length : Int))
        (turn.parsed site request).contentType := by
  obtain ⟨rest, parsed⟩ := parsed_eq site turn request
  set read := readLines (RequestHeader.readLine site)
    (request.requestLine :: request.fields ++ [[]]) turn.http1 with isRead
  have kept : (read.postdata, read.postdataEx) = ([], none) :=
    readLines_kept (fun http1 => (http1.postdata, http1.postdataEx)) postdata_parseLine _ _
  have first : parseLine (RequestHeader.readLine site) request.requestLine turn.http1 =
      { turn.http1 with
        rest := RequestHeader.readLine site request.requestLine turn.http1.rest
        httpMethod := request.method } := by
    rw [parseLine, request.isMethod]
  have length : read.contentLength =
      if request.method = .head then 0 else (request.body.length : Int) := by
    rw [isRead, readLines, filter_lines, List.foldl_cons, first, contentLength_foldl _
      (fun line member => (request.areFields line member).2) _ fun _ => rfl, ← request.declared]
    rfl
  rw [Prod.mk.injEq] at kept
  rw [Turn.parsed, parsed]
  simp only [CHttp.awaiting, ← length, kept.1, kept.2]

/-- The length that a `CHttp` has of a body it reads. -/
theorem length_of_readsBody {type : PostContentType} (reads : ReadsBody request type) :
    (if request.method = .head then 0 else (request.body.length : Int)) = request.body.length := by
  rcases reads with empty | ⟨notHead, -⟩
  · rw [empty, List.length_nil, Nat.cast_zero, ite_self]
  · rw [if_neg notHead]

/-- A body is taken from the socket, with what of it has come with the header, and
nothing else is. -/
theorem dataParse_of_readsBody {http1 : CHttp RequestHeader} {type : PostContentType}
    {left : LineSock} {later : List UInt8} (reads : ReadsBody request type)
    (octets : left.octets = request.body ++ later)
    (ahead : left.recvBuf.length ≤ request.body.length) :
    ∃ ready left', (http1.awaiting request.body.length type).dataParse left =
        some (ready, left') ∧
      left'.recvBuf = [] ∧ left'.octets = later ∧ ready.httpState = .authentication ∧
      ready.rest = http1.rest := by
  have enough : request.body.length ≤ left.octets.length := by
    rw [octets, List.length_append]
    exact Nat.le_add_right _ _
  have taken : left.octets.take request.body.length = request.body := by
    rw [octets, List.take_left]
  have dropped : left.octets.drop request.body.length = later := by
    rw [octets, List.drop_left]
  rw [dataParse_awaiting (Int.natCast_nonneg _), CHttp.recvPostData]
  by_cases empty : request.body = []
  · rw [empty, List.length_nil, Nat.le_zero] at ahead
    refine ⟨{ http1.awaiting request.body.length type with httpState := .authentication }, left,
      ?_, List.eq_nil_of_length_eq_zero ahead, ?_, rfl, rfl⟩
    · simp [CHttp.awaiting, empty]
    · rw [octets, empty, List.nil_append]
  · obtain ⟨-, small⟩ := reads.resolve_left empty
    have positive : 0 < request.body.length := List.length_pos_iff_ne_nil.mpr empty
    cases type with
    | applicationXWwwFormUrlencoded =>
        have small : request.body.length < maxApplicationXWwwFormUrlencodedLen := small
        obtain ⟨left', read, leftOctets, -⟩ := left.drecv_of_le enough
        rw [taken] at read
        refine ⟨{ http1.awaiting request.body.length .applicationXWwwFormUrlencoded with
            httpState := .authentication
            postdata := cString request.body }, left', ?_, ?_, ?_, rfl, rfl⟩
        · simp [CHttp.awaiting, empty, small, read]
        · rw [LineSock.recvBuf_drecv read, List.drop_of_length_le ahead]
        · rw [leftOctets, dropped]
    | multipartFormData =>
        have small : request.body.length < 2 ^ 31 := small
        obtain ⟨left', loop, leftOctets⟩ :=
          @recvMultipart_of_le request.body.length 0 (left.octets.length + 1) [] left
            (by omega) (Int.le_refl 0) (by omega) (by omega) (by omega)
        rw [Int.sub_zero, Int.toNat_natCast, List.nil_append, taken] at loop
        rw [Int.sub_zero, Int.toNat_natCast, dropped] at leftOctets
        obtain ⟨whole, isWhole, leftBuf⟩ := recvBuf_recvMultipart loop
        rw [List.nil_append] at isWhole
        refine ⟨{ http1.awaiting request.body.length .multipartFormData with
            httpState := .authentication
            postdataEx := some request.body }, left', ?_, ?_, leftOctets, rfl, rfl⟩
        · simp [CHttp.awaiting, empty, loop]
        · rw [leftBuf, ← isWhole, List.drop_of_length_le ahead]

end Requests

section Answers

variable {server : Server} {outside : Outside} {http1 : CHttp RequestHeader}

theorem connection_ne_continue (complete : http1.httpState = .complete) :
    http1.connection server ≠ .httpContinue := by
  rw [CHttp.connection, if_neg (not_not_intro complete)]
  split
  · decide
  · decide

theorem complete_tunneling (begins : http1.httpState = .tunnling)
    (complete : outside.tunnlingComplete = true) :
    (http1.tunneling server outside).1.httpState = .complete := by
  unfold CHttp.tunneling
  simp only [begins, stage, refuse, if_true, complete]
  split
  · rfl
  · rw [if_pos (by decide)]

/-- An answered request is not continued. -/
theorem responseReply_ne_continue (state : http1.httpState = .authentication)
    (answered : Answered server outside http1.rest) :
    (http1.responseReply server outside).2 ≠ .httpContinue := by
  unfold Answered at answered
  unfold CHttp.responseReply CHttp.authenticate
  rw [if_pos state]
  by_cases noTunnel : http1.rest.tunnelingConnection = .none
  · rw [if_pos noTunnel] at answered ⊢
    have authorized : ¬(server.wwwAuthScheme.Asks ∧ http1.rest.passedWwwauth = false) := by
      rintro ⟨asks, refused⟩
      rw [answered asks] at refused
      cases refused
    rw [if_neg authorized]
    simp only [Bool.false_eq_true, if_false]
    unfold CHttp.goAhead
    rw [if_pos (show HttpState.Replying .response by decide), if_pos noTunnel]
    split
    · exact HttpConnection.noConfusion
    · simp only
      cases success : (CHttp.response server outside { http1 with httpState := .response }).2 with
      | false =>
          rw [if_pos rfl]
          exact HttpConnection.noConfusion
      | true =>
          have responded := @httpState_response server outside
            { http1 with httpState := .response } rfl success
          rw [if_neg (by decide), if_neg (by rw [responded]; decide)]
          refine connection_ne_continue ?_
          rw [stage, if_pos responded]
  · rw [if_neg noTunnel] at answered ⊢
    have authorized : ¬(server.proxyAuthScheme.Asks ∧ http1.rest.passedProxyauth = false) := by
      rintro ⟨asks, refused⟩
      rw [answered.1 asks] at refused
      cases refused
    rw [if_neg authorized]
    simp only [Bool.false_eq_true, if_false]
    unfold CHttp.goAhead
    rw [if_pos (show HttpState.Replying .tunnling by decide), if_neg noTunnel]
    split
    · simp only
      refine connection_ne_continue ?_
      rfl
    · simp only
      refine connection_ne_continue (complete_tunneling ?_ answered.2)
      rfl

end Answers

/-! ## Runs of the synchronous build -/

section Runs

variable {server : Server} {request : Request} {turn : Turn} {session : Session}
  {later : List UInt8}

/-- A request that is not disturbed leaves what is behind it. -/
theorem syncProcessing_of_undisturbed {sock : LineSock}
    (octets : sock.octets = request.text ++ later)
    (undisturbed : Undisturbed server sock request turn) :
    ∃ left connection, turn.http1.syncProcessing server turn.outside (sock.octets.length + 1)
        sock = some (left, connection) ∧ left.recvBuf = [] ∧ left.octets = later := by
  have ends := ends_parsed server.toSite turn request
  have isHeader : sock.octets = request.header ++ (request.body ++ later) := by
    rw [octets, Request.text, List.append_assoc]
  have patient : request.header.length < sock.octets.length + 1 := by
    rw [isHeader, List.length_append]
    omega
  have noLine : 0x0a ∉ turn.http1.lineText := by simp [Turn.http1, CHttp.new]
  obtain ⟨left, reads, leftOctets⟩ :=
    CHttp.processing_header noLine request.nulFree ends isHeader patient
  obtain ⟨ahead, body, answered⟩ := undisturbed
  rw [Turn.atBlankLine, reads] at ahead body answered
  obtain ⟨ready, left', read, leftBuf, leftOctets', state, rest⟩ :=
    @dataParse_of_readsBody request (turn.parsed server.toSite request) _ left later body
      leftOctets ahead
  have awaiting := parsed_awaiting server.toSite turn request
  rw [length_of_readsBody body] at awaiting
  rw [← awaiting] at read
  have notNegative : 0 ≤ (turn.parsed server.toSite request).contentLength := by
    rw [awaiting]
    exact Int.natCast_nonneg _
  rw [← rest] at answered
  exact ⟨left', _, CHttp.syncProcessing_header request.nulFree ends ⟨_, isHeader⟩ noLine patient
    reads notNegative read (responseReply_ne_continue state answered), leftBuf, leftOctets'⟩

/-- A session serves a request and the turn it meets with it. -/
def Session.exchange (server : Server) (session : Session) (exchange : Request × Turn) :
    Session :=
  session.serve server exchange.2

theorem serve_of_not_alive (ended : session.phase ≠ .alive) :
    session.serve server turn = session := by
  unfold Session.serve
  cases phase : session.phase with
  | alive => exact absurd phase ended
  | waiting => rfl
  | closed => rfl

theorem foldl_exchange_of_not_alive (exchanges : List (Request × Turn))
    (ended : session.phase ≠ .alive) :
    exchanges.foldl (Session.exchange server) session = session := by
  induction exchanges with
  | nil => rfl
  | cons exchange exchanges ih =>
      rw [List.foldl_cons, Session.exchange, serve_of_not_alive ended]
      exact ih

/-- One turn of a session. -/
theorem serve_of_undisturbed (alive : session.phase = .alive)
    (octets : session.sock.octets = request.text ++ later)
    (undisturbed : Undisturbed server session.sock request turn) :
    (session.serve server turn).starts = session.starts ++ [request.text ++ later] ∧
      ((session.serve server turn).phase = .alive ∧
          (session.serve server turn).sock.octets = later ∨
        (session.serve server turn).phase = .closed) := by
  obtain ⟨left, connection, served, leftBuf, leftOctets⟩ :=
    syncProcessing_of_undisturbed octets undisturbed
  have arriving : left.arriving.flatten = later := by
    rwa [LineSock.octets, leftBuf, List.nil_append] at leftOctets
  unfold Session.serve
  rw [alive]
  simp only [served]
  simp only [octets, true_and]
  split
  · exact .inl ⟨rfl, by rw [LineSock.octets, List.nil_append, arriving]⟩
  · exact .inr rfl

/-- Runs from any turn on. -/
theorem begins_run {exchanges : List (Request × Turn)} (alive : session.phase = .alive)
    (octets : session.sock.octets = streamOf (exchanges.map Prod.fst))
    (met : Replay.Throughout (Session.exchange server) (fun session exchange =>
      session.phase = .alive → Undisturbed server session.sock exchange.1 exchange.2)
      session exchanges) :
    ∃ begins, (exchanges.foldl (Session.exchange server) session).begins =
        session.starts ++ begins ∧
      InOrder (exchanges.map Prod.fst) begins
        ((exchanges.foldl (Session.exchange server) session).phase = .closed) := by
  induction exchanges generalizing session with
  | nil =>
      refine ⟨[session.sock.octets], ?_, ?_, fun _ => Nat.zero_le _⟩
      · rw [List.foldl_nil, Session.begins, alive]
      · rw [octets]
        exact List.prefix_refl _
  | cons exchange exchanges ih =>
      rw [Replay.throughout_cons] at met
      rw [List.map_cons, streamOf, List.map_cons, List.flatten_cons] at octets
      obtain ⟨starts, next⟩ := serve_of_undisturbed alive octets (met.1 alive)
      rw [List.foldl_cons, List.map_cons]
      have tails (begins : List (List UInt8))
          (ordered : begins <+: (exchanges.map Prod.fst).tails.map streamOf) :
          streamOf (exchange.1 :: exchanges.map Prod.fst) :: begins <+:
            (exchange.1 :: exchanges.map Prod.fst).tails.map streamOf := by
        rw [List.tails_cons, List.map_cons]
        exact List.cons_prefix_cons.mpr ⟨rfl, ordered⟩
      have isServed : Session.exchange server session exchange = session.serve server exchange.2 :=
        rfl
      rw [isServed] at met ⊢
      rcases next with ⟨alive', octets'⟩ | closed
      · obtain ⟨begins, isBegins, ordered, complete⟩ := ih alive' octets' met.2
        refine ⟨streamOf (exchange.1 :: exchanges.map Prod.fst) :: begins, ?_,
          tails begins ordered, fun notClosed => Nat.succ_le_succ (complete notClosed)⟩
        rw [isBegins]
        exact (congrArg (· ++ begins) starts).trans (by simp [streamOf])
      · have ended : (session.serve server exchange.2).phase ≠ .alive := by
          rw [closed]
          decide
        rw [foldl_exchange_of_not_alive exchanges ended]
        refine ⟨[streamOf (exchange.1 :: exchanges.map Prod.fst)], ?_,
          tails [] List.nil_prefix, fun notClosed => absurd closed notClosed⟩
        rw [Session.begins, closed]
        exact starts.trans (by simp [streamOf])

/-- A session of the asynchronous build creates no second `CHttp`. -/
theorem starts_asyncServe (session : AsyncSession) (events : List (List UInt8 × Outside)) :
    (events.foldl (AsyncSession.serve server) session).starts = session.starts := by
  induction events generalizing session with
  | nil => rfl
  | cons event events ih =>
      rw [List.foldl_cons, ih]
      unfold AsyncSession.serve
      split
      · rfl
      · rfl
      · rfl

/-- Requests on one connection are parsed in order as long as each is undisturbed in
the synchronous build.  In the asynchronous build they are as long as there is one. -/
theorem inOrder_sessions (server : Server) (exchanges : List (Request × Turn))
    (segments : List (List UInt8)) (ending : Option Ending)
    (whole : segments.flatten = streamOf (exchanges.map Prod.fst))
    (met : Replay.Throughout (Session.exchange server) (fun session exchange =>
      session.phase = .alive → Undisturbed server session.sock exchange.1 exchange.2)
      (Session.new segments ending) exchanges) :
    InOrder (exchanges.map Prod.fst)
        (exchanges.foldl (Session.exchange server) (Session.new segments ending)).begins
        ((exchanges.foldl (Session.exchange server) (Session.new segments ending)).phase =
          .closed) ∧
      ∀ (requests : List Request) (turn : Turn) (events : List (List UInt8 × Outside)),
        InOrder requests (events.foldl (AsyncSession.serve server)
            (AsyncSession.new turn (streamOf requests))).starts False ↔
          requests.length ≤ 1 := by
  refine ⟨?_, fun requests turn events => ?_⟩
  · have octets : (Session.new segments ending).sock.octets =
        streamOf (exchanges.map Prod.fst) := whole
    obtain ⟨begins, isBegins, inOrder⟩ := begins_run rfl octets met
    rwa [isBegins]
  · rw [starts_asyncServe]
    constructor
    · exact fun inOrder => inOrder.complete id
    · intro short
      cases requests with
      | nil => exact ⟨List.prefix_refl _, fun _ => Nat.zero_le _⟩
      | cons request requests =>
          refine ⟨?_, fun _ => short⟩
          rw [List.tails_cons, List.map_cons]
          exact List.cons_prefix_cons.mpr ⟨rfl, List.nil_prefix⟩

end Runs

/-! ## Two requests in one segment -/

instance (requests : List Request) (begins : List (List UInt8)) (closed : Prop)
    [Decidable closed] : Decidable (InOrder requests begins closed) :=
  decidable_of_iff
    (begins <+: requests.tails.map streamOf ∧ (¬closed → requests.length ≤ begins.length))
    ⟨fun inOrder => ⟨inOrder.1, inOrder.2⟩, fun inOrder => ⟨inOrder.ordered, inOrder.complete⟩⟩

namespace Request

/-- A request without a body. -/
def get : Request where
  header := octets "GET /\n\n"
  body := []
  method := .get
  requestLine := octets "GET /"
  fields := []
  nulFree := by decide
  lines := by decide
  isMethod := by decide
  areFields := by simp
  declared := rfl

/-- A request whose body is a line. -/
def head : Request where
  header := octets "HEAD /\nContent-Length: 7\n\n"
  body := octets "GET /a\n"
  method := .head
  requestLine := octets "HEAD /"
  fields := [octets "Content-Length: 7"]
  nulFree := by decide
  lines := by decide +kernel
  isMethod := by decide +kernel
  areFields := by decide +kernel
  declared := by decide +kernel

/-- A server that asks for nothing. -/
def server : Server :=
  ⟨⟨false, [], fun _ _ _ _ => ⟨false, [], []⟩⟩, .none, .none, false, true, []⟩

/-- A turn that keeps the connection alive. -/
def turn : Turn :=
  ⟨true, [], ⟨fun _ => false, fun _ => false, true, true⟩, false⟩

end Request

open Request

theorem inOrder_segments :
    let exchanges := [(get, turn), (get, turn)]
    let session :=
      exchanges.foldl (Session.exchange server) (Session.new [get.text, get.text] none)
    InOrder [get, get] session.begins (session.phase = .closed) := by
  have both := inOrder_sessions server [(get, turn), (get, turn)] [get.text, get.text] none
    (by decide +kernel) (by decide +kernel)
  exact both.1

/-- A request behind another in one segment is lost, and a body that is not read is
taken for a request. -/
theorem not_inOrder :
    (let exchanges := [(get, turn), (get, turn)]
      let session :=
        exchanges.foldl (Session.exchange server) (Session.new [streamOf [get, get]] none)
      ¬InOrder [get, get] session.begins (session.phase = .closed)) ∧
    let session :=
      [(head, turn)].foldl (Session.exchange server) (Session.new [head.header, head.body] none)
    session.begins = [head.text, octets "GET /a\n"] ∧
      ¬InOrder [head] session.begins (session.phase = .closed) := by
  decide +kernel

end Http1

end HeapHttpd
