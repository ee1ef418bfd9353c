import HeapHttpd.Cache.Accounts
import HeapHttpd.Http1.Dates
import HeapHttpd.Http1.WebDocBranches
import HeapHttpd.Security.Digcalc

/-!
# Files served over time

`web_doc::Response` between the disk and the file cache, while time passes, files change and
requests for them come one after the other: the digest of a file, when its copy in the cache is
used, and what gets into the cache.
-/

namespace HeapHttpd

namespace Http1

namespace FileService

open General OrderedMap WebDoc
open Cache (Entry Store setAccess)
open Security (cvtHex)

/-! ## The digest of a file -/

/-- The loop of `get_file_etag`, for some rounds at most, with what was copied to `filebuf`. -/
def etagLoop (content : List UInt8) :
    Nat → Stream → Security.Md5.Ctx → List UInt8 → Outcome (Security.Md5.Ctx × List UInt8)
  | 0, _, _, _ => .fault
  | rounds + 1, ifsResource, md5Ctx, filebuf =>
      if ifsResource.eofbit then .ok (md5Ctx, filebuf)
      else
        match ifsResource.read content 1448 with
        | none => .fault
        | some (rbuf, ifsResource) =>
            Security.Md5.update md5Ctx rbuf >>= fun md5Ctx =>
              etagLoop content rounds ifsResource md5Ctx (filebuf ++ rbuf)

/-- `get_file_etag` for a file that is opened, with what it copies to `filebuf`. -/
def getFileEtag (content : List UInt8) : Outcome (List UInt8 × List UInt8) :=
  etagLoop content (content.length / 1448 + 2) Stream.opened Security.Md5.init [] >>=
    fun (md5Ctx, filebuf) => Security.Md5.final md5Ctx >>= fun ha => .ok (cvtHex ha, filebuf)

theorem etagLoop_eq_ok {content : List UInt8} {rounds position : Nat} {md5Ctx : Security.Md5.Ctx}
    (holds : Security.Md5.Holds md5Ctx (content.take position))
    (patient : content.length - position < rounds * 1448) :
    ∃ behind, Security.Md5.Holds behind content ∧
      etagLoop content (rounds + 1) ⟨position, false, false⟩ md5Ctx (content.take position) =
        .ok (behind, content) := by
  induction rounds generalizing position md5Ctx with
  | zero => omega
  | succ rounds ih =>
      have step : Stream.read content 1448 ⟨position, false, false⟩ =
          some ((content.drop position).take 1448,
            ⟨position + ((content.drop position).take 1448).length,
              decide (((content.drop position).take 1448).length < 1448),
              decide (((content.drop position).take 1448).length < 1448)⟩) := read_good 1448
      have piece : ((content.drop position).take 1448).length =
          min 1448 (content.length - position) := length_part 1448
      have short : ((content.drop position).take 1448).length + 63 < 2 ^ 32 := by
        rw [piece]
        omega
      obtain ⟨next, updated, holds'⟩ := Security.Md5.holds_update holds short
      rw [etagLoop, if_neg Bool.false_ne_true]
      simp only [step, updated, Outcome.ok_bind]
      rw [← List.take_add] at holds' ⊢
      by_cases last : content.length - position < 1448
      · have all : content.take (position + 1448) = content :=
          List.take_of_length_le (by omega)
        rw [all] at holds' ⊢
        have short : decide (((content.drop position).take 1448).length < 1448) = true := by
          rw [piece]
          exact decide_eq_true (by omega)
        exact ⟨next, holds', by rw [short, etagLoop, if_pos rfl]⟩
      · have whole : ((content.drop position).take 1448).length = 1448 := by
          rw [piece]
          omega
        have enough : decide (1448 < 1448) = false := decide_eq_false (Nat.lt_irrefl 1448)
        rw [whole, enough]
        exact ih holds' (by omega)

/-- The digest of a file is that of its content, which is copied as it is. -/
theorem getFileEtag_eq_ok (content : List UInt8) :
    getFileEtag content = .ok (cvtHex (Security.Md5.digest content), content) := by
  have patient : content.length - 0 < (content.length / 1448 + 1) * 1448 := by omega
  obtain ⟨behind, holds, looped⟩ := etagLoop_eq_ok Security.Md5.holds_init patient
  have looped' : etagLoop content (content.length / 1448 + 2) Stream.opened Security.Md5.init [] =
      .ok (behind, content) := looped
  rw [getFileEtag, looped', Outcome.ok_bind]
  dsimp only
  rw [Security.Md5.final_eq_ok holds, Outcome.ok_bind]

/-! ## The disk, the file cache and the time -/

/-- What a name of the disk stands for, with the time it was modified.  Files have less than 2^32
octets. -/
inductive Node
  | directory (tModify : Int)
  | file (content : List UInt8) (tModify : Int) (fits : content.length < 2 ^ 32)

/-- `st_mtime`. -/
def Node.tModify : Node → Int
  | directory tModify => tModify
  | file _ tModify _ => tModify

/-- `file_cache`, with the `FILE_CACHE_DATA` in it. -/
structure FileCache where
  buf : List UInt8
  etag : List UInt8
  tModify : Int
  tCreate : Int
  cacheMaxTime : Int
  fits : buf.length < 2 ^ 32

/-- The time, the disk and the file cache. -/
structure Site where
  now : Int
  disk : List UInt8 → Option Node
  fileCache : Store FileCache

/-- What stays the same: the configuration, the response header so far, `m_type_table`, the largest
offset that a file can be set to, and the page of status 404 at a time. -/
structure Server where
  workPath : List UInt8
  singleLocalfileCacheSize : Nat
  totalLocalfileCacheSize : Nat
  responseHeader : StringMap
  typeTable : List UInt8 → Option (List UInt8)
  seekLimit : Int
  defaultHtml : Int → List UInt8

/-- A request, and whether it has `m_request_no_cache` set. -/
structure Request where
  fields : FileRequest
  requestNoCache : Bool

namespace Server

/-- What `web_doc::Response` finds at a time. -/
def system (server : Server) (now : Int) : FileSystem where
  responseHeader := server.responseHeader
  typeTable := server.typeTable
  gmtDate time := outHTTPGMTDateString (UInt32.ofNat time)
  now := now
  seekLimit := server.seekLimit

/-- `strResourceFullPath`. -/
def strResourceFullPath (server : Server) (request : Request) : List UInt8 :=
  server.workPath ++ octets "/html/" ++ request.fields.resource

/-- The answer where there is no file. -/
def notFound (server : Server) (now : Int) : FileReply where
  status := 404
  fields := server.responseHeader
    |>.set (octets "Content-Type") (octets "text/html")
    |>.set (octets "Content-Length") (sprintfD (server.defaultHtml now).length)
  body := server.defaultHtml now

end Server

/-! ## A request -/

/-- `_find_file_`. -/
def findFile (now : Int) (name : List UInt8) (fileCache : Store FileCache) : Option FileCache :=
  match find name fileCache.entries with
  | none => none
  | some entry => if entry.data.cacheMaxTime < now then none else some entry.data

/-- `file_cache_available`: the copy was made less than ten seconds ago, or less than ninety seconds
ago and the file has not been modified since; it was not made in the same second. -/
def fileCacheAvailable (site : Site) (name : List UInt8) (data : FileCache) : Bool :=
  let cacheTimeOut := site.now - data.tCreate
  (cacheTimeOut < 10 && 0 < cacheTimeOut) ||
    ((site.disk name).any (fun node => node.tModify = data.tModify) &&
      cacheTimeOut < 90 && 0 < cacheTimeOut)

/-- The file that is served from the cache. -/
def FileCache.served (data : FileCache) : ServedFile where
  content := data.buf
  etag := data.etag
  tLastModifyTime := data.tModify
  fits := data.fits

/-- `web_doc::Response` with `file_cache_available`. -/
def respondCached (server : Server) (request : Request) (data : FileCache) (site : Site) :
    Option FileReply :=
  cachedResponse (server.system site.now) request.fields data.served

/-- Whether the time of the file alone allows an answer without a body. -/
def unmodifiedSince (system : FileSystem) (request : FileRequest) (tLastModifyTime : Int) : Bool :=
  request.mayUseCache && cString request.ifModifiedSince ≠ [] &&
    cString request.ifModifiedSince = system.dateString tLastModifyTime

/-- `web_doc::Response` for a file that it reads, with loops of some rounds at most.  A file that is
not too large gets into the cache, and is answered from there. -/
def respondRead (server : Server) (rounds : Nat) (request : Request) (content : List UInt8)
    (tModify : Int) (fits : content.length < 2 ^ 32) (site : Site) : Option FileReply × Site :=
  let system := server.system site.now
  let name := server.strResourceFullPath request
  if unmodifiedSince system request.fields tModify then (some (notModifiedReply system), site)
  else
    match getFileEtag content with
    | .ok (etag, filebuf) =>
        if content.length ≤ server.singleLocalfileCacheSize then
          if fits : filebuf.length < 2 ^ 32 then
            let data : FileCache :=
              { buf := filebuf, etag, tModify, tCreate := site.now, cacheMaxTime := site.now + 900,
                fits }
            let fileCache := site.fileCache.push server.totalLocalfileCacheSize
              (fun _ => site.now) name ⟨filebuf.length, site.now, data⟩
            let site := { site with fileCache }
            -- behind `end()`, there is nothing to go on with
            (if fileCache.strayed then none else respondCached server request data site, site)
          else (none, site)
        else (streamedResponse system request.fields ⟨content, etag, tModify, fits⟩ rounds, site)
    | _ => (none, site)

/-- `web_doc::Response`. -/
def respond (server : Server) (rounds : Nat) (request : Request) (site : Site) :
    Option FileReply × Site :=
  let name := server.strResourceFullPath request
  let found := if request.requestNoCache then none else findFile site.now name site.fileCache
  -- `file_rdlock` writes the time of the access
  let site := if found.isSome then
      { site with
        fileCache :=
          { site.fileCache with entries := setAccess name site.now site.fileCache.entries } }
    else site
  match found.filter (fileCacheAvailable site name) with
  | some data => (respondCached server request data site, site)
  | none =>
      match site.disk name with
      | none => (some (server.notFound site.now), site)
      | some (.directory _) => (some (server.notFound site.now), site)
      | some (.file content tModify fits) =>
          respondRead server rounds request content tModify fits site

/-! ## Runs -/

/-- What happens. -/
inductive Event
  | tick (seconds : Nat)
  | edit (name : List UInt8) (node : Option Node)
  | request (request : Request)
  | clearFiles

/-- One event. -/
def Site.happen (server : Server) (rounds : Nat) (site : Site) : Event → Site
  | .tick seconds => { site with now := site.now + seconds }
  | .edit name node =>
      { site with disk := fun other => if other = name then node else site.disk other }
  | .request request => (respond server rounds request site).2
  | .clearFiles => { site with fileCache := site.fileCache.clear }

/-- A site whose file cache is empty. -/
def Site.start (now : Int) (disk : List UInt8 → Option Node) : Site :=
  { now, disk, fileCache := .new }

/-- A run. -/
def run (server : Server) (rounds : Nat) (start : Site) (events : List Event) : Site :=
  events.foldl (Site.happen server rounds) start

/-! ## What a request leaves in the file cache -/

section Stored

variable {Data : Type}

/-- The names and what is stored under them, less the times of access. -/
def datas (entries : List (List UInt8 × Entry Data)) : List (List UInt8 × Data) :=
  entries.map fun entry => (entry.1, entry.2.data)

@[simp]
theorem datas_setAccess (name : List UInt8) (time : Int)
    (entries : List (List UInt8 × Entry Data)) :
    datas (setAccess name time entries) = datas entries := by
  rw [datas, setAccess, List.map_map, datas]
  refine List.map_congr_left fun entry _ => ?_
  rw [Function.comp_apply]
  split <;> rfl

theorem datas_turn (clock : Nat → Int) (search : Cache.Search Data) (name : List UInt8) :
    datas (search.turn clock name).entries = datas search.entries := by
  rw [Cache.Search.turn]
  split
  · rfl
  · dsimp only
    split
    · split
      · simp only [datas_setAccess]
      · split <;> simp only [datas_setAccess]
    · simp only [datas_setAccess]

theorem datas_findOldest (clock : Nat → Int) (entries : List (List UInt8 × Entry Data)) :
    datas (Cache.findOldest clock entries).entries = datas entries := by
  rw [Cache.findOldest]
  generalize entries.map Prod.fst = names
  suffices any : ∀ search : Cache.Search Data,
      datas (names.foldl (Cache.Search.turn clock) search).entries = datas search.entries from any _
  induction names with
  | nil => exact fun _ => rfl
  | cons name names ih =>
      intro search
      rw [List.foldl_cons, ih, datas_turn]

theorem mem_datas_set {entries : List (List UInt8 × Entry Data)} {name : List UInt8}
    {entry : Entry Data} {stored : List UInt8 × Data}
    (member : stored ∈ datas (set Tunneling.stringBefore name entry entries)) :
    stored = (name, entry.data) ∨ stored ∈ datas entries := by
  obtain ⟨kept, inEntries, rfl⟩ := List.mem_map.mp member
  rcases mem_set inEntries with rfl | old
  · exact .inl rfl
  · exact .inr (List.mem_map_of_mem old)

/-- A push stores nothing but what is pushed. -/
theorem mem_datas_push {total : Nat} {clock : Nat → Int} {name : List UInt8} {entry : Entry Data}
    {store : Store Data} {stored : List UInt8 × Data}
    (member : stored ∈ datas (store.push total clock name entry).entries) :
    stored = (name, entry.data) ∨ stored ∈ datas store.entries := by
  rw [Store.push] at member
  split at member
  · exact mem_datas_set member
  · split at member
    · exact mem_datas_set member
    · rw [Store.replaceOldest] at member
      split at member
      · exact .inr member
      · rcases mem_datas_set member with isNew | old
        · exact .inl isNew
        · obtain ⟨kept, inEntries, rfl⟩ := List.mem_map.mp old
          have inSearch := List.mem_map_of_mem (f := fun entry => (entry.1, entry.2.data))
            (List.mem_of_mem_filter inEntries)
          exact .inr (datas_findOldest clock store.entries ▸ inSearch)

end Stored

/-- A file with the digest that it is sent with. -/
def fileOf (content : List UInt8) (tModify : Int) (fits : content.length < 2 ^ 32) :
    ServedFile where
  content := content
  etag := cvtHex (Security.Md5.digest content)
  tLastModifyTime := tModify
  fits := fits

/-- A copy that is made of a file. -/
structure CopyOf (data : FileCache) (node : Option Node) (time : Int) : Prop where
  isFile : node = some (.file data.buf data.tModify data.fits)
  served : data.served = fileOf data.buf data.tModify data.fits
  tCreate : data.tCreate = time

/-- The answer to a request for a file, whichever way its body is sent. -/
def Answers (server : Server) (rounds : Nat) (now : Int) (request : Request) (file : ServedFile)
    (reply : FileReply) : Prop :=
  cachedResponse (server.system now) request.fields file = some reply ∨
    streamedResponse (server.system now) request.fields file rounds = some reply

theorem response_of_unmodifiedSince {system : FileSystem} {request : FileRequest}
    {file : ServedFile} {bodyOf : Ranges → Option (List UInt8)}
    (unmodified : unmodifiedSince system request file.tLastModifyTime = true) :
    WebDoc.response system request file bodyOf = some (notModifiedReply system) := by
  have isNotModified : notModified system request file = true := by
    simp only [unmodifiedSince, Bool.and_eq_true, decide_eq_true_eq] at unmodified
    simp only [notModified, Bool.and_eq_true, Bool.or_eq_true, decide_eq_true_eq]
    exact ⟨unmodified.1.1, .inl ⟨unmodified.1.2, unmodified.2⟩⟩
  rw [WebDoc.response, if_pos isNotModified]

section Respond

variable {server : Server} {rounds : Nat} {request : Request} {site : Site}

/-- What is read is answered, and at most a copy of it is stored. -/
theorem respondRead_spec {content : List UInt8} {tModify : Int} {fits : content.length < 2 ^ 32}
    (isFile : site.disk (server.strResourceFullPath request) = some (.file content tModify fits)) :
    let out := respondRead server rounds request content tModify fits site
    out.2.now = site.now ∧ out.2.disk = site.disk ∧
      (∀ stored ∈ datas out.2.fileCache.entries, stored ∈ datas site.fileCache.entries ∨
        CopyOf stored.2 (site.disk stored.1) site.now) ∧
      ∀ reply, out.1 = some reply →
        Answers server rounds site.now request (fileOf content tModify fits) reply := by
  intro out
  have isOut : out = respondRead server rounds request content tModify fits site := rfl
  rw [respondRead] at isOut
  dsimp only at isOut
  split at isOut
  case isTrue unmodified =>
    rw [isOut]
    refine ⟨rfl, rfl, fun stored member => .inl member, ?_⟩
    rintro _ ⟨⟩
    exact .inl (response_of_unmodifiedSince unmodified)
  case isFalse =>
    rw [getFileEtag_eq_ok] at isOut
    dsimp only at isOut
    split at isOut
    case isTrue =>
      rw [isOut]
      refine ⟨rfl, rfl, ?_, ?_⟩
      · intro stored member
        rcases mem_datas_push member with rfl | old
        · exact .inr ⟨isFile, rfl, rfl⟩
        · exact .inl old
      · intro reply answered
        dsimp only at answered
        split at answered
        · cases answered
        · exact .inl answered
    case isFalse =>
      rw [isOut]
      exact ⟨rfl, rfl, fun stored member => .inl member, fun reply answered => .inr answered⟩

/-- What a request gets, and what it leaves behind. -/
theorem respond_spec (server : Server) (rounds : Nat) (request : Request) (site : Site) :
    let out := respond server rounds request site
    let name := server.strResourceFullPath request
    out.2.now = site.now ∧ out.2.disk = site.disk ∧
      (∀ stored ∈ datas out.2.fileCache.entries, stored ∈ datas site.fileCache.entries ∨
        CopyOf stored.2 (site.disk stored.1) site.now) ∧
      ∀ reply, out.1 = some reply →
        (reply = server.notFound site.now ∧
          ∀ content tModify fits, site.disk name ≠ some (.file content tModify fits)) ∨
        (∃ content tModify fits, site.disk name = some (.file content tModify fits) ∧
          Answers server rounds site.now request (fileOf content tModify fits) reply) ∨
        ∃ data, (name, data) ∈ datas site.fileCache.entries ∧
          fileCacheAvailable site name data = true ∧
          cachedResponse (server.system site.now) request.fields data.served = some reply := by
  intro out name
  have isOut : out = respond server rounds request site := rfl
  rw [respond] at isOut
  dsimp only at isOut
  generalize isFound : (if request.requestNoCache = true then none
    else findFile site.now (server.strResourceFullPath request) site.fileCache) = found at isOut
  have stored : ∀ data, found = some data → (name, data) ∈ datas site.fileCache.entries := by
    rintro data rfl
    split at isFound
    · cases isFound
    · rw [findFile] at isFound
      split at isFound
      · cases isFound
      · rename_i entry isEntry
        split at isFound
        · cases isFound
        · cases isFound
          exact List.mem_map.mpr ⟨(name, entry), mem_of_find isEntry, rfl⟩
  generalize isAccessed : (if found.isSome = true then
    ({ site with
        fileCache :=
          { site.fileCache with
            entries := setAccess (server.strResourceFullPath request) site.now
              site.fileCache.entries } } : Site)
    else site) = accessed at isOut
  have same : accessed.now = site.now ∧ accessed.disk = site.disk ∧
      datas accessed.fileCache.entries = datas site.fileCache.entries := by
    rw [← isAccessed]
    split
    · exact ⟨rfl, rfl, datas_setAccess _ _ _⟩
    · exact ⟨rfl, rfl, rfl⟩
  obtain ⟨sameNow, sameDisk, sameDatas⟩ := same
  have available (data : FileCache) : fileCacheAvailable accessed name data =
      fileCacheAvailable site name data := by
    rw [fileCacheAvailable, sameNow, sameDisk, fileCacheAvailable]
  rw [← sameNow, ← sameDisk, ← sameDatas]
  split at isOut
  case h_1 data isData =>
    obtain ⟨isFound', isAvailable⟩ := Option.filter_eq_some_iff.mp isData
    rw [isOut]
    refine ⟨rfl, rfl, fun stored member => .inl member, fun reply answered => ?_⟩
    exact .inr (.inr ⟨data, sameDatas ▸ stored data isFound',
      (available data).symm.trans isAvailable, answered⟩)
  case h_2 =>
    split at isOut
    case h_1 isNone =>
      rw [isOut]
      refine ⟨rfl, rfl, fun stored member => .inl member, ?_⟩
      rintro _ ⟨⟩
      refine .inl ⟨rfl, fun content tModify fits isFile => ?_⟩
      rw [isNone] at isFile
      cases isFile
    case h_2 time isDirectory =>
      rw [isOut]
      refine ⟨rfl, rfl, fun stored member => .inl member, ?_⟩
      rintro _ ⟨⟩
      refine .inl ⟨rfl, fun content tModify fits isFile => ?_⟩
      rw [isDirectory] at isFile
      cases isFile
    case h_3 content tModify fits isFile =>
      obtain ⟨isNow, isDisk, kept, answers⟩ :=
        @respondRead_spec _ rounds _ _ _ _ _ isFile
      rw [isOut]
      exact ⟨isNow, isDisk, kept, fun reply answered =>
        .inr (.inl ⟨content, tModify, fits, isFile, answers reply answered⟩)⟩

end Respond

/-! ## How old an answer is -/

/-- The site was like this after a part of a run. -/
def Past (server : Server) (rounds : Nat) (start : Site) (events : List Event)
    (property : Site → Prop) : Prop :=
  ∃ earlier, earlier <+: events ∧ property (run server rounds start earlier)

section Runs

variable {server : Server} {rounds : Nat} {start : Site}

theorem run_append (events : List Event) (event : Event) :
    run server rounds start (events ++ [event]) =
      (run server rounds start events).happen server rounds event := by
  rw [run, List.foldl_append]
  rfl

theorem Past.later {events : List Event} {event : Event} {property : Site → Prop}
    (past : Past server rounds start events property) :
    Past server rounds start (events ++ [event]) property := by
  obtain ⟨earlier, isPrefix, holds⟩ := past
  exact ⟨earlier, isPrefix.trans (List.prefix_append events [event]), holds⟩

/-- What the file cache holds was copied from the disk at the time it says. -/
theorem copied_of_mem_run (empty : start.fileCache = .new) (events : List Event) :
    ∀ stored ∈ datas (run server rounds start events).fileCache.entries,
      Past server rounds start events fun site =>
        CopyOf stored.2 (site.disk stored.1) site.now := by
  induction events using List.reverseRecOn with
  | nil =>
      intro stored member
      have none' : start.fileCache.entries = [] := by rw [empty]; rfl
      rw [run, List.foldl_nil, none'] at member
      cases member
  | append_singleton events event ih =>
      intro stored member
      rw [run_append] at member
      cases event with
      | tick seconds => exact (ih stored member).later
      | edit name node => exact (ih stored member).later
      | clearFiles => cases member
      | request request =>
          obtain ⟨-, -, kept, -⟩ := respond_spec server rounds request
            (run server rounds start events)
          rcases kept stored member with old | new
          · exact (ih stored old).later
          · exact ⟨events, List.prefix_append events [.request request], new⟩

end Runs

/-- A server that answers from files alone. -/
def plainServer : Server where
  workPath := octets "/var"
  singleLocalfileCacheSize := 1024
  totalLocalfileCacheSize := 4096
  responseHeader := []
  typeTable _ := none
  seekLimit := 2 ^ 40
  defaultHtml _ := []

/-- A request for a file. -/
def getIndex : Request where
  fields :=
    { method := .get
      resource := octets "index.css"
      cacheControl := []
      pragma := []
      ifModifiedSince := []
      ifNoneMatch := []
      range := [] }
  requestNoCache := false

/-- A file that is changed behind a request for it. -/
def changedIndex : List Event :=
  [.edit (octets "/var/html/index.css") (some (.file (octets "a{}") 1000 (by decide))),
    .request getIndex, .tick 5,
    .edit (octets "/var/html/index.css") (some (.file (octets "b{}") 1005 (by decide)))]

theorem hexDigit_inj {first second : UInt8} (small : first < 16) (small' : second < 16)
    (same : Security.hexDigit first = Security.hexDigit second) : first = second := by
  have digits : ∀ first < 16, ∀ second < 16, Security.hexDigit (UInt8.ofNat first) =
      Security.hexDigit (UInt8.ofNat second) → first = second := by
    decide +kernel
  have same' := digits first.toNat small second.toNat small'
    (by rwa [UInt8.ofNat_toNat, UInt8.ofNat_toNat])
  exact UInt8.toNat_inj.mp same'

theorem halves_octet (octet : UInt8) :
    octet >>> 4 &&& 0xf < 16 ∧ octet &&& 0xf < 16 ∧
      (octet >>> 4 &&& 0xf) <<< 4 ||| octet &&& 0xf = octet := by
  revert octet
  apply forall_octet
  decide +kernel

theorem cvtHex_inj {first second : List UInt8} (same : cvtHex first = cvtHex second) :
    first = second := by
  induction first generalizing second with
  | nil =>
      cases second with
      | nil => rfl
      | cons octet second => cases same
  | cons octet first ih =>
      cases second with
      | nil => cases same
      | cons octet' second =>
          simp only [cvtHex, List.flatMap_cons, List.cons_append, List.nil_append,
            List.cons.injEq] at same
          obtain ⟨high, low, rest⟩ := same
          obtain ⟨smallHigh, smallLow, whole⟩ := halves_octet octet
          obtain ⟨smallHigh', smallLow', whole'⟩ := halves_octet octet'
          rw [← whole, ← whole', hexDigit_inj smallHigh smallHigh' high,
            hexDigit_inj smallLow smallLow' low, ih rest]

theorem cvtHex_octets {bin : List UInt8} : ∀ digit ∈ cvtHex bin, digit ≠ 0 := by
  have octetDigits : ∀ octet : UInt8, Security.hexDigit (octet >>> 4 &&& 0xf) ≠ 0 ∧
      Security.hexDigit (octet &&& 0xf) ≠ 0 := by
    apply forall_octet
    decide +kernel
  intro digit member
  obtain ⟨octet, -, isDigit⟩ := List.mem_flatMap.mp member
  simp only [List.mem_cons, List.not_mem_nil, or_false] at isDigit
  rcases isDigit with rfl | rfl
  · exact (octetDigits octet).1
  · exact (octetDigits octet).2

/-- Two times are printed alike if they are the same `unsigned int`. -/
theorem dateString_inj {server : Server} {now now' first second : Int} :
    (server.system now).dateString first = (server.system now').dateString second ↔
      first % 2 ^ 32 = second % 2 ^ 32 := by
  have printed (time now : Int) : (server.system now).dateString time =
      outHTTPGMTDateString (UInt32.ofNat (time % 2 ^ 32).toNat) := rfl
  have number (time : Int) :
      (UInt32.ofNat (time % 2 ^ 32).toNat).toNat = (time % 2 ^ 32).toNat := by
    rw [UInt32.toNat_ofNat', Nat.mod_eq_of_lt (by omega)]
  rw [printed, printed]
  constructor
  case mp =>
    intro same
    have parsed (time : UInt32) := @parse_strftime "GMT" (.inl rfl) time
    have parsed' := parsed (UInt32.ofNat (second % 2 ^ 32).toNat)
    have parsed := parsed (UInt32.ofNat (first % 2 ^ 32).toNat)
    rw [outHTTPGMTDateString, outHTTPGMTDateString] at same
    rw [same, parsed', number, number] at parsed
    have times := Outcome.ok.inj parsed
    omega
  case mpr =>
    intro same
    rw [same]

theorem cString_dateString (server : Server) (now time : Int) :
    cString ((server.system now).dateString time) = (server.system now).dateString time ∧
      (server.system now).dateString time ≠ [] := by
  have printable := gmtime_printable (UInt32.ofNat (time % 2 ^ 32).toNat).toNat
  have long := @length_strftime "GMT" _ printable (by decide)
  refine ⟨cString_of_nulFree (nulFree_strftime printable (by decide)), ?_⟩
  intro empty
  have none' : strftime "GMT" (gmtime (UInt32.ofNat (time % 2 ^ 32).toNat).toNat) = [] := empty
  rw [none'] at long
  cases long

/-- A request with what an earlier answer said about a file: the time it was modified, or its
digest. -/
def Request.again (server : Server) (request : Request) (seenAt : Int) (seen : ServedFile)
    (withTime withDigest : Bool) : Request :=
  { request with
    fields :=
      { request.fields with
        ifModifiedSince :=
          if withTime then (server.system seenAt).dateString seen.tLastModifyTime else []
        ifNoneMatch := if withDigest then seen.quotedEtag else [] } }

theorem notModified_again (server : Server) (now seenAt : Int) (request : Request)
    (content seenContent : List UInt8) (tModify seenTime : Int)
    (fits : content.length < 2 ^ 32) (seenFits : seenContent.length < 2 ^ 32)
    (withTime withDigest : Bool) :
    notModified (server.system now)
        (request.again server seenAt (fileOf seenContent seenTime seenFits) withTime
          withDigest).fields (fileOf content tModify fits) = true ↔
      request.fields.mayUseCache = true ∧
        ((withTime = true ∧ tModify % 2 ^ 32 = seenTime % 2 ^ 32) ∨
          (withDigest = true ∧ Security.Md5.digest content = Security.Md5.digest seenContent)) := by
  have quoted (content : List UInt8) (tModify : Int) (fits : content.length < 2 ^ 32) :
      (fileOf content tModify fits).quotedEtag =
        0x22 :: (cvtHex (Security.Md5.digest content) ++ [0x22]) := by
    rw [ServedFile.quotedEtag, fileOf]
    rfl
  have quotedFree : 0 ∉ (fileOf seenContent seenTime seenFits).quotedEtag := by
    rw [quoted]
    intro member
    rcases List.mem_cons.mp member with isQuote | inDigest
    · cases isQuote
    · rcases List.mem_append.mp inDigest with isDigit | isQuote
      · exact cvtHex_octets 0 isDigit rfl
      · cases List.mem_singleton.mp isQuote
  have digests : (fileOf seenContent seenTime seenFits).quotedEtag =
      (fileOf content tModify fits).quotedEtag ↔
        Security.Md5.digest content = Security.Md5.digest seenContent := by
    rw [quoted, quoted, List.cons_inj_right, List.append_left_inj]
    exact ⟨fun same => (cvtHex_inj same).symm, fun same => by rw [same]⟩
  obtain ⟨wholeDate, dated⟩ := cString_dateString server seenAt seenTime
  have times : (server.system seenAt).dateString seenTime =
      (server.system now).dateString tModify ↔ seenTime % 2 ^ 32 = tModify % 2 ^ 32 :=
    dateString_inj
  have isTime : (fileOf seenContent seenTime seenFits).tLastModifyTime = seenTime := rfl
  have isTime' : (fileOf content tModify fits).tLastModifyTime = tModify := rfl
  have byTime : (cString (if withTime = true then (server.system seenAt).dateString seenTime
      else []) ≠ [] ∧ cString (if withTime = true then (server.system seenAt).dateString seenTime
      else []) = (server.system now).dateString tModify) ↔
        withTime = true ∧ tModify % 2 ^ 32 = seenTime % 2 ^ 32 := by
    cases withTime with
    | false => exact ⟨fun both => absurd rfl both.1, fun both => by cases both.1⟩
    | true =>
        rw [if_pos rfl, wholeDate, times]
        exact ⟨fun both => ⟨rfl, both.2.symm⟩, fun both => ⟨dated, both.2.symm⟩⟩
  have byDigest : (cString (if withDigest = true then
      (fileOf seenContent seenTime seenFits).quotedEtag else []) ≠ [] ∧
      cString (if withDigest = true then (fileOf seenContent seenTime seenFits).quotedEtag
        else []) = (fileOf content tModify fits).quotedEtag) ↔
        withDigest = true ∧ Security.Md5.digest content = Security.Md5.digest seenContent := by
    cases withDigest with
    | false => exact ⟨fun both => absurd rfl both.1, fun both => by cases both.1⟩
    | true =>
        rw [if_pos rfl, cString_of_nulFree quotedFree, digests]
        refine ⟨fun both => ⟨rfl, both.2⟩, fun both => ⟨?_, both.2⟩⟩
        rw [quoted]
        exact List.cons_ne_nil _ _
  have isMayUse : (request.again server seenAt (fileOf seenContent seenTime seenFits) withTime
      withDigest).fields.mayUseCache = request.fields.mayUseCache := rfl
  rw [notModified, Bool.and_eq_true, Bool.or_eq_true, Bool.and_eq_true, Bool.and_eq_true,
    decide_eq_true_eq, decide_eq_true_eq, decide_eq_true_eq, decide_eq_true_eq, isMayUse,
    Request.again, isTime, isTime', byTime, byDigest]

theorem status_eq_notModified (system : FileSystem) (request : FileRequest) (file : ServedFile)
    (bodyOf : Ranges → Option (List UInt8)) :
    (WebDoc.response system request file bodyOf).map FileReply.status = some 304 ↔
      notModified system request file = true := by
  rw [WebDoc.response]
  split
  case isTrue unmodified => exact ⟨fun _ => unmodified, fun _ => rfl⟩
  case isFalse modified =>
    refine ⟨fun status => ?_, fun unmodified => absurd unmodified modified⟩
    exfalso
    split at status
    · cases status
    · rename_i parsed _
      rw [Option.map_map, Option.map_eq_some_iff] at status
      obtain ⟨body, -, isStatus⟩ := status
      rw [Function.comp_apply, header] at isStatus
      split at isStatus
      · cases isStatus
      · cases isStatus

end FileService

end Http1

end HeapHttpd
