import HeapHttpd.Cache.VariableLines
import HeapHttpd.Http1.ByteRanges

/-!
# The target of a request

Request lines in their three forms, and which parts of them `CHttp::ParseMethod`
recovers, with what it writes into the buffers that it sizes by the line.
-/

namespace HeapHttpd

namespace Http1

open General
open Lines (takeWhile_stop dropWhile_stop takeWhile_until dropWhile_until)
open WebDoc (Numeral)

/-! ## The buffers of ParseMethod -/

/-- The line behind the extensions of the reverse proxy. -/
def Site.hooked (site : Site) (strtext : List UInt8) : List UInt8 :=
  if site.enableHttpReverseProxy then reverseDelivery site.reverseExtList strtext else strtext

/-- What `ParseMethod` writes into buffers for an absolute URL behind its first seven
octets: a host and what follows it, for each of up to three hosts. -/
def proxyTexts (behind : List UInt8) : List (List UInt8) :=
  let isHost (ch : UInt8) : Bool := ch ≠ 0x2f && ch ≠ 0x7c
  let relatived := behind.dropWhile isHost
  [behind.takeWhile isHost, relatived] ++
    if relatived.head? = some 0x7c then
      let second := relatived.tail.dropWhile isHost
      [relatived.tail.takeWhile isHost, second] ++
        if second.head? = some 0x7c then
          [second.tail.takeWhile isHost, second.tail.dropWhile isHost]
        else []
    else []

/-- What `ParseMethod` writes into its buffers, each as long as the line it is called
with, and a NUL behind it. -/
def parseMethodTexts (site : Site) (strtext : List UInt8) : List (List UInt8) :=
  let isMethod (ch : UInt8) : Bool := (0x41 ≤ ch && ch ≤ 0x5a) || ch = 0x20 || ch = 0x09
  let szMethod := strtext.takeWhile isMethod
  if strncasecmp szMethod (octets "CONNECT ") 8 then
    [szMethod, (strtext.drop szMethod.length).takeWhile (· ≠ 0x20)]
  else
    let strtext := site.hooked strtext
    let pTemp := strtext.drop szMethod.length
    if strncasecmp pTemp (octets "http://") 7 || strncasecmp pTemp (octets "https://") 8 then
      let szUrl := pTemp.takeWhile (· ≠ 0x20)
      let behind := pTemp.drop 7
      if site.enableHttpReverseProxy then szMethod :: szUrl :: proxyTexts behind
      else
        let szHost := behind.takeWhile (· ≠ 0x2f)
        [szMethod, szUrl, szHost, behind.drop szHost.length]
    else
      let ends (ch : UInt8) : Bool := ch = 0x20 || ch = 0x09 || ch = 0x0d || ch = 0x0a
      let path := if strtext.head? = some 0x2f then [] else strtext.dropWhile (· ≠ 0x2f)
      let szResource := path.takeWhile fun ch => ch ≠ 0x3f && !ends ch
      let behind := path.drop szResource.length
      [szMethod, szResource,
        if behind.head? = some 0x3f then behind.tail.takeWhile fun ch => !ends ch else []]

/-! ## Request lines -/

/-- The octets of a name of a host. -/
def isHostOctet (ch : UInt8) : Bool :=
  (0x30 ≤ ch && ch ≤ 0x39) || (0x41 ≤ ch && ch ≤ 0x5a) || (0x61 ≤ ch && ch ≤ 0x7a) ||
    decide (ch ∈ octets "-._~%!$&'()*+,;=")

/-- The octets of a path, less the percent sign. -/
def isPathOctet (ch : UInt8) : Bool :=
  (0x30 ≤ ch && ch ≤ 0x39) || (0x41 ≤ ch && ch ≤ 0x5a) || (0x61 ≤ ch && ch ≤ 0x7a) ||
    decide (ch ∈ octets "-._~!$&'()*+,;=:@/")

/-- The octets of a query. -/
def isQueryOctet (ch : UInt8) : Bool :=
  isPathOctet ch || ch = 0x25 || ch = 0x3f

/-- A host: a name or an IPv4 address, or an IPv6 address in brackets. -/
inductive Host
  | name (text : List UInt8) (nonempty : text ≠ [])
      (octets : ∀ ch ∈ text, isHostOctet ch = true)
  | address (text : List UInt8) (colon : 0x3a ∈ text)
      (octets : ∀ ch ∈ text, isHostOctet ch = true ∨ ch = 0x3a)

def Host.text : Host → List UInt8
  | name text _ _ => text
  | address text _ _ => 0x5b :: text ++ [0x5d]

def Host.IsName : Host → Prop
  | name _ _ _ => True
  | address _ _ _ => False

/-- A host with its port, as far as it has one. -/
structure Authority where
  host : Host
  port : Option Numeral
  bounded : ∀ numeral ∈ port, numeral.value < 65536

def Authority.text (authority : Authority) : List UInt8 :=
  authority.host.text ++ (authority.port.elim [] fun numeral => 0x3a :: numeral.text)

def Authority.portOr (default : Nat) (authority : Authority) : Nat :=
  authority.port.elim default Numeral.value

/-- A piece of a path. -/
inductive PathItem
  | plain (ch : UInt8) (isPath : isPathOctet ch = true)
  | escaped (high low : UInt8) (isHigh : hexValue high ≠ 0x3f) (isLow : hexValue low ≠ 0x3f)

def PathItem.text : PathItem → List UInt8
  | plain ch _ => [ch]
  | escaped high low _ _ => [0x25, high, low]

/-- The octet that a piece stands for. -/
def PathItem.octet : PathItem → UInt8
  | plain ch _ => ch
  | escaped high low _ _ => hexValue high <<< 4 ||| hexValue low

/-- A path from the root, behind its slash. -/
abbrev Path := List PathItem

def Path.text (path : Path) : List UInt8 :=
  0x2f :: path.flatMap PathItem.text

def Path.decoded (path : Path) : List UInt8 :=
  0x2f :: path.map PathItem.octet

/-- A query. -/
structure Query where
  text : List UInt8
  isQuery : ∀ ch ∈ text, isQueryOctet ch = true

/-- A query behind its question mark. -/
def queryText (query : Option Query) : List UInt8 :=
  query.elim [] fun query => 0x3f :: query.text

/-- A method that is not `CONNECT`, and the target of its request: a path; or a URL with
its scheme, up to three hosts, a path that may be empty, and a query.  Or `CONNECT` with
a host and a port. -/
inductive TargetLine
  | origin (method : HttpMethod) (unconnected : method ≠ .connect) (path : Path)
      (query : Option Query)
  | absolute (method : HttpMethod) (unconnected : method ≠ .connect) (ssl : Bool)
      (host : Authority) (backups : List Authority) (few : backups.length ≤ 2)
      (path : Option Path) (query : Option Query)
  | connect (host : Authority) (port : host.port.isSome = true)

def version : List UInt8 :=
  octets " HTTP/1.1"

def schemeText (ssl : Bool) : List UInt8 :=
  octets (if ssl then "https://" else "http://")

/-- Hosts with bars between them. -/
def hostsText (host : Authority) (backups : List Authority) : List UInt8 :=
  host.text ++ backups.flatMap fun backup => 0x7c :: backup.text

def TargetLine.text : TargetLine → List UInt8
  | origin method _ path query =>
      methodName method ++ octets " " ++ path.text ++ queryText query ++ version
  | absolute method _ ssl host backups _ path query =>
      methodName method ++ octets " " ++ schemeText ssl ++ hostsText host backups ++
        path.elim [] Path.text ++ queryText query ++ version
  | connect host _ => octets "CONNECT " ++ host.text ++ version

/-- Several hosts are for the reverse proxy. -/
def TargetLine.LegalFor (site : Site) : TargetLine → Prop
  | absolute _ _ _ _ backups _ _ _ => site.enableHttpReverseProxy = false → backups = []
  | _ => True

/-- A host and its port are those of an authority. -/
def Backend.Is (backend : Backend) (default : Nat) (authority : Authority) : Prop :=
  backend.address = authority.host.text ∧ backend.port = authority.portOr default

/-- The parts of a line that are to be recovered, from the members and the line that
`ParseMethod` leaves. -/
def TargetLine.Recovered (header : RequestHeader) (strtext : List UInt8) : TargetLine → Prop
  | origin _ _ path query =>
      header.resource = path.decoded ∧
        header.querystring = query.elim [] Query.text
  | absolute method _ ssl host backups _ path query =>
      let port := if ssl then 443 else 80
      header.backend.Is port host ∧
        (∀ backup ∈ backups[0]?, header.backup1.Is port backup) ∧
        (∀ backup ∈ backups[1]?, header.backup2.Is port backup) ∧
        strtext = methodName method ++ octets " " ++ path.elim [0x2f] Path.text ++
          queryText query ++ version
  | connect host _ => header.backend.Is 443 host

/-- The extensions leave a line as it is, unless they are not asked for it. -/
def TargetLine.KeptBy (site : Site) : TargetLine → Prop
  | connect _ _ => True
  | line => site.hooked line.text = line.text

/-- No buffer is overrun, and where the extensions leave the line as it is, its parts are
recovered. -/
structure Parses (site : Site) (header : RequestHeader) (line : TargetLine) : Prop where
  inside : ∀ text ∈ parseMethodTexts site line.text, text.length ≤ line.text.length
  recovered : line.KeptBy site →
    line.Recovered (header.parseMethod site line.text).1 (header.parseMethod site line.text).2

/-- The octets of a host in front of a bar or a slash. -/
def isProxyHost (ch : UInt8) : Bool :=
  ch ≠ 0x2f && ch ≠ 0x7c

/-- Whether a target is one of the URLs that `ParseMethod` knows. -/
def isUrl (target : List UInt8) : Bool :=
  strncasecmp target (octets "http://") 7 || strncasecmp target (octets "https://") 8

/-- The path of a line: from its first slash, unless that is its first octet. -/
def pathText (strtext : List UInt8) : List UInt8 :=
  (if strtext.head? = some 0x2f then [] else strtext.dropWhile (· ≠ 0x2f)).takeWhile
    fun ch => ch ≠ 0x3f && !(ch = 0x20 || ch = 0x09 || ch = 0x0d || ch = 0x0a)

/-- What follows the path of a line. -/
def behindPath (strtext : List UInt8) : List UInt8 :=
  (if strtext.head? = some 0x2f then [] else strtext.dropWhile (· ≠ 0x2f)).drop
    (pathText strtext).length

/-- The pieces of a line, and of its target behind the method, that fit into a limit: the
target up to a blank, the first host and all that follows it; or the path and the query. -/
structure PiecesFit (strtext target : List UInt8) (limit : Nat) : Prop where
  url : isUrl target = true →
    (target.takeWhile (· ≠ 0x20)).length ≤ limit ∧
      ((target.drop 7).takeWhile isProxyHost).length ≤ limit ∧
      ((target.drop 7).dropWhile isProxyHost).length ≤ limit
  path : isUrl target = false → (pathText strtext).length ≤ limit
  query : isUrl target = false → (behindPath strtext).head? = some 0x3f →
    ((behindPath strtext).tail.takeWhile fun ch =>
      !(ch = 0x20 || ch = 0x09 || ch = 0x0d || ch = 0x0a)).length ≤ limit

/-- What the extensions make of a line, cut behind its method, fits into the line. -/
def MethodFits (site : Site) (method : HttpMethod) (strtext : List UInt8) : Prop :=
  PiecesFit (site.hooked strtext)
    ((site.hooked strtext).drop (methodName method ++ octets " ").length) strtext.length

/-- Of a line that is not `CONNECT`, the reverse proxy cuts what its extensions make of
it into pieces that fit into the line. -/
def TargetLine.Fits (site : Site) : TargetLine → Prop
  | line@(origin method _ _ _) =>
      site.enableHttpReverseProxy = true → MethodFits site method line.text
  | line@(absolute method _ _ _ _ _ _ _) =>
      site.enableHttpReverseProxy = true → MethodFits site method line.text
  | connect _ _ => True

/-- A line of which `ParseMethod` recovers the parts. -/
def TargetLine.Plain : TargetLine → Prop
  | origin _ _ path _ => 0x2b ∉ path.text
  | absolute _ _ ssl host backups _ path _ =>
      ssl = false ∧ (∀ authority ∈ host :: backups, authority.host.IsName) ∧ path.isSome = true
  | connect host _ =>
      host.host.IsName ∧ ∀ ch ∈ host.host.text.head?, ¬ (0x41 ≤ ch ∧ ch ≤ 0x5a)

/-! ## Inside the buffers -/

theorem proxyTexts_sublist {behind text : List UInt8} (written : text ∈ proxyTexts behind) :
    text.Sublist behind := by
  have relatived (isHost : UInt8 → Bool) (behind : List UInt8) :
      (behind.dropWhile isHost).tail.Sublist behind :=
    (List.tail_sublist _).trans (List.dropWhile_sublist isHost)
  simp only [proxyTexts, List.mem_append, List.mem_cons, List.not_mem_nil, or_false] at written
  rcases written with (rfl | rfl) | written
  · exact List.takeWhile_sublist _
  · exact List.dropWhile_sublist _
  · split at written
    · simp only [List.mem_append, List.mem_cons, List.not_mem_nil, or_false] at written
      rcases written with (rfl | rfl) | written
      · exact (List.takeWhile_sublist _).trans (relatived _ behind)
      · exact (List.dropWhile_sublist _).trans (relatived _ behind)
      · split at written
        · simp only [List.mem_cons, List.not_mem_nil, or_false] at written
          rcases written with rfl | rfl
          · exact (List.takeWhile_sublist _).trans
              ((relatived _ _).trans (relatived _ behind))
          · exact (List.dropWhile_sublist _).trans
              ((relatived _ _).trans (relatived _ behind))
        · cases written
    · cases written

/-- What is written is cut out of the line, or of what the extensions have made of it. -/
theorem parseMethodTexts_sublist {site : Site} {strtext text : List UInt8}
    (written : text ∈ parseMethodTexts site strtext) :
    text.Sublist strtext ∨ text.Sublist (site.hooked strtext) := by
  simp only [parseMethodTexts] at written
  split at written
  · simp only [List.mem_cons, List.not_mem_nil, or_false] at written
    rcases written with rfl | rfl
    · exact .inl (List.takeWhile_sublist _)
    · exact .inl ((List.takeWhile_sublist _).trans (List.drop_sublist _ _))
  · split at written
    · split at written
      · simp only [List.mem_cons] at written
        rcases written with rfl | rfl | written
        · exact .inl (List.takeWhile_sublist _)
        · exact .inr ((List.takeWhile_sublist _).trans (List.drop_sublist _ _))
        · exact .inr ((proxyTexts_sublist written).trans
            ((List.drop_sublist _ _).trans (List.drop_sublist _ _)))
      · simp only [List.mem_cons, List.not_mem_nil, or_false] at written
        rcases written with rfl | rfl | rfl | rfl
        · exact .inl (List.takeWhile_sublist _)
        · exact .inr ((List.takeWhile_sublist _).trans (List.drop_sublist _ _))
        · exact .inr ((List.takeWhile_sublist _).trans
            ((List.drop_sublist _ _).trans (List.drop_sublist _ _)))
        · exact .inr ((List.drop_sublist _ _).trans
            ((List.drop_sublist _ _).trans (List.drop_sublist _ _)))
    · have path : (if (site.hooked strtext).head? = some 0x2f then []
          else (site.hooked strtext).dropWhile (· ≠ 0x2f)).Sublist (site.hooked strtext) := by
        split
        · exact List.nil_sublist _
        · exact List.dropWhile_sublist _
      generalize (if (site.hooked strtext).head? = some 0x2f then []
        else (site.hooked strtext).dropWhile (· ≠ 0x2f)) = pathText at written path
      simp only [List.mem_cons, List.not_mem_nil, or_false] at written
      rcases written with rfl | rfl | rfl
      · exact .inl (List.takeWhile_sublist _)
      · exact .inr ((List.takeWhile_sublist _).trans path)
      · refine .inr ?_
        split
        · exact (List.takeWhile_sublist _).trans ((List.tail_sublist _).trans
            ((List.drop_sublist _ _).trans path))
        · exact List.nil_sublist _

theorem parseMethodTexts_inside {site : Site} {strtext : List UInt8}
    (fits : (site.hooked strtext).length ≤ strtext.length) :
    ∀ text ∈ parseMethodTexts site strtext, text.length ≤ strtext.length := by
  intro text written
  rcases parseMethodTexts_sublist written with inLine | inHooked
  · exact inLine.length_le
  · exact inHooked.length_le.trans fits

/-! ## The method -/

/-- The octets that `ParseMethod` takes for the method. -/
def isMethodOctet (ch : UInt8) : Bool :=
  (0x41 ≤ ch && ch ≤ 0x5a) || ch = 0x20 || ch = 0x09

theorem methodName_octets (method : HttpMethod) :
    (methodName method ++ octets " ").all isMethodOctet = true := by
  cases method <;> decide

theorem methodName_not_connect {method : HttpMethod} (unconnected : method ≠ .connect) :
    strncasecmp (methodName method ++ octets " ") (octets "CONNECT ") 8 = false := by
  cases method <;> first | decide | exact absurd rfl unconnected

namespace RequestHeader

variable {site : Site} {header : RequestHeader} {method : HttpMethod} {target : List UInt8}

/-- A request that is not `CONNECT`, on a line that no extension changes. -/
theorem parseMethod_target (unconnected : method ≠ .connect)
    (stop : ∀ ch ∈ target.head?, isMethodOctet ch = false)
    (kept : site.hooked (methodName method ++ octets " " ++ target) =
      methodName method ++ octets " " ++ target) :
    header.parseMethod site (methodName method ++ octets " " ++ target) =
      if strncasecmp target (octets "http://") 7 || strncasecmp target (octets "https://") 8 then
        let ssl : Bool := target[4]? = some 0x73
        let header := { header with
          tunnelingConnection := if ssl then .withoutConnectSsl else .withoutConnect }
        let behind := target.drop 7
        if site.enableHttpReverseProxy then
          let (header, relatived) := header.reverseProxyUrl ssl behind
          (header, methodName method ++ octets " " ++ relatived)
        else
          let szHost := behind.takeWhile (· ≠ 0x2f)
          ({ header with
              backend := { hostOf 80 szHost with url := strtrim (target.takeWhile (· ≠ 0x20)) } },
            methodName method ++ octets " " ++ behind.drop szHost.length)
      else
        (header.parsePath (methodName method ++ octets " " ++ target),
          methodName method ++ octets " " ++ target) := by
  have szMethod : (methodName method ++ octets " " ++ target).takeWhile
      (fun ch => (0x41 ≤ ch && ch ≤ 0x5a) || ch = 0x20 || ch = 0x09) =
      methodName method ++ octets " " :=
    @takeWhile_stop _ isMethodOctet _ _ (List.all_eq_true.mp (methodName_octets method)) stop
  have pTemp : (methodName method ++ octets " " ++ target).drop
      (methodName method ++ octets " ").length = target := List.drop_left
  rw [Site.hooked] at kept
  simp only [parseMethod, szMethod, methodName_not_connect unconnected, Bool.false_eq_true,
    if_false, kept, pTemp]

end RequestHeader

/-! ## Paths -/

/-- The octets at which `sscanf` stops in a path. -/
def endsPath (ch : UInt8) : Bool :=
  ch = 0x3f || ch = 0x20 || ch = 0x09 || ch = 0x0d || ch = 0x0a

theorem isPathOctet_plain (ch : UInt8) :
    isPathOctet ch = true → endsPath ch = false ∧ ch ≠ 0x25 ∧ ch ≠ 0x7c := by
  revert ch
  apply forall_octet
  decide +kernel

theorem hexValue_plain (ch : UInt8) :
    hexValue ch ≠ 0x3f → endsPath ch = false ∧ ch ≠ 0x75 ∧ ch ≠ 0x2b ∧ ch ≠ 0x7c := by
  revert ch
  apply forall_octet
  decide +kernel

theorem PathItem.endsPath_text (item : PathItem) :
    ∀ ch ∈ item.text, endsPath ch = false := by
  cases item with
  | plain ch isPath =>
      intro other member
      obtain rfl := List.mem_singleton.mp member
      exact (isPathOctet_plain other isPath).1
  | escaped high low isHigh isLow =>
      intro other member
      simp only [PathItem.text, List.mem_cons, List.not_mem_nil, or_false] at member
      rcases member with rfl | rfl | rfl
      · decide
      · exact (hexValue_plain other isHigh).1
      · exact (hexValue_plain other isLow).1

theorem Path.endsPath_text (path : Path) : ∀ ch ∈ path.text, endsPath ch = false := by
  intro ch member
  rcases List.mem_cons.mp member with rfl | inItems
  · decide
  · obtain ⟨item, -, inItem⟩ := List.mem_flatMap.mp inItems
    exact item.endsPath_text ch inItem

/-- The octet that the decoding of forms makes of a piece. -/
def PathItem.formOctet : PathItem → UInt8
  | plain ch _ => if ch = 0x2b then 0x20 else ch
  | escaped high low _ _ => hexValue high <<< 4 ||| hexValue low

theorem escaped_zero (high low : UInt8) :
    Http1.escaped 0 high low = hexValue high <<< 4 ||| hexValue low := by
  simp [Http1.escaped]

theorem urlFormatDecode_items (items : List PathItem) (passes : Nat)
    (enough : items.length ≤ passes) :
    urlFormatDecode passes (items.flatMap PathItem.text) = items.map PathItem.formOctet := by
  induction items generalizing passes with
  | nil => cases passes <;> rfl
  | cons item items ih =>
      obtain ⟨passes, rfl⟩ := Nat.exists_eq_succ_of_ne_zero (Nat.ne_of_gt
        (Nat.lt_of_lt_of_le (Nat.succ_pos _) enough))
      have later := ih passes (Nat.le_of_succ_le_succ enough)
      cases item with
      | plain ch isPath =>
          obtain ⟨-, notPercent, -⟩ := isPathOctet_plain ch isPath
          simp only [List.flatMap_cons, PathItem.text, List.singleton_append, urlFormatDecode,
            notPercent, if_false, later, List.map_cons, PathItem.formOctet]
          split <;> rfl
      | escaped high low isHigh isLow =>
          have notU := (hexValue_plain high isHigh).2.1
          have notPlus : ¬ (0x25 : UInt8) = 0x2b := by decide
          simp only [List.flatMap_cons, PathItem.text, List.cons_append, List.nil_append,
            urlFormatDecode, notPlus, if_false, if_true, List.getD_cons_zero, ne_eq, notU,
            not_false_eq_true, List.getD_cons_succ, List.drop_succ_cons, List.drop_zero, later,
            escaped_zero, List.map_cons, PathItem.formOctet]

theorem PathItem.length_text (item : PathItem) : 1 ≤ item.text.length := by
  cases item <;> simp [PathItem.text]

theorem Path.length_items (path : List PathItem) :
    path.length ≤ (path.flatMap PathItem.text).length := by
  induction path with
  | nil => simp
  | cons item path ih =>
      have := item.length_text
      rw [List.flatMap_cons, List.length_append, List.length_cons]
      omega

theorem Path.urlFormatDecode_text (path : Path) :
    urlFormatDecode path.text.length path.text = 0x2f :: path.map PathItem.formOctet := by
  have notPlus : ¬ (0x2f : UInt8) = 0x2b := by decide
  have notPercent : ¬ (0x2f : UInt8) = 0x25 := by decide
  rw [Path.text, List.length_cons, urlFormatDecode, if_neg notPlus, if_neg notPercent,
    urlFormatDecode_items path _ (Path.length_items path)]

theorem PathItem.formOctet_eq (item : PathItem) :
    item.formOctet = item.octet ↔ 0x2b ∉ item.text := by
  cases item with
  | plain ch isPath =>
      simp only [PathItem.formOctet, PathItem.octet, PathItem.text, List.mem_singleton]
      split
      · rename_i isPlus
        subst isPlus
        simp
      · rename_i notPlus
        simp [Ne.symm notPlus]
  | escaped high low isHigh isLow =>
      have notHigh := (hexValue_plain high isHigh).2.2.1
      have notLow := (hexValue_plain low isLow).2.2.1
      simp [PathItem.formOctet, PathItem.octet, PathItem.text, notHigh.symm, notLow.symm]

/-- A path is decoded as a path exactly without a plus sign. -/
theorem Path.decoded_iff (path : Path) :
    urlFormatDecode path.text.length path.text = path.decoded ↔ 0x2b ∉ path.text := by
  rw [path.urlFormatDecode_text, Path.decoded, List.cons.injEq, Path.text, List.mem_cons,
    List.mem_flatMap]
  constructor
  · rintro ⟨-, same⟩ (slash | ⟨item, member, plus⟩)
    · exact absurd slash (by decide)
    · exact item.formOctet_eq.mp (List.map_inj_left.mp same item member) plus
  · intro noPlus
    refine ⟨rfl, List.map_congr_left fun item member => item.formOctet_eq.mpr fun plus => ?_⟩
    exact noPlus (.inr ⟨item, member, plus⟩)

theorem isQueryOctet_plain (ch : UInt8) : isQueryOctet ch = true →
    (!(ch = 0x20 || ch = 0x09 || ch = 0x0d || ch = 0x0a)) = true ∧ ch ≠ 0x7c := by
  revert ch
  apply forall_octet
  decide +kernel

theorem methodName_front (method : HttpMethod) :
    (methodName method ++ octets " ").all (· ≠ 0x2f) = true := by
  cases method <;> decide

theorem methodName_head (method : HttpMethod) (rest : List UInt8) :
    (methodName method ++ octets " " ++ rest).head? ≠ some 0x2f := by
  have nonempty : methodName method ++ octets " " ≠ [] := by simp [octets]
  rw [List.head?_append_of_ne_nil _ nonempty]
  intro front
  have member := List.mem_of_mem_head? front
  exact absurd (List.all_eq_true.mp (methodName_front method) _ member) (by decide)

theorem version_head : ∀ ch ∈ version.head?, endsPath ch = true := by
  intro ch member
  obtain rfl : 0x20 = ch := Option.some.inj member
  decide

theorem queryText_head (query : Option Query) :
    ∀ ch ∈ (queryText query ++ version).head?, endsPath ch = true := by
  cases query with
  | none => exact version_head
  | some query =>
      intro ch member
      obtain rfl : 0x3f = ch := Option.some.inj member
      decide

namespace RequestHeader

/-- The path and the query that `ParseMethod` cuts out of a line. -/
theorem parsePath_origin (header : RequestHeader) (method : HttpMethod) (path : Path)
    (query : Option Query) :
    (header.parsePath (methodName method ++ octets " " ++
        (path.text ++ (queryText query ++ version)))).resource =
      urlFormatDecode path.text.length path.text ∧
    (header.parsePath (methodName method ++ octets " " ++
        (path.text ++ (queryText query ++ version)))).querystring = query.elim [] Query.text := by
  have front := @dropWhile_stop UInt8 (· ≠ 0x2f) _ (path.text ++ (queryText query ++ version))
    (List.all_eq_true.mp (methodName_front method)) (by simp [Path.text])
  have szResource : (path.text ++ (queryText query ++ version)).takeWhile
      (fun ch => ch ≠ 0x3f && !(ch = 0x20 || ch = 0x09 || ch = 0x0d || ch = 0x0a)) =
        path.text := by
    have same : (fun ch : UInt8 =>
        (ch ≠ 0x3f && !(ch = 0x20 || ch = 0x09 || ch = 0x0d || ch = 0x0a) : Bool)) =
        fun ch => !endsPath ch := by
      funext ch
      simp [endsPath, Bool.and_assoc]
    rw [same]
    refine takeWhile_stop (fun ch member => ?_) (fun ch member => ?_)
    · rw [path.endsPath_text ch member, Bool.not_false]
    · rw [queryText_head query ch member, Bool.not_true]
  have behind : (path.text ++ (queryText query ++ version)).drop path.text.length =
      queryText query ++ version := List.drop_left
  simp only [parsePath, methodName_head method, if_false, front, szResource, behind, true_and]
  cases query with
  | none =>
      have noQuery : ¬ (queryText none ++ version).head? = some 0x3f := by decide
      rw [if_neg noQuery]
      rfl
  | some query =>
      have isQuery : (queryText (some query) ++ version).head? = some 0x3f := rfl
      rw [if_pos isQuery]
      refine takeWhile_stop (fun ch member => (isQueryOctet_plain ch (query.isQuery ch member)).1) ?_
      intro ch member
      obtain rfl : 0x20 = ch := Option.some.inj member
      decide

end RequestHeader

/-- A path is no URL. -/
theorem strncasecmp_slash (rest literal : List UInt8) (count : Nat)
    (other : loch (literal.headD 0) ≠ 0x2f) (here : literal.headD 0 ≠ 0) :
    strncasecmp (0x2f :: rest) literal (count + 1) = false := by
  cases literal with
  | nil => exact absurd rfl here
  | cons ch literal =>
      have notNul : ch ≠ 0 := here
      have slash : loch 0x2f = 0x2f := by decide
      have first : cString (0x2f :: rest) = 0x2f :: cString rest :=
        List.takeWhile_cons_of_pos (by decide)
      have second : cString (ch :: literal) = ch :: cString literal :=
        List.takeWhile_cons_of_pos (by simpa using notNul)
      rw [strncasecmp, decide_eq_false_iff_not, first, second, List.take_succ_cons,
        List.take_succ_cons, List.map_cons, List.map_cons, slash]
      intro same
      exact other (List.cons.inj same).1.symm

theorem origin_recovered_iff {site : Site} {header : RequestHeader} {method : HttpMethod}
    {unconnected : method ≠ .connect} {path : Path} {query : Option Query}
    (kept : site.hooked (TargetLine.origin method unconnected path query).text =
      (TargetLine.origin method unconnected path query).text) :
    (TargetLine.origin method unconnected path query).Recovered
        (header.parseMethod site (TargetLine.origin method unconnected path query).text).1
        (header.parseMethod site (TargetLine.origin method unconnected path query).text).2 ↔
      0x2b ∉ path.text := by
  have line : (TargetLine.origin method unconnected path query).text =
      methodName method ++ octets " " ++ (path.text ++ (queryText query ++ version)) := by
    simp [TargetLine.text]
  have stop : ∀ ch ∈ (path.text ++ (queryText query ++ version)).head?,
      isMethodOctet ch = false := by
    intro ch member
    obtain rfl : 0x2f = ch := Option.some.inj member
    decide
  have http : strncasecmp (path.text ++ (queryText query ++ version)) (octets "http://") 7 = false :=
    strncasecmp_slash _ _ 6 (by decide) (by decide)
  have https : strncasecmp (path.text ++ (queryText query ++ version)) (octets "https://") 8 =
      false :=
    strncasecmp_slash _ _ 7 (by decide) (by decide)
  rw [line] at kept ⊢
  rw [RequestHeader.parseMethod_target unconnected stop kept, http, https]
  obtain ⟨resource, querystring⟩ := header.parsePath_origin method path query
  simp only [Bool.or_self, Bool.false_eq_true, if_false, TargetLine.Recovered, resource,
    querystring, and_true]
  exact path.decoded_iff

/-! ## Hosts -/

theorem isHostOctet_plain (ch : UInt8) : isHostOctet ch = true →
    isBlank ch = false ∧ ch ≠ 0x3a ∧ ch ≠ 0x2f ∧ ch ≠ 0x7c ∧ ch ≠ 0x20 ∧
      isMethodOctet ch = decide (0x41 ≤ ch ∧ ch ≤ 0x5a) := by
  revert ch
  apply forall_octet
  decide +kernel

/-- The octets of a host and its port. -/
theorem Authority.text_octets (authority : Authority) :
    ∀ ch ∈ authority.text, ch ≠ 0x2f ∧ ch ≠ 0x7c ∧ ch ≠ 0x20 := by
  have colon : (0x3a : UInt8) ≠ 0x2f ∧ (0x3a : UInt8) ≠ 0x7c ∧ (0x3a : UInt8) ≠ 0x20 := by decide
  intro ch member
  rcases List.mem_append.mp member with inHost | inPort
  · cases shape : authority.host with
    | name text nonempty octets =>
        rw [shape] at inHost
        obtain ⟨-, -, plain⟩ := isHostOctet_plain ch (octets ch inHost)
        exact ⟨plain.1, plain.2.1, plain.2.2.1⟩
    | address text hasColon octets =>
        rw [shape] at inHost
        simp only [Host.text, List.cons_append, List.mem_cons, List.mem_append,
          List.not_mem_nil, or_false] at inHost
        rcases inHost with rfl | inside | rfl
        · decide
        · rcases octets ch inside with isHost | rfl
          · obtain ⟨-, -, plain⟩ := isHostOctet_plain ch isHost
            exact ⟨plain.1, plain.2.1, plain.2.2.1⟩
          · exact colon
        · decide
  · cases port : authority.port with
    | none => simp [port] at inPort
    | some numeral =>
        simp only [port, Option.elim_some, List.mem_cons] at inPort
        rcases inPort with rfl | digit
        · exact colon
        · have isDigit := numeral.digits ch digit
          refine ⟨?_, ?_, ?_⟩
          · rintro rfl
            exact absurd isDigit (by decide)
          · rintro rfl
            exact absurd isDigit (by decide)
          · rintro rfl
            exact absurd isDigit (by decide)

/-- The address of a host ends before a colon. -/
theorem hostOf_address (default : Nat) (szHost : List UInt8) :
    0x3a ∉ (hostOf default szHost).address := by
  intro member
  have inside := WebDoc.mem_of_mem_strtrim member
  exact absurd (List.mem_takeWhile_imp inside) (by decide)

/-- An IPv6 address is cut at its first colon. -/
theorem hostOf_ne_address {host : Host} (isAddress : ¬ host.IsName) (default : Nat)
    (szHost : List UInt8) : (hostOf default szHost).address ≠ host.text := by
  cases host with
  | name text nonempty octets => exact absurd trivial isAddress
  | address text colon octets =>
      intro same
      apply hostOf_address default szHost
      rw [same]
      simp [Host.text, colon]

theorem portOf_numeral {numeral : Numeral} (bounded : numeral.value < 65536) :
    portOf numeral.text = numeral.value := by
  rw [portOf, numeral.atoll_text]
  omega

theorem strtrim_host {text : List UInt8} (isHost : ∀ ch ∈ text, isHostOctet ch = true) :
    strtrim text = text :=
  Cache.strtrim_of_unblank fun ch member => (isHostOctet_plain ch (isHost ch member)).1

theorem noColon_host {text : List UInt8} (isHost : ∀ ch ∈ text, isHostOctet ch = true) :
    ∀ ch ∈ text, decide (ch ≠ 0x3a) = true := fun ch member =>
  decide_eq_true (isHostOctet_plain ch (isHost ch member)).2.1

/-- A host in front of a port. -/
theorem hostOf_port {text : List UInt8} (isHost : ∀ ch ∈ text, isHostOctet ch = true)
    {numeral : Numeral} (bounded : numeral.value < 65536) (default : Nat) :
    hostOf default (text ++ 0x3a :: numeral.text) = ⟨text, numeral.value, []⟩ := by
  have free : 0x3a ∉ text := fun member => (isHostOctet_plain _ (isHost _ member)).2.1 rfl
  have colon : 0x3a ∈ text ++ 0x3a :: numeral.text := by simp
  rw [hostOf, takeWhile_until free, strtrim_host isHost, if_pos colon, dropWhile_until free,
    List.tail_cons, portOf_numeral bounded]

/-- A name and its port are recovered. -/
theorem hostOf_name {authority : Authority} {default : Nat} (isName : authority.host.IsName) :
    (hostOf default authority.text).Is default authority := by
  obtain ⟨host, port, bounded⟩ := authority
  cases host with
  | address text colon octets => exact isName.elim
  | name text nonempty isHost =>
      cases port with
      | none =>
          have all : Authority.text ⟨.name text nonempty isHost, none, bounded⟩ = text :=
            List.append_nil text
          have front : text.takeWhile (· ≠ 0x3a) = text :=
            List.takeWhile_eq_self_iff.mpr (noColon_host isHost)
          have absent : 0x3a ∉ text := fun member =>
            absurd (noColon_host isHost 0x3a member) (by decide)
          rw [all, hostOf, front, strtrim_host isHost, if_neg absent]
          exact ⟨rfl, rfl⟩
      | some numeral =>
          have all : Authority.text ⟨.name text nonempty isHost, some numeral, bounded⟩ =
            text ++ 0x3a :: numeral.text := rfl
          rw [all, hostOf_port isHost (bounded numeral rfl)]
          exact ⟨rfl, rfl⟩

/-! ## CONNECT -/

/-- A literal that a text begins with. -/
theorem strncasecmp_front {literal : List UInt8} (nulFree : ∀ ch ∈ literal, decide (ch ≠ 0) = true)
    (rest : List UInt8) : strncasecmp (literal ++ rest) literal literal.length = true := by
  have whole : cString literal = literal := List.takeWhile_eq_self_iff.mpr nulFree
  have front : cString (literal ++ rest) = literal ++ cString rest :=
    List.takeWhile_append_of_pos nulFree
  rw [strncasecmp, front, whole, List.take_left, List.take_length]
  exact decide_eq_true rfl

theorem connectMethod_octets : (octets "CONNECT ").all isMethodOctet = true := by
  decide

theorem connectMethod_nulFree : (octets "CONNECT ").all (fun ch => decide (ch ≠ 0)) = true := by
  decide

/-- The method that `ParseMethod` finds in front of the target of `CONNECT`. -/
theorem takeWhile_connect (target : List UInt8) :
    (octets "CONNECT " ++ target).takeWhile
        (fun ch => (0x41 ≤ ch && ch ≤ 0x5a) || ch = 0x20 || ch = 0x09) =
      octets "CONNECT " ++ target.takeWhile isMethodOctet :=
  @List.takeWhile_append_of_pos _ isMethodOctet _ _
    (List.all_eq_true.mp connectMethod_octets)

theorem strncasecmp_connect (target : List UInt8) :
    strncasecmp (octets "CONNECT " ++ target) (octets "CONNECT ") 8 = true :=
  strncasecmp_front (List.all_eq_true.mp connectMethod_nulFree) target

/-- `CONNECT` loses the capital letters that its target begins with. -/
theorem parseMethod_connect (site : Site) (header : RequestHeader) (target : List UInt8) :
    (header.parseMethod site (octets "CONNECT " ++ target)).1.backend =
      { hostOf 443 ((target.dropWhile isMethodOctet).takeWhile (· ≠ 0x20)) with
        url := header.backend.url } := by
  have behind : (octets "CONNECT " ++ target).drop
      (octets "CONNECT " ++ target.takeWhile isMethodOctet).length =
        target.dropWhile isMethodOctet := by
    rw [List.length_append, List.drop_length_add_append]
    exact (congrArg _ List.takeWhile_append_dropWhile.symm).trans List.drop_left
  simp only [RequestHeader.parseMethod, takeWhile_connect, strncasecmp_connect, if_true, behind]

/-- The capital letters at the front of a text are dropped. -/
theorem dropWhile_front {text rest : List UInt8} (stop : ∀ ch ∈ rest.head?, isMethodOctet ch = false) :
    (text ++ rest).dropWhile isMethodOctet = text.dropWhile isMethodOctet ++ rest := by
  induction text with
  | nil =>
      cases rest with
      | nil => rfl
      | cons ch rest => simp [stop ch rfl]
  | cons ch text ih =>
      rw [List.cons_append, List.dropWhile_cons, List.dropWhile_cons]
      split
      · exact ih
      · rfl

theorem dropWhile_eq_self_iff {text : List UInt8} (isHost : ∀ ch ∈ text, isHostOctet ch = true) :
    text.dropWhile isMethodOctet = text ↔ ∀ ch ∈ text.head?, ¬ (0x41 ≤ ch ∧ ch ≤ 0x5a) := by
  cases text with
  | nil => simp
  | cons ch text =>
      have capital := (isHostOctet_plain ch (isHost ch List.mem_cons_self)).2.2.2.2.2
      by_cases isCapital : 0x41 ≤ ch ∧ ch ≤ 0x5a
      · rw [List.dropWhile_cons_of_pos (by rw [capital]; exact decide_eq_true isCapital)]
        refine ⟨fun same => ?_, fun noCapital => absurd isCapital (noCapital ch rfl)⟩
        have shorter := (List.dropWhile_sublist (l := text) isMethodOctet).length_le
        rw [same, List.length_cons] at shorter
        omega
      · rw [List.dropWhile_cons_of_neg (by rw [capital]; simpa using isCapital)]
        refine ⟨fun _ other front => ?_, fun _ => rfl⟩
        obtain rfl : ch = other := Option.some.inj front
        exact isCapital

/-- The host that `CONNECT` finds in front of a port. -/
theorem connect_host {text : List UInt8} (isHost : ∀ ch ∈ text, isHostOctet ch = true)
    (numeral : Numeral) :
    ((text ++ 0x3a :: (numeral.text ++ version)).dropWhile isMethodOctet).takeWhile (· ≠ 0x20) =
      text.dropWhile isMethodOctet ++ 0x3a :: numeral.text := by
  have dropped := @dropWhile_front text (0x3a :: (numeral.text ++ version)) (by
    intro ch member
    obtain rfl : 0x3a = ch := Option.some.inj member
    decide)
  have whole : text.dropWhile isMethodOctet ++ 0x3a :: (numeral.text ++ version) =
      text.dropWhile isMethodOctet ++ 0x3a :: numeral.text ++ version := by
    simp
  rw [dropped, whole]
  refine takeWhile_stop (fun ch member => decide_eq_true ?_) (fun ch member => ?_)
  · rcases List.mem_append.mp member with inHost | inPort
    · have inText := (List.dropWhile_sublist isMethodOctet).mem inHost
      exact (isHostOctet_plain ch (isHost ch inText)).2.2.2.2.1
    · rintro rfl
      rcases List.mem_cons.mp inPort with colon | digit
      · exact absurd colon (by decide)
      · exact absurd (numeral.digits _ digit) (by decide)
  · obtain rfl : 0x20 = ch := Option.some.inj member
    decide

theorem connect_recovered_iff {site : Site} {header : RequestHeader} {host : Authority}
    {port : host.port.isSome = true} :
    (TargetLine.connect host port).Recovered
        (header.parseMethod site (TargetLine.connect host port).text).1
        (header.parseMethod site (TargetLine.connect host port).text).2 ↔
      (TargetLine.connect host port).Plain := by
  have line : (TargetLine.connect host port).text = octets "CONNECT " ++ (host.text ++ version) := by
    simp [TargetLine.text]
  rw [TargetLine.Recovered, line, parseMethod_connect, TargetLine.Plain]
  obtain ⟨host, port', bounded⟩ := host
  obtain ⟨numeral, rfl⟩ := Option.isSome_iff_exists.mp port
  cases host with
  | address text colon isHost =>
      refine ⟨fun recovered => ?_, fun plain => plain.1.elim⟩
      have isAddress : ¬ (Host.address text colon isHost).IsName := fun isName => isName
      generalize Authority.text ⟨.address text colon isHost, some numeral, bounded⟩ ++ version =
        target at recovered
      exact (hostOf_ne_address isAddress 443
        ((target.dropWhile isMethodOctet).takeWhile (· ≠ 0x20)) recovered.1).elim
  | name text nonempty isHost =>
      have behind : Authority.text ⟨.name text nonempty isHost, some numeral, bounded⟩ ++ version =
          text ++ 0x3a :: (numeral.text ++ version) := by
        simp [Authority.text, Host.text]
      have inside (ch : UInt8) (member : ch ∈ text.dropWhile isMethodOctet) :
          isHostOctet ch = true := isHost ch ((List.dropWhile_sublist _).mem member)
      rw [behind, connect_host isHost, hostOf_port inside (bounded numeral rfl)]
      refine Iff.trans ⟨fun recovered => recovered.1, fun address => ⟨address, rfl⟩⟩ ?_
      exact (dropWhile_eq_self_iff isHost).trans
        ⟨fun noCapital => ⟨trivial, noCapital⟩, fun plain => plain.2⟩

/-! ## Absolute URLs -/

namespace Authority

theorem isProxyHost_text (authority : Authority) :
    ∀ ch ∈ authority.text, isProxyHost ch = true := by
  intro ch member
  obtain ⟨notSlash, notBar, -⟩ := authority.text_octets ch member
  rw [isProxyHost, decide_eq_true notSlash, decide_eq_true notBar, Bool.and_self]

theorem notSlash_text (authority : Authority) :
    ∀ ch ∈ authority.text, decide (ch ≠ 0x2f) = true := fun ch member =>
  decide_eq_true (authority.text_octets ch member).1

/-- A host and its port are recovered exactly where the host is a name. -/
theorem hostOf_is_iff (authority : Authority) (default : Nat) :
    (hostOf default authority.text).Is default authority ↔ authority.host.IsName := by
  refine ⟨fun same => ?_, hostOf_name⟩
  by_contra isAddress
  exact hostOf_ne_address isAddress default _ same.1

theorem text_ne_nil (authority : Authority) : authority.host.text ≠ [] := by
  cases authority.host with
  | name text nonempty isHost => exact nonempty
  | address text colon isHost => exact List.cons_ne_nil _ _

end Authority

/-! ### For the reverse proxy -/

theorem head?_dropWhile_proxy {text : List UInt8} (noBar : 0x7c ∉ text) :
    (text.dropWhile isProxyHost).head? ≠ some 0x7c := by
  intro front
  exact noBar ((List.dropWhile_sublist _).mem (List.mem_of_mem_head? front))

theorem dropWhile_bar (rest : List UInt8) :
    (0x7c :: rest).dropWhile isProxyHost = 0x7c :: rest :=
  List.dropWhile_cons_of_neg (by decide)

theorem takeWhile_bar (authority : Authority) (rest : List UInt8) :
    (authority.text ++ 0x7c :: rest).takeWhile isProxyHost = authority.text :=
  takeWhile_stop authority.isProxyHost_text (by
    intro ch member
    obtain rfl : 0x7c = ch := Option.some.inj member
    decide)

theorem dropWhile_host (authority : Authority) (rest : List UInt8) :
    (authority.text ++ rest).dropWhile isProxyHost = rest.dropWhile isProxyHost :=
  List.dropWhile_append_of_pos authority.isProxyHost_text

theorem takeWhile_last (authority : Authority) {rest : List UInt8}
    (slash : rest.head? = some 0x2f) :
    (authority.text ++ rest).takeWhile isProxyHost = authority.text :=
  takeWhile_stop authority.isProxyHost_text (by
    intro ch member
    obtain rfl : 0x2f = ch := Option.some.inj (slash.symm.trans member)
    decide)

/-- The URL of a backend is no part of its host. -/
theorem named_is_iff (authority : Authority) (first last : List UInt8) :
    (if (hostOf 80 authority.text).address = [] then
        ({ hostOf 80 authority.text with url := first } : Backend)
      else { hostOf 80 authority.text with url := last }).Is 80 authority ↔
      authority.host.IsName := by
  split <;> exact authority.hostOf_is_iff 80

namespace RequestHeader

variable (header : RequestHeader) (ssl : Bool) (host : Authority) {backups : List Authority}
  {tail : List UInt8}

/-- What `ParseMethod` keeps behind up to three hosts. -/
theorem reverseProxyUrl_relatived (few : backups.length ≤ 2) (noBar : 0x7c ∉ tail) :
    (header.reverseProxyUrl ssl (hostsText host backups ++ tail)).2 =
      tail.dropWhile isProxyHost := by
  have same : (fun ch : UInt8 => (ch ≠ 0x2f && ch ≠ 0x7c : Bool)) = isProxyHost := rfl
  match backups, few with
  | [], _ =>
      have behind : hostsText host [] ++ tail = host.text ++ tail := by simp [hostsText]
      simp only [reverseProxyUrl, behind, same, dropWhile_host, head?_dropWhile_proxy noBar,
        if_false]
  | [second], _ =>
      have behind : hostsText host [second] ++ tail =
          host.text ++ 0x7c :: (second.text ++ tail) := by simp [hostsText]
      simp only [reverseProxyUrl, behind, same, dropWhile_host, dropWhile_bar, List.head?_cons, if_true,
        List.tail_cons, head?_dropWhile_proxy noBar, if_false]
  | [second, third], _ =>
      have behind : hostsText host [second, third] ++ tail =
          host.text ++ 0x7c :: (second.text ++ 0x7c :: (third.text ++ tail)) := by
        simp [hostsText]
      simp only [reverseProxyUrl, behind, same, dropWhile_host, dropWhile_bar, List.head?_cons, if_true,
        List.tail_cons]

/-- The hosts that `ParseMethod` finds in front of a path. -/
theorem reverseProxyUrl_backends (few : backups.length ≤ 2) (noBar : 0x7c ∉ tail)
    (slash : tail.head? = some 0x2f) :
    ((header.reverseProxyUrl ssl (hostsText host backups ++ tail)).1.backend.Is 80 host ↔
      host.host.IsName) ∧
    (∀ backup ∈ backups[0]?,
      (header.reverseProxyUrl ssl (hostsText host backups ++ tail)).1.backup1.Is 80 backup ↔
        backup.host.IsName) ∧
    ∀ backup ∈ backups[1]?,
      (header.reverseProxyUrl ssl (hostsText host backups ++ tail)).1.backup2.Is 80 backup ↔
        backup.host.IsName := by
  have same : (fun ch : UInt8 => (ch ≠ 0x2f && ch ≠ 0x7c : Bool)) = isProxyHost := rfl
  match backups, few with
  | [], _ =>
      have behind : hostsText host [] ++ tail = host.text ++ tail := by simp [hostsText]
      simp only [reverseProxyUrl, behind, same, dropWhile_host, head?_dropWhile_proxy noBar,
        takeWhile_last _ slash, if_false]
      exact ⟨host.hostOf_is_iff 80, fun backup absent => (Option.not_mem_none backup absent).elim,
        fun backup absent => (Option.not_mem_none backup absent).elim⟩
  | [second], _ =>
      have behind : hostsText host [second] ++ tail =
          host.text ++ 0x7c :: (second.text ++ tail) := by simp [hostsText]
      simp only [reverseProxyUrl, behind, same, dropWhile_host, dropWhile_bar, List.head?_cons,
        if_true, List.tail_cons, head?_dropWhile_proxy noBar, takeWhile_bar,
        takeWhile_last _ slash, if_false]
      refine ⟨host.hostOf_is_iff 80, fun backup member => ?_,
        fun backup absent => (Option.not_mem_none backup absent).elim⟩
      obtain rfl : second = backup := Option.some.inj member
      exact named_is_iff second _ _
  | [second, third], _ =>
      have behind : hostsText host [second, third] ++ tail =
          host.text ++ 0x7c :: (second.text ++ 0x7c :: (third.text ++ tail)) := by
        simp [hostsText]
      simp only [reverseProxyUrl, behind, same, dropWhile_host, dropWhile_bar, List.head?_cons,
        if_true, List.tail_cons, takeWhile_bar, takeWhile_last _ slash]
      refine ⟨host.hostOf_is_iff 80, fun backup member => ?_, fun backup member => ?_⟩
      · obtain rfl : second = backup := Option.some.inj member
        exact named_is_iff second _ _
      · obtain rfl : third = backup := Option.some.inj member
        exact named_is_iff third _ _

/-- A host behind a second slash is not found. -/
theorem reverseProxyUrl_slash (rest : List UInt8) :
    (header.reverseProxyUrl ssl (0x2f :: rest)).1.backend.address = [] := by
  have same : (fun ch : UInt8 => (ch ≠ 0x2f && ch ≠ 0x7c : Bool)) = isProxyHost := rfl
  have slash : (0x2f :: rest).dropWhile isProxyHost = 0x2f :: rest :=
    List.dropWhile_cons_of_neg (by decide)
  have nothing : (0x2f :: rest).takeWhile isProxyHost = [] :=
    List.takeWhile_cons_of_neg (by decide)
  have noBar : ¬ some (0x2f : UInt8) = some 0x7c := by decide
  simp only [reverseProxyUrl, same, slash, nothing, List.head?_cons, noBar, if_false]
  decide

end RequestHeader

/-! ### The whole line -/

/-- What follows the hosts of a URL. -/
def behindHosts (path : Option Path) (query : Option Query) : List UInt8 :=
  path.elim [] Path.text ++ (queryText query ++ version)

theorem version_noBar : 0x7c ∉ version := by
  decide

theorem PathItem.noBar (item : PathItem) : 0x7c ∉ item.text := by
  cases item with
  | plain ch isPath => simp [PathItem.text, Ne.symm (isPathOctet_plain ch isPath).2.2]
  | escaped high low isHigh isLow =>
      simp [PathItem.text, Ne.symm (hexValue_plain high isHigh).2.2.2,
        Ne.symm (hexValue_plain low isLow).2.2.2]

theorem behindHosts_noBar (path : Option Path) (query : Option Query) :
    0x7c ∉ behindHosts path query := by
  have inPath : 0x7c ∉ path.elim [] Path.text := by
    cases path with
    | none => exact List.not_mem_nil
    | some path =>
        intro member
        rcases List.mem_cons.mp member with slash | inItems
        · exact absurd slash (by decide)
        · obtain ⟨item, -, inItem⟩ := List.mem_flatMap.mp inItems
          exact item.noBar inItem
  have inQuery : 0x7c ∉ queryText query := by
    cases query with
    | none => exact List.not_mem_nil
    | some query =>
        intro member
        rcases List.mem_cons.mp member with mark | inText
        · exact absurd mark (by decide)
        · exact (isQueryOctet_plain _ (query.isQuery _ inText)).2 rfl
  simp [behindHosts, inPath, inQuery, version_noBar]

theorem behindHosts_slash (path : Path) (query : Option Query) :
    (behindHosts (some path) query).head? = some 0x2f :=
  rfl

/-- Behind hosts without a path, no target is left. -/
theorem sublist_ne_target {query : Option Query} {relatived : List UInt8}
    (left : relatived.Sublist (behindHosts none query)) :
    relatived ≠ [0x2f] ++ (queryText query ++ version) := by
  rintro rfl
  have shorter := left.length_le
  simp only [behindHosts, Option.elim_none, List.length_append, List.length_cons,
    List.length_nil] at shorter
  omega

/-- The first and the second of at most two. -/
theorem forall_backups {backups : List Authority} {good : Authority → Prop}
    (few : backups.length ≤ 2) :
    ((∀ backup ∈ backups[0]?, good backup) ∧ ∀ backup ∈ backups[1]?, good backup) ↔
      ∀ backup ∈ backups, good backup := by
  match backups, few with
  | [], _ => simp
  | [second], _ => simp
  | [second, third], _ => simp

theorem schemeText_stop (ssl : Bool) (rest : List UInt8) :
    ∀ ch ∈ (schemeText ssl ++ rest).head?, isMethodOctet ch = false := by
  intro ch member
  obtain rfl : 0x68 = ch := by cases ssl <;> exact Option.some.inj member
  decide

theorem octets_nulFree (ssl : Bool) : (schemeText ssl).all (fun ch => decide (ch ≠ 0)) = true := by
  cases ssl <;> decide

/-- A URL is told by its scheme. -/
theorem schemeText_isUrl (ssl : Bool) (rest : List UInt8) :
    (strncasecmp (schemeText ssl ++ rest) (octets "http://") 7 ||
      strncasecmp (schemeText ssl ++ rest) (octets "https://") 8) = true := by
  have front := strncasecmp_front (List.all_eq_true.mp (octets_nulFree ssl)) rest
  rw [Bool.or_eq_true]
  cases ssl with
  | false => exact .inl front
  | true => exact .inr front

section Absolute

variable {site : Site} {header : RequestHeader} {method : HttpMethod}
  {unconnected : method ≠ .connect} {ssl : Bool} {host : Authority} {backups : List Authority}
  {few : backups.length ≤ 2} {path : Option Path} {query : Option Query}

theorem absolute_text :
    (TargetLine.absolute method unconnected ssl host backups few path query).text =
      methodName method ++ octets " " ++
        (schemeText ssl ++ (hostsText host backups ++ behindHosts path query)) := by
  simp [TargetLine.text, behindHosts]

/-- Seven octets are too few for `https://`. -/
theorem absolute_ssl
    (kept : site.hooked
        (TargetLine.absolute method unconnected true host backups few path query).text =
      (TargetLine.absolute method unconnected true host backups few path query).text) :
    ¬ (TargetLine.absolute method unconnected true host backups few path query).Recovered
        (header.parseMethod site
          (TargetLine.absolute method unconnected true host backups few path query).text).1
        (header.parseMethod site
          (TargetLine.absolute method unconnected true host backups few path query).text).2 := by
  rw [absolute_text] at kept ⊢
  rw [RequestHeader.parseMethod_target unconnected (schemeText_stop true _) kept,
    schemeText_isUrl, if_pos rfl]
  generalize hostsText host backups ++ behindHosts path query = rest
  have behind : (schemeText true ++ rest).drop 7 = 0x2f :: rest :=
    @List.drop_left _ (octets "https:/") (0x2f :: rest)
  rintro ⟨⟨address, -⟩, -⟩
  apply host.text_ne_nil
  rw [← address, behind]
  cases site.enableHttpReverseProxy with
  | true => exact RequestHeader.reverseProxyUrl_slash _ _ rest
  | false =>
      have nothing : (0x2f :: rest).takeWhile (· ≠ 0x2f) = [] :=
        List.takeWhile_cons_of_neg (by decide)
      simp only [Bool.false_eq_true, if_false, nothing]
      rfl

/-- The target that is left of a URL, behind the method. -/
theorem relatived_iff {relatived : List UInt8} :
    methodName method ++ octets " " ++ relatived =
        methodName method ++ octets " " ++ path.elim [0x2f] Path.text ++ queryText query ++
          version ↔
      relatived = path.elim [0x2f] Path.text ++ (queryText query ++ version) := by
  rw [List.append_assoc _ (queryText query), List.append_assoc _ (path.elim [0x2f] Path.text),
    List.append_cancel_left_eq]

theorem absolute_proxy (reverse : site.enableHttpReverseProxy = true)
    (kept : site.hooked
        (TargetLine.absolute method unconnected false host backups few path query).text =
      (TargetLine.absolute method unconnected false host backups few path query).text) :
    (TargetLine.absolute method unconnected false host backups few path query).Recovered
        (header.parseMethod site
          (TargetLine.absolute method unconnected false host backups few path query).text).1
        (header.parseMethod site
          (TargetLine.absolute method unconnected false host backups few path query).text).2 ↔
      (TargetLine.absolute method unconnected false host backups few path query).Plain := by
  rw [absolute_text] at kept ⊢
  rw [RequestHeader.parseMethod_target unconnected (schemeText_stop false _) kept,
    schemeText_isUrl, if_pos rfl]
  have behind : (schemeText false ++ (hostsText host backups ++ behindHosts path query)).drop 7 =
      hostsText host backups ++ behindHosts path query :=
    @List.drop_left _ (octets "http://") _
  simp only [reverse, if_true, behind, TargetLine.Recovered, TargetLine.Plain, relatived_iff,
    RequestHeader.reverseProxyUrl_relatived _ _ host few (behindHosts_noBar path query),
    Bool.false_eq_true, if_false, true_and]
  cases path with
  | none =>
      have other := @sublist_ne_target query _
        (@List.dropWhile_sublist _ (behindHosts none query) isProxyHost)
      simp only [Option.elim_none, other, and_false, Option.isSome_none, Bool.false_eq_true]
  | some path =>
      have last : (behindHosts (some path) query).dropWhile isProxyHost =
          path.text ++ (queryText query ++ version) :=
        List.dropWhile_cons_of_neg (by decide)
      obtain ⟨first, second, third⟩ := RequestHeader.reverseProxyUrl_backends _ _ host few
        (behindHosts_noBar (some path) query) (behindHosts_slash path query)
      simp only [Option.elim_some, last, and_true, Option.isSome_some, List.forall_mem_cons]
      exact and_congr first ((and_congr (forall₂_congr second) (forall₂_congr third)).trans
        (forall_backups few))

theorem absolute_forward {few : ([] : List Authority).length ≤ 2}
    (forward : site.enableHttpReverseProxy = false)
    (kept : site.hooked
        (TargetLine.absolute method unconnected false host [] few path query).text =
      (TargetLine.absolute method unconnected false host [] few path query).text) :
    (TargetLine.absolute method unconnected false host [] few path query).Recovered
        (header.parseMethod site
          (TargetLine.absolute method unconnected false host [] few path query).text).1
        (header.parseMethod site
          (TargetLine.absolute method unconnected false host [] few path query).text).2 ↔
      (TargetLine.absolute method unconnected false host [] few path query).Plain := by
  rw [absolute_text] at kept ⊢
  rw [RequestHeader.parseMethod_target unconnected (schemeText_stop false _) kept,
    schemeText_isUrl, if_pos rfl]
  have hosts : hostsText host [] = host.text := List.append_nil _
  have behind : (schemeText false ++ (hostsText host [] ++ behindHosts path query)).drop 7 =
      host.text ++ behindHosts path query := by
    rw [hosts]
    exact @List.drop_left _ (octets "http://") _
  simp only [forward, Bool.false_eq_true, if_false, behind, TargetLine.Recovered,
    TargetLine.Plain, relatived_iff, List.getElem?_nil, true_and, List.forall_mem_cons]
  cases path with
  | none =>
      -- The host runs on to a slash in the query or in the version.
      have left : ((host.text ++ behindHosts none query).drop
          ((host.text ++ behindHosts none query).takeWhile (· ≠ 0x2f)).length).Sublist
            (behindHosts none query) := by
        rw [List.takeWhile_append_of_pos host.notSlash_text, List.length_append,
          List.drop_length_add_append]
        exact List.drop_sublist _ _
      have other := sublist_ne_target left
      simp only [Option.elim_none, other, and_false, Option.isSome_none, Bool.false_eq_true]
  | some path =>
      have szHost : (host.text ++ behindHosts (some path) query).takeWhile (· ≠ 0x2f) =
          host.text :=
        takeWhile_stop host.notSlash_text (by
          intro ch member
          obtain rfl : 0x2f = ch := Option.some.inj member
          decide)
      have relatived : (host.text ++ behindHosts (some path) query).drop host.text.length =
          path.text ++ (queryText query ++ version) := List.drop_left
      have absent {good : Authority → Prop} :
          (∀ backup ∈ (none : Option Authority), good backup) ↔ True :=
        iff_true_intro fun backup member => (Option.not_mem_none backup member).elim
      have noBackups {good : Authority → Prop} : (∀ backup ∈ [], good backup) ↔ True :=
        iff_true_intro fun backup member => (List.not_mem_nil member).elim
      simp only [szHost, relatived, absent, noBackups, Option.elim_some, Option.isSome_some,
        and_true]
      exact host.hostOf_is_iff 80

/-- The parts of a URL are recovered exactly behind `http://`, where the hosts are names
and the path is not empty. -/
theorem absolute_recovered_iff
    (legal : (TargetLine.absolute method unconnected ssl host backups few path query).LegalFor
      site)
    (kept : site.hooked
        (TargetLine.absolute method unconnected ssl host backups few path query).text =
      (TargetLine.absolute method unconnected ssl host backups few path query).text) :
    (TargetLine.absolute method unconnected ssl host backups few path query).Recovered
        (header.parseMethod site
          (TargetLine.absolute method unconnected ssl host backups few path query).text).1
        (header.parseMethod site
          (TargetLine.absolute method unconnected ssl host backups few path query).text).2 ↔
      (TargetLine.absolute method unconnected ssl host backups few path query).Plain := by
  cases ssl with
  | true =>
      exact iff_of_false (absolute_ssl kept) fun plain => absurd plain.1 (by decide)
  | false =>
      cases mode : site.enableHttpReverseProxy with
      | true => exact absolute_proxy mode kept
      | false =>
          obtain rfl := legal mode
          exact absolute_forward mode kept

end Absolute

/-! ## Lines -/

/-- `ParseMethod` recovers the parts of a line that the extensions leave as it is exactly
where the line is plain. -/
theorem recovered_iff {site : Site} {header : RequestHeader} {line : TargetLine}
    (legal : line.LegalFor site) (kept : line.KeptBy site) :
    line.Recovered (header.parseMethod site line.text).1
        (header.parseMethod site line.text).2 ↔ line.Plain := by
  cases line with
  | origin method unconnected path query => exact origin_recovered_iff kept
  | absolute method unconnected ssl host backups few path query =>
      exact absolute_recovered_iff legal kept
  | connect host port => exact connect_recovered_iff

/-! ## Extensions -/

/-- The texts of hosts fit where the first host fits with all that follows it. -/
theorem proxyTexts_length {behind : List UInt8} {limit : Nat} :
    (∀ text ∈ proxyTexts behind, text.length ≤ limit) ↔
      (behind.takeWhile isProxyHost).length ≤ limit ∧
        (behind.dropWhile isProxyHost).length ≤ limit := by
  have same : (fun ch : UInt8 => (ch ≠ 0x2f && ch ≠ 0x7c : Bool)) = isProxyHost := rfl
  constructor
  · intro fits
    exact ⟨fits _ (List.mem_append_left _ List.mem_cons_self),
      fits _ (List.mem_append_left _ (List.mem_cons_of_mem _ List.mem_cons_self))⟩
  · rintro ⟨first, last⟩ text written
    simp only [proxyTexts, same, List.mem_append, List.mem_cons, List.not_mem_nil,
      or_false] at written
    have inside {text : List UInt8} (left : text.Sublist (behind.dropWhile isProxyHost)) :
        text.length ≤ limit := left.length_le.trans last
    rcases written with (rfl | rfl) | written
    · exact first
    · exact last
    · split at written
      · simp only [List.mem_append, List.mem_cons, List.not_mem_nil, or_false] at written
        have tail := List.tail_sublist (behind.dropWhile isProxyHost)
        rcases written with (rfl | rfl) | written
        · exact inside ((List.takeWhile_sublist _).trans tail)
        · exact inside ((List.dropWhile_sublist _).trans tail)
        · split at written
          · have second := (List.tail_sublist _).trans
              ((List.dropWhile_sublist isProxyHost).trans tail)
            simp only [List.mem_cons, List.not_mem_nil, or_false] at written
            rcases written with rfl | rfl
            · exact inside ((List.takeWhile_sublist _).trans second)
            · exact inside ((List.dropWhile_sublist _).trans second)
          · cases written
      · cases written

/-- The pieces of a line that is no URL. -/
theorem piecesFit_path {strtext target : List UInt8} {limit : Nat} (path : isUrl target = false) :
    (pathText strtext).length ≤ limit ∧
        (if (behindPath strtext).head? = some 0x3f then
          (behindPath strtext).tail.takeWhile fun ch =>
            !(ch = 0x20 || ch = 0x09 || ch = 0x0d || ch = 0x0a)
        else []).length ≤ limit ↔
      PiecesFit strtext target limit := by
  constructor
  · rintro ⟨ofPath, ofQuery⟩
    refine ⟨fun url => absurd (path.symm.trans url) (by decide), fun _ => ofPath,
      fun _ isQuery => ?_⟩
    rwa [if_pos isQuery] at ofQuery
  · intro fits
    refine ⟨fits.path path, ?_⟩
    split
    · rename_i isQuery
      exact fits.query path isQuery
    · exact Nat.zero_le _

/-- What is written for a line that is not `CONNECT` stays in its buffers exactly where
the reverse proxy cuts fitting pieces. -/
theorem inside_iff {site : Site} {method : HttpMethod} {target : List UInt8}
    (unconnected : method ≠ .connect) (stop : ∀ ch ∈ target.head?, isMethodOctet ch = false) :
    (∀ text ∈ parseMethodTexts site (methodName method ++ octets " " ++ target),
      text.length ≤ (methodName method ++ octets " " ++ target).length) ↔
      (site.enableHttpReverseProxy = true →
        MethodFits site method (methodName method ++ octets " " ++ target)) := by
  have szMethod : (methodName method ++ octets " " ++ target).takeWhile
      (fun ch => (0x41 ≤ ch && ch ≤ 0x5a) || ch = 0x20 || ch = 0x09) =
      methodName method ++ octets " " :=
    @takeWhile_stop _ isMethodOctet _ _ (List.all_eq_true.mp (methodName_octets method)) stop
  have ofMethod : (methodName method ++ octets " ").length ≤
      (methodName method ++ octets " " ++ target).length :=
    (List.sublist_append_left _ _).length_le
  cases mode : site.enableHttpReverseProxy with
  | false =>
      have kept : site.hooked (methodName method ++ octets " " ++ target) =
          methodName method ++ octets " " ++ target := by
        rw [Site.hooked, mode, if_neg Bool.false_ne_true]
      exact iff_of_true (parseMethodTexts_inside (by rw [kept])) fun absurdMode =>
        absurd absurdMode Bool.false_ne_true
  | true =>
      simp only [parseMethodTexts, szMethod, methodName_not_connect unconnected, mode, if_true,
        Bool.false_eq_true, if_false, true_implies, MethodFits]
      generalize site.hooked (methodName method ++ octets " " ++ target) = hooked
      generalize hooked.drop (methodName method ++ octets " ").length = pTemp
      generalize (methodName method ++ octets " " ++ target).length = limit at ofMethod ⊢
      split
      · rename_i url
        simp only [List.forall_mem_cons, ofMethod, true_and, proxyTexts_length]
        exact ⟨fun fits => ⟨fun _ => fits, fun path => absurd (path.symm.trans url) (by decide),
          fun path => absurd (path.symm.trans url) (by decide)⟩, fun fits => fits.url url⟩
      · rename_i notUrl
        have path := Bool.eq_false_iff.mpr notUrl
        have texts := @piecesFit_path hooked pTemp limit path
        simp only [List.forall_mem_cons, ofMethod, true_and, List.not_mem_nil,
          false_implies, implies_true, and_true]
        exact texts

theorem connect_inside (site : Site) (target : List UInt8) :
    ∀ text ∈ parseMethodTexts site (octets "CONNECT " ++ target),
      text.length ≤ (octets "CONNECT " ++ target).length := by
  intro text written
  simp only [parseMethodTexts, takeWhile_connect, strncasecmp_connect, if_true, List.mem_cons,
    List.not_mem_nil, or_false] at written
  rcases written with rfl | rfl
  · rw [← takeWhile_connect]
    exact (List.takeWhile_sublist _).length_le
  · exact ((List.takeWhile_sublist _).trans (List.drop_sublist _ _)).length_le

namespace TargetLine

variable {site : Site} {line : TargetLine}

theorem inside_iff_fits :
    (∀ text ∈ parseMethodTexts site line.text, text.length ≤ line.text.length) ↔
      line.Fits site := by
  cases line with
  | origin method unconnected path query =>
      have line : (TargetLine.origin method unconnected path query).text =
          methodName method ++ octets " " ++ (path.text ++ (queryText query ++ version)) := by
        simp [TargetLine.text]
      rw [Fits, line]
      refine inside_iff unconnected fun ch member => ?_
      obtain rfl : 0x2f = ch := Option.some.inj member
      decide
  | absolute method unconnected ssl host backups few path query =>
      rw [Fits, absolute_text]
      exact inside_iff unconnected (schemeText_stop ssl _)
  | connect host port =>
      have line : (TargetLine.connect host port).text =
          octets "CONNECT " ++ (host.text ++ version) := by simp [TargetLine.text]
      rw [line]
      exact iff_of_true (connect_inside site _) trivial

/-- A line fits that the extensions do not lengthen. -/
theorem fits_of_length_le (notLonger : (site.hooked line.text).length ≤ line.text.length) :
    line.Fits site :=
  inside_iff_fits.mp (parseMethodTexts_inside notLonger)

theorem noPort_bounded : ∀ numeral ∈ (none : Option Numeral), numeral.value < 65536 :=
  fun numeral absent => (Option.not_mem_none numeral absent).elim

theorem letter_ne_nil (ch : UInt8) : [ch] ≠ [] :=
  List.cons_ne_nil ch []

theorem letter_isHost {ch : UInt8} (isHost : isHostOctet ch = true) :
    ∀ other ∈ [ch], isHostOctet other = true := by
  intro other member
  obtain rfl := List.mem_singleton.mp member
  exact isHost

/-- A host of one letter. -/
def letterHost (ch : UInt8) (isHost : isHostOctet ch = true) : Authority :=
  { host := .name [ch] (letter_ne_nil ch) (letter_isHost isHost)
    port := none
    bounded := noPort_bounded }

theorem get_unconnected : HttpMethod.get ≠ .connect := by
  decide

/-- `GET scheme://a|b/c HTTP/1.1`, with or without the second host. -/
def letterLine (ssl : Bool) (backups : List Authority) (few : backups.length ≤ 2) : TargetLine :=
  .absolute .get get_unconnected ssl (letterHost 0x61 rfl) backups few (some [.plain 0x63 rfl])
    none

end TargetLine

end Http1

end HeapHttpd
