import HeapHttpd.Http1.HeaderNames
import HeapHttpd.Library.Lines

/-!
# Cookies

The way of a cookie: `CHttp::SetCookie` encodes its value and `Cookie::toString`
formats it, a client returns it, `LineParse` joins the lines, and `NIU_COOKIE_VARS`
splits them.
-/

namespace HeapHttpd

namespace Http1

open General
open Tunneling (HeaderField seen IsLine headerText isField fieldValue isTchar crlf)

/-! ## What is sent -/

/-- A digit of `hex`. -/
def hexDigit (number : UInt8) : UInt8 :=
  if number < 10 then 0x30 + number else 0x41 + (number - 10)

/-- An entry of `hex`. -/
def hexOctets (ch : UInt8) : List UInt8 :=
  [hexDigit (ch / 16), hexDigit (ch % 16)]

/-- The octets that `NIU_URLFORMAT_ENCODE` leaves as they are. -/
def isUnescaped (ch : UInt8) : Bool :=
  (0x41 ≤ ch && ch ≤ 0x5a) || (0x61 ≤ ch && ch ≤ 0x7a) || (0x30 ≤ ch && ch ≤ 0x39) ||
    decide (ch ∈ octets "-_.!~*\\()")

/-- The loop of `NIU_URLFORMAT_ENCODE` on a little-endian machine. -/
def urlFormatEncode : Nat → List UInt8 → List UInt8
  | 0, _ => []
  | _ + 1, [] => []
  | passes + 1, ch :: rest =>
      if ch = 0x20 then 0x2b :: urlFormatEncode passes rest
      else if isUnescaped ch then ch :: urlFormatEncode passes rest
      else if ch ≤ 0x7f then 0x25 :: (hexOctets ch ++ urlFormatEncode passes rest)
      else
        0x25 :: 0x75 :: (hexOctets (rest.headD 0) ++
          (hexOctets ch ++ urlFormatEncode passes rest.tail))

/-- `Cookie`, less the times. -/
structure Cookie where
  name : List UInt8
  value : List UInt8
  version : List UInt8
  maxAge : Int
  expires : List UInt8
  path : List UInt8
  domain : List UInt8
  secure : Bool
  httpOnly : Bool

/-- The arguments of `CHttp::SetCookie`. -/
structure CookieCall where
  name : List UInt8
  value : List UInt8
  maxAge : Int
  expires : Option (List UInt8)
  path : Option (List UInt8)
  domain : Option (List UInt8)
  secure : Bool
  httpOnly : Bool

/-- The value as a cookie has it. -/
def CookieCall.encodedValue (call : CookieCall) : List UInt8 :=
  urlFormatEncode call.value.length call.value

/-- The constructor of `Cookie`. -/
def CookieCall.cookie (call : CookieCall) : Cookie :=
  { name := call.name
    value := call.encodedValue
    version := octets "1"
    maxAge := call.maxAge
    expires := call.expires.getD []
    path := call.path.getD (octets "/")
    domain := call.domain.getD []
    secure := call.secure
    httpOnly := call.httpOnly }

/-- An attribute of a cookie. -/
def cookieAttribute (name : String) (value : List UInt8) : List UInt8 :=
  octets (" " ++ name ++ "=") ++ value ++ octets ";"

/-- The attributes that `Cookie::toString` puts behind a value. -/
def Cookie.attributes (cookie : Cookie) : List UInt8 :=
  (if cookie.version ≠ [] then cookieAttribute "Version" cookie.version else []) ++
    (if cookie.maxAge ≠ -1 then cookieAttribute "MaxAge" (sprintfD cookie.maxAge) else []) ++
    (if cookie.expires.headD 0 ≠ 0 then cookieAttribute "Expires" cookie.expires else []) ++
    (if cookie.path.headD 0 ≠ 0 then cookieAttribute "Path" cookie.path else []) ++
    (if cookie.domain.headD 0 ≠ 0 then cookieAttribute "Domain" cookie.domain else []) ++
    (if cookie.secure then octets " Secure;" else []) ++
    (if cookie.httpOnly then octets " HttpOnly" else [])

/-- `Cookie::toString`. -/
def Cookie.toString (cookie : Cookie) : List UInt8 :=
  cookie.name ++ octets "=" ++ cookie.value ++ octets ";" ++ cookie.attributes

/-- `CHttp::SetCookie`. -/
def setCookie (setCookies : StringMap) (call : CookieCall) : StringMap :=
  setCookies.set call.name call.cookie.toString

/-- The lines that `CHttp::SendHeader` adds for cookies. -/
def setCookieLines (setCookies : StringMap) : List (List UInt8) :=
  (setCookies.filter fun entry => entry.2 ≠ []).map fun entry =>
    octets "Set-Cookie: " ++ entry.2 ++ crlf

/-! ## What comes back -/

/-- The name and the value that a client finds in a line. -/
def returnedPair (line : List UInt8) : List UInt8 :=
  (line.drop (octets "Set-Cookie: ").length).takeWhile (· ≠ 0x3b)

/-- The pairs that a client has behind some calls. -/
def returnedPairs (calls : List CookieCall) : List (List UInt8) :=
  (setCookieLines (calls.foldl setCookie [])).map returnedPair

/-- Pairs as they stand in a line. -/
def joinPairs : List (List UInt8) → List UInt8
  | [] => []
  | first :: others => first ++ others.flatMap (octets "; " ++ ·)

/-- A line of a request: one with cookies, or another one. -/
inductive RequestLine
  | cookies (pairs : List (List UInt8))
  | other (text : List UInt8)

/-- The pairs of a line. -/
def RequestLine.pairs : RequestLine → List (List UInt8)
  | cookies pairs => pairs
  | other _ => []

/-- A line as it is sent. -/
def RequestLine.text : RequestLine → List UInt8
  | cookies pairs => octets "Cookie: " ++ joinPairs pairs
  | other text => text

/-- The lines with cookies have some, and the others are no such lines. -/
def RequestLine.WellFormed : RequestLine → Prop
  | cookies pairs => pairs ≠ []
  | other text => IsLine text ∧ fieldKind (seen text) ≠ .cookie

/-- The loop of `_strtrim_` over the start of a string. -/
def trimStart : Nat → List UInt8 → List UInt8
  | 0, src => src
  | passes + 1, src =>
      let unspaced := src.dropWhile (· = 0x20)
      let next := ((unspaced.dropWhile (· = 0x09)).dropWhile (· = 0x0d)).dropWhile (· = 0x0a)
      if unspaced ≠ [] ∧ unspaced ≠ src then trimStart passes next else next

/-- The octets at the end that are the same, unless there are no others. -/
def dropEnd (ch : UInt8) (src : List UInt8) : List UInt8 :=
  if src.all (· = ch) then src else src.rdropWhile (· = ch)

/-- The loop of `_strtrim_` over the end of a string. -/
def trimEnd : Nat → List UInt8 → List UInt8
  | 0, src => src
  | passes + 1, src =>
      let next := dropEnd 0x0a (dropEnd 0x0d (dropEnd 0x09 (dropEnd 0x20 src)))
      if next = src then src else trimEnd passes next

/-- `_strtrim_`. -/
def apiStrtrim (src : List UInt8) : List UInt8 :=
  let started := trimStart (src.length + 1) src
  trimEnd (started.length + 1) started

/-- The end of a key and its value in `NIU_COOKIE_VARS`. -/
def storeVar (key value : List UInt8) (varmap : StringMap) :
    List UInt8 × List UInt8 × StringMap :=
  let key := apiStrtrim key
  if key ≠ [] then ([], [], varmap.set key value) else (key, value, varmap)

/-- The loop of `NIU_COOKIE_VARS`, where `isValue` is whether `where` is `V`. -/
def cookieVarsLoop (isValue : Bool) (key value : List UInt8) (varmap : StringMap) :
    List UInt8 → StringMap
  | [] => (storeVar key value varmap).2.2
  | ch :: data =>
      if ch = 0x3b then
        let stored := storeVar key value varmap
        cookieVarsLoop false stored.1 stored.2.1 stored.2.2 data
      else if ch = 0x3d then cookieVarsLoop true key value varmap data
      else if isValue then cookieVarsLoop isValue key (value ++ [ch]) varmap data
      else cookieVarsLoop isValue (key ++ [ch]) value varmap data

/-- `NIU_COOKIE_VARS`. -/
def cookieVars (data : List UInt8) : StringMap :=
  cookieVarsLoop false [] [] [] (cString data)

/-- `CHttp::GetCookieVar` in the response to a request. -/
def CHttp.getCookieVar (http1 : CHttp RequestHeader) (key : List UInt8) : Option (List UInt8) :=
  OrderedMap.find key (cookieVars http1.rest.cookie)

/-! ## Encoding -/

section Encoding

theorem unescaped_plain (ch : UInt8) : isUnescaped ch = true →
    ch ≠ 0x20 ∧ ch ≠ 0x3b ∧ ch ≠ 0x3d ∧ ch ≠ 0 ∧ ch ≠ 0x25 ∧ ch ≤ 0x7f ∧ isBlank ch = false := by
  revert ch
  apply forall_octet
  decide +kernel

theorem hexOctets_unescaped (ch : UInt8) : ∀ digit ∈ hexOctets ch, isUnescaped digit = true := by
  have all : (hexOctets ch).all isUnescaped = true := by
    revert ch
    apply forall_octet
    decide +kernel
  exact List.all_eq_true.mp all

theorem length_le_urlFormatEncode {passes : Nat} {text : List UInt8} (patient : text.length ≤ passes) :
    text.length ≤ (urlFormatEncode passes text).length := by
  induction passes generalizing text with
  | zero => omega
  | succ passes ih =>
      cases text with
      | nil => exact Nat.zero_le _
      | cons ch rest =>
          rw [List.length_cons] at patient
          have shorter := @ih rest (by omega)
          have muchShorter := @ih rest.tail (by rw [List.length_tail]; omega)
          rw [List.length_tail] at muchShorter
          rw [urlFormatEncode, List.length_cons]
          split
          · rw [List.length_cons]
            omega
          · split
            · rw [List.length_cons]
              omega
            · split
              · rw [List.length_cons, List.length_append]
                omega
              · simp only [List.length_cons, List.length_append, hexOctets, List.length_nil]
                omega

/-- Only a text without anything to escape is its own encoding. -/
theorem urlFormatEncode_eq_self_iff {passes : Nat} {text : List UInt8}
    (patient : text.length ≤ passes) :
    urlFormatEncode passes text = text ↔ ∀ ch ∈ text, isUnescaped ch = true := by
  induction passes generalizing text with
  | zero =>
      rw [List.length_eq_zero_iff.mp (Nat.le_zero.mp patient)]
      simp [urlFormatEncode]
  | succ passes ih =>
      cases text with
      | nil => simp [urlFormatEncode]
      | cons ch rest =>
          rw [List.length_cons] at patient
          have shorter := @length_le_urlFormatEncode passes rest (by omega)
          rw [urlFormatEncode, List.forall_mem_cons]
          by_cases plain : isUnescaped ch = true
          · rw [if_neg (unescaped_plain ch plain).1, if_pos plain, List.cons.injEq,
              ih (by omega)]
            simp [plain]
          · refine iff_of_false ?_ fun both => plain both.1
            rw [if_neg plain]
            intro same
            split at same
            · rename_i space
              rw [space, List.cons.injEq] at same
              exact absurd same.1 (by decide)
            · split at same
              · rename_i ascii
                have lengths := congrArg List.length same
                simp only [List.length_cons, List.length_append, hexOctets, List.length_nil]
                  at lengths
                omega
              · rename_i notAscii
                rw [List.cons.injEq] at same
                rw [← same.1] at notAscii
                exact notAscii (by decide)

/-- An encoded value has no separator, no blank and no NUL. -/
theorem encoded_plain {passes : Nat} {text : List UInt8} :
    ∀ ch ∈ urlFormatEncode passes text,
      ch ≠ 0x3b ∧ ch ≠ 0x3d ∧ ch ≠ 0 ∧ isBlank ch = false := by
  have digits (number : UInt8) :
      ∀ ch ∈ hexOctets number, ch ≠ 0x3b ∧ ch ≠ 0x3d ∧ ch ≠ 0 ∧ isBlank ch = false := by
    intro ch member
    obtain ⟨-, notSemicolon, notEqual, notNul, -, -, notBlank⟩ :=
      unescaped_plain ch (hexOctets_unescaped number ch member)
    exact ⟨notSemicolon, notEqual, notNul, notBlank⟩
  induction passes generalizing text with
  | zero => simp [urlFormatEncode]
  | succ passes ih =>
      cases text with
      | nil => simp [urlFormatEncode]
      | cons first rest =>
          rw [urlFormatEncode]
          split
          · rw [List.forall_mem_cons]
            exact ⟨by decide, ih⟩
          · split
            · rename_i plain
              obtain ⟨-, notSemicolon, notEqual, notNul, -, -, notBlank⟩ :=
                unescaped_plain first plain
              rw [List.forall_mem_cons]
              exact ⟨⟨notSemicolon, notEqual, notNul, notBlank⟩, ih⟩
            · split
              · rw [List.forall_mem_cons, List.forall_mem_append]
                exact ⟨by decide, digits first, ih⟩
              · rw [List.forall_mem_cons, List.forall_mem_cons, List.forall_mem_append,
                  List.forall_mem_append]
                exact ⟨by decide, by decide, digits _, digits first, ih⟩

end Encoding

/-! ## Splitting -/

/-- A name that a cookie may have. -/
def LegalName (name : List UInt8) : Prop :=
  name ≠ [] ∧ ∀ ch ∈ name, isTchar ch = true

/-- A value that needs no quoting in a line. -/
def PlainValue (value : List UInt8) : Prop :=
  ∀ ch ∈ value, ch ≠ 0x3b ∧ ch ≠ 0x3d ∧ ch ≠ 0 ∧ isBlank ch = false

/-- A name with its value. -/
structure Pair where
  name : List UInt8
  value : List UInt8
  legalName : LegalName name
  plainValue : PlainValue value

def Pair.text (pair : Pair) : List UInt8 :=
  pair.name ++ 0x3d :: pair.value

section Splitting

theorem token_plain (ch : UInt8) : isTchar ch = true →
    ch ≠ 0x3b ∧ ch ≠ 0x3d ∧ ch ≠ 0 ∧ isBlank ch = false := by
  revert ch
  apply forall_octet
  decide +kernel

theorem ne_of_not_blank {ch : UInt8} (notBlank : isBlank ch = false) :
    ch ≠ 0x20 ∧ ch ≠ 0x0d ∧ ch ≠ 0x0a ∧ ch ≠ 0x09 := by
  simpa [isBlank, and_assoc] using notBlank

theorem trimStart_unblank {ch : UInt8} (notBlank : isBlank ch = false) (passes : Nat)
    (rest : List UInt8) : trimStart (passes + 1) (ch :: rest) = ch :: rest := by
  obtain ⟨notSpace, notCr, notLf, notTab⟩ := ne_of_not_blank notBlank
  have kept (other : UInt8) (different : ch ≠ other) :
      (ch :: rest).dropWhile (· = other) = ch :: rest := by
    rw [List.dropWhile_cons_of_neg (by simpa using different)]
  simp [trimStart, kept _ notSpace, kept _ notCr, kept _ notLf, kept _ notTab]

theorem trimEnd_unblank {ch : UInt8} (notBlank : isBlank ch = false) (passes : Nat)
    (front : List UInt8) : trimEnd (passes + 1) (front ++ [ch]) = front ++ [ch] := by
  obtain ⟨notSpace, notCr, notLf, notTab⟩ := ne_of_not_blank notBlank
  have kept (other : UInt8) (different : ch ≠ other) :
      dropEnd other (front ++ [ch]) = front ++ [ch] := by
    rw [dropEnd, List.rdropWhile_concat_neg _ front ch (by simpa using different), ite_self]
  simp [trimEnd, kept _ notSpace, kept _ notCr, kept _ notLf, kept _ notTab]

/-- A key comes without the blank that separates it from the pair before. -/
theorem apiStrtrim_key {name pad : List UInt8} (legal : LegalName name)
    (isPad : pad = [] ∨ pad = [0x20]) : apiStrtrim (pad ++ name) = name := by
  obtain ⟨nonempty, token⟩ := legal
  obtain ⟨first, rest, isName⟩ := List.exists_cons_of_ne_nil nonempty
  have notBlank : isBlank first = false :=
    (token_plain first (token first (by simp [isName]))).2.2.2
  have started : trimStart ((pad ++ name).length + 1) (pad ++ name) = name := by
    rw [isName]
    rcases isPad with rfl | rfl
    · exact trimStart_unblank notBlank _ rest
    · rw [trimStart]
      obtain ⟨notSpace, notCr, notLf, notTab⟩ := ne_of_not_blank notBlank
      have unspaced : ([0x20] ++ first :: rest).dropWhile (· = 0x20) = first :: rest := by
        simp [notSpace]
      have next (other : UInt8) (different : first ≠ other) :
          (first :: rest).dropWhile (· = other) = first :: rest := by
        rw [List.dropWhile_cons_of_neg (by simpa using different)]
      simp only [unspaced, next _ notCr, next _ notLf, next _ notTab]
      rw [if_pos ⟨List.cons_ne_nil _ _, by simp⟩]
      exact trimStart_unblank notBlank _ rest
  rw [apiStrtrim]
  simp only [started]
  obtain ⟨front, last, isConcat⟩ := List.eq_nil_or_concat name |>.resolve_left nonempty
  have lastPlain : isBlank last = false :=
    (token_plain last (token last (by simp [isConcat]))).2.2.2
  rw [isConcat, List.concat_eq_append]
  exact trimEnd_unblank lastPlain _ front

variable {varmap : StringMap}

theorem cookieVarsLoop_key {text : List UInt8}
    (plain : ∀ ch ∈ text, ch ≠ 0x3b ∧ ch ≠ 0x3d) (key value rest : List UInt8) :
    cookieVarsLoop false key value varmap (text ++ rest) =
      cookieVarsLoop false (key ++ text) value varmap rest := by
  induction text generalizing key with
  | nil => simp
  | cons ch text ih =>
      obtain ⟨notSemicolon, notEqual⟩ := plain ch List.mem_cons_self
      rw [List.cons_append, cookieVarsLoop, if_neg notSemicolon, if_neg notEqual,
        if_neg (by decide), ih fun other member => plain other (List.mem_cons_of_mem _ member),
        List.append_assoc, List.singleton_append]

theorem cookieVarsLoop_value {text : List UInt8}
    (plain : ∀ ch ∈ text, ch ≠ 0x3b ∧ ch ≠ 0x3d) (key value rest : List UInt8) :
    cookieVarsLoop true key value varmap (text ++ rest) =
      cookieVarsLoop true key (value ++ text) varmap rest := by
  induction text generalizing value with
  | nil => simp
  | cons ch text ih =>
      obtain ⟨notSemicolon, notEqual⟩ := plain ch List.mem_cons_self
      rw [List.cons_append, cookieVarsLoop, if_neg notSemicolon, if_neg notEqual,
        if_pos rfl, ih fun other member => plain other (List.mem_cons_of_mem _ member),
        List.append_assoc, List.singleton_append]

/-- The loop over a pair and the separator behind it. -/
theorem cookieVarsLoop_pair (pair : Pair) {pad : List UInt8} (isPad : pad = [] ∨ pad = [0x20])
    (rest : List UInt8) :
    cookieVarsLoop false pad [] varmap (pair.text ++ 0x3b :: rest) =
      cookieVarsLoop false [] [] (varmap.set pair.name pair.value) rest := by
  have plainName : ∀ ch ∈ pair.name, ch ≠ 0x3b ∧ ch ≠ 0x3d := fun ch member =>
    have token := token_plain ch (pair.legalName.2 ch member)
    ⟨token.1, token.2.1⟩
  have plainValue : ∀ ch ∈ pair.value, ch ≠ 0x3b ∧ ch ≠ 0x3d := fun ch member =>
    have plain := pair.plainValue ch member
    ⟨plain.1, plain.2.1⟩
  rw [Pair.text, List.append_assoc, cookieVarsLoop_key plainName, List.cons_append,
    cookieVarsLoop, if_neg (by decide), if_pos rfl, cookieVarsLoop_value plainValue,
    List.nil_append, cookieVarsLoop, if_pos rfl, storeVar]
  simp only [apiStrtrim_key pair.legalName isPad, if_pos pair.legalName.1]

/-- The loop over pairs, each with a separator behind it. -/
theorem cookieVarsLoop_pairs (pairs : List Pair) {pad : List UInt8}
    (isPad : pad = [] ∨ pad = [0x20]) :
    cookieVarsLoop false pad [] varmap (pairs.flatMap fun pair => pair.text ++ octets "; ") =
      pairs.foldl (fun varmap pair => varmap.set pair.name pair.value) varmap := by
  induction pairs generalizing varmap pad with
  | nil =>
      rcases isPad with rfl | rfl
      · rfl
      · rfl
  | cons pair pairs ih =>
      rw [List.flatMap_cons, List.append_assoc, List.foldl_cons,
        show octets "; " = 0x3b :: [0x20] by decide, List.cons_append, cookieVarsLoop_pair _ isPad,
        List.singleton_append, cookieVarsLoop, if_neg (by decide), if_neg (by decide),
        if_neg (by decide)]
      exact ih (.inr rfl)

theorem nulFree_pairs (pairs : List Pair) :
    0 ∉ pairs.flatMap fun pair => pair.text ++ octets "; " := by
  intro nul
  obtain ⟨pair, -, inPair⟩ := List.mem_flatMap.mp nul
  rw [Pair.text, List.append_assoc] at inPair
  rcases List.mem_append.mp inPair with inName | behind
  · exact (token_plain 0 (pair.legalName.2 0 inName)).2.2.1 rfl
  · rw [List.cons_append, List.mem_cons] at behind
    rcases behind with isEqual | behind
    · exact absurd isEqual (by decide)
    · rcases List.mem_append.mp behind with inValue | inSeparator
      · exact (pair.plainValue 0 inValue).2.2.1 rfl
      · exact absurd inSeparator (by decide)

/-- What `NIU_COOKIE_VARS` makes of the pairs of all lines. -/
theorem cookieVars_pairs (pairs : List Pair) :
    cookieVars (pairs.flatMap fun pair => pair.text ++ octets "; ") =
      pairs.foldl (fun (varmap : StringMap) pair => varmap.set pair.name pair.value) [] := by
  rw [cookieVars, cString_of_nulFree (nulFree_pairs pairs)]
  exact cookieVarsLoop_pairs pairs (.inl rfl)

end Splitting

/-! ## Reading the lines of a request -/

namespace RequestHeader

variable {site : Site} {header : RequestHeader}

theorem cookie_reverseProxyUrl (ssl : Bool) (behind : List UInt8) :
    (header.reverseProxyUrl ssl behind).1.cookie = header.cookie := by
  unfold reverseProxyUrl
  simp only
  split
  · split
    · rfl
    · rfl
  · rfl

theorem cookie_parseMethod (strtext : List UInt8) :
    (header.parseMethod site strtext).1.cookie = header.cookie := by
  unfold parseMethod
  simp only
  generalize (if site.enableHttpReverseProxy then reverseDelivery site.reverseExtList strtext
    else strtext) = strtext'
  split
  · rfl
  · split
    · split
      · exact cookie_reverseProxyUrl _ _
      · rfl
    · rfl

theorem cookie_storeField (strtext : List UInt8) :
    (header.storeField strtext).cookie = header.cookie := by
  unfold storeField
  simp only
  split
  · rfl
  · rfl

theorem cookie_readField {kind : FieldKind} (notCookie : kind ≠ .cookie) (strtext : List UInt8) :
    (header.readField site strtext kind).cookie = header.cookie := by
  cases kind with
  | cookie => exact absurd rfl notCookie
  | connection =>
      simp only [readField, readConnection]
      split
      · rfl
      · rfl
  | upgrade =>
      simp only [readField, readUpgrade]
      split
      · rfl
      · rfl
  | contentType =>
      simp only [readField, readContentType]
      split
      · rfl
      · split
        · rfl
        · rfl
  | contentLength | other | host | authorization | proxyAuthorization | cacheControl | pragma =>
      rfl

theorem cookie_readLine {strtext : List UInt8} (notCookie : fieldKind strtext ≠ .cookie) :
    (header.readLine site strtext).cookie = header.cookie := by
  unfold readLine
  cases methodOf strtext with
  | some method => exact cookie_parseMethod _
  | none => exact (cookie_readField notCookie _).trans (cookie_storeField _)

end RequestHeader

section Lines

variable {site : Site}

theorem isBlank_end (pair : Pair) : ∃ front last,
    pair.text = front ++ [last] ∧ isBlank last = false := by
  rcases List.eq_nil_or_concat pair.value with empty | ⟨front, last, isConcat⟩
  · exact ⟨pair.name, 0x3d, by rw [Pair.text, empty], by decide⟩
  · refine ⟨pair.name ++ 0x3d :: front, last, ?_, ?_⟩
    · rw [Pair.text, isConcat, List.concat_eq_append, List.append_assoc, List.cons_append]
    · exact (pair.plainValue last (by simp [isConcat])).2.2.2

theorem joinPairs_end {pairs : List Pair} (nonempty : pairs ≠ []) : ∃ front last,
    joinPairs (pairs.map Pair.text) = front ++ [last] ∧ isBlank last = false := by
  obtain ⟨pair, others, rfl⟩ := List.exists_cons_of_ne_nil nonempty
  rw [List.map_cons, joinPairs]
  rcases List.eq_nil_or_concat others with rfl | ⟨earlier, later, rfl⟩
  · obtain ⟨front, last, isText, notBlank⟩ := isBlank_end pair
    exact ⟨front, last, by simp [isText], notBlank⟩
  · obtain ⟨front, last, isText, notBlank⟩ := isBlank_end later
    refine ⟨pair.text ++ ((earlier.map Pair.text).flatMap (octets "; " ++ ·) ++
      (octets "; " ++ front)), last, ?_, notBlank⟩
    simp [isText, List.flatMap_append]

theorem joinPairs_start {pairs : List Pair} (nonempty : pairs ≠ []) : ∃ first rest,
    joinPairs (pairs.map Pair.text) = first :: rest ∧ isBlank first = false := by
  obtain ⟨pair, others, rfl⟩ := List.exists_cons_of_ne_nil nonempty
  obtain ⟨first, rest, isName⟩ := List.exists_cons_of_ne_nil pair.legalName.1
  refine ⟨first, _, by rw [List.map_cons, joinPairs, Pair.text, isName]; rfl, ?_⟩
  exact (token_plain first (pair.legalName.2 first (by simp [isName]))).2.2.2

theorem joinPairs_append (pairs : List Pair) (nonempty : pairs ≠ []) :
    joinPairs (pairs.map Pair.text) ++ octets "; " =
      pairs.flatMap fun pair => pair.text ++ octets "; " := by
  obtain ⟨pair, others, rfl⟩ := List.exists_cons_of_ne_nil nonempty
  rw [List.map_cons, joinPairs, List.flatMap_cons, List.append_assoc, List.append_assoc]
  congr 1
  clear nonempty
  induction others with
  | nil => simp
  | cons other others ih => simp [ih]

theorem plain_separator : Tunneling.Plain (octets "; ") := by
  decide

theorem plain_text (pair : Pair) : Tunneling.Plain pair.text := by
  intro ch member
  rw [Pair.text] at member
  rcases List.mem_append.mp member with inName | behind
  · obtain ⟨-, -, notNul, notBlank⟩ := token_plain ch (pair.legalName.2 ch inName)
    obtain ⟨-, notCr, notLf, -⟩ := ne_of_not_blank notBlank
    exact ⟨notNul, notCr, notLf⟩
  · rcases List.mem_cons.mp behind with rfl | inValue
    · decide
    · obtain ⟨-, -, notNul, notBlank⟩ := pair.plainValue ch inValue
      obtain ⟨-, notCr, notLf, -⟩ := ne_of_not_blank notBlank
      exact ⟨notNul, notCr, notLf⟩

theorem plain_joinPairs (pairs : List Pair) :
    Tunneling.Plain (joinPairs (pairs.map Pair.text)) := by
  cases pairs with
  | nil => simp [joinPairs, Tunneling.Plain]
  | cons pair others =>
      intro ch member
      rw [List.map_cons, joinPairs] at member
      rcases List.mem_append.mp member with inPair | behind
      · exact plain_text pair ch inPair
      · obtain ⟨text, inOthers, inText⟩ := List.mem_flatMap.mp behind
        obtain ⟨other, -, rfl⟩ := List.mem_map.mp inOthers
        rcases List.mem_append.mp inText with inSeparator | inOther
        · exact plain_separator ch inSeparator
        · exact plain_text other ch inOther

/-- The line of some pairs, as a field. -/
def cookieField (pairs : List Pair) : HeaderField :=
  { name := octets "Cookie"
    value := 0x20 :: joinPairs (pairs.map Pair.text)
    nameNonempty := by decide
    nameToken := List.all_eq_true.mp (by decide)
    valuePlain := by
      intro ch member
      rcases List.mem_cons.mp member with rfl | inside
      · decide
      · exact plain_joinPairs pairs ch inside }

theorem text_cookies (pairs : List Pair) :
    (RequestLine.cookies (pairs.map Pair.text)).text = (cookieField pairs).text := by
  rw [RequestLine.text, HeaderField.text, cookieField,
    show octets "Cookie: " = octets "Cookie" ++ octets ":" ++ [0x20] by decide]
  simp

/-- A line with pairs as `LineParse` looks at it. -/
theorem seen_cookieField {pairs : List Pair} (nonempty : pairs ≠ []) :
    seen (cookieField pairs).text =
      octets "Cookie:" ++ 0x20 :: joinPairs (pairs.map Pair.text) := by
  obtain ⟨front, last, isJoined, notBlank⟩ := joinPairs_end nonempty
  have kept : (0x20 :: joinPairs (pairs.map Pair.text)).rdropWhile isBlank =
      0x20 :: joinPairs (pairs.map Pair.text) := by
    rw [isJoined, ← List.cons_append,
      List.rdropWhile_concat_neg _ _ last (by simp [notBlank])]
  have name : (cookieField pairs).seenName ++ [0x3a] = octets "Cookie:" := by
    show normalise true (octets "Cookie") ++ [0x3a] = octets "Cookie:"
    decide
  rw [HeaderField.seen_text, ← name, List.append_assoc, List.singleton_append]
  congr 2

theorem fieldKind_cookieField (pairs : List Pair) :
    fieldKind (seen (cookieField pairs).text) = .cookie := by
  have named : (cookieField pairs).IsNamed "Cookie" := by
    show (octets "Cookie").map loch = _
    rfl
  have begins : isField "Cookie:" (seen (cookieField pairs).text) = true :=
    ((cookieField pairs).isField_iff "Cookie:" "Cookie" (by decide) (by decide)).mpr named
  rw [fieldKind,
    if_neg (not_isField_of_named named _ "Connection" (by decide) (by decide) (by decide)),
    if_neg (not_isField_of_named named _ "Upgrade" (by decide) (by decide) (by decide)),
    if_neg (not_isField_of_named named _ "Content-Length" (by decide) (by decide) (by decide)),
    if_neg (not_isField_of_named named _ "Content-Type" (by decide) (by decide) (by decide)),
    if_pos begins]

/-- The value of a line with pairs. -/
theorem fieldValue_cookieField {pairs : List Pair} (nonempty : pairs ≠ []) :
    fieldValue "Cookie:" (seen (cookieField pairs).text) = joinPairs (pairs.map Pair.text) := by
  obtain ⟨first, rest, starts, firstNotBlank⟩ := joinPairs_start nonempty
  obtain ⟨front, last, ends, lastNotBlank⟩ := joinPairs_end nonempty
  have cut : strcutFrom (octets "Cookie:") (seen (cookieField pairs).text) =
      0x20 :: joinPairs (pairs.map Pair.text) := by
    rw [seen_cookieField nonempty, show octets "Cookie:" = 0x43 :: octets "ookie:" by decide,
      List.cons_append, strcutFrom, if_pos (by rw [List.isPrefixOf_iff_prefix]; simp)]
    rfl
  have nulFree : 0 ∉ 0x20 :: joinPairs (pairs.map Pair.text) := fun member =>
    ((cookieField pairs).valuePlain 0 member).1 rfl
  rw [fieldValue, cut, strtrim_eq_trimmed nulFree, trimmed,
    List.dropWhile_cons_of_pos (by decide), starts, List.dropWhile_cons_of_neg
      (by simp [firstNotBlank]), ← starts, ends,
    List.rdropWhile_concat_neg _ _ last (by simp [lastNotBlank])]

theorem cookie_readLine_cookieField {pairs : List Pair} (nonempty : pairs ≠ [])
    (header : RequestHeader) :
    (header.readLine site (seen (cookieField pairs).text)).cookie =
      header.cookie ++ pairs.flatMap fun pair => pair.text ++ octets "; " := by
  rw [RequestHeader.readLine, methodOf_seen_text]
  simp only [fieldKind_cookieField, RequestHeader.readField, fieldValue_cookieField nonempty,
    RequestHeader.cookie_storeField]
  rw [List.append_assoc, joinPairs_append pairs nonempty]

theorem rest_readLine (http1 : CHttp RequestHeader) (strtext : List UInt8) :
    (http1.readLine site strtext).rest = http1.rest.readLine site strtext := by
  rw [CHttp.readLine, parseLine]
  cases methodOf strtext with
  | some method => rfl
  | none =>
      simp only [parseFieldLine]
      split
      · rfl
      · split
        · rfl
        · rfl

theorem exists_pairs {texts : List (List UInt8)}
    (arePairs : ∀ text ∈ texts, ∃ pair : Pair, pair.text = text) :
    ∃ pairs : List Pair, pairs.map Pair.text = texts := by
  induction texts with
  | nil => exact ⟨[], rfl⟩
  | cons text texts ih =>
      obtain ⟨pair, isText⟩ := arePairs text List.mem_cons_self
      obtain ⟨pairs, areTexts⟩ := ih fun other member =>
        arePairs other (List.mem_cons_of_mem _ member)
      exact ⟨pair :: pairs, by rw [List.map_cons, isText, areTexts]⟩

/-- What the lines of a request add up to. -/
theorem cookie_foldl {lines : List RequestLine} (wellFormed : ∀ line ∈ lines, line.WellFormed)
    (arePairs : ∀ line ∈ lines, ∀ text ∈ line.pairs, ∃ pair : Pair, pair.text = text)
    (http1 : CHttp RequestHeader) :
    ((lines.map fun line => seen line.text).foldl (CHttp.readLine site) http1).rest.cookie =
      http1.rest.cookie ++ (lines.flatMap RequestLine.pairs).flatMap (· ++ octets "; ") := by
  induction lines generalizing http1 with
  | nil => simp
  | cons line lines ih =>
      rw [List.map_cons, List.foldl_cons,
        ih (fun other member => wellFormed other (List.mem_cons_of_mem _ member))
          (fun other member => arePairs other (List.mem_cons_of_mem _ member)),
        rest_readLine, List.flatMap_cons, List.flatMap_append, ← List.append_assoc]
      congr 1
      have isWell := wellFormed line List.mem_cons_self
      cases line with
      | cookies texts =>
          obtain ⟨pairs, rfl⟩ := exists_pairs (arePairs _ List.mem_cons_self)
          have nonempty : pairs ≠ [] := fun empty => isWell (by rw [empty]; rfl)
          rw [text_cookies, cookie_readLine_cookieField nonempty, RequestLine.pairs,
            List.flatMap_map]
      | other text =>
          rw [show (RequestLine.other text).text = text from rfl,
            RequestHeader.cookie_readLine isWell.2]
          simp [RequestLine.pairs]

theorem isLine_text {line : RequestLine} (wellFormed : line.WellFormed)
    (arePairs : ∀ text ∈ line.pairs, ∃ pair : Pair, pair.text = text) : IsLine line.text := by
  cases line with
  | cookies texts =>
      obtain ⟨pairs, rfl⟩ := exists_pairs arePairs
      rw [text_cookies]
      exact (cookieField pairs).isLine
  | other text => exact wellFormed.1

/-- The member `m_cookie` behind the header of a request. -/
theorem cookie_headerOf {lines : List RequestLine} {rest : RequestHeader}
    (wellFormed : ∀ line ∈ lines, line.WellFormed)
    (arePairs : ∀ line ∈ lines, ∀ text ∈ line.pairs, ∃ pair : Pair, pair.text = text) :
    (headerOf site rest (headerText (lines.map RequestLine.text))).rest.cookie =
      rest.cookie ++ (lines.flatMap RequestLine.pairs).flatMap (· ++ octets "; ") := by
  have isLines : ∀ text ∈ lines.map RequestLine.text, IsLine text := by
    intro text member
    obtain ⟨line, inLines, rfl⟩ := List.mem_map.mp member
    exact isLine_text (wellFormed line inLines) (arePairs line inLines)
  have outcomes := congrArg (fun http1 => http1.rest.cookie)
    (@outcome_headerOf site rest _ isLines)
  rw [List.map_map] at outcomes
  exact outcomes.trans (cookie_foldl wellFormed arePairs (CHttp.new rest))

end Lines

/-! ## From one response to the next request -/

/-- A client returns the cookies of some calls in the lines of a request. -/
structure Returned (calls : List CookieCall) (lines : List RequestLine) : Prop where
  distinct : (calls.map CookieCall.name).Nodup
  legalNames : ∀ call ∈ calls, LegalName call.name
  nulFree : ∀ call ∈ calls, 0 ∉ call.value
  wellFormed : ∀ line ∈ lines, line.WellFormed
  returns : (lines.flatMap RequestLine.pairs).Perm (returnedPairs calls)

section Round

variable {calls : List CookieCall} {lines : List RequestLine} {site : Site} {keepAlive : Bool}
  {metaVars : StringMap}

/-- The pair of a call. -/
def CookieCall.pair (call : CookieCall) (legalName : LegalName call.name) : Pair :=
  ⟨call.name, call.encodedValue, legalName, encoded_plain⟩

theorem semicolonFree_text (pair : Pair) : ∀ ch ∈ pair.text, ch ≠ 0x3b := by
  intro ch member
  rcases List.mem_append.mp member with inName | behind
  · exact (token_plain ch (pair.legalName.2 ch inName)).1
  · rcases List.mem_cons.mp behind with rfl | inValue
    · decide
    · exact (pair.plainValue ch inValue).1

theorem text_inj {first second : Pair} (same : first.text = second.text) :
    first.name = second.name ∧ first.value = second.value := by
  have name (pair : Pair) : pair.text.takeWhile (· ≠ 0x3d) = pair.name := by
    have free : 0x3d ∉ pair.name := fun member =>
      (token_plain _ (pair.legalName.2 _ member)).2.1 rfl
    rw [Pair.text, Lines.takeWhile_until free]
  have sameName : first.name = second.name := by rw [← name first, same, name]
  rw [Pair.text, Pair.text, sameName, List.append_cancel_left_eq, List.cons.injEq] at same
  exact ⟨sameName, same.2⟩

/-- A client finds the pair in front of the attributes. -/
theorem returnedPair_toString (call : CookieCall) (legalName : LegalName call.name) :
    returnedPair (octets "Set-Cookie: " ++ call.cookie.toString ++ crlf) =
      (call.pair legalName).text := by
  have isString : call.cookie.toString =
      (call.pair legalName).text ++ 0x3b :: call.cookie.attributes := by
    rw [Cookie.toString, show octets "=" = [0x3d] by decide, show octets ";" = [0x3b] by decide,
      Pair.text]
    simp only [List.append_assoc, List.cons_append]
    rfl
  have free : 0x3b ∉ (call.pair legalName).text := fun member =>
    semicolonFree_text (call.pair legalName) _ member rfl
  rw [returnedPair, List.append_assoc, List.drop_left, isString, List.append_assoc,
    List.cons_append, Lines.takeWhile_until free]

theorem toString_ne_nil (cookie : Cookie) : cookie.toString ≠ [] := by
  rw [Cookie.toString, show octets "=" = [0x3d] by decide]
  simp

/-- Every returned pair is that of a call. -/
theorem exists_call_of_mem (legalNames : ∀ call ∈ calls, LegalName call.name)
    {text : List UInt8} (member : text ∈ returnedPairs calls) :
    ∃ call ∈ calls, ∃ legalName, text = (CookieCall.pair call legalName).text := by
  obtain ⟨line, inLines, rfl⟩ := List.mem_map.mp member
  obtain ⟨entry, inEntries, rfl⟩ := List.mem_map.mp inLines
  rcases OrderedMap.mem_foldl_set (List.mem_filter.mp inEntries).1 with nowhere | ⟨call, inCalls, rfl⟩
  · exact absurd nowhere List.not_mem_nil
  · exact ⟨call, inCalls, legalNames call inCalls, returnedPair_toString call _⟩

/-- The pair of every call is returned. -/
theorem mem_returnedPairs (returned : Returned calls lines) {call : CookieCall}
    (inCalls : call ∈ calls) :
    (call.pair (returned.legalNames call inCalls)).text ∈ returnedPairs calls := by
  have found := @OrderedMap.find_foldl_set _ _ _ CookieCall CookieCall.name
    (fun call => call.cookie.toString) calls Tunneling.stringBefore [] call.name call.cookie.toString
    (fun other member sameName =>
      congrArg (fun call => call.cookie.toString)
        (List.inj_on_of_nodup_map returned.distinct member inCalls sameName))
    (.inr ⟨call, inCalls, rfl⟩)
  refine List.mem_map.mpr ⟨_, List.mem_map.mpr ⟨(call.name, call.cookie.toString), ?_, rfl⟩, ?_⟩
  · exact List.mem_filter.mpr
      ⟨OrderedMap.mem_of_find found, by simpa using toString_ne_nil call.cookie⟩
  · exact returnedPair_toString call _

/-- What is read under the name of a call is the value as it was encoded. -/
theorem getCookieVar_returned (returned : Returned calls lines) {call : CookieCall}
    (inCalls : call ∈ calls) :
    (headerOf site (.new keepAlive metaVars)
        (headerText (lines.map RequestLine.text))).getCookieVar call.name =
      some call.encodedValue := by
  have isPair : ∀ text ∈ lines.flatMap RequestLine.pairs, ∃ pair : Pair, pair.text = text := by
    intro text member
    obtain ⟨other, -, legalName, isText⟩ :=
      exists_call_of_mem returned.legalNames (returned.returns.mem_iff.mp member)
    exact ⟨_, isText.symm⟩
  obtain ⟨pairs, areTexts⟩ := exists_pairs isPair
  rw [CHttp.getCookieVar, cookie_headerOf returned.wellFormed fun line inLines text inLine =>
    isPair text (List.mem_flatMap.mpr ⟨line, inLines, inLine⟩), ← areTexts, List.flatMap_map]
  show OrderedMap.find call.name
    (cookieVars (pairs.flatMap fun pair => pair.text ++ octets "; ")) = _
  rw [cookieVars_pairs]
  refine @OrderedMap.find_foldl_set _ _ _ Pair Pair.name Pair.value pairs Tunneling.stringBefore [] _ _
    ?_ (.inr ?_)
  · intro pair member sameName
    have inReturned : pair.text ∈ returnedPairs calls := by
      rw [← returned.returns.mem_iff, ← areTexts]
      exact List.mem_map_of_mem member
    obtain ⟨other, inOthers, legalName, isText⟩ :=
      exists_call_of_mem returned.legalNames inReturned
    obtain ⟨otherName, otherValue⟩ := text_inj isText
    have same : other = call := List.inj_on_of_nodup_map returned.distinct inOthers inCalls
      (otherName.symm.trans sameName)
    rw [otherValue, ← same]
    rfl
  · have inTexts := returned.returns.mem_iff.mpr (mem_returnedPairs returned inCalls)
    rw [← areTexts] at inTexts
    obtain ⟨pair, member, isText⟩ := List.mem_map.mp inTexts
    exact ⟨pair, member, (text_inj isText).1⟩

/-- The values come back exactly when there is nothing in them to escape. -/
theorem getCookieVar_iff (returned : Returned calls lines) :
    (∀ call ∈ calls,
        (headerOf site (.new keepAlive metaVars)
          (headerText (lines.map RequestLine.text))).getCookieVar call.name = some call.value) ↔
      ∀ call ∈ calls, ∀ ch ∈ call.value, isUnescaped ch = true := by
  refine forall₂_congr fun call inCalls => ?_
  rw [getCookieVar_returned returned inCalls, Option.some_inj, CookieCall.encodedValue,
    urlFormatEncode_eq_self_iff (Nat.le_refl _)]

/-- The call for a cookie with no attributes. -/
def plainCall (name value : String) : CookieCall :=
  ⟨octets name, octets value, -1, none, none, none, false, false⟩

theorem returned_plainCall : Returned [plainCall "a" "b"]
    [.other (octets "GET / HTTP/1.1"), .cookies [octets "a=b"]] := by
  constructor
  case distinct => decide
  case legalNames =>
    intro call member
    rw [List.mem_singleton.mp member]
    exact ⟨by decide, List.all_eq_true.mp (by decide)⟩
  case nulFree => decide
  case wellFormed =>
    intro line member
    rcases List.mem_cons.mp member with rfl | last
    · exact ⟨⟨by decide +kernel, by decide +kernel⟩, by decide +kernel⟩
    · rw [List.mem_singleton.mp last]
      exact List.cons_ne_nil _ _
  case returns =>
    rw [show returnedPairs [plainCall "a" "b"] = [octets "a=b"] by decide]
    exact List.Perm.refl _

theorem getCookieVar_plainCall :
    (headerOf ⟨false, [], fun _ _ _ _ => ⟨false, [], []⟩⟩ (.new true [])
      (headerText [octets "GET / HTTP/1.1", octets "Cookie: a=b"])).getCookieVar (octets "a") =
        some (octets "b") :=
  (getCookieVar_iff returned_plainCall).mpr
    (List.forall_mem_singleton.mpr (List.all_eq_true.mp (by decide))) (plainCall "a" "b")
    List.mem_cons_self

/-- A blank comes back as a plus sign. -/
theorem not_getCookieVar :
    returnedPairs [plainCall "a" " "] = [octets "a=+"] ∧
      (headerOf ⟨false, [], fun _ _ _ _ => ⟨false, [], []⟩⟩ (.new true [])
        (headerText [octets "GET / HTTP/1.1", octets "Cookie: a=+"])).getCookieVar (octets "a") ≠
          some (plainCall "a" " ").value := by
  decide

end Round

end Http1

end HeapHttpd
