import HeapHttpd.Http1.DigestMap
import HeapHttpd.Http1.RequestHeader
import HeapHttpd.Security.Digcalc
import HeapHttpd.Security.Encryption

/-!
# Users and their credentials

The list of users with its enciphered passwords, and `WWW_Auth`, which compares what a client sends
with what the list says.
-/

namespace HeapHttpd

namespace Security

open General
open Http1 (StringMap AuthScheme AuthAnswer HttpMethod methodName base64 digestMap basicCredentials)
open Http2 (toInt)

/-! ## The list of users -/

/-- What a string that was empty holds, whatever a function returned that it was handed to. -/
def handedOut : Outcome (List UInt8) → Outcome (List UInt8)
  | .ok text => .ok text
  | .err => .ok []
  | .fault => .fault

/-- What `heaptool --encode` prints. -/
def heaptool (password : List UInt8) : Outcome (List UInt8) :=
  handedOut (encrypt password (toInt password.length))

/-- An element `user`, with the attributes that it has. -/
structure UserElement where
  id : Option (List UInt8)
  password : Option (List UInt8)

/-- The `strPwd` of an attribute `password`. -/
def storedPassword : Option (List UInt8) → Outcome (List UInt8)
  | none => .ok []
  | some text =>
      if cString text = [] then .ok []
      else handedOut (decrypt (cString text) (toInt (cString text).length))

/-- The loop of `_reload_users_`. -/
def reloadElements (usersList : StringMap) : List UserElement → Outcome StringMap
  | [] => .ok usersList
  | element :: elements =>
      match element.id with
      | none => reloadElements usersList elements
      | some id =>
          if cString id = [] then reloadElements usersList elements
          else
            storedPassword element.password >>= fun strPwd =>
              reloadElements (usersList.set (cString id) strPwd) elements

/-- `_reload_users_`, given the elements below the root if there is one. -/
def reloadUsers (usersList : StringMap) : Option (List UserElement) → Outcome StringMap
  | none => .ok usersList
  | some elements => reloadElements [] elements

/-- `_find_user_`. -/
def findUser (usersList : StringMap) (id : List UInt8) : Option (List UInt8) :=
  OrderedMap.find (cString id) usersList

/-! ## The credentials -/

/-- The users of the machine: the entry `sp_pwdp` of `getspnam`, and `crypt_r`. -/
structure LocalUsers where
  getspnam : List UInt8 → Option (List UInt8)
  cryptR : List UInt8 → List UInt8 → Option (List UInt8)

/-- Whether a user of the machine has a password; `root` has none here. -/
def LocalUsers.accepts (localUsers : LocalUsers) (username password : List UInt8) : Bool :=
  if strcasecmp username (octets "root") then false
  else
    match localUsers.getspnam (cString username) with
    | none => false
    | some pwdp =>
        match localUsers.cryptR (cString password) pwdp with
        | none => false
        | some hashed => decide (cString pwdp = cString hashed)

/-- A value of `DigestMap`, which is made where there is none. -/
def digestValue (varmap : StringMap) (name : String) : List UInt8 :=
  (OrderedMap.find (octets name) varmap).getD []

/-- Whether `strncmp` returns 0. -/
def strncmp (first second : List UInt8) (count : Nat) : Bool :=
  (cString first).take count = (cString second).take count

/-- `WWW_Auth`, given the users of the machine if they are to be asked. -/
def wwwAuth (usersList : StringMap) (localUsers : Option LocalUsers) (scheme : AuthScheme)
    (authinfo username : List UInt8) (method : HttpMethod) : Outcome AuthAnswer :=
  match scheme with
  | .basic =>
      basicCredentials authinfo >>= fun credentials =>
        let username := credentials.1
        let password := credentials.2
        match localUsers with
        | some localUsers =>
            .ok { passed := localUsers.accepts username password, username, keywords := password }
        | none =>
            .ok { passed := findUser usersList username = some password, username
                  keywords := password }
  | .digest =>
      let varmap := digestMap authinfo
      let value := digestValue varmap
      match findUser usersList (value "username") with
      | none => .ok { passed := false, username, keywords := cString authinfo }
      | some realPassword =>
          digestCalcHA1 (octets "md5") (value "username") (value "realm") realPassword
            (value "nonce")
              (value "cnonce") >>= fun ha1 =>
            -- the digest of the content is an array of zeros
            digestCalcResponse ha1 (value "nonce") (value "nc") (value "cnonce") (value "qop")
                (methodName method) (value "uri") (List.replicate 33 0) >>= fun response =>
              .ok { passed := strncmp response (value "response") 32, username
                    keywords := cString authinfo }
  | .none => .ok { passed := false, username, keywords := [] }

/-! ## Passwords -/

/-- A user with a password, as an administrator means them. -/
structure Account where
  id : List UInt8
  password : List UInt8
  named : id ≠ []
  nulFreeId : 0 ∉ id
  nulFree : 0 ∉ password
  short : password.length ≤ 1610612728

/-- An element with what the tool prints for the password of an account. -/
structure Account.Written (account : Account) (element : UserElement) : Prop where
  id : element.id = some account.id
  password : ∃ printed, heaptool account.password = .ok printed ∧ element.password = some printed

/-- What the tool prints is read again. -/
theorem storedPassword_heaptool {password : List UInt8} (nulFree : 0 ∉ password)
    (short : password.length ≤ 1610612728) :
    ∃ printed, heaptool password = .ok printed ∧ storedPassword (some printed) = .ok password := by
  obtain ⟨printed, result, back, printedFree, bound⟩ := decrypt_encrypt short
  have int : toInt password.length = password.length :=
    Http2.toInt_of_bounds (by omega) (by omega)
  have int' : toInt printed.length = printed.length :=
    Http2.toInt_of_bounds (by omega) (by omega)
  rw [cString_of_nulFree nulFree] at back
  refine ⟨printed, by rw [heaptool, int, result, handedOut], ?_⟩
  rw [storedPassword, cString_of_nulFree printedFree]
  by_cases none' : printed = []
  · subst none'
    obtain ⟨des, set⟩ := setKey_cookieDesKey
    have empty : decrypt [] ([] : List UInt8).length = .ok [] :=
      @decrypt_base64 des set [] 0 rfl (Nat.zero_le _)
    rw [empty] at back
    rw [if_pos rfl]
    exact back
  · rw [if_neg none', int', back, handedOut]

/-- The last password that is given for a user. -/
def lastPassword (accounts : List Account) (id : List UInt8) : Option (List UInt8) :=
  accounts.foldl (fun last account => if account.id = id then some account.password else last) none

/-- The list of users has for each the last password that is given. -/
theorem reloadUsers_written {accounts : List Account} {elements : List UserElement}
    (written : List.Forall₂ Account.Written accounts elements) (usersList : StringMap) :
    ∃ reloaded, reloadUsers usersList (some elements) = .ok reloaded ∧
      ∀ id, OrderedMap.find id reloaded = lastPassword accounts id := by
  have later (before : StringMap) (known : List UInt8 → Option (List UInt8))
      (same : ∀ id, OrderedMap.find id before = known id) :
      ∃ reloaded, reloadElements before elements = .ok reloaded ∧
        ∀ id, OrderedMap.find id reloaded =
          accounts.foldl
            (fun last account => if account.id = id then some account.password else last)
            (known id) := by
    induction written generalizing before known with
    | nil => exact ⟨before, rfl, same⟩
    | @cons account element accounts elements first rest ih =>
        obtain ⟨isId, printed, printedFor, isPassword⟩ := first
        obtain ⟨printed', printedFor', stored⟩ :=
          storedPassword_heaptool account.nulFree account.short
        cases printedFor.symm.trans printedFor'
        obtain ⟨reloaded, result, found⟩ := ih (before.set account.id account.password)
          (fun id => if account.id = id then some account.password else known id)
          (fun id => by rw [StringMap.set, OrderedMap.find_set, same])
        refine ⟨reloaded, ?_, found⟩
        rw [reloadElements, isId]
        simp only [cString_of_nulFree account.nulFreeId, if_neg account.named, isPassword, stored,
          Outcome.ok_bind]
        exact result
  exact later [] (fun _ => none) fun _ => rfl

/-! ## The Basic scheme -/

/-- With passwords as the tool prints them, a client is let in who knows the last one of a user. -/
theorem wwwAuth_basic_written {accounts : List Account} {elements : List UserElement}
    (written : List.Forall₂ Account.Written accounts elements) (usersList : StringMap)
    {username password : List UInt8} (nulFree : 0 ∉ username ++ 0x3a :: password)
    (colonFree : 0x3a ∉ username) (short : (username ++ 0x3a :: password).length ≤ 1610612733)
    (name : List UInt8) (method : HttpMethod) :
    ∃ reloaded, reloadUsers usersList (some elements) = .ok reloaded ∧
      wwwAuth reloaded none .basic (base64 (username ++ 0x3a :: password)) name method =
        .ok { passed := lastPassword accounts username = some password, username
              keywords := password } := by
  obtain ⟨reloaded, result, found⟩ := reloadUsers_written written usersList
  have nulFree' : 0 ∉ username := fun member => nulFree (List.mem_append_left _ member)
  refine ⟨reloaded, result, ?_⟩
  simp only [wwwAuth, Http1.basicCredentials_base64 short nulFree colonFree, Outcome.ok_bind,
    findUser,
    cString_of_nulFree nulFree', found]

/-- An account with the attribute that the tool prints for it. -/
def sampleAccount : Account where
  id := octets "user1"
  password := octets "123456"
  named := by decide +kernel
  nulFreeId := by decide +kernel
  nulFree := by decide +kernel
  short := by decide +kernel

theorem written_sampleAccount :
    sampleAccount.Written ⟨some (octets "user1"), some (octets "KR9axMmsokE=")⟩ where
  id := rfl
  password := ⟨octets "KR9axMmsokE=", by decide +kernel, rfl⟩

theorem wwwAuth_basic_written_sample :
    ∃ reloaded, reloadUsers [] (some [⟨some (octets "user1"), some (octets "KR9axMmsokE=")⟩]) =
        .ok reloaded ∧
      wwwAuth reloaded none .basic (base64 (octets "user1" ++ 0x3a :: octets "123456")) [] .get =
        .ok { passed := lastPassword [sampleAccount] (octets "user1") = some (octets "123456")
              username := octets "user1"
              keywords := octets "123456" } :=
  wwwAuth_basic_written (.cons written_sampleAccount .nil) [] (by decide +kernel)
    (by decide +kernel)
    (by decide +kernel) [] .get

/-! ## The Digest scheme -/

section Digest

open Http1 (DigestParam digestParams strtrimDquote)

variable {params : List DigestParam}

/-- What the loop makes of parameters that it does not change. -/
theorem find_digestMap (distinct : (params.map DigestParam.name).Nodup)
    (kept : ∀ param ∈ params, param.Kept) (name : List UInt8) :
    OrderedMap.find name (digestMap (digestParams params)) =
      OrderedMap.find name (params.map fun param => (param.name, param.value)) := by
  have free : ∀ param ∈ params, 0x2c ∉ param.value := fun param member comma =>
    ((kept param member).plain 0x2c comma).1 rfl
  have same : ∀ param ∈ params, param.key = param.name ∧
      strtrimDquote param.quotedValue = param.value := fun param member =>
    ⟨(param.key_eq_iff param.legalName).mpr ⟨rfl, (kept param member).before⟩,
      (Http1.strtrimDquote_value_iff param.quotable param.blankBehind).mpr
        ⟨fun ch isIn => ((kept param member).plain ch isIn).2, (kept param member).ends⟩⟩
  rw [Http1.digestMap_digestParams free, ← OrderedMap.find_foldl_set_nil distinct name]
  congr 1
  refine List.foldl_ext _ _ _ fun varmap param member => ?_
  rw [(same param member).1, (same param member).2]
  rfl

/-- The value of a parameter, or nothing. -/
def paramValue (params : List DigestParam) (name : String) : List UInt8 :=
  digestValue (params.map fun param => (param.name, param.value)) name

/-- The digest that the parameters and the password of a user make. -/
def expectedDigest (params : List DigestParam) (realPassword : List UInt8) (method : HttpMethod) :
    List UInt8 :=
  let value := paramValue params
  requestDigest (value "username") (value "realm") realPassword (value "nonce") (value "nc")
    (value "cnonce") (value "qop") (methodName method) (value "uri") (List.replicate 32 0)

theorem handed_paramValue (short : ∀ param ∈ params, Short param.value) (name : String) :
    Handed (paramValue params name) := by
  unfold paramValue digestValue
  cases found : OrderedMap.find (octets name)
      (params.map fun param : DigestParam => (param.name, param.value)) with
  | none => exact ⟨List.not_mem_nil, by decide⟩
  | some value =>
      obtain ⟨param, member, same⟩ := List.mem_map.mp (OrderedMap.mem_of_find found)
      rw [Prod.mk.injEq] at same
      rw [Option.getD_some, ← same.2]
      refine ⟨fun nul => ?_, short param member⟩
      have quotable := param.quotable 0 nul
      exact absurd quotable (by decide)

theorem hexDigit_ne_zero : ∀ octet : UInt8,
    hexDigit (octet >>> 4 &&& 0xf) ≠ 0 ∧ hexDigit (octet &&& 0xf) ≠ 0 := by
  apply forall_octet
  decide +kernel

theorem nulFree_hash (texts : List (List UInt8)) : 0 ∉ hash texts := by
  intro nul
  obtain ⟨octet, -, inPair⟩ := List.mem_flatMap.mp nul
  obtain ⟨high, low⟩ := hexDigit_ne_zero octet
  rcases List.mem_cons.mp inPair with isHigh | isLow
  · exact high isHigh.symm
  · exact low (List.mem_singleton.mp isLow).symm

/-- Parameters without a response. -/
def sampleParams : List DigestParam :=
  [Http1.plainParam (octets "username") (octets "a=b") Http1.legalName_username
    Http1.quotable_username]

example :
    let field := octets "username=\"Mufasa\", realm=\"testrealm@host.com\", uri=\"/dir/index.html\", " ++
      octets "qop=auth, nonce=\"dcd98b7102dd2f0e8b11d0f600bfb0c093\", nc=00000001, " ++
      octets "cnonce=\"0a4f113b\", response=\"6629fae49393a05397450978507c4ef1\""
    wwwAuth [(octets "Mufasa", octets "Circle Of Life")] none .digest field [] .get =
      .ok ⟨true, [], field⟩ := by
  decide +kernel

end Digest

end Security

end HeapHttpd
