import HeapHttpd.General
import HeapHttpd.Security.Md5

/-!
# The request digest

`DigestCalcHA1` and `DigestCalcResponse`, and the formula for what they compute.
-/

namespace HeapHttpd

namespace Security

open General

/-! ## The source -/

/-- A hexadecimal digit. -/
def hexDigit (j : UInt8) : UInt8 :=
  if j ≤ 9 then j + 0x30 else j + 0x61 - 10

/-- `CvtHex`, without the zero at the end. -/
def cvtHex (bin : List UInt8) : List UInt8 :=
  bin.flatMap fun (octet : UInt8) => [hexDigit (octet >>> 4 &&& 0xf), hexDigit (octet &&& 0xf)]

/-- The octets that `MD5Update` is given one after the other, and `MD5Final`. -/
def md5 (pieces : List (List UInt8)) : Outcome (List UInt8) :=
  Md5.updates Md5.init pieces >>= Md5.final

/-- `DigestCalcHA1`. -/
def digestCalcHA1 (alg userName realm password nonce cNonce : List UInt8) : Outcome (List UInt8) :=
  md5 [cString userName, [0x3a], cString realm, [0x3a], cString password] >>= fun ha1 =>
    (if strcasecmp alg (octets "md5-sess") then
      md5 [ha1, [0x3a], cString nonce, [0x3a], cString cNonce]
    else .ok ha1) >>= fun ha1 => .ok (cvtHex ha1)

/-- `DigestCalcResponse`, of which `ha1` and `hEntity` are arrays. -/
def digestCalcResponse (ha1 nonce nonceCount cNonce qop method digestUri hEntity : List UInt8) :
    Outcome (List UInt8) :=
  md5 ([cString method, [0x3a], cString digestUri] ++
    if strcasecmp qop (octets "auth-int") then [[0x3a], hEntity.take 32] else []) >>= fun ha2 =>
    md5 ([ha1.take 32, [0x3a], cString nonce, [0x3a]] ++
      (if (cString qop).isEmpty then []
      else [cString nonceCount, [0x3a], cString cNonce, [0x3a], cString qop, [0x3a]]) ++
      [cvtHex ha2]) >>= fun response => .ok (cvtHex response)

/-! ## The formula -/

/-- Texts with colons between them. -/
def colons (texts : List (List UInt8)) : List UInt8 :=
  [0x3a].intercalate texts

/-- The digest of texts with colons between them, in hexadecimal. -/
def hash (texts : List (List UInt8)) : List UInt8 :=
  cvtHex (Md5.digest (colons texts))

/-- The request digest for the algorithm MD5: of the user, of the request with the digest of its
content if that is protected, and of both with the nonce. -/
def requestDigest (userName realm password nonce nonceCount cNonce qop method digestUri
    hEntity : List UInt8) : List UInt8 :=
  let ha1 := hash [userName, realm, password]
  let ha2 := hash
    ([method, digestUri] ++ if strcasecmp qop (octets "auth-int") then [hEntity] else [])
  hash ([ha1, nonce] ++ (if qop = [] then [] else [nonceCount, cNonce, qop]) ++ [ha2])

theorem length_cvtHex (bin : List UInt8) : (cvtHex bin).length = 2 * bin.length := by
  induction bin with
  | nil => rfl
  | cons octet bin ih =>
      rw [cvtHex, List.flatMap_cons, ← cvtHex, List.length_append, ih, List.length_cons]
      exact Nat.add_comm _ _

theorem length_hash (texts : List (List UInt8)) : (hash texts).length = 32 :=
  length_cvtHex _

theorem mem_intersperse {separator piece : List UInt8} {texts : List (List UInt8)}
    (member : piece ∈ texts.intersperse separator) : piece = separator ∨ piece ∈ texts := by
  induction texts with
  | nil => exact Or.inr member
  | cons text texts ih =>
      cases texts with
      | nil => exact Or.inr member
      | cons other texts =>
          rw [List.intersperse_cons_cons, List.mem_cons, List.mem_cons] at member
          obtain rfl | rfl | later := member
          · exact Or.inr List.mem_cons_self
          · exact Or.inl rfl
          · exact (ih later).imp id (List.mem_cons_of_mem _)

/-- A text whose length is not too much for an `unsigned int`. -/
def Short (text : List UInt8) : Prop :=
  text.length + 63 < 2 ^ 32

instance (text : List UInt8) : Decidable (Short text) :=
  inferInstanceAs (Decidable (text.length + 63 < 2 ^ 32))

/-- The pieces that are texts with colons between them. -/
theorem md5_intersperse {texts : List (List UInt8)} (short : ∀ text ∈ texts, Short text) :
    md5 (texts.intersperse [0x3a]) = .ok (Md5.digest (colons texts)) := by
  have short' : ∀ piece ∈ texts.intersperse [0x3a], piece.length + 63 < 2 ^ 32 := by
    intro piece member
    obtain rfl | member := mem_intersperse member
    · decide
    · exact short piece member
  obtain ⟨ctx, updated, holds⟩ := Md5.holds_updates Md5.holds_init short'
  rw [md5, updated]
  exact Md5.final_eq_ok holds

/-- A text that is handed over as a C string. -/
structure Handed (text : List UInt8) : Prop where
  nulFree : 0 ∉ text
  short : Short text

theorem Handed.cString {text : List UInt8} (handed : Handed text) : cString text = text :=
  cString_of_nulFree handed.nulFree

theorem short_hash (texts : List (List UInt8)) : Short (hash texts) := by
  rw [Short, length_hash]
  decide

/-- `DigestCalcHA1` for the algorithm that the server uses. -/
theorem digestCalcHA1_eq_ok {alg userName realm password nonce cNonce : List UInt8}
    (plain : strcasecmp alg (octets "md5-sess") = false) (isUser : Handed userName)
    (isRealm : Handed realm) (isPassword : Handed password) :
    digestCalcHA1 alg userName realm password nonce cNonce =
      .ok (hash [userName, realm, password]) := by
  have sum : md5 [userName, [0x3a], realm, [0x3a], password] = _ :=
    @md5_intersperse [userName, realm, password] (by
      simp only [List.forall_mem_cons]
      exact ⟨isUser.short, isRealm.short, isPassword.short, List.forall_mem_nil _⟩)
  rw [digestCalcHA1, isUser.cString, isRealm.cString, isPassword.cString, sum]
  simp only [Outcome.ok_bind, plain, Bool.false_eq_true, if_false]
  rfl

section Response

variable {ha1 nonce nonceCount cNonce qop method digestUri hEntity ha2 : List UInt8}

/-- The digest of the request. -/
theorem md5_request (isMethod : Handed method) (isUri : Handed digestUri)
    (isEntity : 32 ≤ hEntity.length) (protects : Bool) :
    md5 ([cString method, [0x3a], cString digestUri] ++
        if protects then [[0x3a], hEntity.take 32] else []) =
      .ok (Md5.digest (colons ([method, digestUri] ++
        if protects then [hEntity.take 32] else []))) := by
  have short : Short (hEntity.take 32) := by
    rw [Short, List.length_take]
    omega
  rw [isMethod.cString, isUri.cString]
  cases protects with
  | true =>
      exact @md5_intersperse [method, digestUri, hEntity.take 32] (by
        simp only [List.forall_mem_cons]
        exact ⟨isMethod.short, isUri.short, short, List.forall_mem_nil _⟩)
  | false =>
      exact @md5_intersperse [method, digestUri] (by
        simp only [List.forall_mem_cons]
        exact ⟨isMethod.short, isUri.short, List.forall_mem_nil _⟩)

/-- The digest of both. -/
theorem md5_response (length : ha1.length = 32) (isNonce : Handed nonce)
    (isNonceCount : Handed nonceCount) (isCNonce : Handed cNonce) (isQop : Handed qop)
    (short : Short ha2) :
    md5 ([ha1.take 32, [0x3a], cString nonce, [0x3a]] ++
        (if (cString qop).isEmpty then []
        else [cString nonceCount, [0x3a], cString cNonce, [0x3a], cString qop, [0x3a]]) ++ [ha2]) =
      .ok (Md5.digest (colons
        ([ha1, nonce] ++ (if qop = [] then [] else [nonceCount, cNonce, qop]) ++
        [ha2]))) := by
  have whole : ha1.take 32 = ha1 := List.take_of_length_le (by omega)
  have short' : Short ha1 := by
    rw [Short, length]
    decide
  rw [whole, isNonce.cString, isNonceCount.cString, isCNonce.cString, isQop.cString]
  by_cases none' : qop = []
  · subst none'
    exact @md5_intersperse [ha1, nonce, ha2] (by
      simp only [List.forall_mem_cons]
      exact ⟨short', isNonce.short, short, List.forall_mem_nil _⟩)
  · have some' : ¬qop.isEmpty = true := by rwa [List.isEmpty_iff]
    rw [if_neg some', if_neg none']
    exact @md5_intersperse [ha1, nonce, nonceCount, cNonce, qop, ha2] (by
      simp only [List.forall_mem_cons]
      exact ⟨short', isNonce.short, isNonceCount.short, isCNonce.short, isQop.short, short,
        List.forall_mem_nil _⟩)

/-- `DigestCalcResponse` computes the request digest. -/
theorem digestCalcResponse_eq_ok {userName realm password : List UInt8} (isNonce : Handed nonce)
    (isNonceCount : Handed nonceCount) (isCNonce : Handed cNonce) (isQop : Handed qop)
    (isMethod : Handed method) (isUri : Handed digestUri) (isEntity : 32 ≤ hEntity.length) :
    digestCalcResponse (hash [userName, realm, password]) nonce nonceCount cNonce qop method
        digestUri
        hEntity =
      .ok (requestDigest userName realm password nonce nonceCount cNonce qop method digestUri
        (hEntity.take 32)) := by
  rw [digestCalcResponse, md5_request isMethod isUri isEntity, Outcome.ok_bind]
  exact congrArg (· >>= fun response => Outcome.ok (cvtHex response))
    (md5_response (length_hash _) isNonce isNonceCount isCNonce isQop (short_hash _))

end Response

end Security

end HeapHttpd
