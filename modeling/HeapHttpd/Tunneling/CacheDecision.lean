import HeapHttpd.Tunneling.ContentLength
import Mathlib.Data.List.Perm.Basic

/-!
# The decision about the cache

What each line of a header does to the flag `m_use_cache`: the last line that speaks
about the cache wins, so the order of the lines counts.
-/

namespace HeapHttpd

namespace Tunneling

open General
open Http1 (contains)
open Http2 (toInt)

variable {setting : Setting}

/-- The text of a `Cache-Control` line that is looked at. -/
def cacheText (setting : Setting) (strtext : List UInt8) : List UInt8 :=
  cacheControlView setting (fieldValue "Cache-Control:" strtext)

/-- A line that takes a response out of the cache: a word of the source forbids it, or
the age in a shared cache is given, which counts from -1 down. -/
def clearsCache (setting : Setting) (strtext : List UInt8) : Bool :=
  decide (lineKind strtext = .cacheControl) &&
    (forbidsCache (cacheText setting strtext) ||
      contains (cacheText setting strtext) (octets "s-maxage="))

/-- The age that a line gives. -/
def givenAge (setting : Setting) (strtext : List UInt8) : Option Int :=
  match lineKind strtext with
  | .cacheControl =>
      if !forbidsCache (cacheText setting strtext) &&
          contains (cacheText setting strtext) (octets "max-age=") then
        some (atoi (fieldValue "max-age=" (cacheText setting strtext)))
      else none
  | .expires => some (toInt (setting.expiresIn (fieldValue "Expires:" strtext)))
  | _ => none

/-- A line that decides about the cache by the age it gives. -/
def allowsCache (setting : Setting) (strtext : List UInt8) : Bool :=
  (givenAge setting strtext).isSome && !clearsCache setting strtext

/-- A line that announces chunks. -/
def announcesChunks (strtext : List UInt8) : Bool :=
  decide (lineKind strtext = .transferEncoding) &&
    contains (fieldValue "Transfer-Encoding:" strtext) (octets "chunked")

/-- A status line with the code 200 and the usual reason. -/
def isOk (strtext : List UInt8) : Bool :=
  decide (lineKind strtext = .status) && contains (strtext.drop 8) (octets " 200 OK")

/-- Whether the value of a `Cache-Control` line is too short for what is read of it. -/
def straysBehind (strtext : List UInt8) : Bool :=
  decide (lineKind strtext = .cacheControl) &&
    decide ((fieldValue "Cache-Control:" strtext).length < 14)

theorem lowerAge_pos (age lowered : Int) : 0 < lowerAge age lowered ↔ 0 < age ∧ 0 < lowered := by
  unfold lowerAge
  split_ifs <;> omega

theorem lowerAge_nonpos {age : Int} (nonpos : age ≤ 0) (lowered : Int) :
    lowerAge age lowered ≤ 0 := by
  unfold lowerAge
  split_ifs <;> omega

namespace HeaderInfo

/-- What a `Cache-Control` line does. -/
theorem parseCacheControl_spec {info : HeaderInfo} (shared : info.cacheSharedMaxAge ≤ 0)
    {strtext : List UInt8} (kind : lineKind strtext = .cacheControl) :
    let next := info.parseCacheControl setting strtext
    next.cacheSharedMaxAge ≤ 0 ∧
      (0 < next.cacheMaxAge ↔ 0 < info.cacheMaxAge ∧
        ∀ age ∈ givenAge setting strtext, 0 < age) ∧
      next.useCache =
        (if clearsCache setting strtext then false
        else if allowsCache setting strtext then
          decide (0 < next.cacheMaxAge) && info.is200Ok && !info.isChunked
        else info.useCache) ∧
      next.is200Ok = info.is200Ok ∧ next.isChunked = info.isChunked ∧
      next.outOfCacheHeaderScope = info.outOfCacheHeaderScope ∧
      next.strayed = (info.strayed || straysBehind strtext) := by
  intro next
  have text : cacheControlView setting (fieldValue "Cache-Control:" strtext) =
    cacheText setting strtext := rfl
  have stray : straysBehind strtext =
      decide ((fieldValue "Cache-Control:" strtext).length < 14) := by
    simp [straysBehind, kind]
  simp only [next, parseCacheControl, text, clearsCache, allowsCache, givenAge, kind, stray]
  cases forbidsCache (cacheText setting strtext) with
  | true => simp [shared]
  | false =>
      cases contains (cacheText setting strtext) (octets "max-age=") <;>
        cases contains (cacheText setting strtext) (octets "s-maxage=") <;>
          simp [decideCache, lowerAge_pos, lowerAge_nonpos, shared]

/-- What a line does to the members that decide about the cache. -/
structure Decides (setting : Setting) (strtext : List UInt8) (info next : HeaderInfo) : Prop where
  shared : next.cacheSharedMaxAge ≤ 0
  age : 0 < next.cacheMaxAge ↔ 0 < info.cacheMaxAge ∧ ∀ age ∈ givenAge setting strtext, 0 < age
  useCache : next.useCache =
    (if clearsCache setting strtext || announcesChunks strtext then false
    else if allowsCache setting strtext then
      decide (0 < next.cacheMaxAge) && info.is200Ok && !info.isChunked
    else info.useCache)
  is200Ok : next.is200Ok = (info.is200Ok || isOk strtext)
  isChunked : next.isChunked = (info.isChunked || announcesChunks strtext)
  scope : next.outOfCacheHeaderScope =
    (info.outOfCacheHeaderScope || decide (lineKind strtext = .other))
  strayed : next.strayed = (info.strayed || straysBehind strtext)

theorem parseField_decides {info : HeaderInfo} (shared : info.cacheSharedMaxAge ≤ 0)
    (strtext : List UInt8) :
    Decides setting strtext info (info.parseField setting strtext) := by
  have chunked := @isChunked_parseField setting strtext info
  rw [parseField_eq] at chunked ⊢
  cases kind : lineKind strtext with
  | cacheControl =>
      obtain ⟨shared', age, useCache, is200Ok, isChunked, scope, strayed⟩ :=
        @parseCacheControl_spec setting _ shared _ kind
      have plain : announcesChunks strtext = false := by simp [announcesChunks, kind]
      have notOk : isOk strtext = false := by simp [isOk, kind]
      refine ⟨shared', age, ?_, ?_, ?_, ?_, strayed⟩
      · rw [plain, Bool.or_false]
        exact useCache
      · rw [notOk, Bool.or_false]
        exact is200Ok
      · rw [plain, Bool.or_false]
        exact isChunked
      · rw [kind]
        exact scope.trans (by simp)
  | expires =>
      constructor <;> simp [readLine, parseExpires, decideCache, clearsCache, allowsCache,
        givenAge, announcesChunks, straysBehind, isOk, kind, shared, lowerAge_pos]
  | transferEncoding =>
      cases chunks : contains (fieldValue "Transfer-Encoding:" strtext) (octets "chunked") <;>
        constructor <;> simp [readLine, clearsCache, allowsCache, givenAge, announcesChunks,
          straysBehind, isOk, kind, shared, chunks]
  | status =>
      cases ok : contains (strtext.drop 8) (octets " 200 OK") <;>
        constructor <;> simp [readLine, clearsCache, allowsCache, givenAge, announcesChunks,
          straysBehind, isOk, kind, shared, ok]
  | _ =>
      constructor <;> simp [readLine, clearsCache, allowsCache, givenAge, announcesChunks,
        straysBehind, isOk, kind, shared]

end HeaderInfo

/-- A shared age never counts: it starts at -1 and is only lowered. -/
theorem shared_readHeader (setting : Setting) (lines : List (List UInt8)) :
    (readHeader setting lines).cacheSharedMaxAge ≤ 0 := by
  induction lines using List.reverseRecOn with
  | nil =>
      show (-1 : Int) ≤ 0
      decide
  | append_singleton lines line ih =>
      rw [readHeader_concat]
      exact (HeaderInfo.parseField_decides ih _).shared

theorem decides_readHeader (setting : Setting) (lines : List (List UInt8)) (line : List UInt8) :
    HeaderInfo.Decides setting (seen line) (readHeader setting lines)
      (readHeader setting (lines ++ [line])) := by
  rw [readHeader_concat]
  exact HeaderInfo.parseField_decides (shared_readHeader setting lines) _

theorem age_readHeader (setting : Setting) (lines : List (List UInt8)) :
    0 < (readHeader setting lines).cacheMaxAge ↔
      ∀ line ∈ lines, ∀ age ∈ givenAge setting (seen line), 0 < age := by
  induction lines using List.reverseRecOn with
  | nil => simp [readHeader, HeaderInfo.new]
  | append_singleton lines line ih =>
      rw [(decides_readHeader setting lines line).age, ih]
      simp [or_imp, forall_and]

theorem is200Ok_readHeader (setting : Setting) (lines : List (List UInt8)) :
    (readHeader setting lines).is200Ok = lines.any fun line => isOk (seen line) := by
  induction lines using List.reverseRecOn with
  | nil => rfl
  | append_singleton lines line ih =>
      rw [(decides_readHeader setting lines line).is200Ok, ih]
      simp

theorem scope_readHeader (setting : Setting) (lines : List (List UInt8)) :
    (readHeader setting lines).outOfCacheHeaderScope =
      lines.any fun line => decide (lineKind (seen line) = .other) := by
  induction lines using List.reverseRecOn with
  | nil => rfl
  | append_singleton lines line ih =>
      rw [(decides_readHeader setting lines line).scope, ih]
      simp

theorem strayed_readHeader (setting : Setting) (lines : List (List UInt8)) :
    (readHeader setting lines).strayed = lines.any fun line => straysBehind (seen line) := by
  induction lines using List.reverseRecOn with
  | nil => rfl
  | append_singleton lines line ih =>
      rw [(decides_readHeader setting lines line).strayed, ih]
      simp

/-- The flag is only set with a line that allows it, a positive age, the code 200 and
no chunks. -/
theorem of_useCache {lines : List (List UInt8)}
    (use : (readHeader setting lines).useCache = true) :
    (∃ line ∈ lines, allowsCache setting (seen line) = true) ∧
      0 < (readHeader setting lines).cacheMaxAge ∧
      (readHeader setting lines).is200Ok = true ∧
      (readHeader setting lines).isChunked = false := by
  induction lines using List.reverseRecOn with
  | nil => cases use
  | append_singleton lines line ih =>
      have decides := decides_readHeader setting lines line
      rw [decides.useCache] at use
      split at use
      · cases use
      · rename_i keeps
        rw [Bool.not_eq_true, Bool.or_eq_false_iff] at keeps
        split at use
        · rename_i allows
          simp only [Bool.and_eq_true, decide_eq_true_iff, Bool.not_eq_true'] at use
          refine ⟨⟨line, by simp, allows⟩, use.1.1, ?_, ?_⟩
          · rw [decides.is200Ok, use.1.2, Bool.true_or]
          · rw [decides.isChunked, use.2, keeps.2, Bool.or_false]
        · rename_i silent
          obtain ⟨⟨other, member, allows⟩, age, ok, plain⟩ := ih use
          refine ⟨⟨other, by simp [member], allows⟩, ?_, ?_, ?_⟩
          · rw [decides.age]
            refine ⟨age, ?_⟩
            intro given isGiven
            have noAge : givenAge setting (seen line) = none := by
              simpa [allowsCache, keeps.1] using silent
            rw [noAge] at isGiven
            cases isGiven
          · rw [decides.is200Ok, ok, Bool.true_or]
          · rw [decides.isChunked, plain, keeps.2, Bool.or_false]

/-- Behind the status line, the flag is set if some line allows it and none clears it. -/
theorem useCache_of_allows {status : List UInt8} {lines : List (List UInt8)}
    (ok : isOk (seen status) = true)
    (keeps : ∀ line ∈ lines, clearsCache setting (seen line) = false ∧
      announcesChunks (seen line) = false)
    (allows : ∃ line ∈ lines, allowsCache setting (seen line) = true)
    (age : 0 < (readHeader setting (status :: lines)).cacheMaxAge) :
    (readHeader setting (status :: lines)).useCache = true := by
  have notChunked : announcesChunks (seen status) = false := by
    have kind : lineKind (seen status) = .status := by
      simp only [isOk, Bool.and_eq_true, decide_eq_true_iff] at ok
      exact ok.1
    simp [announcesChunks, kind]
  induction lines using List.reverseRecOn with
  | nil => simp at allows
  | append_singleton lines line ih =>
      have decides := decides_readHeader setting (status :: lines) line
      rw [← List.cons_append] at age ⊢
      have here := keeps line (by simp)
      rw [decides.useCache, here.1, here.2]
      by_cases allowing : allowsCache setting (seen line) = true
      · have isOk' : (readHeader setting (status :: lines)).is200Ok = true := by
          rw [is200Ok_readHeader, List.any_cons, ok, Bool.true_or]
        have plain : (readHeader setting (status :: lines)).isChunked = false := by
          rw [isChunked_readHeader, List.any_eq_false]
          intro other member
          rcases List.mem_cons.mp member with rfl | inLines
          · exact Bool.eq_false_iff.mp notChunked
          · exact Bool.eq_false_iff.mp (keeps other (by simp [inLines])).2
        rw [if_neg (by simp), if_pos allowing, isOk', plain, decide_eq_true age]
        rfl
      · have earlier : ∃ line ∈ lines, allowsCache setting (seen line) = true := by
          obtain ⟨other, member, allowed⟩ := allows
          rcases List.mem_append.mp member with inLines | last
          · exact ⟨other, inLines, allowed⟩
          · rw [List.mem_singleton.mp last] at allowed
            exact absurd allowed allowing
        simp only [Bool.or_self, Bool.false_eq_true, if_false, allowing]
        exact ih (fun other member => keeps other (by simp [member])) earlier
          (decides.age.mp age).1

/-- A line at the end that decides. -/
theorem useCache_of_last {status last : List UInt8} {lines : List (List UInt8)}
    (ok : isOk (seen status) = true)
    (unchunked : ∀ line ∈ status :: (lines ++ [last]), announcesChunks (seen line) = false)
    (age : 0 < (readHeader setting (status :: (lines ++ [last]))).cacheMaxAge) :
    (allowsCache setting (seen last) = true →
        (readHeader setting (status :: (lines ++ [last]))).useCache = true) ∧
      (clearsCache setting (seen last) = true →
        (readHeader setting (status :: (lines ++ [last]))).useCache = false) := by
  have decides := decides_readHeader setting (status :: lines) last
  rw [← List.cons_append] at age unchunked ⊢
  have isOk' : (readHeader setting (status :: lines)).is200Ok = true := by
    rw [is200Ok_readHeader, List.any_cons, ok, Bool.true_or]
  have plain : (readHeader setting (status :: lines)).isChunked = false := by
    rw [isChunked_readHeader, List.any_eq_false]
    intro other member
    exact Bool.eq_false_iff.mp (unchunked other (List.mem_append_left _ member))
  rw [decides.useCache]
  constructor
  · intro allows
    have keeps : clearsCache setting (seen last) = false := by
      simp only [allowsCache, Bool.and_eq_true, Bool.not_eq_true'] at allows
      exact allows.2
    rw [keeps, unchunked last (by simp), if_neg (by simp), if_pos allows, isOk', plain,
      decide_eq_true age]
    rfl
  · intro clears
    rw [clears, if_pos (Bool.true_or _)]

end Tunneling

end HeapHttpd
