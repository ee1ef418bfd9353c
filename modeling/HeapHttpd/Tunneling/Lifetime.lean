import HeapHttpd.Http1.Dates
import HeapHttpd.Tunneling.CacheAdmission
import HeapHttpd.Tunneling.TunnelingCache

/-!
# How long a response may be kept

What `max-age` and `Expires` make of the age with which `http_client` stores a response: the ages
are only ever lowered, so none of the fields that are stored with the response is outlived.
-/

namespace HeapHttpd

namespace Tunneling

open General
open Http1 (contains parseGMTorUTCTimeString)
open Http2 (toInt)

/-- The time that a value of `Expires` is taken for.  A value with which `ParseGMTorUTCTimeString`
goes beyond its arrays has the time that is given for it. -/
def expiryTime (undated : List UInt8 → Int) (value : List UInt8) : Int :=
  match parseGMTorUTCTimeString value with
  | .ok time => time
  | _ => undated value

/-- The age that is found in a value of `Cache-Control` which is long enough. -/
def maxAgeOf (value : List UInt8) : Option Int :=
  if 14 ≤ value.length ∧ forbidsCache (value.drop 14) = false ∧
      contains (value.drop 14) (octets "max-age=") = true then
    some (atoi (fieldValue "max-age=" (value.drop 14)))
  else none

theorem of_mem_maxAgeOf {value : List UInt8} {seconds : Int} (isAge : seconds ∈ maxAgeOf value) :
    14 ≤ value.length ∧ seconds = atoi (fieldValue "max-age=" (value.drop 14)) := by
  rw [Option.mem_def, maxAgeOf] at isAge
  split at isAge
  case isTrue long => exact ⟨long.1, (Option.some.inj isAge).symm⟩
  case isFalse => cases isAge

theorem lowerAge_le {age : Int} (low : 0 ≤ age) (lowered : Int) : lowerAge age lowered ≤ age := by
  unfold lowerAge
  split_ifs <;> omega

theorem lowerAge_nonneg {age : Int} (low : 0 ≤ age) (lowered : Int) : 0 ≤ lowerAge age lowered := by
  unfold lowerAge
  split_ifs <;> omega

theorem lowerAge_le_max (age lowered : Int) : lowerAge age lowered ≤ max 0 lowered := by
  unfold lowerAge
  split_ifs <;> omega

namespace HeaderInfo

/-- The ages fit the fields that have been read.  `left` says how many seconds were left until a
date when it was read. -/
structure Timed (left : List UInt8 → Int → Prop) (info : HeaderInfo) : Prop where
  shared : info.cacheSharedMaxAge ≤ 0
  nonneg : 0 ≤ info.cacheMaxAge
  fiveMinutes : info.cacheMaxAge ≤ 300
  positive : info.useCache = true → 0 < info.cacheMaxAge
  maxAge : ∀ seconds ∈ maxAgeOf info.fields.cacheControl, info.cacheMaxAge ≤ max 0 seconds
  expires : info.fields.expires ≠ [] →
    ∃ seconds, left info.fields.expires seconds ∧ info.cacheMaxAge ≤ max 0 seconds

variable {left : List UInt8 → Int → Prop} {setting : Setting} {info : HeaderInfo}

theorem timed_new : HeaderInfo.new.Timed left where
  shared := by decide
  nonneg := by decide
  fiveMinutes := Int.le_refl _
  positive := nofun
  maxAge := nofun
  expires given := absurd rfl given

theorem Timed.mono {later : List UInt8 → Int → Prop} (timed : info.Timed left)
    (more : ∀ value seconds, left value seconds → later value seconds) : info.Timed later where
  shared := timed.shared
  nonneg := timed.nonneg
  fiveMinutes := timed.fiveMinutes
  positive := timed.positive
  maxAge := timed.maxAge
  expires given := by
    obtain ⟨seconds, wasLeft, bound⟩ := timed.expires given
    exact ⟨seconds, more _ _ wasLeft, bound⟩

/-- Nothing that the ages have to fit has changed, and the cache is used no more than before. -/
theorem Timed.same {next : HeaderInfo} (timed : info.Timed left)
    (shared : next.cacheSharedMaxAge ≤ 0) (age : next.cacheMaxAge = info.cacheMaxAge)
    (useCache : next.useCache = true → info.useCache = true)
    (cacheControl : next.fields.cacheControl = info.fields.cacheControl)
    (expires : next.fields.expires = info.fields.expires) : next.Timed left where
  shared := shared
  nonneg := by rw [age]; exact timed.nonneg
  fiveMinutes := by rw [age]; exact timed.fiveMinutes
  positive used := by rw [age]; exact timed.positive (useCache used)
  maxAge := by rw [cacheControl, age]; exact timed.maxAge
  expires := by rw [expires, age]; exact timed.expires

/-- An age that is lowered fits what it fitted before. -/
theorem Timed.lower {next : HeaderInfo} (timed : info.Timed left) (lowered : Int)
    (shared : next.cacheSharedMaxAge = info.cacheSharedMaxAge)
    (age : next.cacheMaxAge = lowerAge info.cacheMaxAge lowered)
    (useCache : next.useCache = true → 0 < next.cacheMaxAge)
    (maxAge : next.fields.cacheControl = info.fields.cacheControl ∨
      ∀ seconds ∈ maxAgeOf next.fields.cacheControl, seconds = lowered)
    (expires : next.fields.expires = info.fields.expires ∨ left next.fields.expires lowered) :
    next.Timed left := by
  have lower := lowerAge_le timed.nonneg lowered
  have below := lowerAge_le_max info.cacheMaxAge lowered
  constructor
  case shared => rw [shared]; exact timed.shared
  case nonneg => rw [age]; exact lowerAge_nonneg timed.nonneg lowered
  case fiveMinutes => rw [age]; exact lower.trans timed.fiveMinutes
  case positive => exact useCache
  case maxAge =>
    intro seconds isAge
    rw [age]
    rcases maxAge with same | own
    · rw [same] at isAge
      exact lower.trans (timed.maxAge seconds isAge)
    · rw [own seconds isAge]
      exact below
  case expires =>
    intro given
    rw [age]
    rcases expires with same | new
    · rw [same] at given ⊢
      obtain ⟨seconds, wasLeft, bound⟩ := timed.expires given
      exact ⟨seconds, wasLeft, lower.trans bound⟩
    · exact ⟨lowered, new, below⟩

/-- Where nothing is looked for in a new value of `Cache-Control`, the age may stay. -/
theorem Timed.unaged {next : HeaderInfo} (timed : info.Timed left)
    (shared : next.cacheSharedMaxAge = info.cacheSharedMaxAge)
    (age : next.cacheMaxAge = info.cacheMaxAge)
    (useCache : next.useCache = true → info.useCache = true)
    (maxAge : maxAgeOf next.fields.cacheControl = none)
    (expires : next.fields.expires = info.fields.expires) : next.Timed left where
  shared := by rw [shared]; exact timed.shared
  nonneg := by rw [age]; exact timed.nonneg
  fiveMinutes := by rw [age]; exact timed.fiveMinutes
  positive used := by rw [age]; exact timed.positive (useCache used)
  maxAge := by rw [maxAge]; nofun
  expires := by rw [expires, age]; exact timed.expires

theorem timed_parseCacheControl (timed : info.Timed left) (strtext : List UInt8) :
    (info.parseCacheControl setting strtext).Timed left := by
  have isView (long : 14 ≤ (fieldValue "Cache-Control:" strtext).length) :
      cacheControlView setting (fieldValue "Cache-Control:" strtext) =
        (fieldValue "Cache-Control:" strtext).drop 14 := if_pos long
  rw [parseCacheControl]
  generalize fieldValue "Cache-Control:" strtext = value at isView
  generalize cacheControlView setting value = view at isView
  dsimp only
  split
  case isTrue forbids =>
    refine timed.unaged rfl rfl (absurd · Bool.false_ne_true) (if_neg ?_) rfl
    rintro ⟨long, allowed, -⟩
    rw [← isView long, forbids] at allowed
    cases allowed
  case isFalse allowed =>
    -- The age for everyone, and behind it the one for shared caches, which decides anew.
    have shared : ∀ next : HeaderInfo, next.Timed left →
        (if contains view (octets "s-maxage=") then
          ({ next with
            cacheSharedMaxAge := lowerAge next.cacheSharedMaxAge
              (atoi (fieldValue "s-maxage=" view)) } : HeaderInfo).decideCache
                (lowerAge next.cacheSharedMaxAge (atoi (fieldValue "s-maxage=" view)))
        else next).Timed left := by
      intro next timed
      split
      case isTrue =>
        have nonpos := lowerAge_nonpos timed.shared (atoi (fieldValue "s-maxage=" view))
        refine timed.same nonpos rfl ?_ rfl rfl
        intro used
        simp only [decideCache, Bool.and_eq_true, decide_eq_true_eq] at used
        omega
      case isFalse => exact timed
    refine shared _ ?_
    split
    case isTrue found =>
      refine timed.lower (atoi (fieldValue "max-age=" view)) rfl rfl ?_ (.inr ?_) (.inl rfl)
      · intro used
        simp only [decideCache, Bool.and_eq_true, decide_eq_true_eq] at used
        exact used.1.1
      · intro seconds isAge
        obtain ⟨long, same⟩ := of_mem_maxAgeOf isAge
        rw [isView long]
        exact same
    case isFalse missing =>
      refine timed.unaged rfl rfl id (if_neg ?_) rfl
      rintro ⟨long, -, found⟩
      rw [← isView long] at found
      exact missing found

/-- A line keeps the ages fitting, if what is left until each date is known. -/
theorem timed_parseField (timed : info.Timed left)
    (now : ∀ value, left value (toInt (setting.expiresIn value))) (strtext : List UInt8) :
    (info.parseField setting strtext).Timed left := by
  rw [parseField_eq]
  cases lineKind strtext with
  | expires =>
      refine timed.lower (toInt (setting.expiresIn (fieldValue "Expires:" strtext))) rfl rfl ?_
        (.inl rfl) (.inr (now _))
      intro used
      simp only [readLine, parseExpires, decideCache, Bool.and_eq_true, decide_eq_true_eq] at used
      exact used.1.1
  | cacheControl => exact timed_parseCacheControl timed strtext
  | status =>
      simp only [readLine]
      split
      · exact timed.same timed.shared rfl id rfl rfl
      · exact timed
  | transferEncoding =>
      simp only [readLine]
      split
      · exact timed.same timed.shared rfl (absurd · Bool.false_ne_true) rfl rfl
      · exact timed
  | _ => exact timed.same timed.shared rfl id rfl rfl

/-- And so does the blank line. -/
theorem timed_settled (timed : info.Timed left) : info.settled.Timed left := by
  rw [settled]
  split
  · exact timed.same timed.shared rfl (absurd · Bool.false_ne_true) rfl rfl
  · exact timed

end HeaderInfo

namespace HttpClient

/-! ## What lines and the blank line keep -/

section Kept

variable {setting : Setting} {property : HeaderInfo → Prop}

theorem info_parseLoop
    (field : ∀ info strtext, property info → property (info.parseField setting strtext))
    (settle : ∀ info, property info → property info.settled) (passes : Nat) {client : HttpClient}
    (holds : property client.info) : property (client.parseLoop setting passes).1.info := by
  induction passes generalizing client with
  | zero => exact holds
  | succ passes ih =>
      simp only [parseLoop]
      split
      · split
        · rw [endHeader_eq]
          exact settle _ holds
        · split
          · split
            · exact ih (field _ _ holds)
            · exact field _ _ holds
          · exact ih (field _ _ holds)
      · exact holds

theorem info_parse
    (field : ∀ info strtext, property info → property (info.parseField setting strtext))
    (settle : ∀ info, property info → property info.settled) (text : List UInt8)
    {client : HttpClient} (holds : property client.info) :
    property (client.parse setting text).1.info := by
  rw [parse]
  dsimp only
  split
  · exact holds
  · exact info_parseLoop field settle _ holds

/-- What every line and the blank line keep is kept by a call. -/
theorem info_processing
    (field : ∀ info strtext, property info → property (info.parseField setting strtext))
    (settle : ∀ info, property info → property info.settled) (data : List UInt8)
    {client : HttpClient} (holds : property client.info) :
    property (client.processing setting data).1.info := by
  cases state : client.state with
  | content =>
      rw [(processing_kept state data).1.info]
      exact holds
  | header =>
      simp only [processing, state]
      split
      · exact holds
      · have parsed : property (({ client with buf := client.buf ++ data } : HttpClient).parse
            setting (cString (client.buf ++ data))).1.info :=
          info_parse field settle _ holds
        rw [state] at parsed
        split
        · exact parsed
        · split
          · exact parsed
          · split
            · exact parsed
            · split
              · exact parsed
              · split
                · exact parsed
                · rw [(relayContent_kept setting _).1.info]
                  exact parsed

end Kept

end HttpClient

end Tunneling

end HeapHttpd
