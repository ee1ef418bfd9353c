import Mathlib.Algebra.Group.Nat.Defs
import Mathlib.Tactic.Common

/-!
# Prefix integers

Numbers written into the low bits of an octet, continued in groups of seven
bits, lowest group first, when they do not fit.  Every group but the last has
its high bit set.
-/

namespace HeapHttpd

namespace PrefixInteger

/-- The octet a memory or a code begins with. -/
def firstOctet (bytes : List UInt8) : Nat :=
  (bytes.headD 0).toNat

theorem firstOctet_append {bytes : List UInt8} (positive : 0 < bytes.length)
    (rest : List UInt8) : firstOctet (bytes ++ rest) = firstOctet bytes := by
  cases bytes with
  | nil => simp at positive
  | cons => rfl

/-- The number written by a list of groups. -/
def groupsValue : List UInt8 → Nat
  | [] => 0
  | group :: rest => group.toNat % 128 + 128 * groupsValue rest

/-- The last group, and no earlier one, ends the number. -/
def Terminated : List UInt8 → Prop
  | [] => False
  | group :: rest => if group.toNat < 128 then rest = [] else Terminated rest

/-- The groups of a number, with a bound on their count. -/
def encodeGroupsIn : Nat → Nat → List UInt8
  | 0, value => [UInt8.ofNat value]
  | passes + 1, value =>
      if value < 128 then [UInt8.ofNat value]
      else UInt8.ofNat (value % 128 + 128) :: encodeGroupsIn passes (value / 128)

/-- The groups of a number. -/
def encodeGroups (value : Nat) : List UInt8 :=
  encodeGroupsIn value value

/-- `Code width bytes value`: the octets write the value with a prefix of
`width` bits, whatever the other bits of the first octet are. -/
inductive Code (width : Nat) : List UInt8 → Nat → Prop
  | short (first : UInt8) (fits : first.toNat % 2 ^ width < 2 ^ width - 1) :
      Code width [first] (first.toNat % 2 ^ width)
  | long (first : UInt8) (groups : List UInt8)
      (full : first.toNat % 2 ^ width = 2 ^ width - 1) (terminated : Terminated groups) :
      Code width (first :: groups) (2 ^ width - 1 + groupsValue groups)

/-- The octets of a value, with `high` in the bits above the prefix. -/
def encode (width high value : Nat) : List UInt8 :=
  if value < 2 ^ width - 1 then [UInt8.ofNat (high * 2 ^ width + value)]
  else
    UInt8.ofNat (high * 2 ^ width + (2 ^ width - 1)) ::
      encodeGroups (value - (2 ^ width - 1))

/-- The octet of a group that is continued. -/
theorem toNat_continued (value : Nat) :
    (UInt8.ofNat (value % 128 + 128)).toNat = value % 128 + 128 := by
  rw [UInt8.toNat_ofNat']
  omega

theorem encodeGroupsIn_eq {passes more value : Nat} (enough : value ≤ passes)
    (enough' : value ≤ more) : encodeGroupsIn passes value = encodeGroupsIn more value := by
  induction passes generalizing more value with
  | zero =>
      obtain rfl : value = 0 := by omega
      cases more <;> rfl
  | succ passes ih =>
      cases more with
      | zero =>
          obtain rfl : value = 0 := by omega
          rfl
      | succ more =>
          rw [encodeGroupsIn, encodeGroupsIn]
          split
          · rfl
          · have enough : value / 128 ≤ passes := by omega
            rw [ih enough (show value / 128 ≤ more by omega)]

theorem encodeGroups_eq (value : Nat) :
    encodeGroups value =
      if value < 128 then [UInt8.ofNat value]
      else UInt8.ofNat (value % 128 + 128) :: encodeGroups (value / 128) := by
  cases value with
  | zero => rfl
  | succ value =>
      rw [encodeGroups, encodeGroupsIn]
      split
      · rfl
      · have enough : (value + 1) / 128 ≤ value := by omega
        rw [encodeGroups, encodeGroupsIn_eq enough (Nat.le_refl _)]

theorem terminated_encodeGroups (value : Nat) : Terminated (encodeGroups value) := by
  induction value using Nat.strongRecOn with
  | ind value ih =>
      by_cases small : value < 128
      · rw [encodeGroups_eq, if_pos small, Terminated, UInt8.toNat_ofNat',
          Nat.mod_eq_of_lt (by omega), if_pos small]
      · rw [encodeGroups_eq, if_neg small, Terminated, toNat_continued, if_neg (by omega)]
        exact ih (value / 128) (by omega)

@[simp]
theorem groupsValue_encodeGroups (value : Nat) :
    groupsValue (encodeGroups value) = value := by
  induction value using Nat.strongRecOn with
  | ind value ih =>
      by_cases small : value < 128
      · rw [encodeGroups_eq, if_pos small, groupsValue, groupsValue, UInt8.toNat_ofNat',
          Nat.mod_eq_of_lt (by omega)]
        omega
      · rw [encodeGroups_eq, if_neg small, groupsValue, ih (value / 128) (by omega),
          toNat_continued]
        omega

/-- A value of `7 * count` bits takes at most `count` groups. -/
theorem length_encodeGroups_le {count value : Nat} (positive : 0 < count)
    (fits : value < 2 ^ (7 * count)) : (encodeGroups value).length ≤ count := by
  induction count generalizing value with
  | zero => omega
  | succ count ih =>
      rw [encodeGroups_eq]
      split
      · simp
      · rename_i large
        have nonzero : 0 < count := by
          rcases Nat.eq_zero_or_pos count with rfl | nonzero
          · exact (large (by simpa using fits)).elim
          · exact nonzero
        have smaller : value / 128 < 2 ^ (7 * count) := by
          rw [Nat.div_lt_iff_lt_mul (by omega), show 128 = 2 ^ 7 from rfl, ← Nat.pow_add]
          exact fits
        have := ih nonzero smaller
        simp only [List.length_cons]
        omega

theorem code_encode {width high value : Nat} (narrow : width ≤ 8)
    (fits : high < 2 ^ (8 - width)) : Code width (encode width high value) value := by
  have power : 2 ^ (8 - width) * 2 ^ width = 256 := by
    rw [← Nat.pow_add, Nat.sub_add_cancel narrow]
  have positive := Nat.two_pow_pos width
  have bound : high * 2 ^ width + 2 ^ width ≤ 256 := by
    rw [← power, ← Nat.succ_mul]
    exact Nat.mul_le_mul_right _ fits
  have low (number : Nat) (small : number < 2 ^ width) :
      (UInt8.ofNat (high * 2 ^ width + number)).toNat % 2 ^ width = number := by
    have octet : high * 2 ^ width + number < 2 ^ 8 := by omega
    rw [UInt8.toNat_ofNat', Nat.mod_eq_of_lt octet, Nat.mul_add_mod_self_right,
      Nat.mod_eq_of_lt small]
  unfold encode
  split
  · rename_i small
    have value' := low value (by omega)
    have code := Code.short (UInt8.ofNat (high * 2 ^ width + value))
      (by rw [value']; exact small)
    rwa [value'] at code
  · rename_i large
    have code := Code.long (UInt8.ofNat (high * 2 ^ width + (2 ^ width - 1)))
      (encodeGroups (value - (2 ^ width - 1))) (low _ (by omega)) (terminated_encodeGroups _)
    rwa [groupsValue_encodeGroups, Nat.add_sub_cancel' (by omega)] at code

theorem length_encode_pos (width high value : Nat) :
    0 < (encode width high value).length := by
  unfold encode
  split <;> exact Nat.succ_pos _

theorem length_encode_le {width high value count : Nat} (positive : 0 < count)
    (fits : value < 2 ^ (7 * count)) : (encode width high value).length ≤ count + 1 := by
  unfold encode
  split
  · simp
  · have := length_encodeGroups_le positive
      (show value - (2 ^ width - 1) < 2 ^ (7 * count) by omega)
    rw [List.length_cons]
    omega

/-- The bits above the prefix are kept. -/
theorem firstOctet_encode {width high value : Nat} (narrow : width ≤ 8)
    (fits : high < 2 ^ (8 - width)) :
    firstOctet (encode width high value) / 2 ^ width = high := by
  have power : 2 ^ (8 - width) * 2 ^ width = 256 := by
    rw [← Nat.pow_add, Nat.sub_add_cancel narrow]
  have positive := Nat.two_pow_pos width
  have bound : high * 2 ^ width + 2 ^ width ≤ 256 := by
    rw [← power, ← Nat.succ_mul]
    exact Nat.mul_le_mul_right _ fits
  have octet (number : Nat) (small : number < 2 ^ width) :
      (UInt8.ofNat (high * 2 ^ width + number)).toNat / 2 ^ width = high := by
    have fits' : high * 2 ^ width + number < 2 ^ 8 := by omega
    rw [UInt8.toNat_ofNat', Nat.mod_eq_of_lt fits', Nat.add_comm,
      Nat.add_mul_div_right _ _ positive, Nat.div_eq_of_lt small, Nat.zero_add]
  unfold encode
  split
  · exact octet value (by omega)
  · exact octet _ (by omega)

theorem Code.ne_nil {width value : Nat} {bytes : List UInt8} (code : Code width bytes value) :
    bytes ≠ [] := by
  cases code <;> simp

/-- The prefix shows the value, or that it does not fit. -/
theorem Code.firstOctet_mod {width value : Nat} {bytes : List UInt8}
    (code : Code width bytes value) :
    firstOctet bytes % 2 ^ width = min value (2 ^ width - 1) := by
  cases code with
  | short first fits =>
      rw [Nat.min_eq_left (by omega)]
      rfl
  | long first groups full terminated =>
      rw [Nat.min_eq_right (by omega)]
      exact full

theorem Terminated.append_inj {first second firstRest secondRest : List UInt8}
    (firstTerminated : Terminated first) (secondTerminated : Terminated second)
    (equal : first ++ firstRest = second ++ secondRest) : first = second := by
  induction first generalizing second with
  | nil => exact firstTerminated.elim
  | cons group first ih =>
      cases second with
      | nil => exact secondTerminated.elim
      | cons other second =>
          simp only [List.cons_append, List.cons.injEq] at equal
          obtain ⟨rfl, equal⟩ := equal
          simp only [Terminated] at firstTerminated secondTerminated
          split at firstTerminated
          · rename_i last
            rw [if_pos last] at secondTerminated
            rw [firstTerminated, secondTerminated]
          · rename_i more
            rw [if_neg more] at secondTerminated
            rw [ih firstTerminated secondTerminated equal]

/-- The octets of an integer do not go on behind it. -/
theorem Code.append_inj {width firstValue secondValue : Nat}
    {first second firstRest secondRest : List UInt8} (firstCode : Code width first firstValue)
    (secondCode : Code width second secondValue)
    (equal : first ++ firstRest = second ++ secondRest) :
    first = second ∧ firstValue = secondValue := by
  cases firstCode with
  | short octet fits =>
      cases secondCode with
      | short other fits' =>
          obtain ⟨rfl, -⟩ := List.cons.inj equal
          exact ⟨rfl, rfl⟩
      | long other groups full terminated =>
          obtain ⟨rfl, -⟩ := List.cons.inj equal
          omega
  | long octet groups full terminated =>
      cases secondCode with
      | short other fits =>
          obtain ⟨rfl, -⟩ := List.cons.inj equal
          omega
      | long other groups' full' terminated' =>
          obtain ⟨rfl, tails⟩ := List.cons.inj equal
          obtain rfl := terminated.append_inj terminated' tails
          exact ⟨rfl, rfl⟩

end PrefixInteger

end HeapHttpd
