import HyperIoVm.Resources

/-!
# The decimal parser, with its machine arithmetic (`include/hyper_network.h`)

`hyper_network_resource_number` divides a bound that depends on the digit before it multiplies, so
that no product and no sum leaves the range of an `int`. In unsigned 32-bit arithmetic it therefore
computes what it computes over numbers.
-/

namespace HyperIoVm

open Data

/-! ## The loop in unsigned arithmetic -/

/-- `(unsigned)(*text - '0')`. -/
def resourceDigit (c : Char) : UInt32 := .ofNat (c.toNat - '0'.toNat)

/-- The check before `result * 10 + digit`. -/
def exceedsInt (result digit : UInt32) : Bool := result > (0x7fffffff - digit) / 10

/-- The loop of `hyper_network_resource_number`. -/
def resourceLoop (result : UInt32) : List Char → Option UInt32
  | [] => some result
  | c :: text =>
    if !c.isDigit then none
    else if exceedsInt result (resourceDigit c) then none
    else resourceLoop (result * 10 + resourceDigit c) text

/-- What the loop multiplies by ten and what it then adds, round by round. -/
def resourceRounds (result : UInt32) : List Char → List (UInt32 × UInt32)
  | [] => []
  | c :: text =>
    if !c.isDigit then []
    else if exceedsInt result (resourceDigit c) then []
    else (result, resourceDigit c) :: resourceRounds (result * 10 + resourceDigit c) text

/-- `hyper_network_resource_number(text, &value)`: what it returns, and what `value` is then. -/
def storeResourceNumber (text : List Char) (value : UInt32) : Int × UInt32 :=
  if text.isEmpty then (-1, value)
  else
    match resourceLoop 0 text with
    | none => (-1, value)
    | some result => (0, result)

section Rounds

variable {result digit : UInt32} {c : Char} {text : List Char}

theorem toNat_resourceDigit (h : c.isDigit = true) :
    (resourceDigit c).toNat = c.toNat - '0'.toNat ∧ (resourceDigit c).toNat ≤ 9 := by
  have hle : c.toNat - '0'.toNat ≤ 9 := Nat.sub_le_of_le_add (toNat_of_isDigit h).2
  have heq : (resourceDigit c).toNat = c.toNat - '0'.toNat :=
    UInt32.toNat_ofNat_of_lt' (Nat.lt_of_le_of_lt hle (by decide))
  exact ⟨heq, heq ▸ hle⟩

/-- The check divides without wrapping. -/
theorem exceedsInt_eq (h : digit.toNat ≤ 9) :
    exceedsInt result digit = decide (result.toNat > (intMax - digit.toNat) / 10) := by
  have hle : digit ≤ 0x7fffffff := UInt32.le_iff_toNat_le.mpr (h.trans (by decide))
  rw [exceedsInt, decide_eq_decide, GT.gt, UInt32.lt_iff_toNat_lt, UInt32.toNat_div,
    UInt32.toNat_sub_of_le _ _ hle]
  rfl

/-- Behind the check neither the product nor the sum exceeds `INT_MAX`. -/
theorem round_in_range (hdigit : digit.toNat ≤ 9) (h : exceedsInt result digit = false) :
    result.toNat * 10 ≤ intMax ∧ result.toNat * 10 + digit.toNat ≤ intMax ∧
      (result * 10 + digit).toNat = 10 * result.toNat + digit.toNat := by
  rw [exceedsInt_eq hdigit, decide_eq_false_iff_not, Nat.not_lt] at h
  have hsum : result.toNat * 10 + digit.toNat ≤ intMax := by
    have hmul := (Nat.le_div_iff_mul_le (by decide)).mp h
    unfold intMax at *
    omega
  refine ⟨by omega, hsum, ?_⟩
  have hproduct : (result * 10).toNat = result.toNat * 10 := by
    rw [UInt32.toNat_mul]
    exact Nat.mod_eq_of_lt (Nat.lt_of_le_of_lt (Nat.le_of_add_right_le hsum) (by decide))
  rw [UInt32.toNat_add, hproduct, Nat.mod_eq_of_lt (Nat.lt_of_le_of_lt hsum (by decide)),
    Nat.mul_comm]

/-- The loop computes what it computes over numbers. -/
theorem resourceLoop_eq (result : UInt32) (text : List Char) :
    resourceLoop result text = (resourceDigits result.toNat text).map .ofNat := by
  induction text generalizing result with
  | nil => rw [resourceLoop, resourceDigits, Option.map_some, UInt32.ofNat_toNat]
  | cons c text ih =>
    rw [resourceLoop, resourceDigits]
    split
    · rfl
    rename_i hc
    rw [Bool.not_eq_true, Bool.not_eq_false'] at hc
    obtain ⟨heq, hle⟩ := toNat_resourceDigit hc
    have hcheck := @exceedsInt_eq result _ hle
    dsimp only
    rw [← heq]
    split
    next hexceeds =>
      rw [hcheck, decide_eq_true_eq] at hexceeds
      rw [if_pos hexceeds]
      rfl
    next hfits =>
      rw [Bool.not_eq_true] at hfits
      rw [ih, (round_in_range hle hfits).2.2]
      rw [hcheck, decide_eq_false_iff_not] at hfits
      rw [if_neg hfits]

/-- No round leaves the range of an `int`. -/
theorem resourceRounds_in_range (result : UInt32) (text : List Char) :
    ∀ p ∈ resourceRounds result text,
      p.1.toNat * 10 ≤ intMax ∧ p.1.toNat * 10 + p.2.toNat ≤ intMax := by
  induction text generalizing result with
  | nil => exact fun p hp => absurd hp List.not_mem_nil
  | cons c text ih =>
    rw [resourceRounds]
    split
    · exact fun p hp => absurd hp List.not_mem_nil
    rename_i hc
    rw [Bool.not_eq_true, Bool.not_eq_false'] at hc
    split
    · exact fun p hp => absurd hp List.not_mem_nil
    rename_i hfits
    rw [Bool.not_eq_true] at hfits
    intro p hp
    obtain rfl | hp := List.mem_cons.mp hp
    · obtain ⟨hproduct, hsum, -⟩ := round_in_range (toNat_resourceDigit hc).2 hfits
      exact ⟨hproduct, hsum⟩
    · exact ih _ p hp

theorem storeResourceNumber_eq (text : List Char) (value : UInt32) :
    storeResourceNumber text value =
      ((hyperNetworkResourceNumber text).map fun v => ((0 : Int), v)).getD (-1, value) := by
  rw [storeResourceNumber, hyperNetworkResourceNumber, resourceLoop_eq]
  split
  · rfl
  · show (match (resourceDigits 0 text).map UInt32.ofNat with
      | none => ((-1 : Int), value)
      | some result => (0, result)) = _
    cases resourceDigits 0 text <;> rfl

end Rounds

/-! ## Exactness -/

/-- Leading zeros do not count. -/
theorem digitsValue_zeros (k : Nat) (text : List Char) :
    digitsValue (List.replicate k '0' ++ text) = digitsValue text := by
  induction k with
  | zero => rfl
  | succ k ih =>
    rw [← ih, List.replicate_succ, List.cons_append]
    rfl

/-- The decimal parser is exact. It succeeds exactly on the texts of one or more digits whose value
is at most `INT_MAX`, and stores that value; otherwise it leaves the output as it is. No product and
no sum exceeds `INT_MAX` on the way. A number up to `INT_MAX` that is printed, with any number of
zeros before it, is read back. -/
theorem resource_number_exact (text : List Char) (value : UInt32) :
    ((storeResourceNumber text value).1 = 0 ↔
      text ≠ [] ∧ (∀ c ∈ text, c.isDigit = true) ∧ digitsValue text ≤ intMax) ∧
    ((storeResourceNumber text value).1 = 0 →
      (storeResourceNumber text value).2.toNat = digitsValue text) ∧
    ((storeResourceNumber text value).1 ≠ 0 → storeResourceNumber text value = (-1, value)) ∧
    (∀ p ∈ resourceRounds 0 text,
      p.1.toNat * 10 ≤ intMax ∧ p.1.toNat * 10 + p.2.toNat ≤ intMax) ∧
    ∀ v ≤ intMax, ∀ zeros,
      storeResourceNumber (List.replicate zeros '0' ++ decimal v) value = (0, .ofNat v) := by
  have hstored := storeResourceNumber_eq text value
  have hprinted (v : Nat) (hv : v ≤ intMax) (zeros : Nat) :
      storeResourceNumber (List.replicate zeros '0' ++ decimal v) value = (0, .ofNat v) := by
    have hvalue : digitsValue (List.replicate zeros '0' ++ decimal v) = v := by
      rw [digitsValue_zeros, digitsValue_decimal]
    have hnumber : hyperNetworkResourceNumber (List.replicate zeros '0' ++ decimal v) =
        some (.ofNat v) := by
      refine hyperNetworkResourceNumber_eq_some.mpr ⟨?_, fun c hc => ?_, ?_, ?_⟩
      · exact List.append_ne_nil_of_right_ne_nil _ (decimal_ne_nil v)
      · obtain hc | hc := List.mem_append.mp hc
        · rw [(List.mem_replicate.mp hc).2]
          decide
        · exact decimal_digits c hc
      · rw [hvalue]
        exact hv
      · rw [hvalue]
    rw [storeResourceNumber_eq, hnumber]
    rfl
  cases hnumber : hyperNetworkResourceNumber text with
  | none =>
    rw [hnumber] at hstored
    have hstored : storeResourceNumber text value = (-1, value) := hstored
    have hfailed : ((-1, value) : Int × UInt32).1 ≠ 0 := fun h =>
      absurd h (by decide : (-1 : Int) ≠ 0)
    rw [hstored]
    refine ⟨iff_of_false hfailed fun hcond => ?_, fun h => absurd h hfailed, fun _ => rfl,
      resourceRounds_in_range 0 text, hprinted⟩
    obtain ⟨hne, hdigits, hle⟩ := hcond
    have hsome := hyperNetworkResourceNumber_eq_some.mpr ⟨hne, hdigits, hle, rfl⟩
    exact Option.some_ne_none _ (hsome.symm.trans hnumber)
  | some v =>
    rw [hnumber] at hstored
    have hstored : storeResourceNumber text value = (0, v) := hstored
    obtain ⟨hne, hdigits, hle, rfl⟩ := hyperNetworkResourceNumber_eq_some.mp hnumber
    rw [hstored]
    refine ⟨iff_of_true rfl ⟨hne, hdigits, hle⟩, fun _ => ?_, fun h => absurd rfl h,
      resourceRounds_in_range 0 text, hprinted⟩
    exact UInt32.toNat_ofNat_of_lt' (Nat.lt_of_le_of_lt hle (by decide))

end HyperIoVm
