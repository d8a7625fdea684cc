import Mathlib
import Spatial.Proofs.Binary.Defined

/-!
# Rounding errors

How far a result of binary32 is from the exact one, for operands of either sign.

1.  Sums, products and quotients of finite numbers are the exact result, rounded once.  An exact
    result below the middle between the greatest number and the next power of two is rounded to a
    finite number.
2.  A rounded result is within one part in `2²⁴` of the exact one, or within half the least
    positive number where that is more.  An exact sum is a multiple of the least positive number,
    so there the first bound always holds.
3.  A multiple of a power of two with no more than 24 digits is not rounded.
4.  A square root is rounded once.  It need not be a rational number, so this is said of rational
    numbers as close to it as one likes.
-/

namespace Spatial.Binary

open Float.Model (Format totalExponent UnpackedFloat)
open Float.Model.UnpackedFloat

variable {S : Format} {q r : ℚ} {s : Sign} {u : UnpackedFloat}

theorem rational_zero (s : Sign) : rational (.zero s) = 0 := rfl

/-- The magnitude of a signed number does not depend on the sign. -/
theorem abs_apply_one_mul (s : Sign) (hq : 0 < q) : |(s.apply 1 : ℚ) * q| = q := by
  cases s <;> simp [Sign.apply, abs_of_pos hq]

/-- The distance of two numbers of one sign is that of their magnitudes. -/
theorem apply_one_mul_sub (s : Sign) (a b : ℚ) :
    |(s.apply 1 : ℚ) * a - s.apply 1 * b| = |a - b| := by
  cases s
  · rw [← mul_sub]
    simp [Sign.apply, abs_sub_comm]
  · simp [Sign.apply]

/-- A positive sign changes nothing. -/
theorem apply_positive (a : ℚ) : (Sign.positive.apply 1 : ℚ) * a = a := by
  rw [Sign.apply, Int.cast_one, one_mul]

/-- What a rational number of either sign is rounded to. -/
inductive SignedRoundsTo (S : Format) : ℚ → UnpackedFloat → Prop
  | zero {r : ℚ} (s : Sign) (hr : |r| ≤ 2 ^ (S.minExponent - 1)) : SignedRoundsTo S r (.zero s)
  | nonzero {s : Sign} {q : ℚ} {u : UnpackedFloat} (hq : 0 < q) (hu : RoundsTo S s q u) :
      SignedRoundsTo S (s.apply 1 * q) u

/-- What a sum is rounded to is what any signed number is rounded to. -/
theorem SumRoundsTo.signedRoundsTo (h : SumRoundsTo S r u) : SignedRoundsTo S r u := by
  cases h with
  | zero s => exact .zero s (by simp only [abs_zero]; positivity)
  | nonzero hq hu => exact .nonzero hq hu

namespace RoundsTo

/-- A number that is rounded to one of the format, without its sign. -/
theorem exists_digits (h : RoundsTo S s q u) :
    ∃ (n : ℕ) (v : ℚ), IsNearest n (q / 2 ^ lastExponent S q) ∧ v = n * 2 ^ lastExponent S q ∧
      rational u = s.apply 1 * v := by
  obtain ⟨hm, hn, hvalue, -⟩ := h
  exact ⟨_, _, hn, rfl, by rw [rational_finite, hvalue]⟩

/-- The error is half a last digit at most. -/
theorem abs_rational_sub_le (h : RoundsTo S s q u) :
    |rational u - s.apply 1 * q| ≤ 2 ^ lastExponent S q / 2 := by
  cases u with
  | notANumber | infinity | zero => cases h
  | finite t m e hm =>
      obtain rfl : t = s := by cases h; rfl
      rw [rational_finite, apply_one_mul_sub]
      exact h.abs_sub_le

/-- A multiple of its last digit is not rounded. -/
theorem rational_eq_of_multiple (h : RoundsTo S s q u) {n : ℕ} {k : ℤ} (hq : q = n * 2 ^ k)
    (hk : lastExponent S q ≤ k) : rational u = s.apply 1 * q := by
  obtain ⟨i, v, hi, rfl, hu⟩ := h.exists_digits
  obtain ⟨j, hj⟩ : ∃ j : ℕ, k = lastExponent S q + j := ⟨(k - lastExponent S q).toNat, by omega⟩
  have hdigits : q / 2 ^ lastExponent S q = (n * 2 ^ j : ℕ) := by
    rw [div_eq_iff (by positivity)]
    calc q = n * 2 ^ k := hq
      _ = n * (2 ^ lastExponent S q * 2 ^ (j : ℤ)) := by rw [hj, zpow_add₀ two_ne_zero]
      _ = (n * 2 ^ j : ℕ) * 2 ^ lastExponent S q := by
          rw [zpow_natCast]
          push_cast
          ring
  have hi_eq : i = n * 2 ^ j := hi.unique (hdigits ▸ .natCast _)
  rw [hu, hi_eq, ← hdigits, div_mul_cancel₀ _ (by positivity)]

/-- One part in as many as the significand can be, unless the last digit is the least of the
format. -/
theorem half_digit_le (S : Format) (hq : 0 < q) (h : lastExponent S q ≠ S.minExponent) :
    (2 : ℚ) ^ lastExponent S q / 2 ≤ q / 2 ^ S.mantissaBits := by
  obtain ⟨-, -, hcases⟩ := last_digits S hq
  have hfull := hcases.resolve_left h
  rw [le_div_iff₀ (by positivity)] at hfull
  rw [Format.mantissaBits, pow_add, pow_one, div_le_div_iff₀ two_pos (by positivity)]
  nlinarith

end RoundsTo

/-! Multiples of a power of two that the format has. -/

section Multiple

variable {D k : ℤ}

/-- The magnitude of a multiple of a last digit. -/
theorem abs_of_multiple (hr : r = D * 2 ^ k) : |r| = D.natAbs * 2 ^ k := by
  rw [hr, abs_mul, abs_of_pos (by positivity : (0 : ℚ) < 2 ^ k), Nat.cast_natAbs, Int.cast_abs]

/-- Only zero is less than the least positive number. -/
theorem eq_zero_of_multiple (hr : r = D * 2 ^ k) (hk : S.minExponent ≤ k)
    (hsmall : |r| ≤ 2 ^ (S.minExponent - 1)) : r = 0 := by
  have hle : (2 : ℚ) ^ S.minExponent ≤ 2 ^ k := zpow_le_zpow_right₀ one_le_two hk
  have hpos : (0 : ℚ) < 2 ^ S.minExponent := by positivity
  have hzero : D = 0 := by
    by_contra hne
    have hone : (1 : ℚ) ≤ D.natAbs := by exact_mod_cast Int.natAbs_pos.mpr hne
    rw [abs_of_multiple hr, zpow_sub_one₀ two_ne_zero] at hsmall
    nlinarith
  rw [hr, hzero, Int.cast_zero, zero_mul]

end Multiple

namespace SignedRoundsTo

/-- **Errors.**  A result is within a part of the exact one, or within half the least positive
number of the format. -/
theorem abs_sub_le (h : SignedRoundsTo S r u) :
    |rational u - r| ≤ max (|r| / 2 ^ S.mantissaBits) (2 ^ (S.minExponent - 1)) := by
  cases h with
  | zero s hr =>
      refine le_max_of_le_right ?_
      rw [rational_zero, zero_sub, abs_neg]
      exact hr
  | @nonzero s q _ hq hu =>
      rw [abs_apply_one_mul _ hq]
      refine hu.abs_rational_sub_le.trans ?_
      by_cases hlast : lastExponent S q = S.minExponent
      · rw [hlast, zpow_sub_one₀ two_ne_zero, div_eq_mul_inv]
        exact le_max_right _ _
      · exact le_max_of_le_left (RoundsTo.half_digit_le S hq hlast)

/-- A multiple of the least positive number is never rounded by more than a part of it. -/
theorem abs_sub_le_of_multiple (h : SignedRoundsTo S r u) {D : ℤ}
    (hr : r = D * 2 ^ S.minExponent) : |rational u - r| ≤ |r| / 2 ^ S.mantissaBits := by
  have habs := abs_of_multiple hr
  cases h with
  | zero s hsmall =>
      rw [eq_zero_of_multiple hr le_rfl hsmall, rational_zero, sub_zero, abs_zero, zero_div]
  | @nonzero s q _ hq hu =>
      rw [abs_apply_one_mul _ hq] at habs ⊢
      by_cases hlast : lastExponent S q = S.minExponent
      · rw [hu.rational_eq_of_multiple habs hlast.le, sub_self, abs_zero]
        positivity
      · exact hu.abs_rational_sub_le.trans (RoundsTo.half_digit_le S hq hlast)

/-- A multiple of a power of two with few digits is not rounded. -/
theorem rational_eq (h : SignedRoundsTo S r u) {D k : ℤ} (hr : r = D * 2 ^ k)
    (hD : |D| < 2 ^ S.mantissaBits) (hk : S.minExponent ≤ k) : rational u = r := by
  have habs := abs_of_multiple hr
  cases h with
  | zero s hsmall => rw [eq_zero_of_multiple hr hk hsmall, rational_zero]
  | @nonzero s q _ hq hu =>
      rw [abs_apply_one_mul _ hq] at habs
      refine hu.rational_eq_of_multiple habs ?_
      have hfew : (D.natAbs : ℚ) < 2 ^ S.mantissaBits := by
        rw [Nat.cast_natAbs]
        exact_mod_cast hD
      have hless : q < 2 ^ ((S.mantissaBits : ℤ) + k) := by
        rw [habs, zpow_add₀ two_ne_zero, zpow_natCast]
        gcongr
      have hlog := (Int.lt_zpow_iff_log_lt one_lt_two hq).mp (by exact_mod_cast hless)
      rw [lastExponent, Format.targetExponent]
      omega

/-- Rounding does not take a number below zero. -/
theorem nonneg (h : SignedRoundsTo S r u) (hr : 0 ≤ r) : 0 ≤ rational u := by
  cases h with
  | zero s => exact le_rfl
  | @nonzero s q _ hq hu =>
      obtain ⟨n, v, -, rfl, hvalue⟩ := hu.exists_digits
      cases s with
      | positive =>
          rw [hvalue, Sign.apply, Int.cast_one, one_mul]
          positivity
      | negative =>
          rw [Sign.apply, Int.cast_neg, Int.cast_one] at hr
          linarith

end SignedRoundsTo

end Spatial.Binary

namespace Spatial.Binary32

open Float.Model (Format UnpackedFloat totalExponent)
open Float.Model.UnpackedFloat (Accuracy Sign)
open Binary (RoundsTo SignedRoundsTo lastExponent rational_finite)

variable {x y : Float32} {q r : ℚ} {u : UnpackedFloat}

/-! ## Results that are rounded once -/

/-- The number is an exact result, rounded once. -/
def IsRounded (r : ℚ) (x : Float32) : Prop :=
  ∃ u, SignedRoundsTo .binary32 r u ∧ value x = saturate u

/-- What is rounded and then packed is a rounded number. -/
theorem isRounded_ofValue (h : SignedRoundsTo .binary32 r u) : IsRounded r (ofValue u) := by
  refine ⟨u, h, ?_⟩
  cases h with
  | zero s => exact value_ofValue_zero s
  | nonzero _ hu => exact value_ofValue_roundsTo hu

/-- A rounded sum is a rounded number. -/
theorem IsRoundedSum.isRounded (h : IsRoundedSum r x) : IsRounded r x := by
  obtain ⟨u, hu, hx⟩ := h
  exact ⟨u, hu.signedRoundsTo, hx⟩

/-- A product of signed numbers has the product of the signs. -/
theorem apply_mul (s t : Sign) (a b : ℚ) :
    (s.apply 1 : ℚ) * a * (t.apply 1 * b) = (s * t).apply 1 * (a * b) := by
  have hsign : ((s * t).apply 1 : ℚ) = s.apply 1 * t.apply 1 := by
    cases s <;> cases t <;> norm_num [Sign.apply]
  rw [hsign]
  ring

/-- A quotient of signed numbers has the quotient of the signs. -/
theorem apply_div (s t : Sign) (a b : ℚ) :
    (s.apply 1 : ℚ) * a / (t.apply 1 * b) = (s / t).apply 1 * (a / b) := by
  have hsign : ((s / t).apply 1 : ℚ) = s.apply 1 / t.apply 1 := by
    cases s <;> cases t <;> norm_num [Sign.apply] <;> rfl
  rw [hsign]
  ring

/-- A product of numbers that are not zeros: its sign, and what it is rounded to. -/
theorem value_mul_of_finite {s t : Sign} {m n : ℕ} {e f : ℤ} {hm : 0 < m} {hn : 0 < n}
    (hx : value x = .finite s m e hm) (hy : value y = .finite t n f hn) :
    ((m : ℚ) * 2 ^ e * (n * 2 ^ f) ≤ 2 ^ (-150 : ℤ) ∧ value (x * y) = .zero (s * t)) ∨
      ∃ u, RoundsTo .binary32 (s * t) (m * 2 ^ e * (n * 2 ^ f)) u ∧
        value (x * y) = saturate u := by
  have hcanonical := canonical_value x
  have hcanonical' := canonical_value y
  rw [hx] at hcanonical
  rw [hy] at hcanonical'
  rw [mul_eq, hx, hy]
  rcases le_or_gt ((m : ℚ) * 2 ^ e * (n * 2 ^ f)) (2 ^ (-150 : ℤ)) with hsmall | hlarge
  · have hproduct : (m : ℚ) * 2 ^ e * (n * 2 ^ f) = (m * n : ℕ) * 2 ^ (e + f) := by
      rw [zpow_add₀ two_ne_zero]
      push_cast
      ring
    have hrounded : UnpackedFloat.mul .binary32 (.finite s m e hm) (.finite t n f hn) =
        .zero (s * t) := round_small (s * t) (Nat.mul_pos hm hn) (hproduct ▸ hsmall)
    rw [hrounded]
    exact .inl ⟨hsmall, value_ofValue_zero _⟩
  · have hround := Binary.mul_roundsTo .binary32 s t hm hn e f
      (digits_of_product hm hn hcanonical hcanonical' hlarge) hlarge
    exact .inr ⟨_, hround, value_ofValue_roundsTo hround⟩

/-- **Products.**  A product of finite numbers is the exact product, rounded once. -/
theorem isRounded_mul (hx : x.isFinite = true) (hy : y.isFinite = true) :
    IsRounded (exact x * exact y) (x * y) := by
  have hzero (s : Sign) : IsRounded 0 (ofValue (.zero s)) :=
    isRounded_ofValue (.zero s (by simp only [abs_zero]; positivity))
  rcases finite_cases hx with ⟨s, hvx⟩ | ⟨s, m, e, hm, hvx⟩
  · rw [exact, hvx, Binary.rational_zero, zero_mul, mul_eq, hvx]
    rcases finite_cases hy with ⟨t, hvy⟩ | ⟨t, n, f, hn, hvy⟩ <;> rw [hvy] <;> exact hzero _
  · rcases finite_cases hy with ⟨t, hvy⟩ | ⟨t, n, f, hn, hvy⟩
    · rw [exact, exact, hvy, Binary.rational_zero, mul_zero, mul_eq, hvx, hvy]
      exact hzero _
    · have hpos : (0 : ℚ) < m * 2 ^ e * (n * 2 ^ f) := by positivity
      rw [exact_of_value hvx, exact_of_value hvy, apply_mul]
      rcases value_mul_of_finite hvx hvy with ⟨hsmall, hvalue⟩ | ⟨u, hu, hvalue⟩
      · refine ⟨.zero (s * t), .zero _ ?_, hvalue⟩
        rw [Binary.abs_apply_one_mul _ hpos]
        exact hsmall
      · exact ⟨u, .nonzero hpos hu, hvalue⟩

/-- **Quotients.**  A quotient of finite numbers is the exact quotient, rounded once. -/
theorem isRounded_div (hx : x.isFinite = true) (hy : IsDivisor y) :
    IsRounded (exact x / exact y) (x / y) := by
  obtain ⟨t, n, f, hn, hvy⟩ := hy.exists_value
  rcases finite_cases hx with ⟨s, hvx⟩ | ⟨s, m, e, hm, hvx⟩
  · rw [exact, hvx, Binary.rational_zero, zero_div, div_eq, hvx, hvy]
    exact isRounded_ofValue (.zero (s / t) (by simp only [abs_zero]; positivity))
  · have hpos : (0 : ℚ) < m * 2 ^ e / (n * 2 ^ f) := by positivity
    rw [exact_of_value hvx, exact_of_value hvy, apply_div, div_eq, hvx, hvy]
    rcases le_or_gt ((m : ℚ) * 2 ^ e / (n * 2 ^ f)) (2 ^ (-150 : ℤ)) with hsmall | hlarge
    · rw [Binary.div_small .binary32 s t hm hn e f hsmall]
      refine isRounded_ofValue (.zero _ ?_)
      rw [Binary.abs_apply_one_mul _ hpos]
      exact hsmall
    · exact isRounded_ofValue
        (.nonzero hpos (Binary.div_roundsTo .binary32 s t hm hn e f hlarge))

namespace IsRounded

/-- The exact result is rounded to what the number is, if that is finite. -/
theorem signedRoundsTo (h : IsRounded r x) (hx : x.isFinite = true) :
    SignedRoundsTo .binary32 r (value x) := by
  obtain ⟨u, hu, hvx⟩ := h
  rw [isFinite_eq, hvx] at hx
  have hself : saturate u = u := by
    cases u with
    | notANumber | infinity | zero => rfl
    | finite s m e hm =>
        rw [saturate] at hx ⊢
        split_ifs at hx ⊢ with he
        · rfl
        · cases hx
  rw [hvx, hself]
  exact hu

/-- **No overflow.**  A result below the middle between the greatest number and the next power of
two is rounded to a finite one. -/
theorem isFinite (h : IsRounded r x) (hr : |r| < 2 ^ (128 : ℤ) - 2 ^ (103 : ℤ)) :
    x.isFinite = true := by
  obtain ⟨u, hu, hvx⟩ := h
  rw [isFinite_eq, hvx]
  cases hu with
  | zero s => rfl
  | @nonzero s q _ hq hu =>
      rw [Binary.abs_apply_one_mul _ hq] at hr
      have hcanonical := hu.canonical
      cases u with
      | notANumber | infinity | zero => cases hu
      | finite t m e hm =>
          have hlast : lastExponent .binary32 q ≤ 104 := by
            have hless : q < (2 : ℚ) ^ (128 : ℤ) := hr.trans (by norm_num)
            have hlog : Int.log 2 q < 128 :=
              (Int.lt_zpow_iff_log_lt one_lt_two hq).mp hless
            show max (Int.log 2 q + 1 - 24) (-149) ≤ 104
            omega
          have hdigit : (2 : ℚ) ^ lastExponent .binary32 q ≤ 2 ^ (104 : ℤ) :=
            zpow_le_zpow_right₀ one_le_two hlast
          obtain rfl : t = s := by cases hu; rfl
          have hclose := (abs_le.mp hu.abs_sub_le).2
          have hless : (m : ℚ) * 2 ^ e < 2 ^ (128 : ℤ) := by
            have hhalf : (2 : ℚ) ^ (104 : ℤ) / 2 = 2 ^ (103 : ℤ) := by norm_num
            linarith
          have he : e ≤ 104 := by
            by_contra hbeyond
            have hform : max ((m.log2 : ℤ) + 1 + e - 24) (-149) = e := hcanonical
            have hlog : m.log2 = 23 := by omega
            have hfull : (2 : ℚ) ^ (23 : ℤ) ≤ m := by
              have hle := Nat.log2_self_le hm.ne'
              rw [hlog] at hle
              exact_mod_cast hle
            have hlarge : (2 : ℚ) ^ (128 : ℤ) ≤ m * 2 ^ e := by
              calc (2 : ℚ) ^ (128 : ℤ) = 2 ^ (23 : ℤ) * 2 ^ (105 : ℤ) := by norm_num
                _ ≤ m * 2 ^ e := by
                    gcongr
                    · exact one_le_two
                    · omega
            linarith
          rw [saturate, if_pos he]
          rfl

/-- A rounded number that is finite is not below zero if the exact one is not. -/
theorem nonneg (h : IsRounded r x) (hx : x.isFinite = true) (hr : 0 ≤ r) : 0 ≤ exact x :=
  (h.signedRoundsTo hx).nonneg hr

/-- **Errors.**  A finite result is within one part in `2²⁴` of the exact one, or within half the
least positive number. -/
theorem abs_sub_le (h : IsRounded r x) (hx : x.isFinite = true) :
    |exact x - r| ≤ max (|r| / 2 ^ 24) (2 ^ (-150 : ℤ)) :=
  (h.signedRoundsTo hx).abs_sub_le

/-- A result that is not below the least number with all its digits is within one part in
`2²⁴`. -/
theorem abs_sub_le_of_le (h : IsRounded r x) (hx : x.isFinite = true)
    (hr : 2 ^ (-126 : ℤ) ≤ |r|) : |exact x - r| ≤ |r| / 2 ^ 24 := by
  refine (h.abs_sub_le hx).trans (max_le le_rfl ?_)
  rw [le_div_iff₀ (by positivity)]
  calc (2 : ℚ) ^ (-150 : ℤ) * 2 ^ 24 = 2 ^ (-126 : ℤ) := by norm_num
    _ ≤ |r| := hr

/-- A multiple of a power of two with few digits is not rounded. -/
theorem exact_eq (h : IsRounded r x) (hx : x.isFinite = true) {D k : ℤ} (hr : r = D * 2 ^ k)
    (hD : |D| < 2 ^ 24) (hk : -149 ≤ k) : exact x = r :=
  (h.signedRoundsTo hx).rational_eq hr hD hk

end IsRounded

/-! Numbers that are not rounded. -/

/-- A number of binary32 is a multiple of a power of two, with few digits. -/
theorem exists_few_digits (x : Float32) :
    ∃ D k : ℤ, exact x = D * 2 ^ k ∧ |D| < 2 ^ 24 ∧ -149 ≤ k ∧ k ≤ 104 := by
  cases hx : value x with
  | notANumber | infinity | zero =>
      refine ⟨0, 0, ?_, by norm_num⟩
      rw [exact, hx, Int.cast_zero, zero_mul]
      rfl
  | finite s m e hm =>
      obtain ⟨hm_lt, he, he_le, -⟩ := bounds_of_value hx
      refine ⟨s.apply m, e, ?_, ?_, he, he_le⟩
      · rw [exact, hx, Binary.rational]
      · rw [Int.abs_eq_natAbs]
        cases s <;> simp only [Sign.apply, Int.natAbs_neg, Int.natAbs_natCast] <;>
          exact_mod_cast hm_lt

/-- No number is farther from zero than the largest one. -/
theorem abs_exact_le_largest (x : Float32) : |exact x| ≤ 2 ^ (128 : ℤ) - 2 ^ (104 : ℤ) := by
  obtain ⟨D, k, hx, hD, -, hk⟩ := exists_few_digits x
  have hD' : |(D : ℚ)| ≤ 2 ^ 24 - 1 := by
    exact_mod_cast Int.le_sub_one_of_lt hD
  calc |exact x| = |(D : ℚ)| * 2 ^ k := by
        rw [hx, abs_mul, abs_of_pos (by positivity : (0 : ℚ) < 2 ^ k)]
    _ ≤ (2 ^ 24 - 1) * 2 ^ (104 : ℤ) :=
        mul_le_mul hD' (zpow_le_zpow_right₀ one_le_two hk) (by positivity) (by norm_num)
    _ = 2 ^ (128 : ℤ) - 2 ^ (104 : ℤ) := by norm_num

/-! Products with numbers between minus one and one. -/

/-- The exact value of one. -/
theorem exact_one : exact 1 = 1 := by
  rw [exact_of_value value_one, Binary.apply_positive]
  norm_num

/-- The number lies between minus one and one. -/
structure IsUnit (y : Float32) : Prop where
  lower : -1 ≤ y
  upper : y ≤ 1

/-- A factor between zero and one is finite. -/
theorem IsUnit.isFinite (h : IsUnit y) : y.isFinite = true :=
  isFinite_of_between ((isFinite_neg 1).trans isFinite_one) isFinite_one h.lower h.upper

/-- A factor between zero and one is at most one. -/
theorem IsUnit.abs_exact_le (h : IsUnit y) : |exact y| ≤ 1 := by
  have hlow := exact_le_of_le ((isFinite_neg 1).trans isFinite_one) h.isFinite h.lower
  have hhigh := exact_le_of_le h.isFinite isFinite_one h.upper
  rw [exact_neg, exact_one] at hlow
  rw [exact_one] at hhigh
  exact abs_le.mpr ⟨hlow, hhigh⟩

/-- A product with a number between minus one and one. -/
theorem IsUnit.isFinite_mul (h : IsUnit y) (hx : x.isFinite = true) : (x * y).isFinite = true := by
  refine (isRounded_mul hx h.isFinite).isFinite ?_
  calc |exact x * exact y| = |exact x| * |exact y| := abs_mul _ _
    _ ≤ |exact x| := mul_le_of_le_one_right (abs_nonneg _) h.abs_exact_le
    _ ≤ 2 ^ (128 : ℤ) - 2 ^ (104 : ℤ) := abs_exact_le_largest x
    _ < 2 ^ (128 : ℤ) - 2 ^ (103 : ℤ) := by norm_num

/-- One half is between zero and one. -/
theorem isUnit_half : IsUnit 0.5 := ⟨by decide +kernel, by decide +kernel⟩

/-- A number that is exactly another one is not rounded. -/
theorem IsRounded.beq (h : IsRounded (exact y) x) (hy : y.isFinite = true) :
    (x == y) = true := by
  obtain ⟨D, k, hD, hD_lt, hk, -⟩ := exists_few_digits y
  have hx : x.isFinite = true := by
    refine h.isFinite ((abs_exact_le_largest y).trans_lt ?_)
    norm_num
  exact beq_of_exact_eq hx hy (h.exact_eq hx hD hD_lt hk)

/-! ## Sums -/

/-- Every number is a multiple of the least one. -/
theorem exists_multiple (x : Float32) : ∃ D : ℤ, exact x = D * 2 ^ (-149 : ℤ) := by
  obtain ⟨D, k, hx, -, hk, -⟩ := exists_few_digits x
  obtain ⟨j, rfl⟩ : ∃ j : ℕ, k = j + -149 := ⟨(k + 149).toNat, by omega⟩
  refine ⟨D * 2 ^ j, ?_⟩
  rw [hx, zpow_add₀ two_ne_zero, zpow_natCast, ← mul_assoc]
  push_cast
  rfl

/-- **Sums.**  A finite sum is within one part in `2²⁴` of the exact one, however small it is. -/
theorem abs_add_sub_le (hx : x.isFinite = true) (hy : y.isFinite = true)
    (hxy : (x + y).isFinite = true) :
    |exact (x + y) - (exact x + exact y)| ≤ |exact x + exact y| / 2 ^ 24 := by
  obtain ⟨D, hD⟩ := exists_multiple x
  obtain ⟨E, hE⟩ := exists_multiple y
  have hrounded := (isRoundedSum_add hx hy).isRounded.signedRoundsTo hxy
  have hsum : exact x + exact y = (D + E : ℤ) * 2 ^ (-149 : ℤ) := by
    rw [hD, hE]
    push_cast
    ring
  exact hrounded.abs_sub_le_of_multiple hsum

/-- A difference is off by at most one part in `2²⁴`. -/
theorem abs_sub_sub_le (hx : x.isFinite = true) (hy : y.isFinite = true)
    (hxy : (x - y).isFinite = true) :
    |exact (x - y) - (exact x - exact y)| ≤ |exact x - exact y| / 2 ^ 24 := by
  have hneg : exact x - exact y = exact x + exact (-y) := by
    rw [exact_neg]
    ring
  rw [sub_eq_add_neg] at hxy ⊢
  rw [hneg]
  exact abs_add_sub_le hx ((isFinite_neg y).trans hy) hxy

/-- An infinity is not finite. -/
theorem not_isFinite_infinity (s : Sign) : (ofValue (.infinity s)).isFinite = false := by
  rw [isFinite_eq, value_ofValue_infinity]
  rfl

/-- An undefined number is not finite. -/
theorem not_isFinite_of_isNaN (h : x.isNaN = true) : x.isFinite = false := by
  rw [isFinite_eq, (isNaN_iff x).mp h]
  rfl

/-- The terms of a finite sum are finite. -/
theorem isFinite_left_of_add (h : (x + y).isFinite = true) : x.isFinite = true := by
  have hnone := not_isFinite_of_isNaN isNaN_ofValue_notANumber
  rw [isFinite_eq]
  rw [add_eq] at h
  cases hx : value x with
  | zero | finite => rfl
  | notANumber =>
      rw [hx] at h
      exact absurd (hnone.symm.trans h) nofun
  | infinity s =>
      rw [hx] at h
      cases hy : value y with
      | notANumber =>
          rw [hy] at h
          exact absurd (hnone.symm.trans h) nofun
      | zero | finite =>
          rw [hy] at h
          exact absurd ((not_isFinite_infinity s).symm.trans h) nofun
      | infinity t =>
          rw [hy, UnpackedFloat.add] at h
          split_ifs at h
          · exact absurd ((not_isFinite_infinity s).symm.trans h) nofun
          · exact absurd (hnone.symm.trans h) nofun

/-- The terms of a finite sum are finite. -/
theorem isFinite_of_add (h : (x + y).isFinite = true) : x.isFinite = true ∧ y.isFinite = true :=
  ⟨isFinite_left_of_add h, isFinite_left_of_add (y := x) (Binary32.add_comm x y ▸ h)⟩

/-! ## Square roots -/

theorem sqrt_eq (x : Float32) : Float32.sqrt x = ofValue (.sqrt .binary32 (value x)) := rfl

/-- A rational number just above the square root of another, below a given bound. -/
theorem exists_near_sqrt {M b ε : ℚ} (hM : 0 < M) (hb : M < b ^ 2) (hε : 0 < ε) :
    ∃ r : ℚ, 0 < r ∧ M < r ^ 2 ∧ r ^ 2 < b ^ 2 ∧ r ^ 2 ≤ M * (1 + ε) := by
  have hless : M < min (b ^ 2) (M * (1 + ε)) :=
    lt_min hb (lt_mul_of_one_lt_right hM (by linarith))
  obtain ⟨r, hr, hlow, hhigh⟩ := exists_rat_pow_btwn two_ne_zero hless (hM.trans hless)
  simp only [Rat.cast_id] at hlow hhigh
  exact ⟨r, hr, hlow, hhigh.trans_le (min_le_left _ _), (hhigh.trans_le (min_le_right _ _)).le⟩

/-- What the remainder of an integer square root says of the rest: the root is below the middle to
the next integer if the remainder is no more than the integer root. -/
def rootAccuracy (M : ℕ) : Accuracy :=
  if M - M.sqrt * M.sqrt = 0 then .exact
  else .inexact (if M - M.sqrt * M.sqrt ≤ M.sqrt then .lt else .gt)

/-- The root that is taken of an integer approximates a root that is as near as is wanted. -/
theorem approximates_sqrt {M : ℕ} (hM : 0 < M) {ε : ℚ} (hε : 0 < ε) :
    ∃ r : ℚ, 1 ≤ r ∧ (M : ℚ) ≤ r ^ 2 ∧ r ^ 2 ≤ M * (1 + ε) ∧
      Binary.Approximates (.ofMantissaAndAccuracy M.sqrt (rootAccuracy M)) r := by
  obtain ⟨k, hk⟩ : ∃ k, M.sqrt = k := ⟨_, rfl⟩
  have hbelow : k * k ≤ M := hk ▸ Nat.sqrt_le M
  have habove : M < (k + 1) * (k + 1) := hk ▸ Nat.lt_succ_sqrt M
  have hM' : (0 : ℚ) < M := by exact_mod_cast hM
  have hbelow' : (k : ℚ) ^ 2 ≤ M := by
    rw [pow_two]
    exact_mod_cast hbelow
  have hk_one : (1 : ℚ) ≤ k := by
    have hk_pos : 1 ≤ k := hk ▸ Nat.sqrt_pos.mpr hM
    exact_mod_cast hk_pos
  rw [rootAccuracy, hk]
  -- The remainder is an integer, so the root is not the middle itself.
  split_ifs with hexact hless
  · have hsquare : M = k * k := by omega
    refine ⟨k, hk_one, ?_, ?_, Binary.approximates_exact k⟩
    · rw [hsquare, pow_two, Nat.cast_mul]
    · rw [hsquare, Nat.cast_mul, ← pow_two]
      exact le_mul_of_one_le_right (by positivity) (by linarith)
  · have hmiddle : (M : ℚ) < (k + 1 / 2) ^ 2 := by
      have hrest : (M : ℚ) ≤ k * k + k := by exact_mod_cast (by omega : M ≤ k * k + k)
      linarith
    obtain ⟨r, hr, hlow, hhigh, hclose⟩ := exists_near_sqrt hM' hmiddle hε
    have hk_lt : (k : ℚ) < r := lt_of_pow_lt_pow_left₀ 2 hr.le (hbelow'.trans_lt hlow)
    have hr_lt : r < k + 1 / 2 := lt_of_pow_lt_pow_left₀ 2 (by positivity) hhigh
    exact ⟨r, by linarith, hlow.le, hclose, hk_lt, hr_lt⟩
  · have hmiddle : (k + 1 / 2 : ℚ) ^ 2 < M := by
      have hrest : (k * k + k + 1 : ℚ) ≤ M := by exact_mod_cast (by omega : k * k + k + 1 ≤ M)
      linarith
    have hnext : (M : ℚ) < (k + 1) ^ 2 := by
      rw [pow_two]
      exact_mod_cast habove
    obtain ⟨r, hr, hlow, hhigh, hclose⟩ := exists_near_sqrt hM' hnext hε
    have hk_lt : (k : ℚ) + 1 / 2 < r := lt_of_pow_lt_pow_left₀ 2 hr.le (hmiddle.trans hlow)
    have hr_lt : r < k + 1 := lt_of_pow_lt_pow_left₀ 2 (by positivity) hhigh
    exact ⟨r, by linarith, hlow.le, hclose, hk_lt, hr_lt⟩

/-- The leading digit of a root stands at half the place of that of the number. -/
theorem leading_digit_of_root {m : ℕ} {e : ℤ} (hm : 0 < m) (hr : 0 < r)
    (h : (m : ℚ) * 2 ^ e ≤ r ^ 2) : (2 : ℚ) ^ ((totalExponent m e - 1) / 2) ≤ r := by
  have htotal := Binary.totalExponent_eq hm e le_rfl (lt_add_one (m : ℚ))
  have hbelow := Int.zpow_log_le_self (b := 2) one_lt_two (by positivity : (0 : ℚ) < m * 2 ^ e)
  push_cast at hbelow
  refine le_of_pow_le_pow_left₀ two_ne_zero hr.le ?_
  calc ((2 : ℚ) ^ ((totalExponent m e - 1) / 2)) ^ 2
      = 2 ^ ((totalExponent m e - 1) / 2 * 2) := by rw [zpow_mul, zpow_ofNat]
    _ ≤ 2 ^ Int.log 2 ((m : ℚ) * 2 ^ e) := zpow_le_zpow_right₀ one_le_two (by omega)
    _ ≤ m * 2 ^ e := hbelow
    _ ≤ r ^ 2 := h

/-- The square root of a positive number is the integer square root of its significand, with
enough zeros at the end for one rounding. -/
theorem exists_root {m : ℕ} {e : ℤ} (hm : 0 < m) :
    ∃ (j : ℕ) (T : ℤ), e = 2 * T + j ∧
      T ≤ Format.binary32.targetExponent ((totalExponent m e - 1) / 2 + 1) ∧
      UnpackedFloat.sqrt .binary32 (.finite .positive m e hm) =
        .roundWithAccuracy .binary32 .positive (m * 2 ^ j).sqrt T (rootAccuracy (m * 2 ^ j)) := by
  obtain ⟨T, hT⟩ : ∃ T, min (e.ediv 2) (Format.binary32.targetExponent
      ((totalExponent m e + 1).ediv 2)) = T := ⟨_, rfl⟩
  obtain ⟨j, hj⟩ : ∃ j : ℕ, (e - 2 * T).toNat = j := ⟨_, rfl⟩
  have hle : T ≤ e / 2 := hT ▸ min_le_left _ _
  have hplace : (totalExponent m e + 1).ediv 2 = (totalExponent m e - 1) / 2 + 1 := by
    show (totalExponent m e + 1) / 2 = (totalExponent m e - 1) / 2 + 1
    omega
  refine ⟨j, T, by omega, hplace ▸ hT ▸ min_le_right _ _, ?_⟩
  simp only [UnpackedFloat.sqrt, UnpackedFloat.sqrtCore, hT, hj, Nat.shiftLeft_eq, rootAccuracy]

/-- **Square roots.**  The square root of a positive number is rounded once, from a number as close
to it as one likes. -/
theorem isRounded_sqrt {m : ℕ} {e : ℤ} {hm : 0 < m} (hx : value x = .finite .positive m e hm)
    {ε : ℚ} (hε : 0 < ε) :
    ∃ r : ℚ, 0 < r ∧ exact x ≤ r ^ 2 ∧ r ^ 2 ≤ exact x * (1 + ε) ∧
      IsRounded r (Float32.sqrt x) := by
  obtain ⟨-, he, -, -⟩ := bounds_of_value hx
  obtain ⟨j, T, hexponent, hT, hsqrt⟩ := exists_root (e := e) hm
  obtain ⟨r, hr, hlow, hhigh, happrox⟩ :=
    approximates_sqrt (M := m * 2 ^ j) (Nat.mul_pos hm (by positivity)) hε
  have hpos : (0 : ℚ) < r * 2 ^ T := by positivity
  have hvalue : (m * 2 ^ j : ℕ) * ((2 : ℚ) ^ T) ^ 2 = exact x := by
    rw [exact_of_value hx, Binary.apply_positive, hexponent, zpow_add₀ two_ne_zero, zpow_natCast,
      Int.mul_comm 2 T, zpow_mul, zpow_ofNat]
    push_cast
    ring
  have hsquare : exact x ≤ (r * 2 ^ T) ^ 2 := by
    rw [← hvalue, mul_pow]
    gcongr
  have hlead : (2 : ℚ) ^ ((totalExponent m e - 1) / 2) ≤ r * 2 ^ T := by
    rw [exact_of_value hx, Binary.apply_positive] at hsquare
    exact leading_digit_of_root hm hpos hsquare
  have hlast : T ≤ lastExponent .binary32 (r * 2 ^ T) := by
    have hlog := (Int.zpow_le_iff_le_log one_lt_two hpos).mp (by exact_mod_cast hlead)
    refine hT.trans ?_
    rw [lastExponent, Format.targetExponent, Format.targetExponent]
    omega
  have hmin : (2 : ℚ) ^ (Format.binary32.minExponent - 1) < r * 2 ^ T := by
    refine lt_of_lt_of_le (zpow_lt_zpow_right₀ one_lt_two ?_) hlead
    rw [totalExponent]
    show (-150 : ℤ) < _
    omega
  refine ⟨r * 2 ^ T, hpos, hsquare, ?_, ?_⟩
  · rw [← hvalue, mul_pow, mul_right_comm]
    gcongr
  · have hround := SignedRoundsTo.nonzero hpos
      (Binary.roundWithAccuracy_roundsTo .positive happrox (.inl hr) hlast hmin)
    rw [Binary.apply_positive] at hround
    rw [sqrt_eq, hx, hsqrt]
    exact isRounded_ofValue hround

end Spatial.Binary32
