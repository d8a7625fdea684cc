import Mathlib
import Spatial.Proofs.Binary.Error

/-!
# Relative errors

How the errors of several operations of binary32 add up, for positive numbers.

1.  A number within a part of another keeps to it through products and squares, and the parts of
    two steps add up but for their product.
2.  A normal number has all its digits, so that it is not affected by underflow.
3.  The square of a number is rounded once, and the square of a rounded number is off by two
    errors.
4.  The root of a positive number is normal, however small the number is, and so is one divided by
    it.  Its square undoes the number but for four roundings.
-/

namespace Spatial.Binary32

open Float.Model (UnpackedFloat)

/-! ## Relative errors -/

/-- A number is within a part of another. -/
structure Within (δ a b : ℚ) : Prop where
  lower : (1 - δ) * b ≤ a
  upper : a ≤ (1 + δ) * b

namespace Within

variable {δ ε γ a b c k : ℚ}

/-- A relative error from a bound on the distance. -/
theorem of_abs (h : |a - b| ≤ δ * b) : Within δ a b := by
  rw [abs_le] at h
  exact ⟨by linarith, by linarith⟩

/-- The distance that a relative error allows. -/
theorem abs_sub_le (h : Within δ a b) : |a - b| ≤ δ * b := by
  rw [abs_le]
  exact ⟨by linarith [h.lower], by linarith [h.upper]⟩

/-- Relative errors in sequence add up, with their product. -/
theorem trans (h : Within δ a b) (h' : Within ε b c) (hδ : 0 ≤ δ) (hδ_le : δ ≤ 1) (hε : 0 ≤ ε)
    (hc : 0 ≤ c) (hγ : δ + ε + δ * ε ≤ γ) : Within γ a c := by
  have hscaled : (δ + ε + δ * ε) * c ≤ γ * c := mul_le_mul_of_nonneg_right hγ hc
  have hproduct : 0 ≤ δ * ε * c := by positivity
  constructor
  · calc (1 - γ) * c ≤ (1 - δ) * ((1 - ε) * c) := by linarith
      _ ≤ (1 - δ) * b := mul_le_mul_of_nonneg_left h'.lower (by linarith)
      _ ≤ a := h.lower
  · calc a ≤ (1 + δ) * b := h.upper
      _ ≤ (1 + δ) * ((1 + ε) * c) := mul_le_mul_of_nonneg_left h'.upper (by linarith)
      _ ≤ (1 + γ) * c := by linarith

/-- A common factor keeps the relative error. -/
theorem mul_left (h : Within δ a b) (hk : 0 ≤ k) : Within δ (k * a) (k * b) := by
  constructor
  · calc (1 - δ) * (k * b) = k * ((1 - δ) * b) := by ring
      _ ≤ k * a := mul_le_mul_of_nonneg_left h.lower hk
  · calc k * a ≤ k * ((1 + δ) * b) := mul_le_mul_of_nonneg_left h.upper hk
      _ = (1 + δ) * (k * b) := by ring

/-- A relative error taken from the other side. -/
theorem symm (h : Within δ a b) (hδ : 0 ≤ δ) (hb : 0 ≤ b) (hγ : 0 ≤ γ) (hγ_le : γ ≤ 1)
    (hδγ : δ ≤ γ * (1 - δ)) : Within γ b a := by
  have hproduct : 0 ≤ γ * δ := mul_nonneg hγ hδ
  constructor
  · have hfactor : (1 - γ) * (1 + δ) ≤ 1 := by linarith
    calc (1 - γ) * a ≤ (1 - γ) * ((1 + δ) * b) :=
          mul_le_mul_of_nonneg_left h.upper (by linarith)
      _ = (1 - γ) * (1 + δ) * b := by ring
      _ ≤ b := mul_le_of_le_one_left hb hfactor
  · have hfactor : 1 ≤ (1 + γ) * (1 - δ) := by linarith
    calc b ≤ (1 + γ) * (1 - δ) * b := le_mul_of_one_le_left hb hfactor
      _ = (1 + γ) * ((1 - δ) * b) := by ring
      _ ≤ (1 + γ) * a := mul_le_mul_of_nonneg_left h.lower (by linarith)

/-- Squaring doubles a relative error, with its square. -/
theorem sq (h : Within δ a b) (hδ_le : δ ≤ 1) (hb : 0 ≤ b)
    (hγ : 2 * δ + δ ^ 2 ≤ γ) : Within γ (a ^ 2) (b ^ 2) := by
  have hb_sq : 0 ≤ b ^ 2 := by positivity
  have hscaled : (2 * δ + δ ^ 2) * b ^ 2 ≤ γ * b ^ 2 := mul_le_mul_of_nonneg_right hγ hb_sq
  have hsmall : 0 ≤ δ ^ 2 * b ^ 2 := by positivity
  have hlow : 0 ≤ (1 - δ) * b := mul_nonneg (by linarith) hb
  constructor
  · calc (1 - γ) * b ^ 2 ≤ ((1 - δ) * b) ^ 2 := by
          rw [mul_pow]
          linarith
      _ ≤ a ^ 2 := pow_le_pow_left₀ hlow h.lower 2
  · calc a ^ 2 ≤ ((1 + δ) * b) ^ 2 := pow_le_pow_left₀ (hlow.trans h.lower) h.upper 2
      _ ≤ (1 + γ) * b ^ 2 := by
          rw [mul_pow]
          linarith

/-- A positive number is nearer to one than its square, but for what is of second order. -/
theorem of_sq (h : Within δ (a ^ 2) 1) (ha : 0 ≤ a) (hγ : 0 ≤ γ)
    (hδγ : δ + γ ^ 2 ≤ 2 * γ) : Within γ a 1 := by
  obtain ⟨hlow, hhigh⟩ := h
  have hγ_sq : 0 ≤ γ ^ 2 := sq_nonneg γ
  constructor
  · refine le_of_pow_le_pow_left₀ two_ne_zero ha ?_
    calc ((1 - γ) * 1) ^ 2 = 1 - 2 * γ + γ ^ 2 := by ring
      _ ≤ (1 - δ) * 1 := by linarith
      _ ≤ a ^ 2 := hlow
  · refine le_of_pow_le_pow_left₀ two_ne_zero (by linarith) ?_
    calc a ^ 2 ≤ (1 + δ) * 1 := hhigh
      _ ≤ 1 + 2 * γ + γ ^ 2 := by linarith
      _ = ((1 + γ) * 1) ^ 2 := by ring

end Within

variable {x y : Float32} {r w : ℚ}

/-- A rounded positive number is within one part in `2²⁴`, if it is not below the least number with
all its digits. -/
theorem IsRounded.within (h : IsRounded r x) (hx : x.isFinite = true)
    (hr : 2 ^ (-126 : ℤ) ≤ r) : Within (1 / 2 ^ 24) (exact x) r := by
  have hpos : 0 < r := lt_of_lt_of_le (by positivity) hr
  have hclose := h.abs_sub_le_of_le hx (by rwa [abs_of_pos hpos])
  rw [abs_of_pos hpos] at hclose
  exact .of_abs (by linarith)

/-- A finite number with an exact value other than zero is a divisor. -/
theorem isDivisor_of_exact (hx : x.isFinite = true) (h : exact x ≠ 0) : IsDivisor x := by
  refine ⟨hx, ?_⟩
  rw [← Bool.not_eq_true, ← isZero_iff, isZero_iff_exact hx]
  exact h

/-! ## Normal numbers -/

/-- The number is finite and has all its digits. -/
structure IsNormal (x : Float32) : Prop where
  isFinite : x.isFinite = true
  least_le : 2 ^ (-126 : ℤ) ≤ |exact x|

/-- The magnitude of a number is that of its exact value. -/
theorem Magnitude.eq_abs_exact (h : Magnitude r (value x.abs)) : r = |exact x| := by
  rw [value_abs] at h
  cases hx : value x with
  | notANumber | infinity =>
      rw [hx] at h
      cases h
  | zero s =>
      rw [hx] at h
      cases h
      rw [exact, hx, Binary.rational_zero, abs_zero]
  | finite s m e hm =>
      rw [hx] at h
      cases h
      rw [exact_of_value hx, Binary.abs_apply_one_mul s (by positivity)]

/-- The least number with all its digits. -/
theorem magnitude_least : Magnitude ((2 ^ 23 : ℕ) * 2 ^ (-149 : ℤ))
    (value (.ofBits 0x00800000)) :=
  .finite (by decide) (by decide)

/-- The tolerance on squared lengths. -/
theorem magnitude_epsilon :
    Magnitude ((2 ^ 23 : ℕ) * 2 ^ (-46 : ℤ)) (value (Scalar.epsilon : Float32)) :=
  .finite (by decide) (by decide)

/-- A finite number is normal if its magnitude is not below the least normal number. -/
theorem isNormal_of_le (hx : x.isFinite = true) (h : Float32.ofBits 0x00800000 ≤ x.abs) :
    IsNormal x := by
  obtain ⟨r, hr⟩ := exists_magnitude_abs hx
  have hle := magnitude_least.le_of_rank_le hr (le_iff_rank.mp h).2.2
  refine ⟨hx, ?_⟩
  rw [← hr.eq_abs_exact]
  calc (2 : ℚ) ^ (-126 : ℤ) = (2 ^ 23 : ℕ) * 2 ^ (-149 : ℤ) := by norm_num
    _ ≤ r := hle

/-! ## Squares -/

/-- The square of a number is near the square of the exact one, but for what underflows. -/
theorem abs_mul_self_sub_le (hx : x.isFinite = true) (hxx : (x * x).isFinite = true) :
    |exact (x * x) - exact x ^ 2| ≤ exact x ^ 2 / 2 ^ 24 + 2 ^ (-150 : ℤ) := by
  have hclose := (isRounded_mul hx hx).abs_sub_le hxx
  rw [← pow_two, abs_of_nonneg (sq_nonneg (exact x))] at hclose
  exact hclose.trans (max_le_add_of_nonneg (by positivity) (by positivity))

/-- A computed square is not below zero. -/
theorem exact_mul_self_nonneg (hx : x.isFinite = true) (hxx : (x * x).isFinite = true) :
    0 ≤ exact (x * x) :=
  (isRounded_mul hx hx).nonneg hxx (mul_self_nonneg _)

/-- The square of a rounded number of moderate size is near the square of the exact one. -/
theorem abs_sq_sub_le (h : IsRounded w x) (hx : x.isFinite = true) (hw : |w| ≤ 2) :
    |exact x ^ 2 - w ^ 2| ≤ 33 / 2 ^ 28 * w ^ 2 + 2 ^ (-140 : ℤ) := by
  obtain ⟨η, hη⟩ : ∃ η : ℚ, 2 ^ (-150 : ℤ) = η := ⟨_, rfl⟩
  have hη_pos : 0 < η := hη ▸ by positivity
  have hη_le : η ≤ 1 := hη ▸ by norm_num
  have hclose : |exact x - w| ≤ |w| / 2 ^ 24 + η :=
    hη ▸ (h.abs_sub_le hx).trans (max_le_add_of_nonneg (by positivity) (by positivity))
  have hsum : |exact x + w| ≤ 2 * |w| + |exact x - w| := by
    calc |exact x + w| = |2 * w + (exact x - w)| := by ring_nf
      _ ≤ |2 * w| + |exact x - w| := abs_add_le _ _
      _ = 2 * |w| + |exact x - w| := by rw [abs_mul, abs_two]
  have hsq_nonneg : 0 ≤ w ^ 2 := sq_nonneg w
  have hη_mul : η * |w| ≤ η * 2 := mul_le_mul_of_nonneg_left hw hη_pos.le
  have hη_sq : η * η ≤ η := mul_le_of_le_one_left hη_pos.le hη_le
  calc |exact x ^ 2 - w ^ 2| = |exact x - w| * |exact x + w| := by
        rw [← abs_mul]
        ring_nf
    _ ≤ |exact x - w| * (2 * |w| + |exact x - w|) :=
        mul_le_mul_of_nonneg_left hsum (abs_nonneg _)
    _ ≤ (|w| / 2 ^ 24 + η) * (2 * |w| + (|w| / 2 ^ 24 + η)) := by gcongr
    _ = (2 / 2 ^ 24 + 1 / 2 ^ 48) * w ^ 2 + (2 + 2 / 2 ^ 24) * (η * |w|) + η * η := by
        rw [← sq_abs w]
        ring
    _ ≤ 33 / 2 ^ 28 * w ^ 2 + 1024 * η := by linarith
    _ = 33 / 2 ^ 28 * w ^ 2 + 2 ^ (-140 : ℤ) := by
        rw [← hη]
        norm_num

/-- Three squares that are rounded, and added with two more roundings. -/
theorem abs_sum_of_three_sub_le {a b c A B C D S : ℚ} (ha : 0 ≤ a) (hb : 0 ≤ b) (hc : 0 ≤ c)
    (hA : |A - a| ≤ a / 2 ^ 24 + 2 ^ (-150 : ℤ)) (hB : |B - b| ≤ b / 2 ^ 24 + 2 ^ (-150 : ℤ))
    (hC : |C - c| ≤ c / 2 ^ 24 + 2 ^ (-150 : ℤ)) (hD : |D - (A + B)| ≤ (A + B) / 2 ^ 24)
    (hS : |S - (D + C)| ≤ (D + C) / 2 ^ 24) :
    |S - (a + b + c)| ≤ 49 / 2 ^ 28 * (a + b + c + 2 ^ (-126 : ℤ)) := by
  have hleast : (2 : ℚ) ^ (-126 : ℤ) = 2 ^ 24 * 2 ^ (-150 : ℤ) := by norm_num
  have hpos : (0 : ℚ) < 2 ^ (-150 : ℤ) := by positivity
  rw [hleast]
  generalize (2 : ℚ) ^ (-150 : ℤ) = η at *
  rw [abs_le] at *
  obtain ⟨hA, hA'⟩ := hA
  obtain ⟨hB, hB'⟩ := hB
  obtain ⟨hC, hC'⟩ := hC
  obtain ⟨hD, hD'⟩ := hD
  obtain ⟨hS, hS'⟩ := hS
  constructor <;> linarith

/-! ## Roots -/

/-- A number with a positive exact value is finite and positive. -/
theorem exists_value_of_pos {s : Float32} (h : 0 < exact s) :
    ∃ m e hm, value s = .finite .positive m e hm := by
  cases hs : value s with
  | notANumber | infinity | zero =>
      rw [exact, hs] at h
      exact absurd h (lt_irrefl 0)
  | finite t m e hm =>
      cases t with
      | positive => exact ⟨m, e, hm, rfl⟩
      | negative =>
          have hmagnitude : (0 : ℚ) < m * 2 ^ e := by positivity
          rw [exact_of_value hs] at h
          norm_num [UnpackedFloat.Sign.apply] at h
          linarith

/-- A positive number is not below the least one. -/
theorem least_le_exact {s : Float32} (hs : 0 < exact s) : 2 ^ (-149 : ℤ) ≤ exact s := by
  obtain ⟨m, e, hm, hvalue⟩ := exists_value_of_pos hs
  obtain ⟨-, he, -, -⟩ := bounds_of_value hvalue
  have hone : (1 : ℚ) ≤ m := by exact_mod_cast hm
  rw [exact_of_value hvalue, Binary.apply_positive]
  calc (2 : ℚ) ^ (-149 : ℤ) ≤ 2 ^ e := zpow_le_zpow_right₀ one_le_two he
    _ ≤ m * 2 ^ e := le_mul_of_one_le_left (by positivity) hone

/-- A number with all its digits that is not below zero is positive. -/
theorem IsNormal.exact_pos {s : Float32} (hs : IsNormal s) (hnonneg : 0 ≤ exact s) :
    0 < exact s := by
  have hleast := hs.least_le
  rw [abs_of_nonneg hnonneg] at hleast
  exact lt_of_lt_of_le (by positivity) hleast

/-- The root of a positive number is far from both ends, and its square is the number but for two
roundings. -/
theorem sqrt_within {s : Float32} (hs : 0 < exact s) :
    (Float32.sqrt s).isFinite = true ∧ 2 ^ (-76 : ℤ) ≤ exact (Float32.sqrt s) ∧
      exact (Float32.sqrt s) ≤ 2 ^ (66 : ℤ) ∧
      Within (129 / 2 ^ 30) (exact (Float32.sqrt s) ^ 2) (exact s) := by
  have hs_le : exact s ≤ 2 ^ (128 : ℤ) :=
    ((le_abs_self _).trans (abs_exact_le_largest s)).trans (sub_le_self _ (by positivity))
  obtain ⟨m, e, hm, hvalue⟩ := exists_value_of_pos hs
  obtain ⟨r, hr, hlow, hhigh, hrounded⟩ := isRounded_sqrt hvalue (ε := 1 / 2 ^ 40) (by norm_num)
  have hr_low : (2 : ℚ) ^ (-75 : ℤ) ≤ r := by
    refine le_of_pow_le_pow_left₀ two_ne_zero hr.le ?_
    calc ((2 : ℚ) ^ (-75 : ℤ)) ^ 2 ≤ 2 ^ (-149 : ℤ) := by norm_num
      _ ≤ r ^ 2 := (least_le_exact hs).trans hlow
  have hr_high : r ≤ (2 : ℚ) ^ (65 : ℤ) := by
    refine le_of_pow_le_pow_left₀ two_ne_zero (by positivity) ?_
    calc r ^ 2 ≤ 2 ^ (128 : ℤ) * (1 + 1 / 2 ^ 40) :=
          hhigh.trans (mul_le_mul_of_nonneg_right hs_le (by norm_num))
      _ ≤ (2 ^ (65 : ℤ)) ^ 2 := by norm_num
  have hfinite : (Float32.sqrt s).isFinite = true := by
    refine hrounded.isFinite ?_
    rw [abs_of_pos hr]
    exact hr_high.trans_lt (by norm_num)
  have hwithin : Within (1 / 2 ^ 24) (exact (Float32.sqrt s)) r := by
    refine hrounded.within hfinite ?_
    calc (2 : ℚ) ^ (-126 : ℤ) ≤ 2 ^ (-75 : ℤ) := zpow_le_zpow_right₀ one_le_two (by norm_num)
      _ ≤ r := hr_low
  refine ⟨hfinite, ?_, ?_, ?_⟩
  · calc (2 : ℚ) ^ (-76 : ℤ) ≤ (1 - 1 / 2 ^ 24) * 2 ^ (-75 : ℤ) := by norm_num
      _ ≤ (1 - 1 / 2 ^ 24) * r := mul_le_mul_of_nonneg_left hr_low (by norm_num)
      _ ≤ exact (Float32.sqrt s) := hwithin.lower
  · calc exact (Float32.sqrt s) ≤ (1 + 1 / 2 ^ 24) * r := hwithin.upper
      _ ≤ (1 + 1 / 2 ^ 24) * 2 ^ (65 : ℤ) := mul_le_mul_of_nonneg_left hr_high (by norm_num)
      _ ≤ 2 ^ (66 : ℤ) := by norm_num
  · have hsquare : Within (1 / 2 ^ 40) (r ^ 2) (exact s) := ⟨by linarith, by linarith⟩
    have hsq := hwithin.sq (γ := 2 / 2 ^ 24 + 1 / 2 ^ 48) (by norm_num) hr.le (by norm_num)
    exact hsq.trans hsquare (by norm_num) (by norm_num) (by norm_num) hs.le (by norm_num)

/-- One divided by the root of a positive number: its square undoes the number but for four
roundings. -/
theorem reciprocal_sqrt {s : Float32} (hs : 0 < exact s) :
    (1 / Float32.sqrt s).isFinite = true ∧ 0 < exact (1 / Float32.sqrt s) ∧
      Within (65 / 2 ^ 28) (exact (1 / Float32.sqrt s) ^ 2 * exact s) 1 := by
  obtain ⟨hfinite, hlow, hhigh, hsquare⟩ := sqrt_within hs
  generalize Float32.sqrt s = y at *
  have hy_pos : 0 < exact y := lt_of_lt_of_le (by positivity) hlow
  have hquotient_low : (2 : ℚ) ^ (-66 : ℤ) ≤ 1 / exact y := by
    rw [le_div_iff₀ hy_pos]
    calc (2 : ℚ) ^ (-66 : ℤ) * exact y ≤ 2 ^ (-66 : ℤ) * 2 ^ (66 : ℤ) := by gcongr
      _ = 1 := by norm_num
  have hquotient_high : 1 / exact y ≤ 2 ^ (76 : ℤ) := by
    rw [div_le_iff₀ hy_pos]
    calc (1 : ℚ) = 2 ^ (76 : ℤ) * 2 ^ (-76 : ℤ) := by norm_num
      _ ≤ 2 ^ (76 : ℤ) * exact y := by gcongr
  have hquotient_pos : 0 < 1 / exact y := by positivity
  have hrounded : IsRounded (1 / exact y) (1 / y) := by
    have hdiv := isRounded_div isFinite_one (isDivisor_of_exact hfinite hy_pos.ne')
    rwa [exact_one] at hdiv
  have hk_finite : (1 / y).isFinite = true := by
    refine hrounded.isFinite ?_
    rw [abs_of_pos hquotient_pos]
    exact hquotient_high.trans_lt (by norm_num)
  generalize 1 / y = k at *
  have hk_within : Within (1 / 2 ^ 24) (exact k) (1 / exact y) := by
    refine hrounded.within hk_finite ?_
    calc (2 : ℚ) ^ (-126 : ℤ) ≤ 2 ^ (-66 : ℤ) := zpow_le_zpow_right₀ one_le_two (by norm_num)
      _ ≤ 1 / exact y := hquotient_low
  have hk_pos : 0 < exact k :=
    lt_of_lt_of_le (mul_pos (by norm_num) hquotient_pos) hk_within.lower
  refine ⟨hk_finite, hk_pos, ?_⟩
  have hproduct : Within (1 / 2 ^ 24) (exact y * exact k) 1 := by
    have hscaled := hk_within.mul_left hy_pos.le
    rwa [mul_one_div_cancel hy_pos.ne'] at hscaled
  have hproduct_sq := hproduct.sq (γ := 129 / 2 ^ 30) (by norm_num) zero_le_one (by norm_num)
  have hback : Within (130 / 2 ^ 30) (exact s) (exact y ^ 2) :=
    hsquare.symm (by norm_num) hs.le (by norm_num) (by norm_num) (by norm_num)
  have hscaled := hback.mul_left (sq_nonneg (exact k))
  have hsame : exact k ^ 2 * exact y ^ 2 = (exact y * exact k) ^ 2 := by ring
  rw [hsame] at hscaled
  rw [one_pow] at hproduct_sq
  exact hscaled.trans hproduct_sq (by norm_num) (by norm_num) (by norm_num) zero_le_one
    (by norm_num)

/-- A product with a factor, where the exact one is of moderate size. -/
theorem isFinite_mul_of_sq_le {x k : Float32} (hx : x.isFinite = true) (hk : k.isFinite = true)
    (h : (exact x * exact k) ^ 2 ≤ 2) :
    (x * k).isFinite = true ∧ |exact (x * k) ^ 2 - (exact x * exact k) ^ 2| ≤
      33 / 2 ^ 28 * (exact x * exact k) ^ 2 + 2 ^ (-140 : ℤ) := by
  have hrounded := isRounded_mul hx hk
  have hle : |exact x * exact k| ≤ 2 := abs_le_of_sq_le_sq (by linarith) zero_le_two
  have hfinite : (x * k).isFinite = true := hrounded.isFinite (hle.trans_lt (by norm_num))
  exact ⟨hfinite, abs_sq_sub_le hrounded hfinite hle⟩

end Spatial.Binary32
