import Mathlib
import Spatial.Proofs.Binary.Componentwise
import Spatial.Proofs.Binary.Relative

/-!
# Lengths in binary32

A squared length is the sum of squares that are rounded, and each addition rounds again.

1.  None of the squares is a negative zero and none of the partial sums is, so a squared length is
    zero, positive or infinite, and so is its root.
2.  A sum is not rounded below one of its terms, since the term is a number of the format.  By
    induction no square is above the sum of them all, in however many dimensions.
3.  So no component is much above the length, even where the squares have lost most of their
    digits.  Where all of them are lost the squared length is zero.
-/

namespace Spatial.Binary32

open Float.Model (UnpackedFloat)
open Float.Model.UnpackedFloat (Sign)
open Binary (RoundsTo)

variable {x y s t : Float32} {q : ℚ} {u : UnpackedFloat}

/-! ## Numbers without a sign -/

/-- The number is zero, which has no sign then, or positive, or infinite. -/
inductive IsExtent : Float32 → Prop
  | zero : IsExtent 0
  | positive {x : Float32} (h : 0 < exact x) : IsExtent x
  | infinite {x : Float32} (h : value x = .infinity .positive) : IsExtent x

/-- A number with a positive exact value is finite. -/
theorem isFinite_of_exact_pos (h : 0 < exact x) : x.isFinite = true := by
  obtain ⟨m, e, hm, hx⟩ := exists_value_of_pos h
  rw [isFinite_eq, hx]
  rfl

/-- The exact value of zero. -/
theorem exact_zero : exact 0 = 0 := by
  rw [exact, value_zero, Binary.rational_zero]

/-- A positive number is rounded to an extent, also if that is infinite. -/
theorem isExtent_of_roundsTo (hu : RoundsTo .binary32 .positive q u) (hx : value x = saturate u) :
    IsExtent x := by
  cases hu with
  | @mk n m e hm =>
      rw [saturate] at hx
      split_ifs at hx
      · refine .positive ?_
        rw [exact_of_value hx, Binary.apply_positive]
        positivity
      · exact .infinite hx

/-- A positive sum of finite numbers. -/
theorem IsRoundedSum.roundsTo (h : IsRoundedSum q x) (hq : 0 < q) :
    ∃ u, RoundsTo .binary32 .positive q u ∧ value x = saturate u := by
  obtain ⟨u, hu, hx⟩ := h
  cases hu with
  | zero => exact absurd hq (lt_irrefl 0)
  | @nonzero s r _ hr hu =>
      cases s with
      | positive =>
          rw [Binary.apply_positive]
          exact ⟨u, hu, hx⟩
      | negative =>
          norm_num [Sign.apply] at hq
          exact absurd hq hr.not_gt

/-- The square of a zero of either sign. -/
theorem IsZero.mul_self (h : IsZero x) : x * x = 0 := by
  obtain ⟨s, h⟩ := h
  apply value_injective
  rw [mul_eq, h, value_zero]
  cases s <;> exact value_ofValue_zero _

/-- The square of a finite number. -/
theorem isExtent_mul_self (hx : x.isFinite = true) : IsExtent (x * x) := by
  rcases finite_cases hx with hzero | ⟨s, m, e, hm, hvx⟩
  · rw [IsZero.mul_self hzero]
    exact .zero
  · have hsign : s * s = .positive := by cases s <;> rfl
    have hcases := value_mul_of_finite hvx hvx
    rw [hsign, ← value_zero] at hcases
    rcases hcases with ⟨-, hvalue⟩ | ⟨u, hu, hvalue⟩
    · rw [value_injective hvalue]
      exact .zero
    · exact isExtent_of_roundsTo hu hvalue

namespace IsExtent

/-- An extent is not below zero. -/
theorem nonneg (h : IsExtent x) : 0 ≤ exact x := by
  cases h with
  | zero => exact exact_zero.ge
  | positive h => exact h.le
  | infinite h => rw [exact, h]; exact le_rfl

/-- A number with a positive exact value is not a zero. -/
theorem not_isZero_of_pos (h : 0 < exact x) : ¬IsZero x := by
  rw [isZero_iff_exact (isFinite_of_exact_pos h)]
  exact h.ne'

/-- Zero plus an extent is the extent, bit for bit. -/
theorem zero_add (hx : IsExtent x) : 0 + x = x := by
  cases hx with
  | zero => decide +kernel
  | positive h =>
      exact (agree_zero_add x isZero_zero).eq_of_not_isZero (not_isZero_of_pos h)
  | infinite h =>
      refine (agree_zero_add x isZero_zero).eq_of_not_isZero ?_
      rintro ⟨s, hs⟩
      rw [h] at hs
      cases hs

/-- Infinity plus an extent is infinity. -/
theorem infinite_add (hx : value x = .infinity .positive) (hy : IsExtent y) :
    value (x + y) = .infinity .positive := by
  rw [add_eq, hx]
  cases hy with
  | zero => rw [value_zero]; exact value_ofValue_infinity _
  | positive h =>
      obtain ⟨m, e, hm, hvy⟩ := exists_value_of_pos h
      rw [hvy]
      exact value_ofValue_infinity _
  | infinite h => rw [h]; exact value_ofValue_infinity _

/-- A sum of extents is an extent. -/
theorem add (hx : IsExtent x) (hy : IsExtent y) : IsExtent (x + y) := by
  cases hx with
  | zero => rwa [hy.zero_add]
  | infinite hx => exact .infinite (infinite_add hx hy)
  | positive hx =>
      cases hy with
      | zero =>
          rw [Binary32.add_comm, zero_add (.positive hx)]
          exact .positive hx
      | infinite hy =>
          rw [Binary32.add_comm]
          exact .infinite (infinite_add hy (.positive hx))
      | positive hy =>
          have hsum := isRoundedSum_add (isFinite_of_exact_pos hx) (isFinite_of_exact_pos hy)
          obtain ⟨u, hu, hvalue⟩ := hsum.roundsTo (add_pos hx hy)
          exact isExtent_of_roundsTo hu hvalue

/-- A finite sum is not below its terms. -/
theorem le_add (hx : IsExtent x) (hy : IsExtent y) (hxy : (x + y).isFinite = true) :
    exact x ≤ exact (x + y) := by
  obtain ⟨hx_finite, hy_finite⟩ := isFinite_of_add hxy
  rcases hx.nonneg.eq_or_lt with hzero | hpos
  · rw [← hzero]
    exact (hx.add hy).nonneg
  · obtain ⟨m, e, hm, hvx⟩ := exists_value_of_pos hpos
    obtain ⟨-, -, -, hcanonical⟩ := bounds_of_value hvx
    obtain ⟨u, hu, hvalue⟩ := (isRoundedSum_add hx_finite hy_finite).roundsTo
      (add_pos_of_pos_of_nonneg hpos hy.nonneg)
    have hself := RoundsTo.self .positive hm hcanonical
    have hleast := least_le_exact hpos
    rw [exact_of_value hvx, Binary.apply_positive] at hu hleast ⊢
    have hmin : (2 : ℚ) ^ (Float.Model.Format.binary32.minExponent - 1) < m * 2 ^ e :=
      lt_of_lt_of_le (zpow_lt_zpow_right₀ one_lt_two (by decide)) hleast
    cases u with
    | notANumber | infinity | zero => cases hu
    | finite t n f hn =>
        obtain rfl : t = .positive := by cases hu; rfl
        rw [isFinite_eq, hvalue, saturate] at hxy
        split_ifs at hxy with hf
        · rw [saturate, if_pos hf] at hvalue
          rw [exact_of_value hvalue, Binary.apply_positive]
          exact hself.value_le hu hmin (le_add_of_nonneg_right hy.nonneg)
        · cases hxy

/-- **Sums.**  A sum of numbers without a sign has none either, and if it is finite then it is not
below any of them. -/
theorem foldl_add {ts : List Float32} (hx : IsExtent x) (hts : ∀ t ∈ ts, IsExtent t) :
    IsExtent (ts.foldl (· + ·) x) ∧ ((ts.foldl (· + ·) x).isFinite = true →
      ∀ t ∈ x :: ts, t.isFinite = true ∧ exact t ≤ exact (ts.foldl (· + ·) x)) := by
  induction ts generalizing x with
  | nil =>
      refine ⟨hx, fun hfinite t ht => ?_⟩
      obtain rfl := List.mem_singleton.mp ht
      exact ⟨hfinite, le_rfl⟩
  | cons y ts ih =>
      have hy : IsExtent y := hts y List.mem_cons_self
      obtain ⟨hsum, hterms⟩ := ih (hx.add hy) fun t ht => hts t (List.mem_cons_of_mem y ht)
      refine ⟨hsum, fun hfinite t ht => ?_⟩
      obtain ⟨hxy, hxy_le⟩ := hterms hfinite (x + y) List.mem_cons_self
      obtain ⟨hx_finite, hy_finite⟩ := isFinite_of_add hxy
      simp only [List.mem_cons] at ht
      rcases ht with rfl | rfl | ht
      · exact ⟨hx_finite, (le_add hx hy hxy).trans hxy_le⟩
      · rw [Binary32.add_comm] at hxy
        have hy_le := le_add hy hx hxy
        rw [Binary32.add_comm] at hy_le
        exact ⟨hy_finite, hy_le.trans hxy_le⟩
      · exact hterms hfinite t (List.mem_cons_of_mem _ ht)

/-- A sum of extents is an extent, and where it is finite no term exceeds it. -/
theorem sumLeft {ts : List Float32} (hts : ∀ t ∈ ts, IsExtent t) :
    IsExtent (Components.sumLeft ts) ∧ ((Components.sumLeft ts).isFinite = true →
      ∀ t ∈ ts, t.isFinite = true ∧ exact t ≤ exact (Components.sumLeft ts)) := by
  cases ts with
  | nil => exact ⟨.zero, fun _ _ ht => absurd ht List.not_mem_nil⟩
  | cons t ts =>
      exact foldl_add (hts t List.mem_cons_self) fun t' ht => hts t' (List.mem_cons_of_mem t ht)

/-- A sum of positive zeros is the positive zero. -/
theorem sumLeft_eq_zero {ts : List Float32} (hts : ∀ t ∈ ts, t = 0) :
    Components.sumLeft ts = 0 := by
  have hfold : ts.foldl (· + ·) 0 = (0 : Float32) := by
    induction ts with
    | nil => rfl
    | cons t ts ih =>
        rw [List.foldl_cons, hts t List.mem_cons_self, zero.zero_add]
        exact ih fun t' ht => hts t' (List.mem_cons_of_mem t ht)
  cases ts with
  | nil => rfl
  | cons t ts =>
      rw [hts t List.mem_cons_self]
      rw [List.foldl_cons, hts t List.mem_cons_self, zero.zero_add] at hfold
      exact hfold

end IsExtent

/-! ## Roots -/

theorem sqrt_zero : Float32.sqrt 0 = 0 := by decide +kernel

/-- The root of infinity is infinity. -/
theorem value_sqrt_infinity (hs : value s = .infinity .positive) :
    value (Float32.sqrt s) = .infinity .positive := by
  rw [sqrt_eq, hs]
  exact value_ofValue_infinity _

/-- The root of a positive number is a divisor, as a root does not underflow. -/
theorem isDivisor_sqrt (hs : 0 < exact s) : IsDivisor (Float32.sqrt s) := by
  obtain ⟨hfinite, hleast, -⟩ := sqrt_within hs
  have hpos : 0 < exact (Float32.sqrt s) := lt_of_lt_of_le (by positivity) hleast
  exact isDivisor_of_exact hfinite hpos.ne'

/-- Infinity is not zero. -/
theorem beq_zero_of_infinity (hx : value x = .infinity .positive) : (x == 0) = false := by
  rw [beq_eq, hx, value_zero]
  rfl

/-- A finite number is not infinite. -/
theorem isInf_of_isFinite (hx : x.isFinite = true) : x.isInf = false := by
  rw [Bool.eq_false_iff]
  intro hinf
  obtain ⟨s, hs⟩ := exists_infinity hinf
  rw [isFinite_eq, hs] at hx
  cases hx

/-! What the root of a number without a sign says of the number. -/

namespace IsExtent

/-- An extent with a root of zero is zero. -/
theorem eq_zero_of_sqrt (h : IsExtent s) (hroot : (Float32.sqrt s == 0) = true) : s = 0 := by
  cases h with
  | zero => rfl
  | positive h =>
      rw [(isDivisor_sqrt h).ne_zero] at hroot
      cases hroot
  | infinite h =>
      rw [beq_zero_of_infinity (value_sqrt_infinity h)] at hroot
      cases hroot

/-- An extent with an infinite root is infinite. -/
theorem value_of_sqrt (h : IsExtent s) (hroot : (Float32.sqrt s).isInf = true) :
    value s = .infinity .positive := by
  cases h with
  | zero =>
      rw [sqrt_zero, isInf_of_isFinite isFinite_zero] at hroot
      cases hroot
  | positive h =>
      rw [isInf_of_isFinite (isDivisor_sqrt h).isFinite] at hroot
      cases hroot
  | infinite h => exact h

/-- An extent with any other root is a positive number. -/
theorem pos_of_sqrt (h : IsExtent s) (hzero : (Float32.sqrt s == 0) = false)
    (hinf : (Float32.sqrt s).isInf = false) : 0 < exact s := by
  cases h with
  | zero => exact absurd (sqrt_zero ▸ hzero) nofun
  | positive h => exact h
  | infinite h =>
      have hroot : (value (Float32.sqrt s)).isInf = false := hinf
      rw [value_sqrt_infinity h] at hroot
      cases hroot

end IsExtent

/-- A number whose square is in a sum is not much above the root of the sum. -/
theorem sq_le_of_square_le (hx : x.isFinite = true) (hxx : (x * x).isFinite = true)
    (hle : exact (x * x) ≤ exact s) (hs : 0 < exact s) : exact x ^ 2 ≤ 8 / 5 * exact s := by
  have hclose := (abs_le.mp (abs_mul_self_sub_le hx hxx)).1
  have hleast := least_le_exact hs
  have hhalf : (2 : ℚ) ^ (-149 : ℤ) = 2 * 2 ^ (-150 : ℤ) := by norm_num
  rw [hhalf] at hleast
  generalize (2 : ℚ) ^ (-150 : ℤ) = η at *
  linarith

end Spatial.Binary32

namespace Spatial.Components

open Binary32 (IsExtent exact sqrt_zero)

variable {F : Type → Type} [Components F] {v : F Float32} {x : Float32}

/-- The squares of finite components are extents. -/
theorem isExtent_squares (hv : isFinite v = true) :
    ∀ t ∈ (toList v).map fun x => x * x, IsExtent t := by
  intro t ht
  obtain ⟨x, hx, rfl⟩ := List.mem_map.mp ht
  exact Binary32.isExtent_mul_self (isFinite_of_mem hv hx)

variable [Pointwise F]

/-- The squared length is the sum of the squares, added from the left. -/
theorem lengthSquared_eq_sumLeft (v : F Float32) :
    lengthSquared v = sumLeft ((toList v).map fun x => x * x) := by
  rw [lengthSquared, dot, mul, Pointwise.toList_zipWith, List.zipWith_self]

/-- The squared length of a finite value is an extent. -/
theorem isExtent_lengthSquared (hv : isFinite v = true) : IsExtent (lengthSquared v) := by
  rw [lengthSquared_eq_sumLeft]
  exact (IsExtent.sumLeft (isExtent_squares hv)).1

/-- No component is much above the length. -/
theorem sq_le_lengthSquared (hv : isFinite v = true) (hs : 0 < exact (lengthSquared v))
    (hx : x ∈ toList v) : exact x ^ 2 ≤ 8 / 5 * exact (lengthSquared v) := by
  have hfinite := Binary32.isFinite_of_exact_pos hs
  have hsquare : (x * x).isFinite = true ∧ exact (x * x) ≤ exact (lengthSquared v) := by
    rw [lengthSquared_eq_sumLeft] at hfinite ⊢
    exact (IsExtent.sumLeft (isExtent_squares hv)).2 hfinite _ (List.mem_map_of_mem hx)
  exact Binary32.sq_le_of_square_le (isFinite_of_mem hv hx) hsquare.1 hsquare.2 hs

/-- The length of a value whose components are zeros. -/
theorem length_of_zeros (hv : ∀ x ∈ toList v, (x == 0) = true) : length v = 0 := by
  have hsquares : ∀ t ∈ (toList v).map fun x => x * x, t = 0 := by
    intro t ht
    obtain ⟨x, hx, rfl⟩ := List.mem_map.mp ht
    exact (Binary32.isZero_iff.mpr (hv x hx)).mul_self
  rw [length, lengthSquared_eq_sumLeft, IsExtent.sumLeft_eq_zero hsquares]
  exact sqrt_zero

/-- A length that is zero is the positive zero. -/
theorem length_eq_zero (hv : isFinite v = true) (h : (length v == 0) = true) : length v = 0 := by
  have hsquared := (isExtent_lengthSquared hv).eq_zero_of_sqrt h
  rw [length, hsquared]
  exact sqrt_zero

end Spatial.Components
