import Mathlib
import Spatial.Proofs.Exact

/-!
# Lengths and right angles

The length of a vector is the root of its scalar product with itself, which is
never below zero: lengths have a value whatever the vector.  A direction is a
vector divided by its length, so it has a value exactly where the length is not
zero.  It is then a unit vector and at a right angle to whatever the vector was
at a right angle to.

The vector product of two vectors is at a right angle to both, and its squared
length is what the scalar product leaves of the product of the squared lengths.
It is zero only where one of the two is a multiple of the other.
-/

namespace Spatial

open Components (dot length lengthSquared normalize)

namespace Components

/-- A value of length one. -/
def UnitLength {F : Type → Type} [Components F] {K : Type} [ExactScalar K] (u : F K) : Prop :=
  lengthSquared u = 1

/-- A length is what gives the squared length when it is squared. -/
theorem length_of_lengthSquared {F : Type → Type} [Components F] {u : F ℝ} {a : ℝ}
    (ha : 0 ≤ a) (h : lengthSquared u = a * a) : length u = a := by
  calc length u = Real.sqrt (a * a) := congrArg Real.sqrt h
    _ = a := Real.sqrt_mul_self ha

end Components

open Components (UnitLength)

namespace Vec3

section Products

variable {K : Type} [ExactScalar K]

/-- The scalar product goes both ways. -/
theorem dot_comm (u v : Vec3 K) : dot u v = dot v u := by
  simp only [dot_eq]
  ring

/-- A quotient is taken out of a scalar product. -/
theorem dot_divRight (u v : Vec3 K) (s : K) : dot u (v / s) = dot u v / s := by
  simp only [dot_eq, divRight_eq]
  ring

/-- A fourth component of zero does not count in a scalar product. -/
theorem dot_extend_zero (u v : Vec3 K) : dot (u.extend 0) (v.extend 0) = dot u v := by
  simp only [Vec4.dot_eq, dot_eq, extend]
  ring

/-- A vector product is across its left factor. -/
theorem dot_cross_left (u v : Vec3 K) : dot u (u.cross v) = 0 := by
  simp only [dot_eq, cross]
  ring

/-- A vector product is across its right factor. -/
theorem dot_cross_right (u v : Vec3 K) : dot v (u.cross v) = 0 := by
  simp only [dot_eq, cross]
  ring

/-- The squared length of a vector product, from the scalar products of its factors. -/
theorem lengthSquared_cross (u v : Vec3 K) :
    lengthSquared (u.cross v) =
      lengthSquared u * lengthSquared v - dot u v * dot u v := by
  simp only [lengthSquared, dot_eq, cross]
  ring

/-- A quotient is taken out of the right side of a vector product. -/
theorem cross_divRight (u v : Vec3 K) (s : K) : u.cross (v / s) = u.cross v / s := by
  simp only [cross, divRight_eq]
  ext <;> ring

/-- A vector times a squared length, by its parts along another vector and at a right
angle to that. -/
theorem lengthSquared_mulLeft (u v : Vec3 K) :
    lengthSquared v * u = dot u v * v + v.cross (u.cross v) := by
  simp only [lengthSquared, dot_eq, cross, mulLeft_eq, add_eq]
  ext <;> ring

/-- The difference of different vectors is not zero. -/
theorem sub_ne_zero {u v : Vec3 K} (h : u ≠ v) : u - v ≠ zero := by
  intro hzero
  rw [sub_eq] at hzero
  obtain ⟨hx, hy, hz⟩ := Vec3.mk.inj hzero
  exact h (Vec3.ext (sub_eq_zero.mp hx) (sub_eq_zero.mp hy) (sub_eq_zero.mp hz))

end Products

/-- A squared length is not negative. -/
theorem lengthSquared_nonneg (v : Vec3 ℝ) : 0 ≤ lengthSquared v := by
  simp only [lengthSquared, dot_eq]
  linarith [mul_self_nonneg v.x, mul_self_nonneg v.y, mul_self_nonneg v.z]

/-- A length is not negative. -/
theorem length_nonneg (v : Vec3 ℝ) : 0 ≤ length v := Real.sqrt_nonneg _

/-- The square of the length is the squared length. -/
theorem length_mul_self (v : Vec3 ℝ) : length v * length v = lengthSquared v :=
  Real.mul_self_sqrt (lengthSquared_nonneg v)

/-- A vector of unit length has length one. -/
theorem length_of_unitLength {v : Vec3 ℝ} (h : UnitLength v) : length v = 1 :=
  Components.length_of_lengthSquared zero_le_one (h.trans (mul_one 1).symm)

/-- A factor stretches a length by its magnitude. -/
theorem length_mulLeft_abs (s : ℝ) (v : Vec3 ℝ) : length (s * v) = |s| * length v := by
  refine Components.length_of_lengthSquared (mul_nonneg (abs_nonneg s) (length_nonneg v)) ?_
  calc lengthSquared (s * v) = s * s * lengthSquared v := by
        simp only [lengthSquared, dot_eq, mulLeft_eq]
        ring
    _ = |s| * length v * (|s| * length v) := by
        rw [← abs_mul_abs_self s, ← length_mul_self]
        ring

/-- A factor that is not negative scales the length. -/
theorem length_mulLeft {s : ℝ} (hs : 0 ≤ s) (v : Vec3 ℝ) : length (s * v) = s * length v := by
  rw [length_mulLeft_abs, abs_of_nonneg hs]

/-- Only the zero vector has no length. -/
theorem lengthSquared_eq_zero_iff (v : Vec3 ℝ) : lengthSquared v = 0 ↔ v = zero := by
  constructor
  · intro h
    replace h : v.x * v.x + v.y * v.y + v.z * v.z = 0 := h
    have hx := mul_self_nonneg v.x
    have hy := mul_self_nonneg v.y
    have hz := mul_self_nonneg v.z
    exact Vec3.ext (mul_self_eq_zero.mp (by linarith)) (mul_self_eq_zero.mp (by linarith))
      (mul_self_eq_zero.mp (by linarith))
  · rintro rfl
    simp [lengthSquared, dot_eq, zero, Components.splat]

/-- A vector of unit length is not zero. -/
theorem ne_zero_of_unitLength {v : Vec3 ℝ} (h : UnitLength v) : v ≠ zero := by
  intro hzero
  have hsquared : lengthSquared v = 0 := (lengthSquared_eq_zero_iff v).mpr hzero
  have hone : (1 : ℝ) = 0 := h.symm.trans hsquared
  exact one_ne_zero hone

/-- A vector has a length unless it is zero. -/
theorem length_pos {v : Vec3 ℝ} (h : v ≠ zero) : 0 < length v := by
  have hsquared : lengthSquared v ≠ 0 := mt (lengthSquared_eq_zero_iff v).mp h
  exact Real.sqrt_pos.mpr (lt_of_le_of_ne (lengthSquared_nonneg v) hsquared.symm)

/-- The distance is the same from either end. -/
theorem length_sub_comm (u v : Vec3 ℝ) : length (u - v) = length (v - u) := by
  have hsquared : lengthSquared (u - v) = lengthSquared (v - u) := by
    simp only [lengthSquared, dot_eq, sub_eq]
    ring
  exact congrArg Real.sqrt hsquared

/-- A vector with nothing at a right angle to another is a multiple of it. -/
theorem eq_mulLeft_of_cross {u v : Vec3 ℝ} (hv : v ≠ zero) (h : u.cross v = zero) :
    u = dot u v / lengthSquared v * v := by
  have hsquared : lengthSquared v ≠ 0 := mt (lengthSquared_eq_zero_iff v).mp hv
  have hparts := lengthSquared_mulLeft u v
  rw [h] at hparts
  simp only [cross, zero, Components.splat, mulLeft_eq, add_eq, mul_zero, sub_zero, add_zero,
    Vec3.mk.injEq] at hparts
  obtain ⟨hx, hy, hz⟩ := hparts
  rw [mulLeft_eq]
  ext <;> field_simp <;> linarith

/-- A fourth component of zero does not count in a length. -/
theorem length_extend_zero (v : Vec3 ℝ) : length (v.extend 0) = length v :=
  congrArg Real.sqrt (dot_extend_zero v v)

theorem normalize_eq (v : Vec3 ℝ) : normalize v = v / length v := rfl

/-- A vector of some length divided by it is a unit vector. -/
theorem unitLength_normalize {v : Vec3 ℝ} (h : 0 < length v) : UnitLength (normalize v) := by
  have hne : length v ≠ 0 := h.ne'
  calc lengthSquared (normalize v)
      = lengthSquared v / (length v * length v) := by
        simp only [normalize_eq, lengthSquared, dot_eq, divRight_eq]
        field_simp
    _ = 1 := by
        rw [← length_mul_self]
        exact div_self (mul_ne_zero hne hne)

/-- A vector is its length times its direction. -/
theorem length_mulLeft_normalize {v : Vec3 ℝ} (h : 0 < length v) :
    length v * normalize v = v := by
  simp only [normalize_eq, mulLeft_eq, divRight_eq]
  ext <;> exact mul_div_cancel₀ _ h.ne'

/-- The vector product with a direction has a length where one vector is no multiple of
the other. -/
theorem length_cross_normalize_pos {u v : Vec3 ℝ} (hv : v ≠ zero) (hu : ∀ s : ℝ, u ≠ s * v) :
    0 < length (u.cross (normalize v)) := by
  have hlength : length v ≠ 0 := (length_pos hv).ne'
  have hcomponent {a : ℝ} (h : a / length v = 0) : a = 0 :=
    (div_eq_zero_iff.mp h).resolve_right hlength
  apply length_pos
  intro hzero
  rw [normalize_eq, cross_divRight, divRight_eq] at hzero
  obtain ⟨hx, hy, hz⟩ := Vec3.mk.inj hzero
  have hcross : u.cross v = zero := Vec3.ext (hcomponent hx) (hcomponent hy) (hcomponent hz)
  exact hu _ (eq_mulLeft_of_cross hv hcross)

/-- Normalising keeps a right angle. -/
theorem dot_normalize {u v : Vec3 ℝ} (h : dot u v = 0) : dot u (normalize v) = 0 := by
  rw [normalize_eq, dot_divRight, h, zero_div]

/-- No length is the root of a number below zero. -/
theorem length_checked (v : Vec3 ℝ) : length (Components.checked v) = .value (length v) :=
  Checked.sqrt_value (lengthSquared_nonneg v)

/-- Normalising a vector of some length divides by no zero. -/
theorem normalize_checked {v : Vec3 ℝ} (h : 0 < length v) :
    normalize (Components.checked v) = Components.checked (normalize v) := by
  have hquotient (a : ℝ) : Checked.value a / .value (length v) = .value (a / length v) :=
    Checked.value_div_value h.ne'
  calc normalize (Components.checked v)
      = Components.checked v / length (Components.checked v) := rfl
    _ = ⟨.value v.x / .value (length v), .value v.y / .value (length v),
          .value v.z / .value (length v)⟩ := by
        rw [length_checked]
        rfl
    _ = Components.checked (normalize v) := by
        rw [hquotient, hquotient, hquotient]
        rfl

end Vec3

end Spatial
