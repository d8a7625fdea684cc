import Mathlib
import Spatial.Proofs.Conjugation
import Spatial.Proofs.Interpolation

/-!
# Division of quaternions

A quaternion times its conjugate, on either side, is its squared length, and the squared length is
multiplicative.  So the quaternions whose squared length is not zero are closed under products, and
each of them divided by its squared length and conjugated is its inverse: they form a group.  What
holds in every group holds of their quotients, in the order that a product that does not commute
asks for.

A real quaternion has the squared length zero only if it is zero.  One that is not zero moves
vectors by conjugation as a unit quaternion does, namely the one it gives when normalised, for the
two factors that normalising takes out are one divided by the squared length.
-/

namespace Spatial

open Components (lengthSquared length UnitLength checked)

namespace Quaternion

section Products

variable {K : Type} [ExactScalar K]

/-- The identity is neutral on the right. -/
theorem mul_identity (q : Quaternion K) : q * (identity : Quaternion K) = q := by
  simp only [mul_eq, identity]
  ext <;> ring

/-- The identity is neutral on the left. -/
theorem identity_mul (q : Quaternion K) : (identity : Quaternion K) * q = q := by
  simp only [mul_eq, identity]
  ext <;> ring

/-! A scalar factor may stand at any place of a product. -/

/-- A scalar is taken out of the right factor. -/
theorem mul_mulRight (a b : Quaternion K) (s : K) : a * (b * s) = a * b * s := by
  simp only [mul_eq, mulRight_eq]
  ext <;> ring

/-- A scalar is taken out of the left factor. -/
theorem mulRight_mul (a b : Quaternion K) (s : K) : a * s * b = a * b * s := by
  simp only [mul_eq, mulRight_eq]
  ext <;> ring

/-- Two scalars are one. -/
theorem mulRight_mulRight (a : Quaternion K) (s t : K) : a * s * t = a * (s * t) := by
  simp only [mulRight_eq, mul_assoc]

/-- A conjugate keeps its scalar. -/
theorem conjugate_mulRight (a : Quaternion K) (s : K) : (a * s).conjugate = a.conjugate * s := by
  simp only [conjugate, mulRight_eq, neg_mul]

/-- A scalar counts twice in a squared length. -/
theorem lengthSquared_mulRight (a : Quaternion K) (s : K) :
    lengthSquared (a * s) = lengthSquared a * (s * s) := by
  simp only [lengthSquared, dot_eq, mulRight_eq]
  ring

/-- A conjugate has the same length. -/
theorem lengthSquared_conjugate (a : Quaternion K) :
    lengthSquared a.conjugate = lengthSquared a := by
  simp only [lengthSquared, dot_eq, conjugate]
  ring

/-- A quaternion times its conjugate on the left is its squared length. -/
theorem conjugate_mul_self (q : Quaternion K) :
    q.conjugate * q = (identity : Quaternion K) * lengthSquared q := by
  simp only [mul_eq, conjugate, identity, mulRight_eq, lengthSquared, dot_eq]
  ext <;> ring

/-- Conjugation by a multiple of a quaternion takes the factor out twice. -/
theorem mulRight_mul_mul_conjugate (q r : Quaternion K) (s : K) :
    q * s * r * (q * s).conjugate = q * r * q.conjugate * (s * s) := by
  rw [conjugate_mulRight, mul_mulRight, mulRight_mul, mulRight_mul, mulRight_mulRight]

end Products

/-! ## The group -/

/-- A quaternion that can be divided by. -/
@[ext]
structure Divisor (K : Type) [ExactScalar K] where
  /-- The quaternion. -/
  val : Quaternion K
  /-- Its squared length is not zero. -/
  lengthSquared_ne_zero : lengthSquared val ≠ 0

namespace Divisor

variable {K : Type} [ExactScalar K]

instance : Mul (Divisor K) where
  mul a b := ⟨a.val * b.val, by
    rw [lengthSquared_mul]
    exact mul_ne_zero a.lengthSquared_ne_zero b.lengthSquared_ne_zero⟩

instance : One (Divisor K) where
  one := ⟨identity, by
    simp only [lengthSquared, dot_eq, identity, mul_zero, add_zero, zero_add, mul_one]
    exact one_ne_zero⟩

instance : Inv (Divisor K) where
  inv a := ⟨a.val.inverse, by
    have hfactor : 1 / lengthSquared a.val ≠ 0 := one_div_ne_zero a.lengthSquared_ne_zero
    rw [inverse, lengthSquared_mulRight, lengthSquared_conjugate]
    exact mul_ne_zero a.lengthSquared_ne_zero (mul_ne_zero hfactor hfactor)⟩

instance : Group (Divisor K) where
  mul_assoc a b c := Divisor.ext (mul_associative a.val b.val c.val)
  one_mul a := Divisor.ext (identity_mul a.val)
  mul_one a := Divisor.ext (mul_identity a.val)
  inv_mul_cancel a := by
    apply Divisor.ext
    show a.val.inverse * a.val = identity
    rw [inverse, mulRight_mul, conjugate_mul_self, mulRight_mulRight,
      mul_one_div_cancel a.lengthSquared_ne_zero, mulRight_eq]
    simp only [mul_one]

end Divisor

/-! ## Real quaternions -/

/-- Only the zero quaternion has no length. -/
theorem lengthSquared_eq_zero_iff (q : Quaternion ℝ) :
    lengthSquared q = 0 ↔ q = ⟨0, 0, 0, 0⟩ := by
  constructor
  · intro h
    replace h : q.x * q.x + q.y * q.y + q.z * q.z + q.w * q.w = 0 := h
    have hx := mul_self_nonneg q.x
    have hy := mul_self_nonneg q.y
    have hz := mul_self_nonneg q.z
    have hw := mul_self_nonneg q.w
    exact Quaternion.ext (mul_self_eq_zero.mp (by linarith)) (mul_self_eq_zero.mp (by linarith))
      (mul_self_eq_zero.mp (by linarith)) (mul_self_eq_zero.mp (by linarith))
  · rintro rfl
    simp [lengthSquared, dot_eq]

/-- A real quaternion that is not zero, to divide by. -/
def divisor (q : Quaternion ℝ) (h : q ≠ ⟨0, 0, 0, 0⟩) : Divisor ℝ :=
  ⟨q, mt (lengthSquared_eq_zero_iff q).mp h⟩

/-- A divisor is not the zero quaternion. -/
theorem Divisor.val_ne_zero (a : Divisor ℝ) : a.val ≠ ⟨0, 0, 0, 0⟩ :=
  mt (lengthSquared_eq_zero_iff a.val).mpr a.lengthSquared_ne_zero

section Real

variable {q : Quaternion ℝ} (h : 0 < lengthSquared q)
include h

/-- Any quaternion of some length rotates by conjugation as the unit quaternion does that it
gives when normalised. -/
theorem mul_ofParts_mul_inverse_normalize (v : Vec3 ℝ) :
    q * ofParts v 0 * q.inverse = ofParts (q.normalize.rotate v) 0 := by
  have hunit : UnitLength q.normalize := unitLength_normalize h
  have hfactor : 1 / lengthSquared q = 1 / length q * (1 / length q) := by
    have hroot : length q * length q = lengthSquared q := Real.mul_self_sqrt h.le
    rw [one_div_mul_one_div, hroot]
  calc q * ofParts v 0 * q.inverse
      = q * ofParts v 0 * q.conjugate * (1 / lengthSquared q) := mul_mulRight _ _ _
    _ = q.normalize * ofParts v 0 * q.normalize.conjugate := by
        rw [hfactor, ← mulRight_mul_mul_conjugate]
        rfl
    _ = ofParts (q.normalize.rotate v) 0 := by
        rw [← inverse_of_unitLength hunit, mul_ofParts_mul_inverse hunit]

/-- The inverse of a quaternion of some length divides by no zero. -/
theorem inverse_checked : (checked q).inverse = checked q.inverse := by
  have hfactor : (1 : Checked) / .value (lengthSquared q) = .value (1 / lengthSquared q) :=
    Checked.value_div_value h.ne'
  have hsquared : lengthSquared (checked q) = .value (lengthSquared q) := rfl
  rw [inverse, hsquared, hfactor]
  rfl

/-- A quotient by a quaternion of some length divides by no zero. -/
theorem div_checked (p : Quaternion ℝ) : checked p / checked q = checked (p / q) := by
  calc checked p / checked q = checked p * (checked q).inverse := rfl
    _ = checked (p / q) := by
        rw [inverse_checked h]
        rfl

end Real

/-- **The group of quaternions.**  Products are associative, have the identity as their unit and
multiply squared lengths.  Products and inverses of quaternions that are not zero are not zero, an
inverse is one on both sides, a quotient times its divisor on the right is what was divided, and
the inverse of a product has the factors the other way round.  Normalised, a quaternion that is not
zero is a unit quaternion, and rotates every vector as conjugation by the quaternion itself does.
None of this divides by zero. -/
theorem nonzero_quaternions_form_group :
    (∀ a b c : Quaternion ℝ, a * b * c = a * (b * c)) ∧
    (∀ a : Quaternion ℝ, a * (identity : Quaternion ℝ) = a ∧ (identity : Quaternion ℝ) * a = a) ∧
    (∀ a b : Quaternion ℝ, lengthSquared (a * b) = lengthSquared a * lengthSquared b) ∧
    (∀ a b : Quaternion ℝ, a ≠ ⟨0, 0, 0, 0⟩ → b ≠ ⟨0, 0, 0, 0⟩ →
      a * b ≠ ⟨0, 0, 0, 0⟩ ∧ a / b * b = a ∧ (a * b).inverse = b.inverse * a.inverse ∧
      checked a / checked b = checked (a / b)) ∧
    ∀ a : Quaternion ℝ, a ≠ ⟨0, 0, 0, 0⟩ →
      a.inverse ≠ ⟨0, 0, 0, 0⟩ ∧ a * a.inverse = identity ∧ a.inverse * a = identity ∧
      (checked a).inverse = checked a.inverse ∧
      UnitLength a.normalize ∧ (checked a).normalize = checked a.normalize ∧
      ∀ v : Vec3 ℝ, a * ofParts v 0 * a.inverse = ofParts (a.normalize.rotate v) 0 := by
  have hpos {q : Quaternion ℝ} (h : q ≠ ⟨0, 0, 0, 0⟩) : 0 < lengthSquared q :=
    lt_of_le_of_ne (lengthSquared_nonneg q) (q.divisor h).lengthSquared_ne_zero.symm
  refine ⟨mul_associative, fun a => ⟨mul_identity a, identity_mul a⟩, lengthSquared_mul, ?_, ?_⟩
  · intro a b ha hb
    have hquotient : a.divisor ha / b.divisor hb * b.divisor hb = a.divisor ha :=
      div_mul_cancel _ _
    have hinverse : (a.divisor ha * b.divisor hb)⁻¹ = (b.divisor hb)⁻¹ * (a.divisor ha)⁻¹ :=
      mul_inv_rev _ _
    exact ⟨(a.divisor ha * b.divisor hb).val_ne_zero, congrArg Divisor.val hquotient,
      congrArg Divisor.val hinverse, div_checked (hpos hb) a⟩
  · intro a ha
    have hright : a.divisor ha * (a.divisor ha)⁻¹ = 1 := mul_inv_cancel _
    have hleft : (a.divisor ha)⁻¹ * a.divisor ha = 1 := inv_mul_cancel _
    exact ⟨(a.divisor ha)⁻¹.val_ne_zero, congrArg Divisor.val hright, congrArg Divisor.val hleft,
      inverse_checked (hpos ha), unitLength_normalize (hpos ha), normalize_checked (hpos ha),
      mul_ofParts_mul_inverse_normalize (hpos ha)⟩

/-- A quaternion of length two that stands for a third of a turn about the diagonal, and one of
length five that it does not commute with. -/
theorem third_turn_of_length_two :
    let a : Quaternion ℝ := ⟨1, 1, 1, 1⟩
    let b : Quaternion ℝ := ⟨3, 0, 0, 4⟩
    (a ≠ ⟨0, 0, 0, 0⟩ ∧ b ≠ ⟨0, 0, 0, 0⟩) ∧ a / b * b = a ∧
      (a * b).inverse = b.inverse * a.inverse ∧ (a * b).inverse ≠ a.inverse * b.inverse ∧
      a * ofParts ⟨1, 2, 3⟩ 0 * a.inverse = ofParts ⟨3, 1, 2⟩ 0 := by
  intro a b
  have ha : a ≠ ⟨0, 0, 0, 0⟩ := by norm_num [a]
  have hb : b ≠ ⟨0, 0, 0, 0⟩ := by norm_num [b]
  have hlength : length a = 2 := by
    apply Components.length_of_lengthSquared (by norm_num)
    norm_num [a, lengthSquared, dot_eq]
  have hturn : a.normalize.rotate ⟨1, 2, 3⟩ = ⟨3, 1, 2⟩ := by
    rw [normalize, hlength]
    norm_num [a, mulRight_eq, rotate]
  obtain ⟨-, -, -, hproduct, hinverse⟩ := nonzero_quaternions_form_group
  obtain ⟨-, hquotient, hreverse, -⟩ := hproduct a b ha hb
  obtain ⟨-, -, -, -, -, -, hrotation⟩ := hinverse a ha
  refine ⟨⟨ha, hb⟩, hquotient, hreverse, ?_, ?_⟩
  · rw [hreverse]
    intro hcommute
    have hentry := congrArg Quaternion.y hcommute
    norm_num [a, b, inverse, conjugate, lengthSquared, dot_eq, mulRight_eq, mul_eq] at hentry
  · rw [hrotation, hturn]

end Quaternion

end Spatial
