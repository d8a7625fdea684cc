import Mathlib
import Spatial.Proofs.Conjugation
import Spatial.Proofs.Directions

/-!
# Rotations by angles

A rotation about a unit axis is given by its whole angle where it is made as a matrix,
and by half of it where it is made as a quaternion.  `about` is the matrix for a given
sine and cosine of the whole angle.

1.  The matrix of a quaternion is quadratic, so it turns the sine and cosine of the half
    angle into `2·s·c` and `c² - s²`, which are those of the whole angle.  So a unit axis
    and an angle give one rotation, as a matrix and as a quaternion.
2.  About an axis of coordinates the matrix is the one that is written out for it.
3.  The quaternion of three angles is the product of the quaternions of the three turns,
    the last turn on the left.  Its matrix is the product of their matrices in the other
    order: a matrix acts on rows, from its left factor on.
-/

namespace Spatial

open Components (lengthSquared UnitLength)

/-! The half angle. -/

/-- The sine of an angle by the sine and the cosine of its half. -/
theorem sin_eq_half (angle : ℝ) :
    Real.sin angle = (1 + 1) * Real.sin (angle / 2) * Real.cos (angle / 2) := by
  rw [one_add_one_eq_two, ← Real.sin_two_mul, mul_div_cancel₀ angle two_ne_zero]

/-- The cosine of an angle by the sine and the cosine of its half. -/
theorem cos_eq_half (angle : ℝ) :
    Real.cos angle =
      Real.cos (angle / 2) * Real.cos (angle / 2) -
        Real.sin (angle / 2) * Real.sin (angle / 2) := by
  rw [← Real.cos_add, add_halves]

/-- The sine and the cosine lie on the unit circle. -/
theorem sin_mul_self_add_cos_mul_self (angle : ℝ) :
    Real.sin angle * Real.sin angle + Real.cos angle * Real.cos angle = 1 := by
  rw [← sq, ← sq, Real.sin_sq_add_cos_sq]

namespace Vec3

theorem unitLength_unitX : UnitLength (unitX : Vec3 ℝ) := Axis.unitLength_unit .x

theorem unitLength_unitY : UnitLength (unitY : Vec3 ℝ) := Axis.unitLength_unit .y

theorem unitLength_unitZ : UnitLength (unitZ : Vec3 ℝ) := Axis.unitLength_unit .z

end Vec3

namespace Quaternion

/-- A unit axis times a sine, with the cosine, is a unit quaternion. -/
theorem unitLength_ofParts {K : Type} [ExactScalar K] {axis : Vec3 K} (h : UnitLength axis)
    {s c : K} (hsc : s * s + c * c = 1) : UnitLength (ofParts (axis * s) c) := by
  replace h : axis.x * axis.x + axis.y * axis.y + axis.z * axis.z = 1 := h
  simp only [UnitLength, lengthSquared, dot_eq, ofParts, Vec3.mulRight_eq]
  linear_combination s * s * h + hsc

section UnitAxis

variable {axis : Vec3 ℝ} (h : UnitLength axis) (angle : ℝ)
include h

/-- The quaternion of a rotation about a unit axis holds the sine and the cosine of half
the angle. -/
theorem ofAxisAngle_of_unitLength :
    ofAxisAngle axis angle = ofParts (axis * Real.sin (angle / 2)) (Real.cos (angle / 2)) := by
  have hone : lengthSquared axis = 1 := h
  have hdirection : axis / Real.sqrt 1 = axis := by
    rw [Real.sqrt_one, Vec3.divRight_eq]
    simp only [div_one]
  calc ofAxisAngle axis angle
      = ofParts ((if lengthSquared axis == 0 then Vec3.zero
            else axis / Real.sqrt (lengthSquared axis)) * Real.sin (angle * 0.5))
          (Real.cos (angle * 0.5)) := rfl
    _ = ofParts (axis * Real.sin (angle / 2)) (Real.cos (angle / 2)) := by
        rw [hone, mul_one_half, hdirection]
        simp

/-- A turn about an axis of unit length is a quaternion of unit length. -/
theorem unitLength_ofAxisAngle : UnitLength (ofAxisAngle axis angle) := by
  rw [ofAxisAngle_of_unitLength h]
  exact unitLength_ofParts h (sin_mul_self_add_cos_mul_self _)

end UnitAxis

/-- The quaternion of three angles is the product of the three turns, the first turn on
the right. -/
theorem ofYawPitchRoll_eq_mul (yaw pitch roll : ℝ) :
    ofYawPitchRoll yaw pitch roll =
      ofAxisAngle Vec3.unitY yaw * ofAxisAngle Vec3.unitX pitch *
        ofAxisAngle Vec3.unitZ roll := by
  have hhalves : ofYawPitchRoll yaw pitch roll =
      let sy := Real.sin (yaw * 0.5)
      let cy := Real.cos (yaw * 0.5)
      let sp := Real.sin (pitch * 0.5)
      let cp := Real.cos (pitch * 0.5)
      let sr := Real.sin (roll * 0.5)
      let cr := Real.cos (roll * 0.5)
      ⟨cy * sp * cr + sy * cp * sr, sy * cp * cr - cy * sp * sr,
        cy * cp * sr - sy * sp * cr, cy * cp * cr + sy * sp * sr⟩ := rfl
  rw [hhalves, ofAxisAngle_of_unitLength Vec3.unitLength_unitY,
    ofAxisAngle_of_unitLength Vec3.unitLength_unitX,
    ofAxisAngle_of_unitLength Vec3.unitLength_unitZ]
  simp only [mul_one_half, mul_eq, ofParts, Vec3.mulRight_eq, Vec3.unitX, Vec3.unitY, Vec3.unitZ]
  ext <;> ring

end Quaternion

namespace Matrix4

section About

variable {α : Type} [Scalar α]

/-- The rotation about a unit axis by an angle with a given sine and cosine. -/
def about (axis : Vec3 α) (sine cosine : α) : Matrix4 α :=
  let ⟨x, y, z⟩ := axis
  ⟨⟨x * x + cosine * (1 - x * x), x * y - cosine * (x * y) + sine * z,
      x * z - cosine * (x * z) - sine * y, 0⟩,
    ⟨x * y - cosine * (x * y) - sine * z, y * y + cosine * (1 - y * y),
      y * z - cosine * (y * z) + sine * x, 0⟩,
    ⟨x * z - cosine * (x * z) + sine * y, y * z - cosine * (y * z) - sine * x,
      z * z + cosine * (1 - z * z), 0⟩,
    ⟨0, 0, 0, 1⟩⟩

/-- The matrix of a turn is that of its sine and its cosine. -/
theorem ofAxisAngle_eq_about (axis : Vec3 α) (angle : α) :
    ofAxisAngle axis angle = about axis (Scalar.sin angle) (Scalar.cos angle) := rfl

end About

section Exact

variable {K : Type} [ExactScalar K]

/-- **The double angle.**  The matrix of the quaternion with a unit axis and a sine and
cosine is the rotation about that axis by twice the angle. -/
theorem ofQuaternion_ofParts {axis : Vec3 K} (h : UnitLength axis) {s c : K}
    (hsc : s * s + c * c = 1) :
    ofQuaternion (Quaternion.ofParts (axis * s) c) =
      about axis ((1 + 1) * s * c) (c * c - s * s) := by
  obtain ⟨x, y, z⟩ := axis
  replace h : x * x + y * y + z * z = 1 := h
  simp only [ofQuaternion, Quaternion.ofParts, Vec3.mulRight_eq, about, ExactScalar.two_eq]
  ext <;> dsimp only
  · linear_combination -((1 + 1) * (s * s)) * h - (1 - x * x) * hsc
  · linear_combination x * y * hsc
  · linear_combination x * z * hsc
  · linear_combination x * y * hsc
  · linear_combination -((1 + 1) * (s * s)) * h - (1 - y * y) * hsc
  · linear_combination y * z * hsc
  · linear_combination x * z * hsc
  · linear_combination y * z * hsc
  · linear_combination -((1 + 1) * (s * s)) * h - (1 - z * z) * hsc

/-! The axes of coordinates. -/

/-- A turn about the first axis. -/
theorem ofAxisAngle_unitX (angle : K) : ofAxisAngle Vec3.unitX angle = rotationX angle := by
  rw [ofAxisAngle_eq_about]
  simp only [about, Vec3.unitX, rotationX, rotationXAbout, Vec3.zero, Components.splat]
  ext <;> ring

/-- A turn about the second axis. -/
theorem ofAxisAngle_unitY (angle : K) : ofAxisAngle Vec3.unitY angle = rotationY angle := by
  rw [ofAxisAngle_eq_about]
  simp only [about, Vec3.unitY, rotationY, rotationYAbout, Vec3.zero, Components.splat]
  ext <;> ring

/-- A turn about the third axis. -/
theorem ofAxisAngle_unitZ (angle : K) : ofAxisAngle Vec3.unitZ angle = rotationZ angle := by
  rw [ofAxisAngle_eq_about]
  simp only [about, Vec3.unitZ, rotationZ, rotationZAbout, Vec3.zero, Components.splat]
  ext <;> ring

end Exact

/-- A unit axis and an angle give one rotation, as a matrix and as a quaternion. -/
theorem ofAxisAngle_eq_ofQuaternion {axis : Vec3 ℝ} (h : UnitLength axis) (angle : ℝ) :
    ofAxisAngle axis angle = ofQuaternion (Quaternion.ofAxisAngle axis angle) := by
  have hsin : Scalar.sin angle =
      (1 + 1) * Real.sin (angle / 2) * Real.cos (angle / 2) := sin_eq_half angle
  have hcos : Scalar.cos angle =
      Real.cos (angle / 2) * Real.cos (angle / 2) -
        Real.sin (angle / 2) * Real.sin (angle / 2) := cos_eq_half angle
  rw [Quaternion.ofAxisAngle_of_unitLength h,
    ofQuaternion_ofParts h (sin_mul_self_add_cos_mul_self _), ofAxisAngle_eq_about, hsin, hcos]

/-- The matrix of three angles is the product of the three turns, the first turn on the
left. -/
theorem ofYawPitchRoll_eq_mul (yaw pitch roll : ℝ) :
    ofYawPitchRoll yaw pitch roll = rotationZ roll * rotationX pitch * rotationY yaw := by
  have hx := Quaternion.unitLength_ofAxisAngle Vec3.unitLength_unitX pitch
  have hy := Quaternion.unitLength_ofAxisAngle Vec3.unitLength_unitY yaw
  have hz := Quaternion.unitLength_ofAxisAngle Vec3.unitLength_unitZ roll
  calc ofYawPitchRoll yaw pitch roll
      = ofQuaternion (Quaternion.ofAxisAngle Vec3.unitY yaw *
          Quaternion.ofAxisAngle Vec3.unitX pitch * Quaternion.ofAxisAngle Vec3.unitZ roll) := by
        rw [ofYawPitchRoll, Quaternion.ofYawPitchRoll_eq_mul]
    _ = ofQuaternion (Quaternion.ofAxisAngle Vec3.unitZ roll) *
          (ofQuaternion (Quaternion.ofAxisAngle Vec3.unitX pitch) *
            ofQuaternion (Quaternion.ofAxisAngle Vec3.unitY yaw)) := by
        rw [ofQuaternion_mul (Quaternion.unitLength_mul hy hx) hz, ofQuaternion_mul hy hx]
    _ = rotationZ roll * rotationX pitch * rotationY yaw := by
        rw [← ofAxisAngle_eq_ofQuaternion Vec3.unitLength_unitX,
          ← ofAxisAngle_eq_ofQuaternion Vec3.unitLength_unitY,
          ← ofAxisAngle_eq_ofQuaternion Vec3.unitLength_unitZ, ofAxisAngle_unitX,
          ofAxisAngle_unitY, ofAxisAngle_unitZ, mul_associative]

/-- **One rotation, however it is made.**  The quaternion of three angles is the product
of the quaternions of the three turns, and its matrix is the product of the matrices of
the three turns in the other order.  A unit axis and an angle give one rotation as a
matrix and as a quaternion, and about an axis of coordinates it is the one written out
for that axis. -/
theorem angles_give_one_rotation :
    (∀ yaw pitch roll : ℝ,
      Quaternion.ofYawPitchRoll yaw pitch roll =
          Quaternion.ofAxisAngle Vec3.unitY yaw * Quaternion.ofAxisAngle Vec3.unitX pitch *
            Quaternion.ofAxisAngle Vec3.unitZ roll ∧
        ofYawPitchRoll yaw pitch roll = rotationZ roll * rotationX pitch * rotationY yaw) ∧
    (∀ (axis : Vec3 ℝ) (angle : ℝ), UnitLength axis →
      ofAxisAngle axis angle = ofQuaternion (Quaternion.ofAxisAngle axis angle)) ∧
    (∀ angle : ℝ,
      (ofAxisAngle Vec3.unitX angle = rotationX angle ∧
        ofQuaternion (Quaternion.ofAxisAngle Vec3.unitX angle) = rotationX angle) ∧
      (ofAxisAngle Vec3.unitY angle = rotationY angle ∧
        ofQuaternion (Quaternion.ofAxisAngle Vec3.unitY angle) = rotationY angle) ∧
      (ofAxisAngle Vec3.unitZ angle = rotationZ angle ∧
        ofQuaternion (Quaternion.ofAxisAngle Vec3.unitZ angle) = rotationZ angle)) := by
  have hquaternion {axis : Vec3 ℝ} (h : UnitLength axis) {angle : ℝ} {m : Matrix4 ℝ}
      (hm : ofAxisAngle axis angle = m) :
      ofAxisAngle axis angle = m ∧ ofQuaternion (Quaternion.ofAxisAngle axis angle) = m :=
    ⟨hm, (ofAxisAngle_eq_ofQuaternion h angle).symm.trans hm⟩
  refine ⟨?_, ?_, ?_⟩
  · intro yaw pitch roll
    exact ⟨Quaternion.ofYawPitchRoll_eq_mul yaw pitch roll, ofYawPitchRoll_eq_mul yaw pitch roll⟩
  · intro axis angle h
    exact ofAxisAngle_eq_ofQuaternion h angle
  · intro angle
    exact ⟨hquaternion Vec3.unitLength_unitX (ofAxisAngle_unitX angle),
      hquaternion Vec3.unitLength_unitY (ofAxisAngle_unitY angle),
      hquaternion Vec3.unitLength_unitZ (ofAxisAngle_unitZ angle)⟩

/-- A quarter turn about an axis that is none of the coordinates, as a quaternion. -/
theorem quarter_turn_about_oblique_axis :
    let axis : Vec3 ℝ := ⟨1 / 3, 2 / 3, 2 / 3⟩
    UnitLength axis ∧
      ofQuaternion (Quaternion.ofAxisAngle axis (Real.pi / 2)) =
        ⟨⟨1 / 9, 8 / 9, -4 / 9, 0⟩, ⟨-4 / 9, 4 / 9, 7 / 9, 0⟩, ⟨8 / 9, 1 / 9, 4 / 9, 0⟩,
          ⟨0, 0, 0, 1⟩⟩ := by
  intro axis
  have haxis : UnitLength axis := by
    norm_num [axis, UnitLength, lengthSquared, Vec3.dot_eq]
  have hsin : Scalar.sin (Real.pi / 2) = (1 : ℝ) := Real.sin_pi_div_two
  have hcos : Scalar.cos (Real.pi / 2) = (0 : ℝ) := Real.cos_pi_div_two
  refine ⟨haxis, ?_⟩
  rw [← angles_give_one_rotation.2.1 axis _ haxis, ofAxisAngle_eq_about, hsin, hcos]
  norm_num [about, axis]

end Matrix4

end Spatial
