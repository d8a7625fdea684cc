import Mathlib
import Spatial.Proofs.Rotation

/-!
# Rotation by conjugation

A quaternion moves a vector in three ways that are written apart: by the closed
form of `rotate`, by its matrix, and by the product `q * (v, 0) * q⁻¹`.

The closed form and the matrix hold the same nine quadratic coefficients, so they
agree for every quaternion.  The product with the conjugate differs from them by
a multiple of the vector, and that multiple is the squared length less one: on
unit quaternions all three agree.

A product is associative and its conjugate is the product of the conjugates in
the other order.  So rotating by a product is rotating by its factors, the right
one first, and since a matrix is known by what it does to rows, the matrix of a
product is the product of the matrices in the other order.
-/

namespace Spatial

open Components (lengthSquared UnitLength)

namespace Quaternion

/-- The coefficients of Hamilton's product. -/
theorem mul_eq {α : Type} [Scalar α] (p q : Quaternion α) :
    p * q =
      ⟨p.x * q.w + q.x * p.w + (p.y * q.z - p.z * q.y),
        p.y * q.w + q.y * p.w + (p.z * q.x - p.x * q.z),
        p.z * q.w + q.z * p.w + (p.x * q.y - p.y * q.x),
        p.w * q.w - (p.x * q.x + p.y * q.y + p.z * q.z)⟩ := rfl

variable {K : Type} [ExactScalar K]

/-! Products and conjugates. -/

/-- Products of quaternions are associative. -/
theorem mul_associative (a b c : Quaternion K) : a * b * c = a * (b * c) := by
  simp only [mul_eq]
  ext <;> ring

/-- The conjugate of a product is the product of the conjugates in the other order. -/
theorem conjugate_mul (a b : Quaternion K) :
    (a * b).conjugate = b.conjugate * a.conjugate := by
  simp only [mul_eq, conjugate]
  ext <;> ring

/-- Squared lengths multiply. -/
theorem lengthSquared_mul (a b : Quaternion K) :
    lengthSquared (a * b) = lengthSquared a * lengthSquared b := by
  simp only [lengthSquared, dot_eq, mul_eq]
  ring

/-- Products of quaternions of unit length have unit length. -/
theorem unitLength_mul {a b : Quaternion K} (ha : UnitLength a) (hb : UnitLength b) :
    UnitLength (a * b) := by
  rw [UnitLength, lengthSquared_mul, ha, hb, mul_one]

/-- The inverse of a unit quaternion is its conjugate. -/
theorem inverse_of_unitLength {q : Quaternion K} (h : UnitLength q) :
    q.inverse = q.conjugate := by
  have hone : (1 : K) / lengthSquared q = 1 := by rw [h, div_one]
  rw [inverse, hone, mulRight_eq]
  simp only [mul_one]

/-! The three actions on vectors. -/

/-- Conjugation leaves the scalar part zero.  It rotates, and adds the vector as
often as the squared length exceeds one. -/
theorem mul_ofParts_mul_conjugate (q : Quaternion K) (v : Vec3 K) :
    q * ofParts v 0 * q.conjugate =
      ofParts (q.rotate v + (lengthSquared q - 1) * v) 0 := by
  simp only [mul_eq, ofParts, conjugate, rotate, Vec3.add_eq, Vec3.mulLeft_eq, lengthSquared,
    dot_eq]
  ext <;> ring

/-- A unit quaternion rotates by conjugation. -/
theorem mul_ofParts_mul_inverse {q : Quaternion K} (h : UnitLength q) (v : Vec3 K) :
    q * ofParts v 0 * q.inverse = ofParts (q.rotate v) 0 := by
  have hzero : lengthSquared q - 1 = 0 := by rw [h, sub_self]
  rw [inverse_of_unitLength h, mul_ofParts_mul_conjugate, hzero, Vec3.mulLeft_eq, Vec3.add_eq]
  simp only [zero_mul, add_zero]

/-- Rotating by a product is rotating by its factors, the right one first. -/
theorem rotate_mul {a b : Quaternion K} (ha : UnitLength a) (hb : UnitLength b) (v : Vec3 K) :
    (a * b).rotate v = a.rotate (b.rotate v) := by
  have hproduct : ofParts ((a * b).rotate v) 0 = ofParts (a.rotate (b.rotate v)) (0 : K) := by
    calc ofParts ((a * b).rotate v) 0
        = a * b * ofParts v 0 * (b.conjugate * a.conjugate) := by
          rw [← mul_ofParts_mul_inverse (unitLength_mul ha hb),
            inverse_of_unitLength (unitLength_mul ha hb), conjugate_mul]
      _ = a * (b * ofParts v 0 * b.conjugate) * a.conjugate := by
          simp only [mul_associative]
      _ = ofParts (a.rotate (b.rotate v)) 0 := by
          rw [← inverse_of_unitLength hb, mul_ofParts_mul_inverse hb,
            ← inverse_of_unitLength ha, mul_ofParts_mul_inverse ha]
  exact congrArg xyz hproduct

/-- A product acts as its second factor and then its first, on four components too. -/
theorem rotate4_mul {a b : Quaternion K} (ha : UnitLength a) (hb : UnitLength b) (v : Vec4 K) :
    (a * b).rotate4 v = a.rotate4 (b.rotate4 v) :=
  congrArg (Vec3.extend · v.w) (rotate_mul ha hb v.xyz)

/-- A vector of the plane is rotated as a vector of space. -/
theorem rotate2_eq (q : Quaternion K) (v : Vec2 K) :
    q.rotate2 v = (q.rotate (v.extend 0)).xy := by
  simp only [rotate2, rotate, Vec2.extend, Vec3.xy]
  ext <;> ring

end Quaternion

namespace Matrix4

variable {K : Type} [ExactScalar K]

/-- The matrix of a quaternion does not move the origin, so it moves points as it
moves directions, and both as the quaternion does. -/
theorem ofQuaternion_transformDirection (q : Quaternion K) (v : Vec3 K) :
    (ofQuaternion q).transformDirection v = q.rotate v := by
  simp only [transformDirection, ofQuaternion, Quaternion.rotate, Vec4.xyz, Vec3.mulLeft_eq,
    Vec3.add_eq, ExactScalar.two_eq]
  ext <;> ring

/-- The matrix of a quaternion acts on points as the quaternion does. -/
theorem ofQuaternion_transformPoint (q : Quaternion K) (v : Vec3 K) :
    (ofQuaternion q).transformPoint v = q.rotate v := by
  have horigin : (ofQuaternion q).r4.xyz = ⟨0, 0, 0⟩ := rfl
  calc (ofQuaternion q).transformPoint v
      = (ofQuaternion q).transformDirection v + (ofQuaternion q).r4.xyz := rfl
    _ = q.rotate v := by
        rw [ofQuaternion_transformDirection, horigin, Vec3.add_eq]
        simp only [add_zero]

/-- A matrix is known by what it does to rows. -/
theorem eq_of_transform {m n : Matrix4 K} (h : ∀ v, m.transform v = n.transform v) :
    m = n := by
  calc m = identity * m := (identity_mul m).symm
    _ = identity * n := by rw [mul_rows, mul_rows, h, h, h, h]
    _ = n := identity_mul n

/-- The matrix of a product is the product of the matrices, in the other order. -/
theorem ofQuaternion_mul {a b : Quaternion K} (ha : UnitLength a) (hb : UnitLength b) :
    ofQuaternion (a * b) = ofQuaternion b * ofQuaternion a := by
  apply eq_of_transform
  intro v
  rw [transform_mul, ofQuaternion_transform, ofQuaternion_transform, ofQuaternion_transform,
    Quaternion.rotate4_mul ha hb]

end Matrix4

namespace Quaternion

variable {K : Type} [ExactScalar K]

/-- **One rotation, three ways.**  Every quaternion moves vectors of two, three
and four components as its matrix does; a unit quaternion moves them by
conjugation; and the matrix of one rotation followed by another is the product of
the matrices in that order. -/
theorem rotations_agree :
    (∀ (q : Quaternion K) (v : Vec3 K),
      q.rotate v = (Matrix4.ofQuaternion q).transformPoint v ∧
        q.rotate v = (Matrix4.ofQuaternion q).transformDirection v) ∧
    (∀ (q : Quaternion K) (v : Vec4 K),
      q.rotate4 v = (Matrix4.ofQuaternion q).transform v) ∧
    (∀ (q : Quaternion K) (v : Vec2 K), q.rotate2 v = (q.rotate (v.extend 0)).xy) ∧
    (∀ (q : Quaternion K) (v : Vec3 K), UnitLength q →
      q * ofParts v 0 * q.inverse = ofParts (q.rotate v) 0) ∧
    (∀ a b : Quaternion K, UnitLength a → UnitLength b →
      Matrix4.ofQuaternion (a.concatenate b) =
        Matrix4.ofQuaternion a * Matrix4.ofQuaternion b) := by
  refine ⟨?_, ?_, ?_, ?_, ?_⟩
  · intro q v
    exact ⟨(Matrix4.ofQuaternion_transformPoint q v).symm,
      (Matrix4.ofQuaternion_transformDirection q v).symm⟩
  · intro q v
    exact (Matrix4.ofQuaternion_transform q v).symm
  · intro q v
    exact rotate2_eq q v
  · intro q v h
    exact mul_ofParts_mul_inverse h v
  · intro a b ha hb
    exact Matrix4.ofQuaternion_mul hb ha

/-- A third of a turn about the diagonal, and a rotation about the first axis
that does not commute with it. -/
theorem third_turn_rotations_agree :
    let a : Quaternion ℝ := ⟨1 / 2, 1 / 2, 1 / 2, 1 / 2⟩
    let b : Quaternion ℝ := ⟨3 / 5, 0, 0, 4 / 5⟩
    UnitLength a ∧ UnitLength b ∧
      a * ofParts ⟨1, 2, 3⟩ 0 * a.inverse = ofParts ⟨3, 1, 2⟩ 0 ∧
      Matrix4.ofQuaternion (a.concatenate b) =
        Matrix4.ofQuaternion a * Matrix4.ofQuaternion b ∧
      Matrix4.ofQuaternion (a.concatenate b) ≠
        Matrix4.ofQuaternion b * Matrix4.ofQuaternion a := by
  intro a b
  have ha : UnitLength a := by norm_num [a, UnitLength, lengthSquared, dot_eq]
  have hb : UnitLength b := by norm_num [b, UnitLength, lengthSquared, dot_eq]
  have hturn : a.rotate ⟨1, 2, 3⟩ = ⟨3, 1, 2⟩ := by norm_num [a, rotate]
  obtain ⟨-, -, -, hconjugate, hcompose⟩ := @rotations_agree ℝ _
  refine ⟨ha, hb, ?_, hcompose a b ha hb, ?_⟩
  · rw [hconjugate a _ ha, hturn]
  · rw [hcompose a b ha hb]
    intro hcommute
    have hentry := congrArg (fun m => m.r1.y) hcommute
    norm_num [a, b, Matrix4.ofQuaternion, Matrix4.mul_rows, Matrix4.transform_eq] at hentry

end Quaternion

end Spatial
