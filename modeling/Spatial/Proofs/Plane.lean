import Mathlib
import Spatial.Plane
import Spatial.Proofs.Rotation

/-!
# Planes under maps

A plane pairs with a point, and a map moves both so that the pairing is kept:
the plane by the transposed inverse, the point by the map itself.  A transposed
matrix moves from one side of the pairing to the other, where it meets its
inverse.  The inverse of a product has its factors the other way round and so
has the transpose, so planes compose in the order that points do.

The inverse of a rotation is its transpose.  A rotation therefore moves a plane
as it moves a point, and the normal is all that changes.
-/

namespace Spatial

open Components (UnitLength)

namespace Plane

variable {K : Type} [ExactScalar K]

/-- The row of the image of a plane. -/
theorem toVec4_transform (p : Plane K) (m : Matrix4 K) :
    (p.transform m).toVec4 = m.inverse.transpose.transform p.toVec4 := rfl

/-- The pairing of plane and point is kept. -/
theorem dot_transform (p : Plane K) {m : Matrix4 K} (h : m.determinant ≠ 0) (v : Vec4 K) :
    (p.transform m).dot (m.transform v) = p.dot v := by
  calc (p.transform m).dot (m.transform v)
      = Components.dot (m.inverse.transpose.transform p.toVec4) (m.transform v) := by
        rw [Plane.dot, toVec4_transform]
    _ = Components.dot p.toVec4 ((m * m.inverse).transform v) := by
        rw [Matrix4.dot_transpose_transform, ← Matrix4.transform_mul]
    _ = p.dot v := by
        rw [(Matrix4.mul_inverse h).1, Matrix4.transform_identity, Plane.dot]

/-- The pairing with a point of space is that with the point in homogeneous
coordinates. -/
theorem dot_homogeneous (p : Plane K) (v : Vec3 K) :
    p.dot (v.extend 1) = p.dotCoordinate v := by
  simp only [Plane.dot, dotCoordinate, toVec4, Vec3.extend, Vec4.dot_eq, Vec3.dot_eq]
  ring

/-- Planes move by a product as they move by its factors in turn. -/
theorem transform_mul (p : Plane K) {a b : Matrix4 K} (ha : a.determinant ≠ 0)
    (hb : b.determinant ≠ 0) : p.transform (a * b) = (p.transform a).transform b := by
  have hrow : (p.transform (a * b)).toVec4 = ((p.transform a).transform b).toVec4 := by
    rw [toVec4_transform, toVec4_transform, toVec4_transform, Matrix4.inverse_mul ha hb,
      Matrix4.transpose_mul, Matrix4.transform_mul]
  exact congrArg ofVec4 hrow

/-- A rotation moves a plane by its normal. -/
theorem rotate_eq_transform (p : Plane K) {q : Quaternion K} (h : UnitLength q) :
    p.rotate q = p.transform (Matrix4.ofQuaternion q) := by
  have hinverse : (Matrix4.ofQuaternion q).inverse = (Matrix4.ofQuaternion q).transpose :=
    (Matrix4.isRotation_ofQuaternion h).inverse_eq
  have hrow : (p.transform (Matrix4.ofQuaternion q)).toVec4 = (p.rotate q).toVec4 := by
    rw [toVec4_transform, hinverse]
    exact Matrix4.ofQuaternion_transform q p.toVec4
  exact (congrArg ofVec4 hrow).symm

/-- **Planes move with their points.**  An invertible matrix keeps the pairing of
a plane with a row, so a point lies on a plane exactly when its image lies on the
image; a product moves planes as its factors do in turn; and a unit quaternion
moves them as its matrix does. -/
theorem transform_covariant :
    (∀ (p : Plane K) (m : Matrix4 K) (v : Vec4 K), m.determinant ≠ 0 →
      (p.transform m).dot (m.transform v) = p.dot v) ∧
    (∀ (p : Plane K) (m : Matrix4 K) (v : Vec3 K), m.determinant ≠ 0 →
      ((p.transform m).dot (m.transformHomogeneous v) = 0 ↔ p.dotCoordinate v = 0)) ∧
    (∀ (p : Plane K) (a b : Matrix4 K), a.determinant ≠ 0 → b.determinant ≠ 0 →
      p.transform (a * b) = (p.transform a).transform b) ∧
    (∀ (p : Plane K) (q : Quaternion K), UnitLength q →
      p.rotate q = p.transform (Matrix4.ofQuaternion q)) := by
  refine ⟨?_, ?_, ?_, ?_⟩
  · intro p m v h
    exact p.dot_transform h v
  · intro p m v h
    rw [Matrix4.transformHomogeneous, Matrix4.transformExtended, p.dot_transform h,
      dot_homogeneous]
  · intro p a b ha hb
    exact p.transform_mul ha hb
  · intro p q h
    exact p.rotate_eq_transform h

/-- A plane and a point under a perspective map, under that map followed by a
scaling, and under a half turn about an axis between two others. -/
theorem transform_perspective_covariant :
    let p : Plane ℝ := ⟨⟨1, 2, 2⟩, -5⟩
    let m : Matrix4 ℝ := ⟨⟨2, 0, 0, 0⟩, ⟨0, 1, 0, 0⟩, ⟨0, 0, 1, -1⟩, ⟨0, 0, 4, 0⟩⟩
    let b : Matrix4 ℝ := ⟨⟨3, 0, 0, 0⟩, ⟨0, 3, 0, 0⟩, ⟨0, 0, 3, 0⟩, ⟨0, 0, 0, 1⟩⟩
    let q : Quaternion ℝ := ⟨3 / 5, 4 / 5, 0, 0⟩
    m.determinant ≠ 0 ∧ b.determinant ≠ 0 ∧ UnitLength q ∧
      (p.transform m).dot (m.transform ⟨1, 1, 1, 1⟩) = 0 ∧
      (p.transform m).dot (m.transformHomogeneous ⟨1, 1, 1⟩) = 0 ∧
      p.transform (m * b) = (p.transform m).transform b ∧
      p.rotate q = p.transform (Matrix4.ofQuaternion q) := by
  intro p m b q
  have hm : m.determinant ≠ 0 := by norm_num [m, Matrix4.determinant_eq]
  have hb : b.determinant ≠ 0 := by norm_num [b, Matrix4.determinant_eq]
  have hq : UnitLength q := by
    norm_num [q, UnitLength, Components.lengthSquared, Quaternion.dot_eq]
  have hrow : p.dot ⟨1, 1, 1, 1⟩ = 0 := by norm_num [p, Plane.dot, toVec4, Vec3.extend, Vec4.dot_eq]
  have hpoint : p.dotCoordinate ⟨1, 1, 1⟩ = 0 := by norm_num [p, dotCoordinate, Vec3.dot_eq]
  obtain ⟨hpairing, hincidence, hproduct, hrotation⟩ := @transform_covariant ℝ _
  exact ⟨hm, hb, hq, (hpairing p m _ hm).trans hrow, (hincidence p m _ hm).mpr hpoint,
    hproduct p m b hm hb, hrotation p q hq⟩

end Plane

end Spatial
