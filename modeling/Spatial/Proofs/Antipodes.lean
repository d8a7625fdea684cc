import Mathlib
import Spatial.Plane
import Spatial.Proofs.Interpolation
import Spatial.Proofs.Binary.Agreement

/-!
# Opposite quaternions in binary32

A quaternion and its negation are one rotation.  In binary32 that is so bit for bit,
although the numbers round on the way.

1.  The matrix and the action on vectors read a quaternion through products of two of
    its components and of two of their doubles.  In each the two signs cancel before
    anything is rounded.
2.  The scalar product with the negated quaternion is a sum of negated terms.  A partial
    sum that cancels is a positive zero on either side, so it is not negated; but the
    zero is gone after the next term.  So the two scalar products are opposite, but for
    the sign of a zero that is the whole sum.
3.  Of two opposite numbers that are no zeros one is below zero.  So of a quaternion and
    its negation both interpolations go to the same one, and at the same angle.
-/

namespace Spatial

open Components (dot)

/-! Products of two components. -/

/-- Opposite quaternions have one matrix, bit for bit. -/
theorem Matrix4.ofQuaternion_neg (q : Quaternion Float32) :
    ofQuaternion (-q) = ofQuaternion q := by
  simp only [ofQuaternion, Quaternion.neg_eq, Binary32.neg_mul_neg]

namespace Quaternion

/-- Opposite quaternions rotate a vector to the same vector. -/
theorem rotate_neg (q : Quaternion Float32) (v : Vec3 Float32) :
    (-q).rotate v = q.rotate v := by
  simp only [rotate, neg_eq, Binary32.neg_add_neg_self, Binary32.neg_mul_neg]

/-- The same of vectors in the plane. -/
theorem rotate2_neg (q : Quaternion Float32) (v : Vec2 Float32) :
    (-q).rotate2 v = q.rotate2 v := by
  simp only [rotate2, neg_eq, Binary32.neg_add_neg_self, Binary32.neg_mul_neg]

/-- The same of vectors with four components. -/
theorem rotate4_neg (q : Quaternion Float32) (v : Vec4 Float32) :
    (-q).rotate4 v = q.rotate4 v :=
  congrArg (Vec3.extend · v.w) (rotate_neg q v.xyz)

/-- The same of points that are given a fourth component. -/
theorem rotateHomogeneous_neg (q : Quaternion Float32) (v : Vec3 Float32) :
    (-q).rotateHomogeneous v = q.rotateHomogeneous v :=
  congrArg (Vec3.extend · 1) (rotate_neg q v)

/-- Two negations give the quaternion back, with its signs of zero. -/
theorem neg_neg_binary32 (q : Quaternion Float32) : - -q = q := by
  simp only [neg_eq, Binary32.neg_neg]

/-! The scalar product with an opposite quaternion. -/

/-- The scalar product is negated with its second factor, but for the sign of a zero. -/
theorem agree_dot_neg (p q : Quaternion Float32) :
    Binary32.Agree (dot p (-q)) (-dot p q) := by
  have hstep {sum opposite : Float32} (h : Binary32.Agree opposite (-sum)) (x y : Float32) :
      Binary32.Agree (opposite + x * -y) (-(sum + x * y)) := by
    rw [Binary32.mul_neg]
    exact (h.add_right _).trans (Binary32.agree_neg_add_neg sum (x * y))
  have hfirst : Binary32.Agree (p.x * -q.x) (-(p.x * q.x)) := by
    rw [Binary32.mul_neg]
    exact .refl _
  rw [dot_eq, dot_eq, neg_eq]
  exact hstep (hstep (hstep hfirst _ _) _ _) _ _

section Away

variable {p q : Quaternion Float32} (hzero : (dot p q == 0) = false)
include hzero

/-- Away from zero the scalar product is negated exactly. -/
theorem dot_neg_binary32 : dot p (-q) = -dot p q := by
  rcases (Binary32.agree_iff _ _).mp (agree_dot_neg p q) with heq | ⟨-, s, hneg⟩
  · exact heq
  · -- The negation of the scalar product is no zero, since the scalar product is none.
    have hvalue : Binary32.value (dot p q) = .zero (-s) := by
      rw [← Binary32.neg_neg (dot p q), Binary32.value_neg, hneg]
      rfl
    rw [Binary32.beq_eq, hvalue] at hzero
    cases hzero

variable (hnan : (dot p q).isNaN = false)
include hnan

/-- The nearer one of two opposite quaternions does not depend on which is given. -/
theorem nearer_neg : nearer p (-q) = nearer p q := by
  have hopposite := Binary32.neg_lt_zero_iff hzero hnan
  unfold nearer
  rw [dot_neg_binary32 hzero]
  by_cases h : dot p q < 0
  · rw [if_pos h, if_neg (mt hopposite.mp (not_not_intro h))]
  · rw [if_neg h, if_pos (hopposite.mpr h), neg_neg_binary32]

/-- The cosine of the shorter arc does not depend on the sign of its end. -/
theorem arcCosine_neg : arcCosine p (-q) = arcCosine p q := by
  have hopposite := Binary32.neg_lt_zero_iff hzero hnan
  unfold arcCosine
  rw [dot_neg_binary32 hzero]
  by_cases h : dot p q < 0
  · rw [if_pos h, if_neg (mt hopposite.mp (not_not_intro h))]
  · rw [if_neg h, if_pos (hopposite.mpr h), Binary32.neg_neg]

end Away

/-- **Opposite quaternions.**  In binary32 a quaternion and its negation have one matrix
and move every vector and plane alike, bit for bit.  Where the scalar product of two
quaternions is a number other than zero, both interpolations from the first one go to the
second and to its negation by the same quaternions. -/
theorem opposites_rotate_alike :
    (∀ q : Quaternion Float32, Matrix4.ofQuaternion (-q) = Matrix4.ofQuaternion q) ∧
    (∀ (q : Quaternion Float32) (v : Vec2 Float32),
      (-q).rotate2 v = q.rotate2 v ∧ (-q).rotateHomogeneous2 v = q.rotateHomogeneous2 v) ∧
    (∀ (q : Quaternion Float32) (v : Vec3 Float32),
      (-q).rotate v = q.rotate v ∧ (-q).rotateHomogeneous v = q.rotateHomogeneous v) ∧
    (∀ (q : Quaternion Float32) (v : Vec4 Float32), (-q).rotate4 v = q.rotate4 v) ∧
    (∀ (q : Quaternion Float32) (p : Plane Float32), p.rotate (-q) = p.rotate q) ∧
    (∀ a b : Quaternion Float32, (dot a b == 0) = false → (dot a b).isNaN = false →
      ∀ t, slerp a (-b) t = slerp a b t ∧ lerp a (-b) t = lerp a b t) := by
  refine ⟨Matrix4.ofQuaternion_neg, ?_, ?_, rotate4_neg, ?_, ?_⟩
  · intro q v
    exact ⟨rotate2_neg q v, rotateHomogeneous_neg q (v.extend 0)⟩
  · intro q v
    exact ⟨rotate_neg q v, rotateHomogeneous_neg q v⟩
  · intro q p
    exact congrArg (Plane.mk · p.d) (rotate_neg q p.normal)
  · intro a b hzero hnan t
    constructor
    · rw [slerp_eq, slerp_eq, nearer_neg hzero hnan, arcCosine_neg hzero hnan]
    · rw [lerp_eq, lerp_eq, nearer_neg hzero hnan]

/-- The first two terms of this scalar product cancel to a positive zero for the
quaternion and for its negation, and the third term makes them opposite. -/
theorem opposites_rotate_alike_on_cancellation :
    let a : Quaternion Float32 := ⟨1, 1, 2, 0⟩
    let b : Quaternion Float32 := ⟨3, -3, 1, 0⟩
    ((a.x * b.x + a.y * b.y == 0) = true ∧
      a.x * (-b).x + a.y * (-b).y = a.x * b.x + a.y * b.y) ∧
    ((dot a b == 0) = false ∧ (dot a b).isNaN = false) ∧
      slerp a (-b) 0.5 = slerp a b 0.5 ∧ lerp a (-b) 0.5 = lerp a b 0.5 := by
  intro a b
  have hzero : (dot a b == 0) = false := by
    decide +kernel
  have hnan : (dot a b).isNaN = false := by
    decide +kernel
  refine ⟨⟨?_, ?_⟩, ⟨hzero, hnan⟩, opposites_rotate_alike.2.2.2.2.2 a b hzero hnan 0.5⟩
  · decide +kernel
  · decide +kernel

end Quaternion

end Spatial
