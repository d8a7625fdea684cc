import Mathlib
import Spatial.Proofs.Decomposition

/-!
# Composition

A vector is a row with the map on its right, so a product of maps acts from left to
right: by its left factor first.  For maps of the plane, and for rows of four
components, that is so whatever the two factors are, and since a matrix is known by
its rows, it makes both products associative.

A vector of space leaves its fourth component out: it is one for a point and zero for
a direction.  The left factor may give the image another fourth component, which the
right factor would multiply its fourth row by.  `pointDefect` and `directionDefect`
are what is missing then.  So the law holds of a left factor and every right one

1.  for points exactly if the left factor is affine, and
2.  for directions exactly if the first three elements of its fourth column are zero.
-/

namespace Spatial

variable {K : Type} [ExactScalar K]

namespace Affine2

/-- The first factor acts first on points. -/
theorem transformPoint_mul (a b : Affine2 K) (v : Vec2 K) :
    (a * b).transformPoint v = b.transformPoint (a.transformPoint v) := by
  simp only [mul_rows, transformPoint, transformDirection, Vec2.mulLeft_eq, Vec2.add_eq]
  ext <;> ring

/-- The first factor acts first on directions. -/
theorem transformDirection_mul (a b : Affine2 K) (v : Vec2 K) :
    (a * b).transformDirection v = b.transformDirection (a.transformDirection v) := by
  simp only [mul_rows, transformDirection, Vec2.mulLeft_eq, Vec2.add_eq]
  ext <;> ring

/-- The rows of either side are the rows of `a` moved by `b` and then by `c`. -/
theorem mul_associative (a b c : Affine2 K) : a * b * c = a * (b * c) := by
  rw [mul_rows (a * b), mul_rows a (b * c)]
  simp only [transformDirection_mul, transformPoint_mul]
  rfl

end Affine2

namespace Matrix4

/-- What a direction gets for a fourth component. -/
def directionDefect (m : Matrix4 K) (v : Vec3 K) : K :=
  v.x * m.r1.w + v.y * m.r2.w + v.z * m.r3.w

/-- What a point gets for a fourth component, less the one that it had. -/
def pointDefect (m : Matrix4 K) (v : Vec3 K) : K := m.directionDefect v + m.r4.w - 1

/-- A direction under a product is moved by its factors in turn, but for the fourth row
of the right one. -/
theorem transformDirection_mul (a b : Matrix4 K) (v : Vec3 K) :
    (a * b).transformDirection v =
      b.transformDirection (a.transformDirection v) + a.directionDefect v * b.r4.xyz := by
  simp only [mul_rows, transform_eq, transformDirection, directionDefect, Vec4.xyz,
    Vec3.mulLeft_eq, Vec3.add_eq]
  ext <;> ring

/-- A point under a product is moved by its factors in turn, but for the fourth row of
the right one. -/
theorem transformPoint_mul (a b : Matrix4 K) (v : Vec3 K) :
    (a * b).transformPoint v =
      b.transformPoint (a.transformPoint v) + a.pointDefect v * b.r4.xyz := by
  simp only [mul_rows, transform_eq, transformPoint, pointDefect, directionDefect, Vec4.xyz,
    Vec3.mulLeft_eq, Vec3.add_eq]
  ext <;> ring

/-- A multiple of the fourth row that every matrix may leave out of an image has the
factor zero.  A translation along the first axis shows it. -/
theorem defect_eq_zero_iff (image : Matrix4 K → Vec3 K) (s : K) :
    (∀ b : Matrix4 K, image b + s * b.r4.xyz = image b) ↔ s = 0 := by
  constructor
  · intro h
    have hx := congrArg Vec3.x (h (translation Vec3.unitX))
    simp only [translation, ofBasis, Vec3.unitX, Vec3.extend, Vec4.xyz, Vec3.mulLeft_eq,
      Vec3.add_eq, mul_one] at hx
    exact add_eq_left.mp hx
  · rintro rfl b
    simp only [Vec3.mulLeft_eq, Vec3.add_eq, zero_mul, add_zero]

/-- Directions keep a fourth component of zero exactly if the fourth column starts with
three zeros. -/
theorem directionDefect_eq_zero_iff (m : Matrix4 K) :
    (∀ v, m.directionDefect v = 0) ↔ m.transpose.r4.xyz = ⟨0, 0, 0⟩ := by
  constructor
  · intro h
    have hx := h Vec3.unitX
    have hy := h Vec3.unitY
    have hz := h Vec3.unitZ
    simp only [directionDefect, Vec3.unitX, Vec3.unitY, Vec3.unitZ, one_mul, zero_mul, add_zero,
      zero_add] at hx hy hz
    simp only [transpose, Vec4.xyz, hx, hy, hz]
  · intro h v
    obtain ⟨hx, hy, hz⟩ := Vec3.mk.inj h
    simp only [transpose] at hx hy hz
    rw [directionDefect, hx, hy, hz]
    ring

/-- Points keep a fourth component of one exactly under affine maps. -/
theorem pointDefect_eq_zero_iff (m : Matrix4 K) : (∀ v, m.pointDefect v = 0) ↔ m.IsAffine := by
  constructor
  · intro h
    have horigin : m.r4.w - 1 = 0 := by
      simpa [pointDefect, directionDefect] using h ⟨0, 0, 0⟩
    have hdirection : ∀ v, m.directionDefect v = 0 := by
      intro v
      have hpoint := h v
      rw [pointDefect] at hpoint
      linear_combination hpoint - horigin
    obtain ⟨hx, hy, hz⟩ := Vec3.mk.inj ((directionDefect_eq_zero_iff m).mp hdirection)
    exact Vec4.ext hx hy hz (sub_eq_zero.mp horigin)
  · intro h v
    obtain ⟨hx, hy, hz, hw⟩ := Vec4.mk.inj h
    have hdirection : m.directionDefect v = 0 :=
      (directionDefect_eq_zero_iff m).mpr (Vec3.ext hx hy hz) v
    rw [pointDefect, hdirection, hw]
    ring

/-- Points compose under a left factor and every right one exactly if the left one is
affine. -/
theorem transformPoint_mul_iff (a : Matrix4 K) :
    (∀ b v, (a * b).transformPoint v = b.transformPoint (a.transformPoint v)) ↔ a.IsAffine := by
  simp only [transformPoint_mul]
  rw [← pointDefect_eq_zero_iff, forall_comm]
  exact forall_congr' fun v => defect_eq_zero_iff (·.transformPoint (a.transformPoint v)) _

/-- Directions compose under a left factor and every right one exactly if the fourth
column of the left one starts with three zeros. -/
theorem transformDirection_mul_iff (a : Matrix4 K) :
    (∀ b v, (a * b).transformDirection v = b.transformDirection (a.transformDirection v)) ↔
      a.transpose.r4.xyz = ⟨0, 0, 0⟩ := by
  simp only [transformDirection_mul]
  rw [← directionDefect_eq_zero_iff, forall_comm]
  exact forall_congr' fun v => defect_eq_zero_iff (·.transformDirection (a.transformDirection v)) _

end Matrix4

/-- **Composition is from left to right.**  A product of maps moves points and
directions of the plane, and rows of four components, as its factors do in turn.  It
does so for points of space exactly if the left factor is affine, and for directions
exactly if the left factor gives them no fourth component.  Both products are
associative. -/
theorem composes_left_to_right :
    (∀ (a b : Affine2 K) (v : Vec2 K),
      (a * b).transformPoint v = b.transformPoint (a.transformPoint v) ∧
        (a * b).transformDirection v = b.transformDirection (a.transformDirection v)) ∧
    (∀ (a b : Matrix4 K) (v : Vec4 K), (a * b).transform v = b.transform (a.transform v)) ∧
    (∀ a : Matrix4 K,
      (∀ b v, (a * b).transformPoint v = b.transformPoint (a.transformPoint v)) ↔ a.IsAffine) ∧
    (∀ a : Matrix4 K,
      (∀ b v, (a * b).transformDirection v = b.transformDirection (a.transformDirection v)) ↔
        a.transpose.r4.xyz = ⟨0, 0, 0⟩) ∧
    (∀ a b c : Affine2 K, a * b * c = a * (b * c)) ∧
    ∀ a b c : Matrix4 K, a * b * c = a * (b * c) := by
  refine ⟨?_, Matrix4.transform_mul, Matrix4.transformPoint_mul_iff,
    Matrix4.transformDirection_mul_iff, Affine2.mul_associative, Matrix4.mul_associative⟩
  intro a b v
  exact ⟨Affine2.transformPoint_mul a b v, Affine2.transformDirection_mul a b v⟩

end Spatial
