import Mathlib
import Spatial.Proofs.Composition
import Spatial.Proofs.QuarterTurn

/-!
# Maps about a center

A map is taken to a center by a translation on either side of it: the first brings the
center to the origin, and the second brings the origin back to the center.

1.  The axes of a map keep their images when it is taken to a center.  Only the image of the
    origin is another: it makes up for how far the axes move the center.
2.  So a map that leaves the origin where it is leaves the center where it is.
3.  Scalings, skews and rotations leave the origin where it is, and each is written out with
    a center as well.  What is written out is the map taken to that center.  For a rotation
    this holds whatever stands for the sine and the cosine of its angle, so an angle that is
    taken for a quarter turn is no exception.
-/

namespace Spatial

variable {K : Type} [ExactScalar K]

namespace Affine2

/-- A map is another one taken to a center, and leaves the center where it is. -/
structure IsAbout (center : Vec2 K) (moved m : Affine2 K) : Prop where
  eq_mul : moved = translation (-center) * m * translation center
  fixes : moved.transformPoint center = center

/-- A map taken to a center keeps the images of the axes. -/
theorem translation_mul_translation (x y origin center : Vec2 K) :
    translation (-center) * ⟨x, y, origin⟩ * translation center =
      ⟨x, y, origin + center - (center.x * x + center.y * y)⟩ := by
  simp only [mul_rows, translation, transformDirection, transformPoint, Vec2.mulLeft_eq,
    Vec2.add_eq, Vec2.sub_eq, Vec2.neg_eq]
  ext <;> ring

/-- With this offset the center is where it was. -/
theorem transformPoint_self {x y center : Vec2 K} :
    (⟨x, y, center - (center.x * x + center.y * y)⟩ : Affine2 K).transformPoint center =
      center := by
  simp only [transformPoint, Vec2.mulLeft_eq, Vec2.add_eq, Vec2.sub_eq]
  ext <;> ring

/-- What makes a map that leaves the origin where it is one that leaves a center. -/
theorem isAbout_of_rows {x y origin moved center : Vec2 K} (horigin : origin = ⟨0, 0⟩)
    (hmoved : moved = center - (center.x * x + center.y * y)) :
    IsAbout center ⟨x, y, moved⟩ ⟨x, y, origin⟩ := by
  have hzero : origin + center = center := by
    rw [horigin, Vec2.add_eq]
    simp only [zero_add]
  constructor
  · rw [translation_mul_translation, hzero, hmoved]
  · rw [hmoved]
    exact transformPoint_self

section

variable (center : Vec2 K)

/-- Scaling about a center is scaling taken to it. -/
theorem isAbout_scale (s : Vec2 K) : IsAbout center (scaleAbout s center) (scale s) := by
  refine isAbout_of_rows rfl ?_
  simp only [Vec2.mulLeft_eq, Vec2.add_eq, Vec2.sub_eq]
  ext <;> ring

/-- Skewing about a center is skewing taken to it. -/
theorem isAbout_skew (radiansX radiansY : K) :
    IsAbout center (skewAbout radiansX radiansY center) (skew radiansX radiansY) := by
  refine isAbout_of_rows ?_ ?_
  · simp only [Vec2.zero, Components.splat]
    ext <;> ring
  · simp only [Vec2.mulLeft_eq, Vec2.add_eq, Vec2.sub_eq]
    ext <;> ring

/-- Of the angle of a rotation only what stands for its sine and cosine matters. -/
theorem isAbout_rotation {β : Type} [Scalar β] [Widening K β] (radians : K) :
    IsAbout center (rotationAbout radians center) (rotation radians) := by
  obtain ⟨p, hp⟩ : ∃ p, snappedSinCos radians = p := ⟨_, rfl⟩
  rw [rotation, rotationAbout, rotationAbout, hp]
  refine isAbout_of_rows ?_ ?_
  · simp only [Vec2.zero, Components.splat]
    ext <;> ring
  · simp only [Vec2.mulLeft_eq, Vec2.add_eq, Vec2.sub_eq]
    ext <;> ring

end

end Affine2

namespace Matrix4

/-- A map is another one taken to a center, and leaves the center where it is. -/
structure IsAbout (center : Vec3 K) (moved m : Matrix4 K) : Prop where
  eq_mul : moved = translation (-center) * m * translation center
  fixes : moved.transformPoint center = center

/-- A map taken to a center keeps the images of the axes. -/
theorem translation_mul_translation (x y z origin center : Vec3 K) :
    translation (-center) * ofBasis x y z origin * translation center =
      ofBasis x y z (origin + center - (center.x * x + center.y * y + center.z * z)) := by
  simp only [mul_rows, transform_eq, translation, ofBasis, Vec3.unitX, Vec3.unitY, Vec3.unitZ,
    Vec3.extend, Vec3.mulLeft_eq, Vec3.add_eq, Vec3.sub_eq, Vec3.neg_eq]
  ext <;> ring

/-- With this offset the center is where it was. -/
theorem transformPoint_self {x y z center : Vec3 K} :
    (ofBasis x y z (center - (center.x * x + center.y * y + center.z * z))).transformPoint
      center = center := by
  simp only [transformPoint, ofBasis, Vec3.extend, Vec4.xyz, Vec3.mulLeft_eq, Vec3.add_eq,
    Vec3.sub_eq]
  ext <;> ring

/-- What makes a map that leaves the origin where it is one that leaves a center. -/
theorem isAbout_of_basis {x y z origin moved center : Vec3 K} (horigin : origin = ⟨0, 0, 0⟩)
    (hmoved : moved = center - (center.x * x + center.y * y + center.z * z)) :
    IsAbout center (ofBasis x y z moved) (ofBasis x y z origin) := by
  have hzero : origin + center = center := by
    rw [horigin, Vec3.add_eq]
    simp only [zero_add]
  constructor
  · rw [translation_mul_translation, hzero, hmoved]
  · rw [hmoved]
    exact transformPoint_self

section

variable (center : Vec3 K)

/-- Scaling about a center is scaling taken to it. -/
theorem isAbout_scale (s : Vec3 K) : IsAbout center (scaleAbout s center) (scale s) := by
  refine isAbout_of_basis ?_ ?_
  · simp only [Vec3.zero, Vec3.one, Components.splat, Vec3.mul_eq, Vec3.sub_eq]
    ext <;> ring
  · simp only [Vec3.one, Components.splat, Vec3.mul_eq, Vec3.mulLeft_eq, Vec3.add_eq, Vec3.sub_eq]
    ext <;> ring

/-! A rotation about a line along an axis, which the center lies on. -/

/-- A turn about an axis through a center is the turn taken to it. -/
theorem isAbout_rotationX (radians : K) :
    IsAbout center (rotationXAbout radians center) (rotationX radians) := by
  have hbasis (c : Vec3 K) : rotationXAbout radians c =
      ofBasis ⟨1, 0, 0⟩ ⟨0, Scalar.cos radians, Scalar.sin radians⟩
        ⟨0, -Scalar.sin radians, Scalar.cos radians⟩
        ⟨0, c.y * (1 - Scalar.cos radians) + c.z * Scalar.sin radians,
          c.z * (1 - Scalar.cos radians) - c.y * Scalar.sin radians⟩ := rfl
  rw [rotationX, hbasis, hbasis]
  refine isAbout_of_basis ?_ ?_
  · simp only [Vec3.zero, Components.splat]
    ext <;> ring
  · simp only [Vec3.mulLeft_eq, Vec3.add_eq, Vec3.sub_eq]
    ext <;> ring

/-- The same of the second axis. -/
theorem isAbout_rotationY (radians : K) :
    IsAbout center (rotationYAbout radians center) (rotationY radians) := by
  have hbasis (c : Vec3 K) : rotationYAbout radians c =
      ofBasis ⟨Scalar.cos radians, 0, -Scalar.sin radians⟩ ⟨0, 1, 0⟩
        ⟨Scalar.sin radians, 0, Scalar.cos radians⟩
        ⟨c.x * (1 - Scalar.cos radians) - c.z * Scalar.sin radians, 0,
          c.z * (1 - Scalar.cos radians) + c.x * Scalar.sin radians⟩ := rfl
  rw [rotationY, hbasis, hbasis]
  refine isAbout_of_basis ?_ ?_
  · simp only [Vec3.zero, Components.splat]
    ext <;> ring
  · simp only [Vec3.mulLeft_eq, Vec3.add_eq, Vec3.sub_eq]
    ext <;> ring

/-- The same of the third axis. -/
theorem isAbout_rotationZ (radians : K) :
    IsAbout center (rotationZAbout radians center) (rotationZ radians) := by
  have hbasis (c : Vec3 K) : rotationZAbout radians c =
      ofBasis ⟨Scalar.cos radians, Scalar.sin radians, 0⟩
        ⟨-Scalar.sin radians, Scalar.cos radians, 0⟩ ⟨0, 0, 1⟩
        ⟨c.x * (1 - Scalar.cos radians) + c.y * Scalar.sin radians,
          c.y * (1 - Scalar.cos radians) - c.x * Scalar.sin radians, 0⟩ := rfl
  rw [rotationZ, hbasis, hbasis]
  refine isAbout_of_basis ?_ ?_
  · simp only [Vec3.zero, Components.splat]
    ext <;> ring
  · simp only [Vec3.mulLeft_eq, Vec3.add_eq, Vec3.sub_eq]
    ext <;> ring

end

end Matrix4

/-- **Maps about a center.**  Every map that is made with a center is the map made without
one, between the translation of the center to the origin and the translation back, and it
leaves the center where it is: scalings by a factor for each axis or by one for all, in the
plane and in space, skews and rotations of the plane, and rotations about a line along each
of the axes of space. -/
theorem maps_act_about_center {β : Type} [Scalar β] [Widening K β] :
    (∀ center : Vec2 K,
      (∀ s, Affine2.IsAbout center (.scaleAbout s center) (.scale s)) ∧
      (∀ s, Affine2.IsAbout center (.uniformScaleAbout s center) (.uniformScale s)) ∧
      (∀ radiansX radiansY,
        Affine2.IsAbout center (.skewAbout radiansX radiansY center) (.skew radiansX radiansY)) ∧
      ∀ radians, Affine2.IsAbout center (.rotationAbout radians center) (.rotation radians)) ∧
    ∀ center : Vec3 K,
      (∀ s, Matrix4.IsAbout center (.scaleAbout s center) (.scale s)) ∧
      (∀ s, Matrix4.IsAbout center (.uniformScaleAbout s center) (.uniformScale s)) ∧
      (∀ radians, Matrix4.IsAbout center (.rotationXAbout radians center) (.rotationX radians)) ∧
      (∀ radians, Matrix4.IsAbout center (.rotationYAbout radians center) (.rotationY radians)) ∧
      ∀ radians, Matrix4.IsAbout center (.rotationZAbout radians center) (.rotationZ radians) := by
  constructor
  · intro center
    exact ⟨Affine2.isAbout_scale center, fun s => Affine2.isAbout_scale center (Components.splat s),
      Affine2.isAbout_skew center, Affine2.isAbout_rotation center⟩
  · intro center
    exact ⟨Matrix4.isAbout_scale center, fun s => Matrix4.isAbout_scale center (Components.splat s),
      Matrix4.isAbout_rotationX center, Matrix4.isAbout_rotationY center,
      Matrix4.isAbout_rotationZ center⟩

end Spatial
