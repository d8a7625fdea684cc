import Mathlib
import Spatial.Proofs.Binary.Componentwise

/-!
# Promoted vectors

A vector of the plane or of space is multiplied by a four by four matrix as a row of
four components: a point is extended by zero and one, a direction by zeros only.  The
library also has the products with the constant terms left out.

A last component of one leaves out nothing but a factor of one, so a point of space
has the same image either way, bit for bit.  A component of zero adds zeros as long
as the row that it multiplies is finite, and a zero that is added changes at most the
sign of a zero.  An infinite element would not do: zero times infinity is no number.
-/

namespace Spatial

open Components (agree_add_zero_mul)

namespace Matrix4

/-- A point of space has one image, with its last component and without. -/
theorem transformHomogeneous_xyz (m : Matrix4 Float32) (v : Vec3 Float32) :
    (m.transformHomogeneous v).xyz = m.transformPoint v := by
  have hone : (1 : Float32) * m.r4.xyz = m.r4.xyz := by
    simp only [Vec3.mulLeft_eq, Binary32.one_mul]
  calc (m.transformHomogeneous v).xyz
      = v.x * m.r1.xyz + v.y * m.r2.xyz + v.z * m.r3.xyz + (1 : Float32) * m.r4.xyz := rfl
    _ = m.transformPoint v := by
        rw [hone]
        rfl

/-- A point of the plane in homogeneous coordinates is one of space, at height zero. -/
theorem transformHomogeneous2_xy (m : Matrix4 Float32) (v : Vec2 Float32) :
    (m.transformHomogeneous2 v).xy = (m.transformPoint (v.extend 0)).xy :=
  congrArg Vec3.xy (m.transformHomogeneous_xyz (v.extend 0))

variable {m : Matrix4 Float32}

/-- The third row takes no part in the image of a point at height zero. -/
theorem agree_transformPoint2 (hm : Components.isFinite m = true) (v : Vec2 Float32) :
    Components.Agree (m.transformPoint2 v) (m.transformPoint (v.extend 0)).xy := by
  rw [Vec2.agree_iff]
  constructor
  · have hzero := agree_add_zero_mul hm (by simp [Components.toList] : m.r3.x ∈ _)
      (v.x * m.r1.x + v.y * m.r2.x)
    exact (hzero.add_right m.r4.x).symm
  · have hzero := agree_add_zero_mul hm (by simp [Components.toList] : m.r3.y ∈ _)
      (v.x * m.r1.y + v.y * m.r2.y)
    exact (hzero.add_right m.r4.y).symm

/-- A last component of zero leaves the fourth row out. -/
theorem agree_transformExtended (hm : Components.isFinite m = true) (v : Vec3 Float32) :
    Components.Agree (m.transformExtended v 0).xyz (m.transformDirection v) := by
  rw [Vec3.agree_iff]
  refine ⟨?_, ?_, ?_⟩
  · exact agree_add_zero_mul hm (by simp [Components.toList] : m.r4.x ∈ _) _
  · exact agree_add_zero_mul hm (by simp [Components.toList] : m.r4.y ∈ _) _
  · exact agree_add_zero_mul hm (by simp [Components.toList] : m.r4.z ∈ _) _

/-- Two last components of zero leave the third and the fourth row out. -/
theorem agree_transformExtended2 (hm : Components.isFinite m = true) (v : Vec2 Float32) :
    Components.Agree (m.transformExtended2 v 0 0).xy (m.transformDirection2 v) := by
  rw [Vec2.agree_iff]
  constructor
  · have hthird := agree_add_zero_mul hm (by simp [Components.toList] : m.r3.x ∈ _)
      (v.x * m.r1.x + v.y * m.r2.x)
    exact (agree_add_zero_mul hm (by simp [Components.toList] : m.r4.x ∈ _) _).trans hthird
  · have hthird := agree_add_zero_mul hm (by simp [Components.toList] : m.r3.y ∈ _)
      (v.x * m.r1.y + v.y * m.r2.y)
    exact (agree_add_zero_mul hm (by simp [Components.toList] : m.r4.y ∈ _) _).trans hthird

/-- **Promotion.**  A point of space has one image, bit for bit, whether or not its
last component is written.  Under a finite matrix the images of a point of the plane
agree, written in two, three or four components, and so do those of a direction. -/
theorem promotion_agrees :
    (∀ (m : Matrix4 Float32) (v : Vec3 Float32),
      (m.transformHomogeneous v).xyz = m.transformPoint v) ∧
    ∀ m : Matrix4 Float32, Components.isFinite m = true →
      (∀ v : Vec2 Float32,
        Components.Agree (m.transformPoint2 v) (m.transformPoint (v.extend 0)).xy ∧
        Components.Agree (m.transformPoint2 v) (m.transformHomogeneous2 v).xy ∧
        Components.Agree (m.transformPoint (v.extend 0)).xy (m.transformHomogeneous2 v).xy) ∧
      (∀ v : Vec3 Float32,
        Components.Agree (m.transformExtended v 0).xyz (m.transformDirection v)) ∧
      ∀ v : Vec2 Float32,
        Components.Agree (m.transformExtended2 v 0 0).xy (m.transformDirection2 v) := by
  refine ⟨transformHomogeneous_xyz, fun m hm => ⟨?_, agree_transformExtended hm,
    agree_transformExtended2 hm⟩⟩
  intro v
  rw [m.transformHomogeneous2_xy v]
  exact ⟨agree_transformPoint2 hm v, agree_transformPoint2 hm v, .refl _⟩

/-- The image of the origin under a reflection that is sheared: without the constant
terms its first component is a negative zero, with them it is a positive one. -/
theorem promotion_agrees_on_negative_zero :
    let m : Matrix4 Float32 := ⟨⟨-1, 0, 0, 0⟩, ⟨-1, 1, 0, 0⟩, ⟨0, 0, 1, 0⟩, ⟨0, 0, 0, 1⟩⟩
    Components.Agree (m.transformExtended2 ⟨0, 0⟩ 0 0).xy (m.transformDirection2 ⟨0, 0⟩) ∧
      (m.transformExtended2 ⟨0, 0⟩ 0 0).xy ≠ m.transformDirection2 ⟨0, 0⟩ := by
  intro m
  have hm : Components.isFinite m = true := by
    decide +kernel
  refine ⟨(promotion_agrees.2 m hm).2.2 ⟨0, 0⟩, ?_⟩
  decide +kernel

end Matrix4

end Spatial
