import Mathlib
import Spatial.Viewing
import Spatial.Proofs.Frame

/-!
# Cameras

A camera and an object that faces the camera's target have the same axes: the third
points away from the target, the first is at a right angle to it and to the upward
vector, and the second completes them.  Two directions are normalised on the way, and
both have a length: the line to the target has one since the target is somewhere else,
and the vector product with the upward vector has one since that is no multiple of the
line.

1.  The axes are orthonormal and right-handed, so they are the rows of a rotation and
    its inverse has them as columns.
2.  The map of the object is that rotation followed by the translation to the position.
    The map to the camera is the opposite translation followed by the inverse rotation.
    So each undoes the other.
3.  In the coordinates of a camera a point has its scalar products with the axes,
    counted from the position.
-/

namespace Spatial

open Components (dot length normalize UnitLength checked)

namespace Matrix4

section Axes

variable {α : Type} [Scalar α]

/-- The axes of a frame with a given third one, the second on the side of `up`. -/
def axesUnder (up z : Vec3 α) : Vec3 (Vec3 α) :=
  let x := normalize (up.cross z)
  ⟨x, z.cross x, z⟩

/-- The map from the coordinates of a frame at a position. -/
def fromFrame (axes : Vec3 (Vec3 α)) (position : Vec3 α) : Matrix4 α :=
  ofBasis axes.x axes.y axes.z position

/-- The map to the coordinates of a frame at a position. -/
def toFrame (axes : Vec3 (Vec3 α)) (position : Vec3 α) : Matrix4 α :=
  ⟨⟨axes.x.x, axes.y.x, axes.z.x, 0⟩, ⟨axes.x.y, axes.y.y, axes.z.y, 0⟩,
    ⟨axes.x.z, axes.y.z, axes.z.z, 0⟩,
    ⟨-dot axes.x position, -dot axes.y position, -dot axes.z position, 1⟩⟩

/-- A world matrix is the map from the frame under its axis. -/
theorem world_eq_fromFrame (position forward up : Vec3 α) :
    world position forward up = fromFrame (axesUnder up (normalize (-forward))) position := rfl

/-- A view matrix is the map to the frame under its axis. -/
theorem lookAt_eq_toFrame (position target up : Vec3 α) :
    lookAt position target up =
      toFrame (axesUnder up (normalize (position - target))) position := rfl

end Axes

section Exact

variable {K : Type} [ExactScalar K]

/-! Translations. -/

/-- Translations in sequence add up. -/
theorem translation_mul (s t : Vec3 K) : translation s * translation t = translation (s + t) := by
  simp only [mul_rows, transform_eq, translation, ofBasis, Vec3.unitX, Vec3.unitY, Vec3.unitZ,
    Vec3.extend, Vec3.add_eq]
  ext <;> ring

theorem translation_neg_mul (t : Vec3 K) : translation (-t) * translation t = identity := by
  rw [translation_mul, Vec3.neg_eq, Vec3.add_eq]
  simp only [neg_add_cancel]
  rfl

theorem translation_mul_neg (t : Vec3 K) : translation t * translation (-t) = identity := by
  rw [translation_mul, Vec3.neg_eq, Vec3.add_eq]
  simp only [add_neg_cancel]
  rfl

/-! The coordinates of a frame. -/

section Coordinates

variable (axes : Vec3 (Vec3 K)) (position : Vec3 K)

/-- The map from a frame turns first and then moves. -/
theorem fromFrame_eq : fromFrame axes position = ofRows axes * translation position := by
  simp only [fromFrame, ofRows, ofBasis, Vec3.extend, mul_rows, transform_eq, translation,
    Vec3.unitX, Vec3.unitY, Vec3.unitZ, Vec3.zero, Components.splat]
  ext <;> ring

/-- The map to a frame moves first and then turns. -/
theorem toFrame_eq :
    toFrame axes position = translation (-position) * (ofRows axes).transpose := by
  simp only [toFrame, ofRows, ofBasis, Vec3.extend, mul_rows, transform_eq, transpose,
    translation, Vec3.unitX, Vec3.unitY, Vec3.unitZ, Vec3.zero, Components.splat, Vec3.dot_eq,
    Vec3.neg_eq]
  ext <;> ring

/-- In the coordinates of a frame a point has its scalar products with the axes, counted
from the position. -/
theorem toFrame_transformPoint (v : Vec3 K) :
    (toFrame axes position).transformPoint v =
      ⟨dot axes.x (v - position), dot axes.y (v - position), dot axes.z (v - position)⟩ := by
  simp only [toFrame, transformPoint, Vec4.xyz, Vec3.mulLeft_eq, Vec3.add_eq, Vec3.sub_eq,
    Vec3.dot_eq]
  ext <;> ring

/-- A frame is at the origin of its own coordinates. -/
theorem toFrame_position : (toFrame axes position).transformPoint position = ⟨0, 0, 0⟩ := by
  rw [toFrame_transformPoint]
  simp only [Vec3.sub_eq, Vec3.dot_eq, sub_self, mul_zero, add_zero]

variable {axes} (h : (ofRows axes).IsRotation)
include h

/-- A map to a frame and then from it is the identity. -/
theorem toFrame_mul_fromFrame : toFrame axes position * fromFrame axes position = identity := by
  calc toFrame axes position * fromFrame axes position
      = translation (-position) *
          ((ofRows axes).transpose * ofRows axes * translation position) := by
        rw [toFrame_eq, fromFrame_eq]
        simp only [mul_associative]
    _ = identity := by rw [h.transpose_mul, identity_mul, translation_neg_mul]

/-- The same in the other order. -/
theorem fromFrame_mul_toFrame : fromFrame axes position * toFrame axes position = identity := by
  calc fromFrame axes position * toFrame axes position
      = ofRows axes *
          (translation position * translation (-position) * (ofRows axes).transpose) := by
        rw [toFrame_eq, fromFrame_eq]
        simp only [mul_associative]
    _ = identity := by rw [translation_mul_neg, identity_mul, h.mul_transpose]

/-- A point on the third axis, by its distance along it. -/
theorem toFrame_ahead {v : Vec3 K} {s : K} (hv : v - position = s * axes.z) :
    (toFrame axes position).transformPoint v = ⟨0, 0, s⟩ := by
  have hmulLeft (u : Vec3 K) : dot u (s * axes.z) = s * dot u axes.z := by
    simp only [Vec3.dot_eq, Vec3.mulLeft_eq]
    ring
  have hx : dot axes.x axes.z = 0 := h.frame.orthogonal (i := .x) (j := .z) (by decide)
  have hy : dot axes.y axes.z = 0 := h.frame.orthogonal (i := .y) (j := .z) (by decide)
  have hz : dot axes.z axes.z = 1 := h.frame.unit .z
  rw [toFrame_transformPoint, hv, hmulLeft, hmulLeft, hmulLeft, hx, hy, hz]
  simp only [mul_zero, mul_one]

end Coordinates

end Exact

section Camera

variable {line up : Vec3 ℝ} (hline : line ≠ Vec3.zero) (hup : ∀ s : ℝ, up ≠ s * line)
include hline hup

/-- The axes under an upward vector are the rows of a rotation. -/
theorem isRotation_axesUnder : (ofRows (axesUnder up (normalize line))).IsRotation :=
  isRotation_of_cross (Vec3.unitLength_normalize (Vec3.length_cross_normalize_pos hline hup))
    (Vec3.unitLength_normalize (Vec3.length_pos hline))
    (Vec3.dot_normalize (Vec3.dot_cross_right _ _))

/-- No axis is divided by a length of zero. -/
theorem axesUnder_checked :
    axesUnder (checked up) (normalize (checked line)) =
      Components.map checked (axesUnder up (normalize line)) := by
  have hx : normalize ((checked up).cross (checked (normalize line))) =
      checked (normalize (up.cross (normalize line))) :=
    Vec3.normalize_checked (Vec3.length_cross_normalize_pos hline hup)
  rw [Vec3.normalize_checked (Vec3.length_pos hline), axesUnder, hx]
  rfl

end Camera

/-- The target lies against the third axis, at its distance from the position. -/
theorem sub_eq_neg_length_mulLeft {position target : Vec3 ℝ}
    (hline : position - target ≠ Vec3.zero) :
    target - position = -length (target - position) * normalize (position - target) := by
  calc target - position
      = -(position - target) := by
        simp only [Vec3.neg_eq, Vec3.sub_eq, neg_sub]
    _ = -(length (position - target) * normalize (position - target)) := by
        rw [Vec3.length_mulLeft_normalize (Vec3.length_pos hline)]
    _ = -length (target - position) * normalize (position - target) := by
        rw [Vec3.length_sub_comm]
        simp only [Vec3.neg_eq, Vec3.mulLeft_eq, neg_mul]

/-- **Camera and object.**  At a position from which the target lies somewhere else, with
an upward vector that is no multiple of the line between them, the map to the camera and
the map from an object that faces the target undo each other.  The upper rows of both
are orthonormal and right-handed.  The camera is at its own origin, and the target is
straight ahead, at its distance.  No direction is divided by a length of zero. -/
theorem camera_undoes_world {position target up : Vec3 ℝ} (htarget : position ≠ target)
    (hup : ∀ s : ℝ, up ≠ s * (position - target)) :
    let view := lookAt position target up
    let object := world position (target - position) up
    (view * object = identity ∧ object * view = identity) ∧
    (IsFrame view.axes ∧ (ofRows view.axes).determinant = 1) ∧
    (IsFrame object.axes ∧ (ofRows object.axes).determinant = 1) ∧
    (view.transformPoint position = ⟨0, 0, 0⟩ ∧
      view.transformPoint target = ⟨0, 0, -length (target - position)⟩) ∧
    lookAt (checked position) (checked target) (checked up) = checked view ∧
    world (checked position) (checked (target - position)) (checked up) = checked object := by
  intro view object
  have hline : position - target ≠ Vec3.zero := Vec3.sub_ne_zero htarget
  have hbehind : -(target - position) = position - target := by
    simp only [Vec3.neg_eq, Vec3.sub_eq, neg_sub]
  have hrotation := isRotation_axesUnder hline hup
  have hchecked := axesUnder_checked hline hup
  have hview : view = toFrame (axesUnder up (normalize (position - target))) position :=
    lookAt_eq_toFrame position target up
  have hobject : object = fromFrame (axesUnder up (normalize (position - target))) position := by
    rw [← hbehind]
    exact world_eq_fromFrame position (target - position) up
  rw [hview, hobject]
  refine ⟨⟨toFrame_mul_fromFrame position hrotation, fromFrame_mul_toFrame position hrotation⟩,
    ⟨hrotation.transpose.frame, hrotation.transpose.determinant_axes⟩,
    ⟨hrotation.frame, hrotation.determinant⟩, ⟨toFrame_position _ _, ?_⟩, ?_, ?_⟩
  · exact toFrame_ahead position hrotation (sub_eq_neg_length_mulLeft hline)
  · calc lookAt (checked position) (checked target) (checked up)
        = toFrame (axesUnder (checked up) (normalize (checked (position - target))))
            (checked position) := rfl
      _ = checked (toFrame (axesUnder up (normalize (position - target))) position) := by
          rw [hchecked]
          rfl
  · calc world (checked position) (checked (target - position)) (checked up)
        = fromFrame (axesUnder (checked up) (normalize (checked (-(target - position)))))
            (checked position) := rfl
      _ = checked (fromFrame (axesUnder up (normalize (position - target))) position) := by
          rw [hbehind, hchecked]
          rfl

/-- A camera that looks down an oblique line of length seven. -/
theorem camera_undoes_world_oblique :
    let position : Vec3 ℝ := ⟨3, 5, 10⟩
    let target : Vec3 ℝ := ⟨1, 2, 4⟩
    let view := lookAt position target Vec3.unitY
    let object := world position (target - position) Vec3.unitY
    position ≠ target ∧ (∀ s : ℝ, Vec3.unitY ≠ s * (position - target)) ∧
      (view * object = identity ∧ object * view = identity) ∧
      view.transformPoint target = ⟨0, 0, -7⟩ := by
  intro position target view object
  have htarget : position ≠ target := by
    norm_num [position, target]
  have hup : ∀ s : ℝ, Vec3.unitY ≠ s * (position - target) := by
    intro s hs
    simp only [position, target, Vec3.unitY, Vec3.sub_eq, Vec3.mulLeft_eq] at hs
    obtain ⟨hx, hy, -⟩ := Vec3.mk.inj hs
    linarith
  have hlength : length (target - position) = 7 := by
    apply Components.length_of_lengthSquared (by norm_num)
    norm_num [position, target, Components.lengthSquared, Vec3.dot_eq, Vec3.sub_eq]
  obtain ⟨hinverse, -, -, ⟨-, hahead⟩, -⟩ := camera_undoes_world htarget hup
  rw [hlength] at hahead
  exact ⟨htarget, hup, hinverse, hahead⟩

end Matrix4

end Spatial
