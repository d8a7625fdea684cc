import Spatial.Matrix4

/-!
# Projections

A projection takes a box in front of the camera, which looks along the negative third axis, to the
clip volume: `-1` to `1` across and up, `0` to `1` in depth.

1. The orthographic projections are affine and always have a result.
2. The perspective projections divide by the distance, so they refuse clip planes that are not at
   positive distances in order, and a field of view that is not between zero and a half turn.  The
   first argument that breaks a rule is the one the failure names.
-/

namespace Spatial.Matrix4

variable {α : Type} [Scalar α]

/-- The near and the far clip plane lie at positive distances, the near one first. -/
def checkClipPlanes (near far : α) : Except (Failure α) Unit :=
  if ¬ near > 0 then .error (.invalidProjection "near_plane_distance" near "must be positive")
  else if ¬ far > 0 then .error (.invalidProjection "far_plane_distance" far "must be positive")
  else if near ≥ far then
    .error (.invalidProjection "near_plane_distance" near "must be less than far_plane_distance")
  else .ok ()

/-- The field of view lies between zero and a half turn. -/
def checkFieldOfView (fieldOfView : α) : Except (Failure α) Unit :=
  if fieldOfView > 0 ∧ fieldOfView < Scalar.pi then .ok ()
  else .error (.invalidProjection "field_of_view" fieldOfView "must be in (0, pi)")

/-- The matrix of the perspective projection of a centered view volume. -/
def perspectiveMatrix (width height near far : α) : Matrix4 α :=
  let range := far / (near - far)
  ⟨⟨2 * near / width, 0, 0, 0⟩, ⟨0, 2 * near / height, 0, 0⟩, ⟨0, 0, range, -1⟩,
    ⟨0, 0, range * near, 0⟩⟩

/-- The perspective projection of a view volume whose cross-section at the near plane has a given
width and height and is centered. -/
def perspective (width height near far : α) : Except (Failure α) (Matrix4 α) := do
  checkClipPlanes near far
  return perspectiveMatrix width height near far

/-- The matrix of the perspective projection with a given field of view. -/
def perspectiveFieldOfViewMatrix (fieldOfView aspectRatio near far : α) : Matrix4 α :=
  let yScale := 1 / Scalar.tan (fieldOfView * 0.5)
  let xScale := yScale / aspectRatio
  let range := far / (near - far)
  ⟨⟨xScale, 0, 0, 0⟩, ⟨0, yScale, 0, 0⟩, ⟨0, 0, range, -1⟩, ⟨0, 0, range * near, 0⟩⟩

/-- The perspective projection with a given vertical field of view and ratio of width to height. -/
def perspectiveFieldOfView (fieldOfView aspectRatio near far : α) :
    Except (Failure α) (Matrix4 α) := do
  checkFieldOfView fieldOfView
  checkClipPlanes near far
  return perspectiveFieldOfViewMatrix fieldOfView aspectRatio near far

/-- The matrix of the perspective projection of a view volume with given bounds. -/
def perspectiveOffCenterMatrix (left right bottom top near far : α) : Matrix4 α :=
  let range := far / (near - far)
  ⟨⟨2 * near / (right - left), 0, 0, 0⟩, ⟨0, 2 * near / (top - bottom), 0, 0⟩,
    ⟨(left + right) / (right - left), (top + bottom) / (top - bottom), range, -1⟩,
    ⟨0, 0, range * near, 0⟩⟩

/-- The perspective projection of a view volume with given bounds at the near plane. -/
def perspectiveOffCenter (left right bottom top near far : α) :
    Except (Failure α) (Matrix4 α) := do
  checkClipPlanes near far
  return perspectiveOffCenterMatrix left right bottom top near far

/-- The orthographic projection of a centered box of a given width and height. -/
def orthographic (width height near far : α) : Matrix4 α :=
  let range := 1 / (near - far)
  ⟨⟨2 / width, 0, 0, 0⟩, ⟨0, 2 / height, 0, 0⟩, ⟨0, 0, range, 0⟩, ⟨0, 0, range * near, 1⟩⟩

/-- The orthographic projection of a box with given bounds. -/
def orthographicOffCenter (left right bottom top near far : α) : Matrix4 α :=
  let range := 1 / (near - far)
  ⟨⟨2 / (right - left), 0, 0, 0⟩, ⟨0, 2 / (top - bottom), 0, 0⟩, ⟨0, 0, range, 0⟩,
    ⟨(left + right) / (left - right), (top + bottom) / (bottom - top), range * near, 1⟩⟩

end Spatial.Matrix4
