import Spatial.Plane

/-!
# Frames in space

A frame is an affine map whose axes are orthonormal and right-handed.  Each is built from a third
axis and a vector that should lie above it: `x = up × z` and `y = z × x`.

1. `lookAt` and `world` are inverse to each other, the one taking the world to a camera and the
   other an object to the world.
2. A billboard is an object that turns toward the camera, freely or about a fixed axis.  Where the
   line to the camera is too short, or too near the fixed axis, other directions stand in for it.
3. `shadow` and `reflection` are not frames: they flatten space onto a plane along the light, and
   reflect it in a plane.
-/

namespace Spatial.Matrix4

variable {α : Type} [Scalar α]

open Components (dot lengthSquared normalize)

/-- The map from the world to a camera at a position that looks at a target. -/
def lookAt (position target up : Vec3 α) : Matrix4 α :=
  let z := normalize (position - target)
  let x := normalize (up.cross z)
  let y := z.cross x
  ⟨⟨x.x, y.x, z.x, 0⟩, ⟨x.y, y.y, z.y, 0⟩, ⟨x.z, y.z, z.z, 0⟩,
    ⟨-dot x position, -dot y position, -dot z position, 1⟩⟩

/-- The map to the world from an object at a position that faces forward. -/
def world (position forward up : Vec3 α) : Matrix4 α :=
  let z := normalize (-forward)
  let x := normalize (up.cross z)
  let y := z.cross x
  ofBasis x y z position

/-- The squared distance below which an object counts as being where the camera is. -/
def coincident : α := 1e-4

/-- The unit direction from the camera to an object, or the direction against the camera's view
where the two coincide. -/
def facing (object camera cameraForward : Vec3 α) : Vec3 α :=
  let offset := object - camera
  let squared := lengthSquared offset
  if squared < coincident then -cameraForward else offset * (1 / Scalar.sqrt squared)

/-- The frame of an object that turns freely toward the camera. -/
def billboard (object camera cameraUp cameraForward : Vec3 α) : Matrix4 α :=
  let z := facing object camera cameraForward
  let x := normalize (cameraUp.cross z)
  let y := z.cross x
  ofBasis x y z object

section

variable {β : Type} [Scalar β] [Widening α β]

/-- The cosine above which two unit vectors count as parallel: that of a tenth of a degree. -/
def alignment : α := 1 - (1 - Widening.narrow (Scalar.cos (0.1 * (Scalar.pi / 180.0))))

/-- The frame of an object that turns toward the camera about a fixed axis.  Where the axis points
at the camera the object's own forward direction decides, and where the axis is that direction too,
a coordinate axis that it is not. -/
def constrainedBillboard (object camera axis cameraForward objectForward : Vec3 α) : Matrix4 α :=
  let face := facing object camera cameraForward
  if Scalar.abs (dot axis face) > alignment then
    let z :=
      if Scalar.abs (dot axis objectForward) > alignment then
        if Scalar.abs axis.z > alignment then Vec3.unitX else ⟨0, 0, -1⟩
      else objectForward
    let x := normalize (axis.cross z)
    ofBasis x axis (normalize (x.cross axis)) object
  else
    let x := normalize (axis.cross face)
    ofBasis x axis (normalize (x.cross axis)) object

end

/-- The map that takes each point along the light onto a plane, in homogeneous coordinates. -/
def shadow (light : Vec3 α) (plane : Plane α) : Matrix4 α :=
  let p := plane.normalize
  let s := dot p.normal light
  let a := -p.normal.x
  let b := -p.normal.y
  let c := -p.normal.z
  let d := -p.d
  ⟨⟨a * light.x + s, a * light.y, a * light.z, 0⟩,
    ⟨b * light.x, b * light.y + s, b * light.z, 0⟩,
    ⟨c * light.x, c * light.y, c * light.z + s, 0⟩,
    ⟨d * light.x, d * light.y, d * light.z, s⟩⟩

/-- The reflection in a plane. -/
def reflection (plane : Plane α) : Matrix4 α :=
  let p := plane.normalize
  let ⟨a, b, c⟩ := p.normal
  let fa := -2 * a
  let fb := -2 * b
  let fc := -2 * c
  ⟨⟨fa * a + 1, fb * a, fc * a, 0⟩, ⟨fa * b, fb * b + 1, fc * b, 0⟩,
    ⟨fa * c, fb * c, fc * c + 1, 0⟩, ⟨fa * p.d, fb * p.d, fc * p.d, 1⟩⟩

end Spatial.Matrix4
