import Spatial.Matrix4
import Spatial.Quaternion

/-!
# Rotations

A rotation of space is given by an angle about an axis, by three angles in turn, by a unit
quaternion or by a matrix.  This module holds the passages between them and the action of a
quaternion on vectors.

1. `Matrix4.ofQuaternion` is quadratic in the quaternion, so `q` and `-q` give one matrix.
2. `Quaternion.ofRotationMatrix` goes back.  It takes the square root of the largest of the four
   sums that a rotation makes from its diagonal, so that the divisor is never small.
3. `Quaternion.rotate` is written on its own, and agrees with the matrix.
-/

namespace Spatial

variable {α : Type} [Scalar α]

namespace Matrix4

/-- The rotation by an angle about a line along the first axis through a center. -/
def rotationXAbout (radians : α) (center : Vec3 α) : Matrix4 α :=
  let s := Scalar.sin radians
  let c := Scalar.cos radians
  let y := center.y * (1 - c) + center.z * s
  let z := center.z * (1 - c) - center.y * s
  ⟨⟨1, 0, 0, 0⟩, ⟨0, c, s, 0⟩, ⟨0, -s, c, 0⟩, ⟨0, y, z, 1⟩⟩

/-- The rotation by an angle about a line along the second axis through a center. -/
def rotationYAbout (radians : α) (center : Vec3 α) : Matrix4 α :=
  let s := Scalar.sin radians
  let c := Scalar.cos radians
  let x := center.x * (1 - c) - center.z * s
  let z := center.z * (1 - c) + center.x * s
  ⟨⟨c, 0, -s, 0⟩, ⟨0, 1, 0, 0⟩, ⟨s, 0, c, 0⟩, ⟨x, 0, z, 1⟩⟩

/-- The rotation by an angle about a line along the third axis through a center. -/
def rotationZAbout (radians : α) (center : Vec3 α) : Matrix4 α :=
  let s := Scalar.sin radians
  let c := Scalar.cos radians
  let x := center.x * (1 - c) + center.y * s
  let y := center.y * (1 - c) - center.x * s
  ⟨⟨c, s, 0, 0⟩, ⟨-s, c, 0, 0⟩, ⟨0, 0, 1, 0⟩, ⟨x, y, 0, 1⟩⟩

/-- The rotation by an angle about the first axis. -/
def rotationX (radians : α) : Matrix4 α := rotationXAbout radians Vec3.zero

/-- The rotation by an angle about the second axis. -/
def rotationY (radians : α) : Matrix4 α := rotationYAbout radians Vec3.zero

/-- The rotation by an angle about the third axis. -/
def rotationZ (radians : α) : Matrix4 α := rotationZAbout radians Vec3.zero

/-- The rotation by an angle about a unit axis. -/
def ofAxisAngle (axis : Vec3 α) (angle : α) : Matrix4 α :=
  let ⟨x, y, z⟩ := axis
  let sa := Scalar.sin angle
  let ca := Scalar.cos angle
  let xx := x * x
  let yy := y * y
  let zz := z * z
  let xy := x * y
  let xz := x * z
  let yz := y * z
  ⟨⟨xx + ca * (1 - xx), xy - ca * xy + sa * z, xz - ca * xz - sa * y, 0⟩,
    ⟨xy - ca * xy - sa * z, yy + ca * (1 - yy), yz - ca * yz + sa * x, 0⟩,
    ⟨xz - ca * xz + sa * y, yz - ca * yz - sa * x, zz + ca * (1 - zz), 0⟩,
    ⟨0, 0, 0, 1⟩⟩

/-- The rotation that a unit quaternion stands for. -/
def ofQuaternion (q : Quaternion α) : Matrix4 α :=
  let xx := q.x * q.x
  let yy := q.y * q.y
  let zz := q.z * q.z
  let xy := q.x * q.y
  let wz := q.z * q.w
  let xz := q.z * q.x
  let wy := q.y * q.w
  let yz := q.y * q.z
  let wx := q.x * q.w
  ⟨⟨1 - 2 * (yy + zz), 2 * (xy + wz), 2 * (xz - wy), 0⟩,
    ⟨2 * (xy - wz), 1 - 2 * (zz + xx), 2 * (yz + wx), 0⟩,
    ⟨2 * (xz + wy), 2 * (yz - wx), 1 - 2 * (yy + xx), 0⟩,
    ⟨0, 0, 0, 1⟩⟩

/-- The rotation by `roll` about the third axis, then by `pitch` about the first, then by `yaw`
about the second. -/
def ofYawPitchRoll (yaw pitch roll : α) : Matrix4 α :=
  ofQuaternion (Quaternion.ofYawPitchRoll yaw pitch roll)

/-- The same map followed by a rotation. -/
def rotateBy (m : Matrix4 α) (q : Quaternion α) : Matrix4 α := m * ofQuaternion q

end Matrix4

namespace Quaternion

/-- The unit quaternion of a rotation matrix, of the two that differ in sign the one whose largest
component is positive. -/
def ofRotationMatrix (m : Matrix4 α) : Quaternion α :=
  let trace := m.r1.x + m.r2.y + m.r3.z
  if trace > 0 then
    let s := Scalar.sqrt (trace + 1)
    let k := 0.5 / s
    ⟨(m.r2.z - m.r3.y) * k, (m.r3.x - m.r1.z) * k, (m.r1.y - m.r2.x) * k, s * 0.5⟩
  else if m.r1.x ≥ m.r2.y ∧ m.r1.x ≥ m.r3.z then
    let s := Scalar.sqrt (1 + m.r1.x - m.r2.y - m.r3.z)
    let k := 0.5 / s
    ⟨0.5 * s, (m.r1.y + m.r2.x) * k, (m.r1.z + m.r3.x) * k, (m.r2.z - m.r3.y) * k⟩
  else if m.r2.y > m.r3.z then
    let s := Scalar.sqrt (1 + m.r2.y - m.r1.x - m.r3.z)
    let k := 0.5 / s
    ⟨(m.r2.x + m.r1.y) * k, 0.5 * s, (m.r3.y + m.r2.z) * k, (m.r3.x - m.r1.z) * k⟩
  else
    let s := Scalar.sqrt (1 + m.r3.z - m.r1.x - m.r2.y)
    let k := 0.5 / s
    ⟨(m.r3.x + m.r1.z) * k, (m.r3.y + m.r2.z) * k, 0.5 * s, (m.r1.y - m.r2.x) * k⟩

/-- The first two components of the rotation of a vector of the plane. -/
def rotate2 (q : Quaternion α) (v : Vec2 α) : Vec2 α :=
  let x2 := q.x + q.x
  let y2 := q.y + q.y
  let z2 := q.z + q.z
  let wz2 := q.w * z2
  let xx2 := q.x * x2
  let xy2 := q.x * y2
  let yy2 := q.y * y2
  let zz2 := q.z * z2
  ⟨v.x * (1 - yy2 - zz2) + v.y * (xy2 - wz2), v.x * (xy2 + wz2) + v.y * (1 - xx2 - zz2)⟩

/-- The rotation of a vector of space. -/
def rotate (q : Quaternion α) (v : Vec3 α) : Vec3 α :=
  let x2 := q.x + q.x
  let y2 := q.y + q.y
  let z2 := q.z + q.z
  let wx2 := q.w * x2
  let wy2 := q.w * y2
  let wz2 := q.w * z2
  let xx2 := q.x * x2
  let xy2 := q.x * y2
  let xz2 := q.x * z2
  let yy2 := q.y * y2
  let yz2 := q.y * z2
  let zz2 := q.z * z2
  ⟨v.x * (1 - yy2 - zz2) + v.y * (xy2 - wz2) + v.z * (xz2 + wy2),
    v.x * (xy2 + wz2) + v.y * (1 - xx2 - zz2) + v.z * (yz2 - wx2),
    v.x * (xz2 - wy2) + v.y * (yz2 + wx2) + v.z * (1 - xx2 - yy2)⟩

/-- The rotation of the first three components, with the fourth kept. -/
def rotate4 (q : Quaternion α) (v : Vec4 α) : Vec4 α := (q.rotate v.xyz).extend v.w

/-- The rotation of a point of space, in homogeneous coordinates. -/
def rotateHomogeneous (q : Quaternion α) (v : Vec3 α) : Vec4 α := (q.rotate v).extend 1

/-- The rotation of a point of the plane, in homogeneous coordinates. -/
def rotateHomogeneous2 (q : Quaternion α) (v : Vec2 α) : Vec4 α :=
  q.rotateHomogeneous (v.extend 0)

end Quaternion

end Spatial
