import Spatial.Vector

/-!
# Quaternions

A quaternion `x·i + y·j + z·k + w` is kept with its scalar part last.  A unit quaternion is a
rotation, and a quaternion and its negation are the same rotation.

1. The product is Hamilton's: `a * b` rotates by `b` first.  `concatenate a b` is the same
   composition read from left to right.
2. `lerp` and `slerp` go from one rotation to another along the shorter arc, the first along the
   chord and the second at constant angular speed, and both give their ends exactly.
-/

namespace Spatial

/-- A quaternion, its scalar part last. -/
@[ext]
structure Quaternion (α : Type) where
  /-- The coefficient of the first imaginary unit. -/
  x : α
  /-- The coefficient of the second imaginary unit. -/
  y : α
  /-- The coefficient of the third imaginary unit. -/
  z : α
  /-- The scalar part. -/
  w : α
deriving BEq, DecidableEq

namespace Quaternion

instance : Components Quaternion where
  splat a := ⟨a, a, a, a⟩
  map f q := ⟨f q.x, f q.y, f q.z, f q.w⟩
  zipWith f p q := ⟨f p.x q.x, f p.y q.y, f p.z q.z, f p.w q.w⟩
  toList q := [q.x, q.y, q.z, q.w]
  ofList?
    | [x, y, z, w] => some ⟨x, y, z, w⟩
    | _ => none

variable {α : Type} [Scalar α]

open Components (dot lengthSquared length)

instance : Add (Quaternion α) := ⟨Components.add⟩
instance : Sub (Quaternion α) := ⟨Components.sub⟩
instance : Neg (Quaternion α) := ⟨Components.neg⟩
instance : HMul (Quaternion α) α (Quaternion α) := ⟨Components.mulRight⟩
instance : HMul α (Quaternion α) (Quaternion α) := ⟨Components.mulLeft⟩
instance : HDiv (Quaternion α) α (Quaternion α) := ⟨Components.divRight⟩

/-! The components of a sum, a difference, a multiple and a quotient, and the terms of a
scalar product. -/

theorem add_eq (u v : Quaternion α) : u + v = ⟨u.x + v.x, u.y + v.y, u.z + v.z, u.w + v.w⟩ := rfl

theorem sub_eq (u v : Quaternion α) : u - v = ⟨u.x - v.x, u.y - v.y, u.z - v.z, u.w - v.w⟩ := rfl

theorem neg_eq (u : Quaternion α) : -u = ⟨-u.x, -u.y, -u.z, -u.w⟩ := rfl

theorem mulRight_eq (u : Quaternion α) (s : α) : u * s = ⟨u.x * s, u.y * s, u.z * s, u.w * s⟩ := rfl

theorem mulLeft_eq (s : α) (u : Quaternion α) : s * u = ⟨s * u.x, s * u.y, s * u.z, s * u.w⟩ := rfl

theorem divRight_eq (u : Quaternion α) (s : α) : u / s = ⟨u.x / s, u.y / s, u.z / s, u.w / s⟩ := rfl

theorem dot_eq (u v : Quaternion α) :
    Components.dot u v = u.x * v.x + u.y * v.y + u.z * v.z + u.w * v.w := rfl

/-- The quaternion that rotates nothing. -/
def identity : Quaternion α := ⟨0, 0, 0, 1⟩

/-- The quaternion with a given vector part and scalar part. -/
def ofParts {β : Type} (v : Vec3 β) (w : β) : Quaternion β := ⟨v.x, v.y, v.z, w⟩

/-- The vector part. -/
def xyz {β : Type} (q : Quaternion β) : Vec3 β := ⟨q.x, q.y, q.z⟩

/-- Every component equals that of the identity. -/
def isIdentity (q : Quaternion α) : Bool := q == identity

/-- A quaternion times the reciprocal of its length. -/
def normalize (q : Quaternion α) : Quaternion α := q * (1 / length q)

/-- The same scalar part and the opposite vector part. -/
def conjugate (q : Quaternion α) : Quaternion α := ⟨-q.x, -q.y, -q.z, q.w⟩

/-- The multiplicative inverse of a quaternion that is not zero. -/
def inverse (q : Quaternion α) : Quaternion α := q.conjugate * (1 / lengthSquared q)

/-- Hamilton's product. -/
def mul (p q : Quaternion α) : Quaternion α :=
  let cx := p.y * q.z - p.z * q.y
  let cy := p.z * q.x - p.x * q.z
  let cz := p.x * q.y - p.y * q.x
  let d := p.x * q.x + p.y * q.y + p.z * q.z
  ⟨p.x * q.w + q.x * p.w + cx, p.y * q.w + q.y * p.w + cy, p.z * q.w + q.z * p.w + cz,
    p.w * q.w - d⟩

instance : Mul (Quaternion α) := ⟨mul⟩
instance : Div (Quaternion α) := ⟨fun p q => p * q.inverse⟩

/-- The rotation `p` followed by the rotation `q`. -/
def concatenate (p q : Quaternion α) : Quaternion α := q * p

/-- The rotation about an axis by an angle.  The axis may have any length; about an axis whose
squared length is zero the vector part is zero. -/
def ofAxisAngle (axis : Vec3 α) (angle : α) : Quaternion α :=
  let half := angle * 0.5
  let s := Scalar.sin half
  let c := Scalar.cos half
  let squared := lengthSquared axis
  let direction := if squared == 0 then Vec3.zero else axis / Scalar.sqrt squared
  ofParts (direction * s) c

/-- The rotation by `roll` about the third axis, then by `pitch` about the first, then by `yaw`
about the second. -/
def ofYawPitchRoll (yaw pitch roll : α) : Quaternion α :=
  let sr := Scalar.sin (roll * 0.5)
  let cr := Scalar.cos (roll * 0.5)
  let sp := Scalar.sin (pitch * 0.5)
  let cp := Scalar.cos (pitch * 0.5)
  let sy := Scalar.sin (yaw * 0.5)
  let cy := Scalar.cos (yaw * 0.5)
  ⟨cy * sp * cr + sy * cp * sr, sy * cp * cr - cy * sp * sr, cy * cp * sr - sy * sp * cr,
    cy * cp * cr + sy * sp * sr⟩

/-- The rotation a fraction `t` of the way along the chord of the shorter arc. -/
def lerp (p q : Quaternion α) (t : α) : Quaternion α :=
  let near := if dot p q < 0 then -q else q
  if t == 0 then p
  else if t == 1 then near
  else normalize (p + (near - p) * t)

/-- The rotation a fraction `t` of the way along the shorter arc.  Where the arc is so short that
its sine would lose its digits, the chord is taken instead. -/
def slerp (p q : Quaternion α) (t : α) : Quaternion α :=
  let d := dot p q
  let cosine := if d < 0 then -d else d
  let near := if d < 0 then -q else q
  if t == 0 then p
  else if t == 1 then near
  else if cosine > 1 - 1e-6 then normalize (p * (1 - t) + near * t)
  else
    let angle := Scalar.acos cosine
    let scale := 1 / Scalar.sin angle
    let s₁ := Scalar.sin ((1 - t) * angle) * scale
    let s₂ := Scalar.sin (t * angle) * scale
    p * s₁ + near * s₂

end Quaternion

end Spatial
