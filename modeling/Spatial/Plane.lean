import Spatial.Rotation

/-!
# Planes

A plane is the set of points `v` with `normal · v + d = 0`.  As a row of four components it pairs
with a point in homogeneous coordinates, so a matrix acts on it by its inverse transposed: the
pairing of plane and point is kept.
-/

namespace Spatial

/-- The plane of the points `v` with `normal · v + d = 0`. -/
@[ext]
structure Plane (α : Type) where
  /-- A vector at right angles to the plane. -/
  normal : Vec3 α
  /-- The offset, which is minus the distance from the origin along a unit normal. -/
  d : α
deriving BEq, DecidableEq

namespace Plane

instance : Components Plane where
  splat a := ⟨⟨a, a, a⟩, a⟩
  map f p := ⟨⟨f p.normal.x, f p.normal.y, f p.normal.z⟩, f p.d⟩
  zipWith f p q :=
    ⟨⟨f p.normal.x q.normal.x, f p.normal.y q.normal.y, f p.normal.z q.normal.z⟩, f p.d q.d⟩
  toList p := [p.normal.x, p.normal.y, p.normal.z, p.d]
  ofList?
    | [x, y, z, d] => some ⟨⟨x, y, z⟩, d⟩
    | _ => none

variable {α : Type} [Scalar α]

/-- The plane whose normal and offset are the components of a row. -/
def ofVec4 {β : Type} (v : Vec4 β) : Plane β := ⟨v.xyz, v.w⟩

/-- The normal and the offset as one row. -/
def toVec4 {β : Type} (p : Plane β) : Vec4 β := p.normal.extend p.d

/-- The plane through three points, its normal toward the side from which they turn
counterclockwise. -/
def ofVertices (p₁ p₂ p₃ : Vec3 α) : Plane α :=
  let normal := Components.normalize ((p₂ - p₁).cross (p₃ - p₁))
  ⟨normal, -Components.dot normal p₁⟩

/-- The same plane with a unit normal.  A normal whose squared length is one already, to the last
digit of binary32, is kept. -/
def normalize (p : Plane α) : Plane α :=
  let squared := Components.lengthSquared p.normal
  if Scalar.abs (squared - 1) < Scalar.epsilon then p
  else
    let k := 1 / Scalar.sqrt squared
    ⟨p.normal * k, p.d * k⟩

/-- The pairing with a row of four components. -/
def dot (p : Plane α) (v : Vec4 α) : α := Components.dot p.toVec4 v

/-- The pairing with a point; with a unit normal, its distance from the plane. -/
def dotCoordinate (p : Plane α) (v : Vec3 α) : α := Components.dot p.normal v + p.d

/-- The pairing with a direction. -/
def dotNormal (p : Plane α) (v : Vec3 α) : α := Components.dot p.normal v

/-- The image of a plane under a matrix. -/
def transform (p : Plane α) (m : Matrix4 α) : Plane α :=
  ofVec4 (m.invertInto.2.transpose.transform p.toVec4)

/-- The image of a plane under a rotation about the origin. -/
def rotate (p : Plane α) (q : Quaternion α) : Plane α := ⟨q.rotate p.normal, p.d⟩

end Plane

end Spatial
