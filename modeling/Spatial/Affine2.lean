import Spatial.Vector
import Spatial.Failure
import Spatial.Number.Angle

/-!
# Affine maps of the plane

An affine map of the plane is a three by two matrix: two rows for the images of the axes and a
third for the image of the origin.  A point `(x, y)` goes to `x·r₁ + y·r₂ + r₃`, and the product
`a * b` is the map `a` followed by the map `b`.
-/

namespace Spatial

/-- An affine map of the plane, by rows. -/
@[ext]
structure Affine2 (α : Type) where
  /-- The image of the first axis. -/
  r1 : Vec2 α
  /-- The image of the second axis. -/
  r2 : Vec2 α
  /-- The image of the origin. -/
  r3 : Vec2 α
deriving BEq, DecidableEq

namespace Affine2

instance : Components Affine2 where
  splat a := ⟨⟨a, a⟩, ⟨a, a⟩, ⟨a, a⟩⟩
  map f m := ⟨⟨f m.r1.x, f m.r1.y⟩, ⟨f m.r2.x, f m.r2.y⟩, ⟨f m.r3.x, f m.r3.y⟩⟩
  zipWith f m n :=
    ⟨⟨f m.r1.x n.r1.x, f m.r1.y n.r1.y⟩, ⟨f m.r2.x n.r2.x, f m.r2.y n.r2.y⟩,
      ⟨f m.r3.x n.r3.x, f m.r3.y n.r3.y⟩⟩
  toList m := [m.r1.x, m.r1.y, m.r2.x, m.r2.y, m.r3.x, m.r3.y]
  ofList?
    | [a, b, c, d, e, f] => some ⟨⟨a, b⟩, ⟨c, d⟩, ⟨e, f⟩⟩
    | _ => none

variable {α : Type} [Scalar α]

instance : Add (Affine2 α) := ⟨Components.add⟩
instance : Sub (Affine2 α) := ⟨Components.sub⟩
instance : Neg (Affine2 α) := ⟨Components.neg⟩
instance : HMul (Affine2 α) α (Affine2 α) := ⟨Components.mulRight⟩
instance : HMul α (Affine2 α) (Affine2 α) := ⟨Components.mulLeft⟩
instance : HDiv (Affine2 α) α (Affine2 α) := ⟨Components.divRight⟩

/-- The map that moves nothing. -/
def identity : Affine2 α := ⟨⟨1, 0⟩, ⟨0, 1⟩, ⟨0, 0⟩⟩

/-- What stands for the inverse of a map that has none. -/
def undefined : Affine2 α := Components.splat Scalar.undefined

/-- Every element equals that of the identity. -/
def isIdentity (m : Affine2 α) : Bool := m == identity

/-- The image of the origin. -/
def translationPart {β : Type} (m : Affine2 β) : Vec2 β := m.r3

/-- The same map with another image of the origin. -/
def withTranslation {β : Type} (m : Affine2 β) (t : Vec2 β) : Affine2 β := ⟨m.r1, m.r2, t⟩

/-- The translation by a vector. -/
def translation (t : Vec2 α) : Affine2 α := ⟨⟨1, 0⟩, ⟨0, 1⟩, t⟩

/-- The scaling of each axis by its own factor. -/
def scale (s : Vec2 α) : Affine2 α := ⟨⟨s.x, 0⟩, ⟨0, s.y⟩, ⟨0, 0⟩⟩

/-- The scaling of each axis by its own factor that leaves a center where it is. -/
def scaleAbout (s center : Vec2 α) : Affine2 α :=
  ⟨⟨s.x, 0⟩, ⟨0, s.y⟩, ⟨center.x * (1 - s.x), center.y * (1 - s.y)⟩⟩

/-- The scaling of both axes by one factor. -/
def uniformScale (s : α) : Affine2 α := scale (Components.splat s)

/-- The scaling of both axes by one factor that leaves a center where it is. -/
def uniformScaleAbout (s : α) (center : Vec2 α) : Affine2 α :=
  scaleAbout (Components.splat s) center

/-- The skew by an angle along each axis that leaves a center where it is. -/
def skewAbout (radiansX radiansY : α) (center : Vec2 α) : Affine2 α :=
  let tx := Scalar.tan radiansX
  let ty := Scalar.tan radiansY
  ⟨⟨1, ty⟩, ⟨tx, 1⟩, ⟨-center.y * tx, -center.x * ty⟩⟩

/-- The skew by an angle along each axis. -/
def skew (radiansX radiansY : α) : Affine2 α := skewAbout radiansX radiansY Vec2.zero

section

variable {β : Type} [Scalar β] [Widening α β]

/-- The rotation by an angle about a center, exact at quarter turns. -/
def rotationAbout (radians : α) (center : Vec2 α) : Affine2 α :=
  let (s, c) := snappedSinCos radians
  ⟨⟨c, s⟩, ⟨-s, c⟩,
    ⟨center.x * (1 - c) + center.y * s, center.y * (1 - c) - center.x * s⟩⟩

/-- The rotation by an angle about the origin, exact at quarter turns. -/
def rotation (radians : α) : Affine2 α := rotationAbout radians Vec2.zero

end

/-- The signed factor by which the map changes areas. -/
def determinant (m : Affine2 α) : α := m.r1.x * m.r2.y - m.r2.x * m.r1.y

/-- The inverse map, unless the determinant is zero. -/
def invert (m : Affine2 α) : Except (Failure α) (Affine2 α) :=
  let det := m.determinant
  if det == 0 then .error (.singularMatrix det)
  else
    let k := 1 / det
    .ok ⟨⟨m.r2.y * k, -m.r1.y * k⟩, ⟨-m.r2.x * k, m.r1.x * k⟩,
      ⟨(m.r2.x * m.r3.y - m.r3.x * m.r2.y) * k, (m.r3.x * m.r1.y - m.r1.x * m.r3.y) * k⟩⟩

/-- Inversion into a place that holds another map. -/
def invertAt (m : Affine2 α) : StateM (Affine2 α) Bool := Components.store m.invert

/-- The map `a` followed by the map `b`. -/
def mul (a b : Affine2 α) : Affine2 α :=
  ⟨⟨a.r1.x * b.r1.x + a.r1.y * b.r2.x, a.r1.x * b.r1.y + a.r1.y * b.r2.y⟩,
    ⟨a.r2.x * b.r1.x + a.r2.y * b.r2.x, a.r2.x * b.r1.y + a.r2.y * b.r2.y⟩,
    ⟨a.r3.x * b.r1.x + a.r3.y * b.r2.x + b.r3.x, a.r3.x * b.r1.y + a.r3.y * b.r2.y + b.r3.y⟩⟩

instance : Mul (Affine2 α) := ⟨mul⟩

/-- The image of a point. -/
def transformPoint (m : Affine2 α) (v : Vec2 α) : Vec2 α := v.x * m.r1 + v.y * m.r2 + m.r3

/-- The image of a direction, which a translation does not move. -/
def transformDirection (m : Affine2 α) (v : Vec2 α) : Vec2 α := v.x * m.r1 + v.y * m.r2

end Affine2

end Spatial
