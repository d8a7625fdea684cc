import Spatial.Rotation

/-!
# Scaling, rotation and translation

An affine map whose axes stay at right angles is a scaling, then a rotation, then a translation.
The scaling factors are the lengths of the three upper rows, and the rotation has the rows divided
by their lengths.

1. The rows are treated from the longest to the shortest.  A row too short to have a direction
   takes one that completes the others to a frame.
2. A frame of determinant below zero is made right-handed by turning its longest axis around,
   whose scaling factor becomes negative.
3. What is left is a rotation if its determinant is one.  The residual is the square of the
   difference, and a residual above `1e-4` is a failure.
-/

namespace Spatial

/-- One of the three axes of space. -/
inductive Axis where
  | x
  | y
  | z
deriving DecidableEq

namespace Vec3

/-- The component along an axis. -/
def along {α : Type} (v : Vec3 α) : Axis → α
  | .x => v.x
  | .y => v.y
  | .z => v.z

/-- The same vector with another component along an axis. -/
def setAlong {α : Type} (v : Vec3 α) (axis : Axis) (a : α) : Vec3 α :=
  match axis with
  | .x => ⟨a, v.y, v.z⟩
  | .y => ⟨v.x, a, v.z⟩
  | .z => ⟨v.x, v.y, a⟩

end Vec3

/-- A scaling, a rotation and a translation. -/
structure Decomposition (α : Type) where
  /-- The factor along each axis. -/
  scale : Vec3 α
  /-- The rotation, as a unit quaternion. -/
  rotation : Quaternion α
  /-- The image of the origin. -/
  translation : Vec3 α
deriving BEq, DecidableEq

variable {α : Type} [Scalar α]

namespace Axis

open Scalar

/-- The unit vector along an axis. -/
def unit : Axis → Vec3 α
  | .x => Vec3.unitX
  | .y => Vec3.unitY
  | .z => Vec3.unitZ

/-- The axes from the longest length to the shortest. -/
def byLength (lengths : Vec3 α) : Axis × Axis × Axis :=
  if lengths.x < lengths.y then
    if lengths.y < lengths.z then (.z, .y, .x)
    else if lengths.x < lengths.z then (.y, .z, .x)
    else (.y, .x, .z)
  else if lengths.x < lengths.z then (.z, .x, .y)
  else if lengths.y < lengths.z then (.x, .z, .y)
  else (.x, .y, .z)

/-- An axis that a direction is least aligned with. -/
def leastAligned (direction : Vec3 α) : Axis :=
  let v := Components.abs direction
  if v.x < v.y then
    if v.y < v.z ∨ v.x < v.z then .x else .z
  else if v.x < v.z ∨ v.y < v.z then .y
  else .z

end Axis

namespace Matrix4

open Components (length normalize)

/-- The length below which a row has no direction, and the residual above which a frame is no
rotation. -/
def degenerate : α := 1e-4

/-- The three upper rows of a matrix as unit vectors, a row without a direction completing the
others. -/
def unitRows (rows : Vec3 (Vec3 α)) (lengths : Vec3 α) : Vec3 (Vec3 α) :=
  let (a, b, c) := Axis.byLength lengths
  let u := normalize (if lengths.along a < degenerate then a.unit else rows.along a)
  let v := normalize
    (if lengths.along b < degenerate then u.cross (Axis.leastAligned u).unit else rows.along b)
  let w := normalize (if lengths.along c < degenerate then u.cross v else rows.along c)
  ((rows.setAlong a u).setAlong b v).setAlong c w

/-- The rotation with given rows. -/
def ofRows (rows : Vec3 (Vec3 α)) : Matrix4 α := ofBasis rows.x rows.y rows.z Vec3.zero

/-- The scaling factors of a matrix, its rotation or the residual that rules one out, and its
translation. -/
def decomposeParts (m : Matrix4 α) : Vec3 α × Except α (Quaternion α) × Vec3 α :=
  let rows : Vec3 (Vec3 α) := ⟨m.r1.xyz, m.r2.xyz, m.r3.xyz⟩
  let lengths : Vec3 α := Components.map length rows
  let basis := unitRows rows lengths
  let longest := (Axis.byLength lengths).1
  let det := (ofRows basis).determinant
  let leftHanded := det < 0
  let scale :=
    if leftHanded then lengths.setAlong longest (-lengths.along longest) else lengths
  let frame := if leftHanded then basis.setAlong longest (-basis.along longest) else basis
  let det := if leftHanded then -det else det
  let residual := (det - 1) * (det - 1)
  let rotation :=
    if residual > degenerate then .error residual
    else .ok (Quaternion.ofRotationMatrix (ofRows frame))
  (scale, rotation, m.translationPart)

/-- The scaling, rotation and translation that make up a matrix. -/
def decompose (m : Matrix4 α) : Except (Failure α) (Decomposition α) :=
  match m.decomposeParts with
  | (scale, .ok rotation, translation) => .ok ⟨scale, rotation, translation⟩
  | (_, .error residual, _) => .error (.notDecomposable residual)

/-- Whether the matrix has a decomposition, and the decomposition, which has the identity for its
rotation if there is none. -/
def decomposeInto (m : Matrix4 α) : Bool × Decomposition α :=
  match m.decomposeParts with
  | (scale, .ok rotation, translation) => (true, ⟨scale, rotation, translation⟩)
  | (scale, .error _, translation) => (false, ⟨scale, Quaternion.identity, translation⟩)

end Matrix4

end Spatial
