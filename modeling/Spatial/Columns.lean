import Spatial.Matrix4

/-!
# Column form

A map that acts on row vectors from their right acts on column vectors from their left once it is
transposed, so the columns of the one are the rows of the other and nothing moves in memory.
-/

namespace Spatial

/-- An affine map of the plane for column vectors: the two columns of its linear part and its
translation. -/
structure ColumnAffine2 (α : Type) where
  /-- The image of the first axis. -/
  xAxis : Vec2 α
  /-- The image of the second axis. -/
  yAxis : Vec2 α
  /-- The image of the origin. -/
  translation : Vec2 α
deriving BEq, DecidableEq

/-- A four by four matrix for column vectors, by columns. -/
structure ColumnMatrix4 (α : Type) where
  /-- The first column. -/
  xAxis : Vec4 α
  /-- The second column. -/
  yAxis : Vec4 α
  /-- The third column. -/
  zAxis : Vec4 α
  /-- The fourth column. -/
  wAxis : Vec4 α
deriving BEq, DecidableEq

variable {α : Type}

/-- The same map for column vectors. -/
def Affine2.toColumns (m : Affine2 α) : ColumnAffine2 α := ⟨m.r1, m.r2, m.r3⟩

/-- The same map for row vectors. -/
def Affine2.ofColumns (m : ColumnAffine2 α) : Affine2 α := ⟨m.xAxis, m.yAxis, m.translation⟩

/-- The same map for column vectors. -/
def Matrix4.toColumns (m : Matrix4 α) : ColumnMatrix4 α := ⟨m.r1, m.r2, m.r3, m.r4⟩

/-- The same map for row vectors. -/
def Matrix4.ofColumns (m : ColumnMatrix4 α) : Matrix4 α := ⟨m.xAxis, m.yAxis, m.zAxis, m.wAxis⟩

end Spatial
