import Spatial.Components

/-!
# Vectors in two, three and four dimensions

A vector is a row: it is multiplied by a matrix on its right.  Arithmetic on vectors is
componentwise, products and quotients of two vectors included.  A vector is extended to the next
dimension by the components it lacks; a point of space extends by one and a direction by zero.
-/

namespace Spatial

/-- A row of two components. -/
@[ext]
structure Vec2 (α : Type) where
  /-- The first component. -/
  x : α
  /-- The second component. -/
  y : α
deriving BEq, DecidableEq

/-- A row of three components. -/
@[ext]
structure Vec3 (α : Type) where
  /-- The first component. -/
  x : α
  /-- The second component. -/
  y : α
  /-- The third component. -/
  z : α
deriving BEq, DecidableEq

/-- A row of four components. -/
@[ext]
structure Vec4 (α : Type) where
  /-- The first component. -/
  x : α
  /-- The second component. -/
  y : α
  /-- The third component. -/
  z : α
  /-- The fourth component. -/
  w : α
deriving BEq, DecidableEq

instance : Components Vec2 where
  splat a := ⟨a, a⟩
  map f v := ⟨f v.x, f v.y⟩
  zipWith f u v := ⟨f u.x v.x, f u.y v.y⟩
  toList v := [v.x, v.y]
  ofList?
    | [x, y] => some ⟨x, y⟩
    | _ => none

instance : Components Vec3 where
  splat a := ⟨a, a, a⟩
  map f v := ⟨f v.x, f v.y, f v.z⟩
  zipWith f u v := ⟨f u.x v.x, f u.y v.y, f u.z v.z⟩
  toList v := [v.x, v.y, v.z]
  ofList?
    | [x, y, z] => some ⟨x, y, z⟩
    | _ => none

instance : Components Vec4 where
  splat a := ⟨a, a, a, a⟩
  map f v := ⟨f v.x, f v.y, f v.z, f v.w⟩
  zipWith f u v := ⟨f u.x v.x, f u.y v.y, f u.z v.z, f u.w v.w⟩
  toList v := [v.x, v.y, v.z, v.w]
  ofList?
    | [x, y, z, w] => some ⟨x, y, z, w⟩
    | _ => none

variable {α : Type} [Scalar α]

namespace Vec2

instance : Add (Vec2 α) := ⟨Components.add⟩
instance : Sub (Vec2 α) := ⟨Components.sub⟩
instance : Neg (Vec2 α) := ⟨Components.neg⟩
instance : Mul (Vec2 α) := ⟨Components.mul⟩
instance : Div (Vec2 α) := ⟨Components.div⟩
instance : HMul (Vec2 α) α (Vec2 α) := ⟨Components.mulRight⟩
instance : HMul α (Vec2 α) (Vec2 α) := ⟨Components.mulLeft⟩
instance : HDiv (Vec2 α) α (Vec2 α) := ⟨Components.divRight⟩

/-! The components of a sum, a difference, a product and a quotient, and the terms of a scalar
product. -/

theorem add_eq (u v : Vec2 α) : u + v = ⟨u.x + v.x, u.y + v.y⟩ := rfl

theorem sub_eq (u v : Vec2 α) : u - v = ⟨u.x - v.x, u.y - v.y⟩ := rfl

theorem neg_eq (u : Vec2 α) : -u = ⟨-u.x, -u.y⟩ := rfl

theorem mul_eq (u v : Vec2 α) : u * v = ⟨u.x * v.x, u.y * v.y⟩ := rfl

theorem div_eq (u v : Vec2 α) : u / v = ⟨u.x / v.x, u.y / v.y⟩ := rfl

theorem mulRight_eq (u : Vec2 α) (s : α) : u * s = ⟨u.x * s, u.y * s⟩ := rfl

theorem mulLeft_eq (s : α) (u : Vec2 α) : s * u = ⟨s * u.x, s * u.y⟩ := rfl

theorem divRight_eq (u : Vec2 α) (s : α) : u / s = ⟨u.x / s, u.y / s⟩ := rfl

theorem dot_eq (u v : Vec2 α) : Components.dot u v = u.x * v.x + u.y * v.y := rfl

/-- The origin. -/
def zero : Vec2 α := Components.splat 0

/-- The vector of ones. -/
def one : Vec2 α := Components.splat 1

/-- The direction of the first axis. -/
def unitX : Vec2 α := ⟨1, 0⟩

/-- The direction of the second axis. -/
def unitY : Vec2 α := ⟨0, 1⟩

/-- The same vector with a third component. -/
def extend {β : Type} (v : Vec2 β) (z : β) : Vec3 β := ⟨v.x, v.y, z⟩

/-- The same vector with a third and a fourth component. -/
def extend2 {β : Type} (v : Vec2 β) (z w : β) : Vec4 β := ⟨v.x, v.y, z, w⟩

end Vec2

namespace Vec3

instance : Add (Vec3 α) := ⟨Components.add⟩
instance : Sub (Vec3 α) := ⟨Components.sub⟩
instance : Neg (Vec3 α) := ⟨Components.neg⟩
instance : Mul (Vec3 α) := ⟨Components.mul⟩
instance : Div (Vec3 α) := ⟨Components.div⟩
instance : HMul (Vec3 α) α (Vec3 α) := ⟨Components.mulRight⟩
instance : HMul α (Vec3 α) (Vec3 α) := ⟨Components.mulLeft⟩
instance : HDiv (Vec3 α) α (Vec3 α) := ⟨Components.divRight⟩

/-! The components of a sum, a difference, a product and a quotient, and the terms of a scalar
product. -/

theorem add_eq (u v : Vec3 α) : u + v = ⟨u.x + v.x, u.y + v.y, u.z + v.z⟩ := rfl

theorem sub_eq (u v : Vec3 α) : u - v = ⟨u.x - v.x, u.y - v.y, u.z - v.z⟩ := rfl

theorem neg_eq (u : Vec3 α) : -u = ⟨-u.x, -u.y, -u.z⟩ := rfl

theorem mul_eq (u v : Vec3 α) : u * v = ⟨u.x * v.x, u.y * v.y, u.z * v.z⟩ := rfl

theorem div_eq (u v : Vec3 α) : u / v = ⟨u.x / v.x, u.y / v.y, u.z / v.z⟩ := rfl

theorem mulRight_eq (u : Vec3 α) (s : α) : u * s = ⟨u.x * s, u.y * s, u.z * s⟩ := rfl

theorem mulLeft_eq (s : α) (u : Vec3 α) : s * u = ⟨s * u.x, s * u.y, s * u.z⟩ := rfl

theorem divRight_eq (u : Vec3 α) (s : α) : u / s = ⟨u.x / s, u.y / s, u.z / s⟩ := rfl

theorem dot_eq (u v : Vec3 α) : Components.dot u v = u.x * v.x + u.y * v.y + u.z * v.z := rfl

/-- The origin. -/
def zero : Vec3 α := Components.splat 0

/-- The vector of ones. -/
def one : Vec3 α := Components.splat 1

/-- The direction of the first axis. -/
def unitX : Vec3 α := ⟨1, 0, 0⟩

/-- The direction of the second axis. -/
def unitY : Vec3 α := ⟨0, 1, 0⟩

/-- The direction of the third axis. -/
def unitZ : Vec3 α := ⟨0, 0, 1⟩

/-- The same vector without its third component. -/
def xy {β : Type} (v : Vec3 β) : Vec2 β := ⟨v.x, v.y⟩

/-- The same vector with a fourth component. -/
def extend {β : Type} (v : Vec3 β) (w : β) : Vec4 β := ⟨v.x, v.y, v.z, w⟩

/-- The vector product. -/
def cross (u v : Vec3 α) : Vec3 α :=
  ⟨u.y * v.z - u.z * v.y, u.z * v.x - u.x * v.z, u.x * v.y - u.y * v.x⟩

end Vec3

namespace Vec4

instance : Add (Vec4 α) := ⟨Components.add⟩
instance : Sub (Vec4 α) := ⟨Components.sub⟩
instance : Neg (Vec4 α) := ⟨Components.neg⟩
instance : Mul (Vec4 α) := ⟨Components.mul⟩
instance : Div (Vec4 α) := ⟨Components.div⟩
instance : HMul (Vec4 α) α (Vec4 α) := ⟨Components.mulRight⟩
instance : HMul α (Vec4 α) (Vec4 α) := ⟨Components.mulLeft⟩
instance : HDiv (Vec4 α) α (Vec4 α) := ⟨Components.divRight⟩

/-! The components of a sum, a difference, a product and a quotient, and the terms of a scalar
product. -/

theorem add_eq (u v : Vec4 α) : u + v = ⟨u.x + v.x, u.y + v.y, u.z + v.z, u.w + v.w⟩ := rfl

theorem sub_eq (u v : Vec4 α) : u - v = ⟨u.x - v.x, u.y - v.y, u.z - v.z, u.w - v.w⟩ := rfl

theorem neg_eq (u : Vec4 α) : -u = ⟨-u.x, -u.y, -u.z, -u.w⟩ := rfl

theorem mul_eq (u v : Vec4 α) : u * v = ⟨u.x * v.x, u.y * v.y, u.z * v.z, u.w * v.w⟩ := rfl

theorem div_eq (u v : Vec4 α) : u / v = ⟨u.x / v.x, u.y / v.y, u.z / v.z, u.w / v.w⟩ := rfl

theorem mulRight_eq (u : Vec4 α) (s : α) : u * s = ⟨u.x * s, u.y * s, u.z * s, u.w * s⟩ := rfl

theorem mulLeft_eq (s : α) (u : Vec4 α) : s * u = ⟨s * u.x, s * u.y, s * u.z, s * u.w⟩ := rfl

theorem divRight_eq (u : Vec4 α) (s : α) : u / s = ⟨u.x / s, u.y / s, u.z / s, u.w / s⟩ := rfl

theorem dot_eq (u v : Vec4 α) :
    Components.dot u v = u.x * v.x + u.y * v.y + u.z * v.z + u.w * v.w := rfl

/-- The origin. -/
def zero : Vec4 α := Components.splat 0

/-- The vector of ones. -/
def one : Vec4 α := Components.splat 1

/-- The direction of the first axis. -/
def unitX : Vec4 α := ⟨1, 0, 0, 0⟩

/-- The direction of the second axis. -/
def unitY : Vec4 α := ⟨0, 1, 0, 0⟩

/-- The direction of the third axis. -/
def unitZ : Vec4 α := ⟨0, 0, 1, 0⟩

/-- The direction of the fourth axis. -/
def unitW : Vec4 α := ⟨0, 0, 0, 1⟩

/-- The same vector without its third and fourth components. -/
def xy {β : Type} (v : Vec4 β) : Vec2 β := ⟨v.x, v.y⟩

/-- The same vector without its fourth component. -/
def xyz {β : Type} (v : Vec4 β) : Vec3 β := ⟨v.x, v.y, v.z⟩

end Vec4

end Spatial
