import Spatial.Number.Scalar

/-!
# Componentwise values

A vector, a quaternion, a plane and a matrix are each a fixed number of components in a fixed
order.  `Components` is that view of them, and the operations that treat every component alike are
defined here once for all of them.

The scalar product adds its terms from the left, so that in two, three and four dimensions it is
`x·x' + y·y'`, `(x·x' + y·y') + z·z'` and `((x·x' + y·y') + z·z') + w·w'`.
-/

namespace Spatial

/-- A type of values made of a fixed number of components in a fixed order. -/
class Components (F : Type → Type) where
  /-- The value all of whose components are the same. -/
  splat {α : Type} : α → F α
  /-- Apply a function to every component. -/
  map {α β : Type} : (α → β) → F α → F β
  /-- Combine two values component by component. -/
  zipWith {α β γ : Type} : (α → β → γ) → F α → F β → F γ
  /-- The components in order. -/
  toList {α : Type} : F α → List α
  /-- The value with the given components, if their number is right. -/
  ofList? {α : Type} : List α → Option (F α)

namespace Components

variable {F : Type → Type} [Components F] {α : Type} [Scalar α]

/-- The sum of a list of scalars, added from the left. -/
def sumLeft : List α → α
  | [] => 0
  | a :: as => as.foldl (· + ·) a

/-- The componentwise sum. -/
def add (u v : F α) : F α := zipWith (· + ·) u v

/-- The componentwise difference. -/
def sub (u v : F α) : F α := zipWith (· - ·) u v

/-- The componentwise product. -/
def mul (u v : F α) : F α := zipWith (· * ·) u v

/-- The componentwise quotient. -/
def div (u v : F α) : F α := zipWith (· / ·) u v

/-- The componentwise negation. -/
def neg (u : F α) : F α := map (- ·) u

/-- Every component times a scalar on its right. -/
def mulRight (u : F α) (s : α) : F α := map (· * s) u

/-- Every component times a scalar on its left. -/
def mulLeft (s : α) (u : F α) : F α := map (s * ·) u

/-- Every component divided by a scalar. -/
def divRight (u : F α) (s : α) : F α := map (· / s) u

/-- The scalar product. -/
def dot (u v : F α) : α := sumLeft (toList (mul u v))

/-- The square of the Euclidean length. -/
def lengthSquared (u : F α) : α := dot u u

/-- The Euclidean length. -/
def length (u : F α) : α := Scalar.sqrt (lengthSquared u)

/-- The length of the difference. -/
def distance (u v : F α) : α := length (sub u v)

/-- The squared length of the difference. -/
def distanceSquared (u v : F α) : α := lengthSquared (sub u v)

/-- A value divided by its length. -/
def normalize (u : F α) : F α := divRight u (length u)

/-- The componentwise smaller. -/
def min (u v : F α) : F α := zipWith Scalar.min u v

/-- The componentwise larger. -/
def max (u v : F α) : F α := zipWith Scalar.max u v

/-- Every component held between the matching components of two bounds. -/
def clamp (u lo hi : F α) : F α :=
  zipWith (fun held h => held h) (zipWith Scalar.clamp u lo) hi

/-- The value a fraction `t` of the way from `u` to `v`, component by component. -/
def lerp (u v : F α) (t : α) : F α := zipWith (fun a b => Scalar.lerp a b t) u v

/-- The reflection of `u` in the plane through the origin with a given normal. -/
def reflect (u normal : F α) : F α := sub u (mulRight normal (2 * dot u normal))

/-- The componentwise magnitude. -/
def abs (u : F α) : F α := map Scalar.abs u

/-- The componentwise square root. -/
def sqrt (u : F α) : F α := map Scalar.sqrt u

/-- Keep the outcome of an operation in a place: what it gave, or components without a value if it
failed.  What stood there before is gone either way; the answer says whether it succeeded. -/
def store {ε : Type} (outcome : Except ε (F α)) : StateM (F α) Bool :=
  match outcome with
  | .ok result => do
    set result
    return true
  | .error _ => do
    set (splat Scalar.undefined : F α)
    return false

/-- Some component is not a number. -/
def isNaN (u : F Float32) : Bool := (toList u).any Float32.isNaN

/-- Every component is a finite number. -/
def isFinite (u : F Float32) : Bool := (toList u).all Float32.isFinite

end Components

end Spatial
