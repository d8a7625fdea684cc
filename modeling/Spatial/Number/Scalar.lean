/-!
# Scalars

Every formula of this library is written once, over a type of scalars, and is meant to be read
twice.

1. Over the binary floating-point numbers, where each written operation rounds once.  This is what
   the library computes, and the order of the operations is part of the definition.
2. Over the real numbers, where nothing rounds.  This is what the formula means.

`Scalar` lists what a formula may use.  It asks for no laws: binary32 satisfies hardly any, and a
statement about the real numbers takes its laws from the real numbers.
-/

namespace Spatial

/-- A type of numbers that the formulas of this library can be read over. -/
class Scalar (α : Type) extends Zero α, One α, OfNat α 2, OfScientific α,
    Add α, Sub α, Mul α, Div α, Neg α, LT α, LE α, BEq α where
  /-- Whether one scalar lies below another can be decided. -/
  ltDecidable (a b : α) : Decidable (a < b)
  /-- Whether one scalar lies below or at another can be decided. -/
  leDecidable (a b : α) : Decidable (a ≤ b)
  /-- The magnitude of a scalar. -/
  abs : α → α
  /-- The square root. -/
  sqrt : α → α
  /-- The nearest integer, a half going to the even neighbour. -/
  roundEven : α → α
  /-- Half the circumference of the unit circle. -/
  pi : α
  /-- The sine of an angle in radians. -/
  sin : α → α
  /-- The cosine of an angle in radians. -/
  cos : α → α
  /-- The tangent of an angle in radians. -/
  tan : α → α
  /-- The angle between zero and `pi` that has a given cosine. -/
  acos : α → α

/-- A second type of scalars with more digits than the first, in which angles are reduced. -/
class Widening (α : Type) (β : outParam Type) where
  /-- The same number with more digits. -/
  widen : α → β
  /-- The nearest number with fewer digits. -/
  narrow : β → α

namespace Scalar

variable {α : Type} [Scalar α]

instance (a b : α) : Decidable (a < b) := ltDecidable a b

instance (a b : α) : Decidable (a ≤ b) := leDecidable a b

/-- `2⁻²³`, the distance from one to the next binary32 number. -/
def epsilon : α := 1 / 8388608.0

/-- The value of a computation that has no result: zero divided by zero. -/
def undefined : α := 0 / 0

/-- The scalar a fraction `t` of the way from `a` to `b`. -/
def lerp (a b t : α) : α := a + (b - a) * t

/-- The smaller of two scalars; the second unless the first lies below it. -/
def min (a b : α) : α := if a < b then a else b

/-- The larger of two scalars; the second unless the first lies above it. -/
def max (a b : α) : α := if a > b then a else b

/-- A value held above by `hi` and then below by `lo`, so that `lo` wins where the two cross. -/
def clamp (value lo hi : α) : α :=
  let v := if value > hi then hi else value
  if v < lo then lo else v

end Scalar

end Spatial
