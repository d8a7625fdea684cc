import Spatial.Number.Scalar

/-!
# Angles

An angle is reduced to one turn around zero before its sine and cosine are taken, in the wider of
the two scalar types.  Within a thousandth of a degree of a quarter turn the pair is exact: a sine
and cosine of `0`, `1` or `-1`.
-/

namespace Spatial

open Scalar Widening

/-- `x` less the multiple of `y` nearest to it, of two equally near multiples the even one. -/
def remainder {β : Type} [Scalar β] (x y : β) : β := x - roundEven (x / y) * y

section

variable {α β : Type} [Scalar β] [Widening α β]

/-- An angle in radians reduced to half a turn either way. -/
def wrapAngle (radians : α) : β := remainder (widen radians) (2 * pi)

/-- A thousandth of a degree, in radians: how near an angle must come to a quarter turn to be
taken for one. -/
def snapWidth : β := 0.001 * pi / 180.0

variable [Scalar α]

/-- The sine and cosine of an angle, exact where the angle is a quarter turn. -/
def snappedSinCos (radians : α) : α × α :=
  let r : β := wrapAngle radians
  let quarter : β := pi / 2
  if r > -snapWidth ∧ r < snapWidth then (0, 1)
  else if r > quarter - snapWidth ∧ r < quarter + snapWidth then (1, 0)
  else if r < -pi + snapWidth ∨ r > pi - snapWidth then (0, -1)
  else if r > -quarter - snapWidth ∧ r < -quarter + snapWidth then (-1, 0)
  else (narrow (sin r), narrow (cos r))

end

end Spatial
