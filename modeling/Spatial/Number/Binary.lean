import Spatial.Number.Scalar

/-!
# Binary floating-point scalars

The library computes in binary32 and reduces angles in binary64.  The four operations, the square
root and the comparisons of both formats are those of the standard: one correctly rounded result,
ties going to the even significand.

Three operations are defined here, by exact arithmetic on the significand `m` and exponent `e` of
a finite number `± m · 2ᵉ`: the same number in another format, the nearest integer, and the
nearest number to an integer.

The circular functions are those of the platform; nothing here depends on their values.
-/

namespace Spatial

open Float.Model (Format UnpackedFloat)

namespace Binary

/-- The quotient of two natural numbers rounded to the nearest, a half going to the even
neighbour. -/
def divRoundEven (a b : Nat) : Nat :=
  let q := a / b
  let r := 2 * (a % b)
  if r < b then q else if b < r then q + 1 else q + q % 2

/-- The number of the format that is nearest to a given number. -/
def convert (format : Format) : UnpackedFloat → UnpackedFloat
  | .finite sign m e _ => .round format sign m e
  | x => x

/-- The integer of the format that is nearest to a given number; a small number keeps its sign as
the sign of zero. -/
def nearestInteger (format : Format) : UnpackedFloat → UnpackedFloat
  | .finite sign m (.negSucc k) _ =>
    let n := divRoundEven m (Nat.pow 2 (k + 1))
    if n = 0 then .zero sign else .round format sign n 0
  | x => x

/-- The number of the format that is nearest to `± n`. -/
def ofInteger (format : Format) (negative : Bool) (n : Nat) : UnpackedFloat :=
  let x := UnpackedFloat.ofNat format n
  if negative then x.neg else x

/-- The binary64 number equal to a binary32 number. -/
def widen (x : Float32) : Float :=
  .ofModel (.pack (convert .binary64 x.toModel.unpack))

/-- The binary32 number nearest to a binary64 number. -/
def narrow (x : Float) : Float32 :=
  .ofModel (.pack (convert .binary32 x.toModel.unpack))

end Binary

instance : Scalar Float32 where
  zero := 0
  one := 1
  ltDecidable a b := Float32.decLt a b
  leDecidable a b := Float32.decLe a b
  abs := Float32.abs
  sqrt := Float32.sqrt
  roundEven x := .ofModel (.pack (Binary.nearestInteger .binary32 x.toModel.unpack))
  pi := 3.14159265358979323846
  sin := Float32.sin
  cos := Float32.cos
  tan := Float32.tan
  acos := Float32.acos

instance : Scalar Float where
  zero := 0
  one := 1
  ltDecidable a b := Float.decLt a b
  leDecidable a b := Float.decLe a b
  abs := Float.abs
  sqrt := Float.sqrt
  roundEven x := .ofModel (.pack (Binary.nearestInteger .binary64 x.toModel.unpack))
  pi := 3.14159265358979323846
  sin := Float.sin
  cos := Float.cos
  tan := Float.tan
  acos := Float.acos

instance : Widening Float32 Float where
  widen := Binary.widen
  narrow := Binary.narrow

end Spatial
