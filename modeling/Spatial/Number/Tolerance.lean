import Spatial.Components
import Spatial.Number.Binary

/-!
# Tolerant comparison

Three ways to compare two binary32 numbers up to a tolerance, lifted to componentwise values by
asking it of every pair of components.

1. `absDiffEq`: they differ by at most `epsilon`.
2. `relativeEq`: they are equal, or differ by at most `epsilon`, or by at most `maxRelative` times
   the larger of the two magnitudes.
3. `ulpsEq`: they differ by at most `epsilon`, or have one sign and are at most `maxUlps` numbers
   apart.

A number that is not one is near nothing, itself included.
-/

namespace Spatial.Tolerance

/-- The tolerance used where none is given, absolute or relative. -/
def defaultEpsilon : Float32 := Scalar.epsilon

/-- The number of steps between numbers used where none is given. -/
def defaultMaxUlps : Nat := 4

/-- The two numbers differ by at most `epsilon`. -/
def absDiffEq (epsilon a b : Float32) : Bool := (a - b).abs ≤ epsilon

/-- The two numbers differ by at most `epsilon`, or by at most the fraction `maxRelative` of the
larger magnitude; an infinite number is near itself only. -/
def relativeEq (epsilon maxRelative a b : Float32) : Bool :=
  if a == b then true
  else if a.isInf || b.isInf then false
  else
    let difference := (a - b).abs
    if difference ≤ epsilon then true
    else
      let largest := if b.abs > a.abs then b.abs else a.abs
      difference ≤ largest * maxRelative

/-- Both are numbers and their sign bits agree. -/
def sameSign (a b : Float32) : Bool :=
  !a.isNaN && !b.isNaN && a.toBits >>> 31 == b.toBits >>> 31

/-- How far apart two numbers of one sign are, counted in numbers. -/
def ulpDistance (a b : Float32) : Nat :=
  (a.toBits.toNat - b.toBits.toNat) + (b.toBits.toNat - a.toBits.toNat)

/-- The two numbers differ by at most `epsilon`, or have one sign and are at most `maxUlps` numbers
apart. -/
def ulpsEq (epsilon : Float32) (maxUlps : Nat) (a b : Float32) : Bool :=
  if absDiffEq epsilon a b then true
  else if sameSign a b then ulpDistance a b ≤ maxUlps
  else false

/-- A relation of numbers holds of every pair of components. -/
def everyPair {F : Type → Type} [Components F] (near : Float32 → Float32 → Bool)
    (u v : F Float32) : Bool :=
  (Components.toList (Components.zipWith near u v)).all id

end Spatial.Tolerance
