import Spatial.Json.Token
import Spatial.Number.Binary
import Spatial.Number.Decimal

/-!
# Numbers of a JSON text

A number is scanned into its digits before the point, its digits after it and its exponent, and
takes its value in one of two ways.

1. Without fraction and exponent, a number that fits a 64-bit integer is rounded once, to binary32.
2. Any other number is computed in binary64 and rounded to binary32 from there.  Its digits make an
   integer as long as that fits 64 bits.  A digit before the point that comes too late is a zero,
   and a digit after the point that comes too late is nothing.  The integer is rounded to binary64
   and then multiplied or divided by a power of ten, which rounds again.

So a number with a fraction or an exponent need not be read as the nearest binary64 number, and
decimals very near the middle between two binary32 numbers may go to either side.  A number that is
too large for binary64 is refused.
-/

namespace Spatial.Json

/-! ## Scanning -/

/-- A number as it is written. -/
structure Literal where
  /-- It starts with a minus sign. -/
  negative : Bool
  /-- The digits before the point. -/
  whole : List Char
  /-- The digits after the point, if there is a point. -/
  fraction : Option (List Char)
  /-- The exponent, if there is one. -/
  exponent : Option Int
deriving BEq, DecidableEq, Repr

/-- The number that a decimal digit stands for. -/
def digitValue (c : Char) : Nat := c.toNat - '0'.toNat

/-- The number that a run of decimal digits stands for. -/
def digitsValue (ds : List Char) : Nat := ds.foldl (fun n c => 10 * n + digitValue c) 0

/-- The digits before the point: a zero alone, or digits of which the first is not zero. -/
def scanWhole : List Char → Except Fault (List Char × List Char)
  | [] => .error .truncated
  | '0' :: s => if (s.takeWhile Char.isDigit).isEmpty then .ok (['0'], s) else .error .malformed
  | c :: s =>
    if c.isDigit then .ok ((c :: s).takeWhile Char.isDigit, (c :: s).dropWhile Char.isDigit)
    else .error .malformed

/-- At least one digit. -/
def scanDigits (s : List Char) : Except Fault (List Char × List Char) :=
  let ds := s.takeWhile Char.isDigit
  let rest := s.dropWhile Char.isDigit
  if ds.isEmpty then .error (unexpected rest) else .ok (ds, rest)

/-- The digits after the point, if there is a point. -/
def scanFraction : List Char → Except Fault (Option (List Char) × List Char)
  | '.' :: s => (scanDigits s).map fun (ds, rest) => (some ds, rest)
  | s => .ok (none, s)

/-- The sign of an exponent and what is left after it. -/
def scanSign : List Char → Bool × List Char
  | '-' :: s => (true, s)
  | '+' :: s => (false, s)
  | s => (false, s)

/-- The exponent, if there is one. -/
def scanExponent : List Char → Except Fault (Option Int × List Char)
  | [] => .ok (none, [])
  | c :: s =>
    if c = 'e' ∨ c = 'E' then
      let (negative, s) := scanSign s
      (scanDigits s).map fun (ds, rest) =>
        let n : Int := digitsValue ds
        (some (if negative then -n else n), rest)
    else .ok (none, c :: s)

/-- A number without its sign. -/
def scanMagnitude (negative : Bool) (s : List Char) : Except Fault (Literal × List Char) := do
  let (whole, s) ← scanWhole s
  let (fraction, s) ← scanFraction s
  let (exponent, s) ← scanExponent s
  return (⟨negative, whole, fraction, exponent⟩, s)

/-- A number. -/
def scanNumber : List Char → Except Fault (Literal × List Char)
  | '-' :: s => scanMagnitude true s
  | s => scanMagnitude false s

/-! ## Values -/

/-- The least natural number that does not fit 64 bits. -/
def wordLimit : Nat := 0x10000000000000000

/-- Appends digits to an integer as long as it fits 64 bits, and gives the digits that come too
late. -/
def appendDigits (n : Nat) : List Char → Nat × List Char
  | [] => (n, [])
  | c :: ds =>
    let m := 10 * n + digitValue c
    if m < wordLimit then appendDigits m ds else (n, c :: ds)

namespace Literal

/-- The number of a literal without fraction and exponent, if it fits a 64-bit integer. -/
def word? (l : Literal) : Option Nat :=
  let n := digitsValue l.whole
  let limit := if l.negative then 0x8000000000000001 else wordLimit
  if l.fraction.isNone ∧ l.exponent.isNone ∧ n < limit then some n else none

/-- The digits that make an integer of 64 bits, and the power of ten that the last of them
counts. -/
def decimal (l : Literal) : Decimal :=
  let fraction := l.fraction.getD []
  let (n, zeros) := appendDigits 0 l.whole
  let (digits, late) := appendDigits n fraction
  ⟨digits, l.exponent.getD 0 + zeros.length - (fraction.length - late.length)⟩

end Literal

/-- The binary64 number nearest to `10ⁿ`. -/
def powerOfTen (n : Nat) : Float :=
  .ofModel (.pack (Float.Model.UnpackedFloat.ofScientific .binary64 1 n))

/-- The binary64 number nearest to a natural number. -/
def natFloat (n : Nat) : Float := .ofModel (.pack (Binary.ofInteger .binary64 false n))

/-- A decimal whose digits fit 64 bits, computed in binary64: one rounding for the digits and one
for each product or quotient.  A product that is infinite is refused.  A quotient by more than
`10³⁰⁸` is taken in two steps, and one by more than `10⁶¹⁶` is zero. -/
def computed? (d : Decimal) : Option Float :=
  let x := natFloat d.digits
  match d.exponent with
  | .ofNat n =>
    if d.digits = 0 then some x
    else if n ≤ 308 then
      let y := x * powerOfTen n
      if y.isInf then none else some y
    else none
  | .negSucc k =>
    let n := k + 1
    if n ≤ 308 then some (x / powerOfTen n)
    else if n ≤ 616 then some (x / powerOfTen 308 / powerOfTen (n - 308))
    else some 0

/-- The binary32 number that a literal stands for, unless it is out of range. -/
def Literal.toFloat32? (l : Literal) : Option Float32 :=
  match l.word? with
  | some n => some (.ofModel (.pack (Binary.ofInteger .binary32 l.negative n)))
  | none => (computed? l.decimal).map fun x => Binary.narrow (if l.negative then -x else x)

end Spatial.Json
