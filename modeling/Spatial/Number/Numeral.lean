import Spatial.Number.Decimal

/-!
# Numerals

How a binary32 number is written.  Every style writes the shortest decimal that reads back, and
differs only in where positional notation ends, in whether an integer keeps a fraction, in the sign
of an exponent, in the decimal taken from two equally near ones, and in what it writes for the
values that are not finite.
-/

namespace Spatial

/-- The choices that make up a way of writing numbers. -/
structure NumeralStyle where
  /-- The exponents, of the first digit, that are written positionally. -/
  positional : Int → Bool
  /-- An integer written positionally ends in `.0`. -/
  keepsFraction : Bool
  /-- An exponent that is not negative has a plus sign. -/
  exponentPlus : Bool
  /-- The decimal taken from two equally near ones. -/
  tie : Decimal.Tie
  /-- What is written for a value that is not a number. -/
  notANumber : List Char
  /-- What is written for an infinite value, negative or not. -/
  infinite : Bool → List Char

namespace NumeralStyle

/-- Positional whatever the size, and no more than the digits that are needed. -/
def plain : NumeralStyle where
  positional _ := true
  keepsFraction := false
  exponentPlus := false
  tie := .away
  notANumber := "NaN".toList
  infinite negative := (if negative then "-inf" else "inf").toList

/-- Positional from `10⁻⁴` to below `10¹⁶`, and always recognisable as a fraction. -/
def explicit : NumeralStyle where
  positional e := -4 ≤ e && e < 16
  keepsFraction := true
  exponentPlus := false
  tie := .away
  notANumber := "NaN".toList
  infinite negative := (if negative then "-inf" else "inf").toList

/-- Positional from `10⁻⁶` to below `10¹³`, with signed exponents, and `null` for what is not
finite. -/
def json : NumeralStyle where
  positional e := -6 ≤ e && e ≤ 12
  keepsFraction := true
  exponentPlus := true
  tie := .even
  notANumber := "null".toList
  infinite _ := "null".toList

end NumeralStyle

namespace Decimal

/-- The digits with a point after the first `e + 1` of them, and zeros where digits lack. -/
def positional (keepsFraction : Bool) (digits : List Char) (e : Int) : List Char :=
  if e < 0 then "0.".toList ++ List.replicate (-e - 1).toNat '0' ++ digits
  else
    let whole := (e + 1).toNat
    if digits.length ≤ whole then
      digits ++ List.replicate (whole - digits.length) '0' ++
        (if keepsFraction then ".0".toList else [])
    else digits.take whole ++ '.' :: digits.drop whole

/-- The digits with a point after the first of them, and an exponent. -/
def scientific (exponentPlus : Bool) (digits : List Char) (e : Int) : List Char :=
  let fraction := if digits.length ≤ 1 then [] else '.' :: digits.drop 1
  let sign := if e < 0 then ['-'] else if exponentPlus then ['+'] else []
  digits.take 1 ++ fraction ++ 'e' :: sign ++ Nat.toDigits 10 e.natAbs

/-- A decimal written in a style. -/
def write (style : NumeralStyle) (d : Decimal) : List Char :=
  let digits := Nat.toDigits 10 d.digits
  let e := d.exponent + digits.length - 1
  if style.positional e then positional style.keepsFraction digits e
  else scientific style.exponentPlus digits e

end Decimal

open Float.Model in
/-- A binary32 number written in a style. -/
def numeral (style : NumeralStyle) (x : Float32) : List Char :=
  let sign : UnpackedFloat.Sign → List Char
    | .negative => ['-']
    | .positive => []
  match x.toModel.unpack with
  | .notANumber => style.notANumber
  | .infinity s => style.infinite (s matches .negative)
  | .zero s => sign s ++ Decimal.write style ⟨0, 0⟩
  | .finite s m e _ => sign s ++ Decimal.write style (Decimal.shortest style.tie m e)

end Spatial
