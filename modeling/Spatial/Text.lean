import Spatial.Layout
import Spatial.Failure
import Spatial.Number.Numeral
import Spatial.Text.Printable

/-!
# Texts of values and failures

A value has a text on one line and a text of one field a line, both with every number written so
that it is recognisably a fraction.  A failure has a message for readers, in which numbers are
plain, and a text that shows its fields.
-/

namespace Spatial

/-- A binary32 number written in a style. -/
def NumeralStyle.text (style : NumeralStyle) (x : Float32) : String :=
  String.ofList (numeral style x)

namespace Layout

variable {F : Type → Type} [Layout F]

/-- The text of a value on one line. -/
def inline (v : F Float32) : String :=
  (form v).inline NumeralStyle.explicit.text

/-- The text of a value with one field a line. -/
def block (v : F Float32) : String :=
  (form v).block NumeralStyle.explicit.text ""

end Layout

/-- A character inside quotes: the quote, the backslash and what does not show by itself are
escaped, by a letter or by the code point in hexadecimal. -/
def escape (c : Char) : List Char :=
  if c = '"' then ['\\', '"']
  else if c = '\\' then ['\\', '\\']
  else if c = '\t' then ['\\', 't']
  else if c = '\n' then ['\\', 'n']
  else if c = '\r' then ['\\', 'r']
  else if c = '\x00' then ['\\', '0']
  else if isPrintable c then [c]
  else ['\\', 'u', '\x7b'] ++ Nat.toDigits 16 c.toNat ++ ['\x7d']

/-- A text in quotes. -/
def quoted (s : String) : String := "\"" ++ String.ofList (s.toList.flatMap escape) ++ "\""

namespace Failure

/-- What a failure says to a reader. -/
def message : Failure Float32 → String
  | .singularMatrix determinant =>
    "singular matrix: determinant is " ++ NumeralStyle.plain.text determinant
  | .invalidProjection name value reason =>
    "invalid projection argument `" ++ name ++ "` = " ++
      NumeralStyle.plain.text value ++ ": " ++ reason
  | .notDecomposable residual =>
    "matrix cannot be decomposed: rotation basis residual " ++
      NumeralStyle.plain.text residual

/-- A failure with its fields on one line. -/
def inline : Failure Float32 → String
  | .singularMatrix determinant =>
    "SingularMatrix \x7b determinant: " ++ NumeralStyle.explicit.text determinant ++ " \x7d"
  | .invalidProjection name value reason =>
    "InvalidProjection \x7b name: " ++ quoted name ++ ", value: " ++
      NumeralStyle.explicit.text value ++ ", reason: " ++ quoted reason ++ " \x7d"
  | .notDecomposable residual =>
    "NotDecomposable \x7b residual: " ++ NumeralStyle.explicit.text residual ++ " \x7d"

end Failure

end Spatial
