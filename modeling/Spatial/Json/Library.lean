import Spatial.Layout

/-!
# JSON libraries

Values are written as JSON texts, and read from them, by a library for JSON.  What belongs to the
values is how each of their kinds is declared: the record, the names of its parts and their order.
How a record of given parts is written and read belongs to the library, which is a parameter.

A library fails with one of three faults.  It reads a text from the left, and the fault is that of
the first place where something is wrong.
-/

namespace Spatial.Json

/-- What is wrong with a text, at the first place where something is. -/
inductive Fault where
  /-- The text ended too early. -/
  | truncated
  /-- The text is no JSON, or a number in it is out of range. -/
  | malformed
  /-- The text is JSON so far, but not of a value of the wanted kind. -/
  | mismatch
deriving BEq, DecidableEq, Repr

/-- A reader of one value at the front of a text gives the scalars of the value, in the order of
declaration, and what is left of the text. -/
abbrev Reader := List Char → Except Fault (List Float32 × List Char)

/-- A library that writes and reads the values of declared records. -/
structure Library where
  /-- The text of a value. -/
  write : Form Float32 → List Char
  /-- Reads a value of a declared record at the front of a text. -/
  read : Form Unit → Reader
  /-- Reads a text as one value of a declared record, and gives its scalars. -/
  readAll : Form Unit → List Char → Except Fault (List Float32)

namespace Library

variable (L : Library)

/-- The JSON text of a value. -/
def toJson {F : Type → Type} [Layout F] (v : F Float32) : String :=
  String.ofList (L.write (Layout.form v))

/-- Reads a text as one value. -/
def ofJson (F : Type → Type) [Layout F] (text : String) : Except Fault (F Float32) := do
  match Layout.ofMemory? (← L.readAll (Layout.shape F) text.toList) with
  | some v => .ok v
  | none => .error .mismatch

end Library

end Spatial.Json
