import Spatial.Json.Skip
import Spatial.Layout
import Spatial.Number.Numeral

/-!
# A library for JSON

A value is written as an object of its fields in the order of declaration, without blanks, a number
that is not finite as `null`.  It is read from an object of its fields in any order, or from an
array of them in the order of declaration; a part that is a record is itself an object or an array.

1. Unknown fields of an object are passed over.  A field that comes twice is a mismatch at the
   second key, and a field that is missing is one at the closing brace.
2. An array that closes too early is a mismatch, and one that goes on too long is malformed.
3. Where a value of another kind stands, that value decides: it is a mismatch if it is well-formed
   as far as its kind shows, a string or a number or a word to its end, an array or an object at
   its first character.

Which number a literal stands for is a parameter, and `library` computes it.
-/

namespace Spatial

/-! ## Writing -/

mutual

/-- The JSON text of a form whose scalars have given texts. -/
def Form.json : Form (List Char) → List Char
  | .scalar text => text
  | .record _ fields => '{' :: fields.json ++ ['}']

/-- The JSON text of the parts of a record, each with its name, with commas between them. -/
def Fields.json : Fields (List Char) → List Char
  | .nil => []
  | .cons key part .nil => '"' :: key.toList ++ '"' :: ':' :: part.json
  | .cons key part rest => '"' :: key.toList ++ '"' :: ':' :: part.json ++ ',' :: rest.json

end

namespace Json

/-! ## Reading -/

section

variable (value : Literal → Option Float32)

/-- The fault of a value of the wrong kind, which is what is left of the text. -/
def foreign : List Char → Fault
  | [] => .truncated
  | '[' :: _ => .mismatch
  | '{' :: _ => .mismatch
  | '"' :: s => settle (scanText none s)
  | 'n' :: s => settle (scanWord ['u', 'l', 'l'] s)
  | 't' :: s => settle (scanWord ['r', 'u', 'e'] s)
  | 'f' :: s => settle (scanWord ['a', 'l', 's', 'e'] s)
  | c :: s =>
    if c = '-' ∨ c.isDigit then
      match scanNumber (c :: s) with
      | .ok (l, _) => if (value l).isSome then .mismatch else .malformed
      | .error fault => fault
    else .malformed
where
  /-- A token that could be read is a mismatch, and one that could not has its own fault. -/
  settle {ρ : Type} : Except Fault ρ → Fault
    | .ok _ => .mismatch
    | .error fault => fault

/-- Reads a number. -/
def readScalar : Reader := fun s =>
  match skipBlank s with
  | [] => .error .truncated
  | c :: s =>
    if c = '-' ∨ c.isDigit then
      match scanNumber (c :: s) with
      | .ok (l, rest) =>
        match value l with
        | some x => .ok ([x], rest)
        | none => .error .malformed
      | .error fault => .error fault
    else .error (foreign value (c :: s))

end

/-- Passes the comma before an element that is not the first. -/
def passComma (first : Bool) (s : List Char) : Except Fault (List Char) :=
  if first then .ok s
  else
    match s with
    | ',' :: s =>
      match skipBlank s with
      | [] => .error .truncated
      | ']' :: _ => .error .malformed
      | s => .ok s
    | s => .error (unexpected s)

/-- Reads one element for each of the readers, and the closing bracket. -/
def readElements : List Reader → (first : Bool) → Reader
  | [], _, s =>
    match skipBlank s with
    | ']' :: s => .ok ([], s)
    | s => .error (unexpected s)
  | read :: reads, first, s =>
    match skipBlank s with
    | ']' :: _ => .error .mismatch
    | s => do
      let (xs, s) ← read (← passComma first s)
      let (ys, s) ← readElements reads false s
      return (xs ++ ys, s)

/-- Passes the comma before a member that is not the first, and the quote that opens its key. -/
def openKey (first : Bool) (s : List Char) : Except Fault (List Char) :=
  let opened : List Char → Except Fault (List Char)
    | '"' :: s => .ok s
    | s => .error (unexpected s)
  if first then opened s
  else
    match s with
    | ',' :: s => opened (skipBlank s)
    | s => .error (unexpected s)

/-- Passes the colon after a key. -/
def passColon (s : List Char) : Except Fault (List Char) :=
  match skipBlank s with
  | ':' :: s => .ok s
  | s => .error (unexpected s)

/-- The scalars of all fields in memory order, if every field has been found. -/
def collect (found : List (String × List Float32)) (names : List String) :
    Option (List Float32) :=
  (names.mapM fun name => found.lookup name).map List.flatten

/-- Reads members up to the closing brace, given those found so far.  Each member passes a
character, so the length of the text bounds their number. -/
def readMembers (fields : List (String × Reader)) :
    Nat → (found : List (String × List Float32)) → (first : Bool) → Reader
  | 0, _, _, _ => .error .truncated
  | fuel + 1, found, first, s =>
    match skipBlank s with
    | '}' :: s =>
      match collect found (fields.map Prod.fst) with
      | some xs => .ok (xs, s)
      | none => .error .mismatch
    | s => do
      let (text, s) ← scanText none (← openKey first s)
      let key := String.ofList text
      match fields.lookup key with
      | none => readMembers fields fuel found false (← skipValue (← passColon s))
      | some read =>
        if (found.lookup key).isSome then .error .mismatch
        else
          let (xs, s) ← read (← passColon s)
          readMembers fields fuel ((key, xs) :: found) false s

/-- Reads a record from an array of its fields or an object of them. -/
def readRecord (value : Literal → Option Float32) (fields : List (String × Reader)) :
    Reader := fun s =>
  match skipBlank s with
  | '[' :: s => readElements (fields.map Prod.snd) true s
  | '{' :: s => readMembers fields (s.length + 1) [] true s
  | s => .error (foreign value s)

end Json

open Json

mutual

/-- The reader of the values of a form. -/
def Form.reader (value : Literal → Option Float32) {α : Type} : Form α → Reader
  | .scalar _ => readScalar value
  | .record _ fields => readRecord value (fields.readers value)

/-- The reader of each part of a record, under its name. -/
def Fields.readers (value : Literal → Option Float32) {α : Type} : Fields α → List (String × Reader)
  | .nil => []
  | .cons key part rest => (key, part.reader value) :: rest.readers value

end

namespace Json

/-- The library that reads numbers as given values. -/
def libraryOf (value : Literal → Option Float32) : Library where
  write form := (form.map (numeral .json)).json
  read form := form.reader value
  readAll form s := do
    let (xs, rest) ← form.reader value s
    if (skipBlank rest).isEmpty then .ok xs else .error .malformed

/-- The library that computes numbers from their digits. -/
def library : Library := libraryOf Literal.toFloat32?

end Json

end Spatial
