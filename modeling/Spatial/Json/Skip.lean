import Spatial.Json.Number

/-!
# Passing over a value

The value of an unknown field may be anything, as long as it is well-formed.  It is passed over
without being kept: numbers may be out of range and escaped surrogates alone, and a number that is
cut short is `malformed` here, since nothing would read it.
-/

namespace Spatial.Json

/-- What is left after a string whose opening quote has been read. -/
def skipText : List Char → Except Fault (List Char)
  | [] => .error .truncated
  | '"' :: s => .ok s
  | ['\\'] => .error .truncated
  | '\\' :: 'u' :: a :: b :: c :: d :: s =>
    if (hexUnit? a b c d).isSome then skipText s else .error .malformed
  | '\\' :: 'u' :: s => .error (shortEscape s)
  | '\\' :: e :: s => if (escaped? e).isSome then skipText s else .error .malformed
  | c :: s => if isControl c then .error .malformed else skipText s

/-- What is left after a number. -/
def skipNumber (s : List Char) : Except Fault (List Char) :=
  match scanNumber s with
  | .ok (_, rest) => .ok rest
  | .error _ => .error .malformed

mutual

/-- What is left after a value.  The first argument bounds the depth of the recursion. -/
def skipWithin : Nat → List Char → Except Fault (List Char)
  | 0, _ => .error .truncated
  | fuel + 1, s =>
    match skipBlank s with
    | [] => .error .truncated
    | '"' :: s => skipText s
    | '[' :: s =>
      match skipBlank s with
      | ']' :: s => .ok s
      | s => skipElements fuel s
    | '{' :: s =>
      match skipBlank s with
      | '}' :: s => .ok s
      | s => skipMembers fuel s
    | 'n' :: s => scanWord ['u', 'l', 'l'] s
    | 't' :: s => scanWord ['r', 'u', 'e'] s
    | 'f' :: s => scanWord ['a', 'l', 's', 'e'] s
    | c :: s => if c = '-' ∨ c.isDigit then skipNumber (c :: s) else .error .malformed

/-- What is left after the elements of an array and its closing bracket. -/
def skipElements : Nat → List Char → Except Fault (List Char)
  | 0, _ => .error .truncated
  | fuel + 1, s => do
    match skipBlank (← skipWithin fuel s) with
    | ',' :: s => skipElements fuel s
    | ']' :: s => .ok s
    | s => .error (unexpected s)

/-- What is left after the members of an object and its closing brace. -/
def skipMembers : Nat → List Char → Except Fault (List Char)
  | 0, _ => .error .truncated
  | fuel + 1, s =>
    match skipBlank s with
    | '"' :: s => do
      match skipBlank (← skipText s) with
      | ':' :: s =>
        match skipBlank (← skipWithin fuel s) with
        | ',' :: s => skipMembers fuel s
        | '}' :: s => .ok s
        | s => .error (unexpected s)
      | s => .error (unexpected s)
    | s => .error (unexpected s)

end

/-- What is left after a value.  Each step into a value, and each step along it, passes at least
half a character, so twice the length of the text is deep enough. -/
def skipValue (s : List Char) : Except Fault (List Char) := skipWithin (2 * s.length + 2) s

end Spatial.Json
