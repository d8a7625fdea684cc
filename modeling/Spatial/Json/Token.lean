import Spatial.Json.Library

/-!
# Tokens of a JSON text

A text is read from the left as a list of characters.  Every scanner takes what is left of the text
and gives what it read together with what is left after it, or the first fault it met.

A string may hold any character but the quote, the backslash and the control characters, and
escapes; an escaped surrogate must be half of a pair.

A text that ends inside a token is `truncated`, and not `malformed`: more text could mend it.
-/

namespace Spatial.Json

/-- A space, a line end or a tab. -/
def isBlank (c : Char) : Bool := c = ' ' || c = '\n' || c = '\t' || c = '\r'

/-- What is left after the blanks at the start. -/
def skipBlank (s : List Char) : List Char := s.dropWhile isBlank

/-- The fault of a text that should have gone on otherwise: if it has ended, it is truncated. -/
def unexpected (s : List Char) : Fault := if s.isEmpty then .truncated else .malformed

/-- The rest of a word of which some characters are still to come. -/
def scanWord : List Char → List Char → Except Fault (List Char)
  | [], s => .ok s
  | _ :: _, [] => .error .truncated
  | c :: word, d :: s => if c = d then scanWord word s else .error .malformed

/-! ## Strings -/

/-- The value of a hexadecimal digit. -/
def hexDigit? (c : Char) : Option Nat :=
  if '0' ≤ c ∧ c ≤ '9' then some (c.toNat - '0'.toNat)
  else if 'a' ≤ c ∧ c ≤ 'f' then some (c.toNat - 'a'.toNat + 10)
  else if 'A' ≤ c ∧ c ≤ 'F' then some (c.toNat - 'A'.toNat + 10)
  else none

/-- The code unit that four hexadecimal digits stand for. -/
def hexUnit? (a b c d : Char) : Option Nat := do
  return 0x1000 * (← hexDigit? a) + 0x100 * (← hexDigit? b) + 0x10 * (← hexDigit? c) + (← hexDigit? d)

/-- The character that a letter after a backslash stands for. -/
def escaped? : Char → Option Char
  | '"' => some '"'
  | '\\' => some '\\'
  | '/' => some '/'
  | 'b' => some '\x08'
  | 'f' => some '\x0c'
  | 'n' => some '\n'
  | 'r' => some '\r'
  | 't' => some '\t'
  | _ => none

/-- A character that may not stand in a string. -/
def isControl (c : Char) : Bool := c.toNat < 0x20

/-- The fault of an escape whose hexadecimal digits are wrong: it is truncated if the text ends
within the next four bytes. -/
def shortEscape (s : List Char) : Fault :=
  if s.foldl (fun n c => n + c.utf8Size) 0 < 4 then .truncated else .malformed

/-- The code unit is the first half of a pair. -/
def isLeading (n : Nat) : Bool := 0xd800 ≤ n && n < 0xdc00

/-- The code unit is the second half of a pair. -/
def isTrailing (n : Nat) : Bool := 0xdc00 ≤ n && n < 0xe000

/-- The code point of a pair of code units. -/
def pairPoint (n₁ n₂ : Nat) : Nat := 0x10000 + 0x400 * (n₁ - 0xd800) + (n₂ - 0xdc00)

/-- The characters of a string up to its closing quote, where the first half of a pair of code
units may just have been read. -/
def scanText (leading : Option Nat) : List Char → Except Fault (List Char × List Char)
  | [] => .error .truncated
  | '"' :: s => if leading.isNone then .ok ([], s) else .error .malformed
  | ['\\'] => .error .truncated
  | '\\' :: 'u' :: a :: b :: c :: d :: s =>
    match hexUnit? a b c d, leading with
    | none, _ => .error .malformed
    | some n, none =>
      if isTrailing n then .error .malformed
      else if isLeading n then scanText (some n) s
      else (scanText none s).map fun (t, rest) => (Char.ofNat n :: t, rest)
    | some n₂, some n₁ =>
      if isTrailing n₂ then
        (scanText none s).map fun (t, rest) => (Char.ofNat (pairPoint n₁ n₂) :: t, rest)
      else .error .malformed
  | '\\' :: 'u' :: s => .error (shortEscape s)
  | '\\' :: e :: s =>
    match escaped? e, leading with
    | some c, none => (scanText none s).map fun (t, rest) => (c :: t, rest)
    | _, _ => .error .malformed
  | c :: s =>
    if isControl c ∨ leading.isSome then .error .malformed
    else (scanText none s).map fun (t, rest) => (c :: t, rest)

end Spatial.Json
