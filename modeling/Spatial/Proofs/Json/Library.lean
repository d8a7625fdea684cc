import Mathlib
import Spatial.Json.Library
import Spatial.Number.Numeral
import Spatial.Proofs.Binary.Estimate
import Spatial.Proofs.Decimal.Shortest
import Spatial.Proofs.Json.Grammar

/-!
# What a JSON library does

The documented behaviour of a library, one statement for each rule.  Nothing is assumed of what
the library does beyond these rules.

1.  `Library.Reads`: values are read one at a time, in the order of the text.  An array is read
    element by element, as the parts in their places; an object member by member, as the parts of
    their names, and what is no name is passed over.  A part that comes twice is a mismatch where
    it comes again, and one that has not come is a mismatch at the closing brace.
2.  `Library.Truncates`: where the text ends and more of it is wanted, it is truncated.
3.  `Library.Writes`, `Library.WritesShortest`: a record is written as an object of its parts in the
    order of declaration, and a number with the digits of the shortest decimal.
4.  `Library.ReadsThrough`: a number with a fraction or an exponent is read through binary64.  Of
    which number of binary64 it is there are two accounts: the nearest one (`Nearest`), and the one
    that is computed from the digits and a power of ten (`Scaled`).
-/

namespace Spatial

variable {α β : Type}

/-- The parts of a record, each under its name, as a list. -/
def Fields.parts : Fields α → List (String × Form α)
  | .nil => []
  | .cons key part rest => (key, part) :: rest.parts

/-- The form without its scalars. -/
def Form.bare (form : Form α) : Form Unit := form.map fun _ => ()

namespace Json

/-! ## Outcomes -/

/-- The outcome of reading a value, with blanks before it and whatever comes after. -/
def Yields (read : Reader) (value : List Char) (outcome : Except Fault (List Float32)) : Prop :=
  ∀ gap rest : List Char, Blank gap → Ends rest →
    read (gap ++ (value ++ rest)) = outcome.map fun xs => (xs, rest)

/-- A value is read to given scalars. -/
abbrev ReadsTo (read : Reader) (value : List Char) (xs : List Float32) : Prop :=
  Yields read value (.ok xs)

/-- A value is well-formed but not of the wanted kind. -/
abbrev Refuses (read : Reader) (value : List Char) : Prop := Yields read value (.error .mismatch)

/-- What stands for a number that there is none of. -/
def nullWord : List Char := ['n', 'u', 'l', 'l']

/-! ## Arrays -/

/-- A value in an array, with the blanks around it. -/
structure Element where
  /-- The blanks before the value. -/
  before : List Char
  /-- The value. -/
  value : List Char
  /-- The blanks after the value. -/
  after : List Char

namespace Element

/-- The characters of an element. -/
def text (e : Element) : List Char := e.before ++ (e.value ++ e.after)

/-- The blanks are blanks. -/
structure Proper (e : Element) : Prop where
  before_blank : Blank e.before
  after_blank : Blank e.after

end Element

/-- The text starts with a character that is no blank and closes no array. -/
def Starts (value : List Char) : Prop := ∃ c u, value = c :: u ∧ isBlank c = false ∧ c ≠ ']'

/-- The elements that come after the first, each behind its comma. -/
def laterElements (es : List Element) : List Char := es.flatMap fun e => ',' :: e.text

/-- The characters of an array. -/
def arrayText : List Element → List Char
  | [] => ['[', ']']
  | e :: es => '[' :: (e.text ++ (laterElements es ++ [']']))

/-- What the elements of an array come to, each read as the part in its place. -/
inductive Lists : List Reader → List Element → Except Fault (List Float32) → Prop
  | done : Lists [] [] (.ok [])
  | read {read : Reader} {reads : List Reader} {e : Element} {es : List Element}
      {xs : List Float32} {outcome : Except Fault (List Float32)}
      (hvalue : ReadsTo read e.value xs) (hrest : Lists reads es outcome) :
      Lists (read :: reads) (e :: es) (outcome.map (xs ++ ·))
  | refused {read : Reader} {reads : List Reader} {e : Element} {es : List Element}
      (hvalue : Refuses read e.value) :
      Lists (read :: reads) (e :: es) (.error .mismatch)

/-! ## Objects -/

/-- A member of an object: its key, its value and the blanks between them. -/
structure Member where
  /-- The blanks before the key. -/
  start : List Char
  /-- The characters between the quotes of the key. -/
  key : List Char
  /-- What the key stands for. -/
  name : String
  /-- The blanks between the key and the colon. -/
  colon : List Char
  /-- The blanks before the value. -/
  before : List Char
  /-- The value. -/
  value : List Char
  /-- The blanks after the value. -/
  after : List Char

namespace Member

/-- The characters of a member. -/
def text (m : Member) : List Char :=
  m.start ++ '"' :: (m.key ++ '"' :: (m.colon ++ ':' :: (m.before ++ (m.value ++ m.after))))

/-- The blanks are blanks, and the key stands for the name. -/
structure Proper (m : Member) : Prop where
  start_blank : Blank m.start
  spells : Spells m.key m.name.toList
  colon_blank : Blank m.colon
  before_blank : Blank m.before
  after_blank : Blank m.after

end Member

/-- A member without blanks whose key is written as it is. -/
def plainMember (name : String) (value : List Char) : Member :=
  ⟨[], name.toList, name, [], [], value, []⟩

/-- The members that come after the first, each behind its comma. -/
def laterMembers (ms : List Member) : List Char := ms.flatMap fun m => ',' :: m.text

/-- The characters of an object, with blanks before its closing brace. -/
def objectText (gap : List Char) : List Member → List Char
  | [] => '\x7b' :: (gap ++ ['\x7d'])
  | m :: ms => '\x7b' :: (m.text ++ (laterMembers ms ++ (gap ++ ['\x7d'])))

/-- What the members of an object come to, one after another, given the scalars of the parts that
have been found before them. -/
inductive Gathers (fields : List (String × Reader)) :
    (found : List (String × List Float32)) → List Member → Except Fault (List Float32) → Prop
  | complete {found : List (String × List Float32)} {f : String → List Float32}
      (h : ∀ n ∈ fields.map Prod.fst, found.lookup n = some (f n)) :
      Gathers fields found [] (.ok ((fields.map Prod.fst).flatMap f))
  | missing {found : List (String × List Float32)} {n : String} (hn : n ∈ fields.map Prod.fst)
      (h : found.lookup n = none) : Gathers fields found [] (.error .mismatch)
  | unknown {found : List (String × List Float32)} {m : Member} {ms : List Member}
      {outcome : Except Fault (List Float32)} (hname : fields.lookup m.name = none)
      (hvalue : WellFormed .value m.value) (hrest : Gathers fields found ms outcome) :
      Gathers fields found (m :: ms) outcome
  | repeated {found : List (String × List Float32)} {m : Member} {ms : List Member}
      {read : Reader} {xs : List Float32} (hname : fields.lookup m.name = some read)
      (hfound : found.lookup m.name = some xs) : Gathers fields found (m :: ms) (.error .mismatch)
  | read {found : List (String × List Float32)} {m : Member} {ms : List Member}
      {outcome : Except Fault (List Float32)} {read : Reader} {xs : List Float32}
      (hname : fields.lookup m.name = some read) (hfresh : found.lookup m.name = none)
      (hvalue : ReadsTo read m.value xs)
      (hrest : Gathers fields ((m.name, xs) :: found) ms outcome) :
      Gathers fields found (m :: ms) outcome
  | refused {found : List (String × List Float32)} {m : Member} {ms : List Member}
      {read : Reader} (hname : fields.lookup m.name = some read)
      (hfresh : found.lookup m.name = none) (hvalue : Refuses read m.value) :
      Gathers fields found (m :: ms) (.error .mismatch)

/-- What is left of an object whose text ends before its closing brace, without blanks.  Before a
first member stands nothing, and before any other a comma. -/
inductive Unfinished (fields : List (String × Reader)) :
    (lead : List Char) → (found : List String) → List Char → Prop
  /-- The text ends behind the brace or behind a value. -/
  | behind {lead : List Char} {found : List String} : Unfinished fields lead found []
  /-- The text ends where a member should start. -/
  | before {lead : List Char} {found : List String} : Unfinished fields lead found lead
  /-- The text ends in a key. -/
  | key {lead : List Char} {found : List String} {key : List Char} (hkey : key.all isPlain = true) :
      Unfinished fields lead found (lead ++ '"' :: key)
  /-- The text ends behind a key. -/
  | colon {lead : List Char} {found : List String} {name : String} {read : Reader}
      (hplain : name.toList.all isPlain = true) (hname : fields.lookup name = some read)
      (hfresh : name ∉ found) : Unfinished fields lead found (lead ++ '"' :: (name.toList ++ ['"']))
  /-- The text ends in a value. -/
  | value {lead : List Char} {found : List String} {name : String} {read : Reader}
      {value : List Char} (hplain : name.toList.all isPlain = true)
      (hname : fields.lookup name = some read) (hfresh : name ∉ found)
      (hvalue : read value = .error .truncated ∨ ∃ xs, read value = .ok (xs, [])) :
      Unfinished fields lead found (lead ++ '"' :: (name.toList ++ '"' :: ':' :: value))
  /-- The text goes on behind a member. -/
  | next {lead : List Char} {found : List String} {name : String} {read : Reader}
      {value s : List Char} {xs : List Float32} (hplain : name.toList.all isPlain = true)
      (hname : fields.lookup name = some read) (hfresh : name ∉ found)
      (hvalue : ReadsTo read value xs) (hrest : Unfinished fields [','] (name :: found) s) :
      Unfinished fields lead found (lead ++ '"' :: (name.toList ++ '"' :: ':' :: (value ++ s)))

/-! ## Numbers -/

namespace Literal

/-- The digits before the point and after it. -/
def digits (l : Literal) : List Char := l.whole ++ l.fraction.getD []

/-- The decimal that all digits make. -/
def exact (l : Literal) : Decimal :=
  ⟨digitsValue l.digits, l.exponent.getD 0 - (l.fraction.getD []).length⟩

/-- The number has a fraction or an exponent. -/
def Marked (l : Literal) : Prop := l.fraction.isSome = true ∨ l.exponent.isSome = true

/-- The literal has few digits and a small exponent. -/
structure Short (l : Literal) : Prop where
  all_digits : ∀ c ∈ l.digits, c.isDigit = true
  length : l.digits.length ≤ 15
  exponent : l.exponent.getD 0 ≤ 46

/-- The digits are those of a decimal; an integer may have a zero after its point. -/
structure Shows (l : Literal) (d : Decimal) : Prop where
  marked : l.Marked
  exact : l.exact = d ∨ 0 ≤ d.exponent ∧ l.exact = ⟨d.digits * 10 ^ (d.exponent.toNat + 1), -1⟩

/-- The sign of a literal. -/
def sign (l : Literal) : Float.Model.UnpackedFloat.Sign :=
  if l.negative then .negative else .positive

/-- A number of binary64 with the sign of a literal. -/
def signed (l : Literal) (x : Float) : Float := if l.negative then -x else x

/-- The number of binary64 that is nearest to a literal; a literal that is zero keeps its sign. -/
inductive Nearest (l : Literal) : Float → Prop
  | zero {x : Float} (hdigits : l.exact.digits = 0) (hx : Binary64.value x = .zero l.sign) :
      Nearest l x
  | round {x : Float} (hx : Binary.RoundsTo .binary64 l.sign l.exact.toRat (Binary64.value x)) :
      Nearest l x

/-- The number of binary64 that is computed from a literal: its digits make an integer of 64 bits,
which is rounded and then multiplied or divided by a power of ten, and both that power and the
result are rounded again. -/
inductive Scaled (l : Literal) : Float → Prop
  | zero (hdigits : l.exact.digits = 0) : Scaled l (l.signed 0)
  | product {k : ℕ} (hpos : 0 < l.exact.digits) (hlt : l.exact.digits < wordLimit)
      (hexponent : l.exact.exponent = k) (hk : k ≤ 308)
      (hfinite : (natFloat l.exact.digits * powerOfTen k).isInf = false) :
      Scaled l (l.signed (natFloat l.exact.digits * powerOfTen k))
  | quotient {k : ℕ} (hpos : 0 < l.exact.digits) (hlt : l.exact.digits < wordLimit)
      (hexponent : l.exact.exponent = -(k + 1 : ℕ)) (hk : k + 1 ≤ 308) :
      Scaled l (l.signed (natFloat l.exact.digits / powerOfTen (k + 1)))

end Literal

end Json

namespace Binary32

/-- The number has a minus sign. -/
def isNegative (x : Float32) : Bool :=
  match value x with
  | .zero .negative | .finite .negative _ _ _ => true
  | _ => false

/-- The shortest decimal that rounds to the magnitude of a finite number. -/
def shortest (x : Float32) : Decimal :=
  match value x with
  | .finite _ m e _ => Decimal.shortest .even m e
  | _ => ⟨0, 0⟩

end Binary32

namespace Json.Library

/-! ## Libraries -/

variable (L : Library)

/-- A number of the grammar that is read as a given number where it stands alone. -/
def ReadsAs (token : List Char) (x : Float32) : Prop :=
  (∃ l, IsNumber token l) ∧ L.readAll (.scalar ()) token = .ok [x]

/-- The readers of the parts of a record, each under its name. -/
def readers (fields : Fields Unit) : List (String × Reader) :=
  fields.parts.map fun p => (p.1, L.read p.2)

/-- What is documented of reading. -/
structure Reads : Prop where
  /-- A number is the same number wherever it stands. -/
  number {token : List Char} {x : Float32} (h : L.ReadsAs token x) :
    ReadsTo (L.read (.scalar ())) token [x]
  /-- A number of few digits is not out of range. -/
  inRange {token : List Char} {l : Literal} (h : IsNumber token l) (hl : l.Short) :
    ∃ x, L.ReadsAs token x
  /-- A null is no number. -/
  null : Refuses (L.read (.scalar ())) nullWord
  /-- An array is read as the parts of a record in the order of declaration. -/
  array {name : String} {fields : Fields Unit} {es : List Element}
    {outcome : Except Fault (List Float32)} (hproper : ∀ e ∈ es, e.Proper)
    (hstarts : ∀ e ∈ es, Starts e.value)
    (h : Lists ((L.readers fields).map Prod.snd) es outcome) :
    Yields (L.read (.record name fields)) (arrayText es) outcome
  /-- An object is read as the parts of a record with the names of its members. -/
  object {name : String} {fields : Fields Unit} {gap : List Char} {ms : List Member}
    {outcome : Except Fault (List Float32)} (hgap : Blank gap) (hproper : ∀ m ∈ ms, m.Proper)
    (h : Gathers (L.readers fields) [] ms outcome) :
    Yields (L.read (.record name fields)) (objectText gap ms) outcome
  /-- Behind the value of a text there may be blanks. -/
  all_ok {form : Form Unit} {s rest : List Char} {xs : List Float32}
    (h : L.read form s = .ok (xs, rest)) (hrest : Blank rest) : L.readAll form s = .ok xs
  /-- The fault of a value is that of the text. -/
  all_error {form : Form Unit} {s : List Char} {fault : Fault}
    (h : L.read form s = .error fault) : L.readAll form s = .error fault

/-- What is documented of a text that ends too early. -/
structure Truncates : Prop where
  /-- There is no value. -/
  empty (form : Form Unit) : L.read form [] = .error .truncated
  /-- The text ends in a number. -/
  number {p t : List Char} {l : Literal} (ht : IsNumber t l) (hp : p <+: t)
    (hnone : ¬∃ k, IsNumber p k) : L.read (.scalar ()) p = .error .truncated
  /-- The text ends in an object. -/
  object {name : String} {fields : Fields Unit} {s : List Char}
    (h : Unfinished (L.readers fields) [] [] s) :
    L.read (.record name fields) ('\x7b' :: s) = .error .truncated

/-- What is documented of writing. -/
structure Writes : Prop where
  /-- A record is an object of its parts in the order of declaration, without blanks. -/
  record (name : String) (fields : Fields Float32) :
    L.write (.record name fields) =
      objectText [] (fields.parts.map fun p => plainMember p.1 (L.write p.2))
  /-- A finite number is a number of few digits. -/
  finite {x : Float32} (hx : x.isFinite = true) :
    ∃ l, IsNumber (L.write (.scalar x)) l ∧ l.Short
  /-- Any other number is a null. -/
  null {x : Float32} (hx : x.isFinite = false) : L.write (.scalar x) = nullWord

/-- A finite number is written with its sign and its shortest digits. -/
def WritesShortest : Prop :=
  ∀ (x : Float32) (l : Literal), x.isFinite = true → IsNumber (L.write (.scalar x)) l →
    l.negative = Binary32.isNegative x ∧ l.Shows (Binary32.shortest x)

/-- A number with a fraction or an exponent is read as a number of binary64, which is then rounded
to the nearest number of binary32. -/
def ReadsThrough (wide : Literal → Float → Prop) : Prop :=
  ∀ (token : List Char) (l : Literal) (x : Float), IsNumber token l → l.Marked → wide l x →
    ReadsTo (L.read (.scalar ())) token [Binary.narrow x]

end Json.Library

end Spatial
