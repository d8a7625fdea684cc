/-!
# Forms

A form is a value laid out for reading: a scalar, or a record of named parts.  It carries the names
that texts show and the order that memory keeps, and every text of a value is made from its form.
-/

namespace Spatial

mutual

/-- A scalar, or a record with a name. -/
inductive Form (α : Type) where
  /-- A single scalar. -/
  | scalar (value : α)
  /-- A named record. -/
  | record (name : String) (fields : Fields α)

/-- The parts of a record, each under its name, in order. -/
inductive Fields (α : Type) where
  /-- No part. -/
  | nil
  /-- A named part and the parts after it. -/
  | cons (key : String) (part : Form α) (rest : Fields α)

end

namespace Fields

/-- The record parts that are scalars under the given names. -/
def ofScalars {α : Type} : List (String × α) → Fields α
  | [] => .nil
  | (key, a) :: rest => .cons key (.scalar a) (ofScalars rest)

end Fields

variable {α β : Type}

mutual

/-- The form with a function applied to every scalar. -/
def Form.map (f : α → β) : Form α → Form β
  | .scalar a => .scalar (f a)
  | .record name fields => .record name (fields.map f)

/-- The parts with a function applied to every scalar. -/
def Fields.map (f : α → β) : Fields α → Fields β
  | .nil => .nil
  | .cons key part rest => .cons key (part.map f) (rest.map f)

end

mutual

/-- The scalars of a form, in order. -/
def Form.leaves : Form α → List α
  | .scalar a => [a]
  | .record _ fields => fields.leaves

/-- The scalars of the parts, in order. -/
def Fields.leaves : Fields α → List α
  | .nil => []
  | .cons _ part rest => part.leaves ++ rest.leaves

end

/-- The name of a record. -/
def Form.name : Form α → String
  | .scalar _ => ""
  | .record name _ => name

mutual

/-- A form on one line: the name, and the parts in braces. -/
def Form.inline (numeral : α → String) : Form α → String
  | .scalar a => numeral a
  | .record name fields => name ++ " \x7b " ++ ", ".intercalate (fields.inline numeral) ++ " \x7d"

/-- The parts on one line, each with its name. -/
def Fields.inline (numeral : α → String) : Fields α → List String
  | .nil => []
  | .cons key part rest => (key ++ ": " ++ part.inline numeral) :: rest.inline numeral

end

mutual

/-- A form with one part a line, the parts of a part indented by four more spaces. -/
def Form.block (numeral : α → String) (indent : String) : Form α → String
  | .scalar a => numeral a
  | .record name fields =>
    name ++ " \x7b\n" ++ fields.block numeral (indent ++ "    ") ++ indent ++ "\x7d"

/-- The parts, one a line, each with its name and a comma. -/
def Fields.block (numeral : α → String) (indent : String) : Fields α → String
  | .nil => ""
  | .cons key part rest =>
    indent ++ key ++ ": " ++ part.block numeral indent ++ ",\n" ++ rest.block numeral indent

end

end Spatial
