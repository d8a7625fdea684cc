import Mathlib
import Spatial.Vector

/-!
# The exact readings of a formula

A formula of this library is written over any scalars.  This module adds the
readings in which nothing rounds.

1.  `ExactScalar` are scalars whose signs mean the operations of a field.  The
    real numbers are an instance, so a law that holds over every field is a law
    of the real reading.
2.  `Checked` are the real numbers with one more value, for an operation that
    has none: a division by zero, the square root of a number below zero.  That
    value spreads to every result it enters.  A field gives such an operation
    some value or other, so a law over the real numbers cannot tell whether one
    is reached; a formula whose checked reading is a number reaches none.
-/

namespace Spatial

/-- Scalars that form a field: every sign of a formula means the operation of
that field, and scalars that compare equal are equal. -/
class ExactScalar (K : Type) extends Field K, Scalar K, LawfulBEq K where
  /-- The numeral two is twice the one of the field. -/
  two_eq : (OfNat.ofNat 2 : K) = 1 + 1

/-- The integer nearest to a real number, a half going to the even one. -/
noncomputable def nearestEven (x : ℝ) : ℝ :=
  if Int.fract x < 1 / 2 then ⌊x⌋
  else if 1 / 2 < Int.fract x then ⌊x⌋ + 1
  else if Even ⌊x⌋ then ⌊x⌋
  else ⌊x⌋ + 1

noncomputable instance : ExactScalar ℝ where
  __ := (inferInstance : Field ℝ)
  toOfNat := ⟨2⟩
  toOfScientific := ⟨fun m s e => (OfScientific.ofScientific m s e : ℝ)⟩
  toLT := Real.instLT
  toLE := Real.instLE
  toBEq := ⟨fun a b => decide (a = b)⟩
  ltDecidable _ _ := Classical.propDecidable _
  leDecidable _ _ := Classical.propDecidable _
  abs x := |x|
  sqrt := Real.sqrt
  roundEven := nearestEven
  pi := Real.pi
  sin := Real.sin
  cos := Real.cos
  tan := Real.tan
  acos := Real.arccos
  eq_of_beq h := by simpa using h
  rfl := by simp
  two_eq := by norm_num

/-- Half of a real number, as it is written in the program. -/
theorem mul_one_half (x : ℝ) : x * 0.5 = x / 2 := by
  norm_num
  ring

/-- A real number, or the outcome of an operation that has no value. -/
inductive Checked where
  /-- A number. -/
  | value (x : ℝ)
  /-- An operation here or on the way here had no value. -/
  | undefined

namespace Checked

/-- An operation with a value at every number. -/
def map (f : ℝ → ℝ) : Checked → Checked
  | value a => value (f a)
  | undefined => undefined

/-- An operation with a value at every two numbers. -/
def map₂ (f : ℝ → ℝ → ℝ) : Checked → Checked → Checked
  | value a, value b => value (f a b)
  | _, _ => undefined

/-- An operation with a value at the numbers of a domain. -/
def guarded (domain : ℝ → Prop) [DecidablePred domain] (f : ℝ → ℝ) : Checked → Checked
  | value a => if domain a then value (f a) else undefined
  | undefined => undefined

/-- A quotient, which has no value where the divisor is zero. -/
noncomputable def quotient : Checked → Checked → Checked
  | value a, value b => if b = 0 then undefined else value (a / b)
  | _, _ => undefined

/-- A comparison, which fails where a side has no value. -/
def compares (r : ℝ → ℝ → Prop) : Checked → Checked → Prop
  | value a, value b => r a b
  | _, _ => False

end Checked

open Classical in
noncomputable instance : Scalar Checked where
  zero := .value 0
  one := .value 1
  toOfNat := ⟨.value 2⟩
  ofScientific m s e := .value (OfScientific.ofScientific m s e)
  add := Checked.map₂ (· + ·)
  sub := Checked.map₂ (· - ·)
  mul := Checked.map₂ (· * ·)
  div := Checked.quotient
  neg := Checked.map (- ·)
  lt := Checked.compares (· < ·)
  le := Checked.compares (· ≤ ·)
  beq a b := decide (Checked.compares (· = ·) a b)
  ltDecidable _ _ := propDecidable _
  leDecidable _ _ := propDecidable _
  abs := Checked.map (|·|)
  sqrt := Checked.guarded (0 ≤ ·) Real.sqrt
  roundEven := Checked.map nearestEven
  pi := .value Real.pi
  sin := Checked.map Real.sin
  cos := Checked.map Real.cos
  tan := Checked.guarded (fun x => Real.cos x ≠ 0) Real.tan
  acos := Checked.guarded (fun x => -1 ≤ x ∧ x ≤ 1) Real.arccos

/-- The components of a real value as numbers of the checked reading. -/
def Components.checked {F : Type → Type} [Components F] (u : F ℝ) : F Checked :=
  Components.map Checked.value u

namespace Checked

/-- A quotient by a number other than zero has a value. -/
theorem value_div_value {a b : ℝ} (h : b ≠ 0) : value a / value b = value (a / b) :=
  if_neg h

/-- The square root of a number not below zero has a value. -/
theorem sqrt_value {a : ℝ} (h : 0 ≤ a) : Scalar.sqrt (value a) = value (Real.sqrt a) :=
  if_pos h

/-- The angle with a given cosine has a value where the cosine is that of an angle. -/
theorem acos_value {a : ℝ} (h : -1 ≤ a ∧ a ≤ 1) :
    Scalar.acos (value a) = value (Real.arccos a) :=
  if_pos h

/-- Two values compare equal exactly if they are one number. -/
theorem value_beq_iff (a b : ℝ) : (value a == value b) = true ↔ a = b :=
  @decide_eq_true_iff (a = b) (Classical.propDecidable _)

end Checked

end Spatial
