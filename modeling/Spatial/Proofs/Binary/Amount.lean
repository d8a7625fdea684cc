import Mathlib
import Spatial.Proofs.Tolerance
import Spatial.Proofs.Binary.Componentwise
import Spatial.Proofs.Binary.Defined

/-!
# Amounts

Numbers of binary32 that agree are one amount: a zero has no sign, and there is one amount for
what is no number.  Sums, products and negations of numbers that agree do agree, so that amounts
are added, multiplied and negated as their numbers are.

The sign of a zero is what keeps binary32 from having the laws in which nothing is rounded.
Amounts have them.

1.  Zero is neutral for the sum and one for the product, and neither depends on the order of its
    operands.
2.  A negation goes through sums and products, and a difference is the sum with the negation.
3.  Zero times a finite amount is zero.  It is undefined times an infinite one, so this law needs
    its condition.

A formula with zeros and ones in it is computed by these laws, and what comes out agrees with the
formula in binary32.
-/

namespace Spatial.Binary32

variable {x y z w c : Float32}

/-! ## Results of operands that agree -/

/-- Sums of terms that agree do. -/
theorem Agree.add (h : Agree x y) (h' : Agree z w) : Agree (x + z) (y + w) := by
  have hsecond : Agree (y + z) (y + w) := by
    rw [Binary32.add_comm y z, Binary32.add_comm y w]
    exact h'.add_right y
  exact (h.add_right z).trans hsecond

/-- Products with one factor in common agree if the others do. -/
theorem Agree.mul_right (h : Agree x y) (c : Float32) : Agree (x * c) (y * c) := by
  rcases (agree_iff x y).mp h with rfl | ⟨hx, hy⟩
  · exact .refl _
  · cases hc : c.isFinite with
    | true => exact (hx.mul hc).agree (hy.mul hc)
    | false => exact .inr ⟨hx.isNaN_mul hc, hy.isNaN_mul hc⟩

/-- Products of factors that agree do. -/
theorem Agree.mul (h : Agree x y) (h' : Agree z w) : Agree (x * z) (y * w) := by
  have hsecond : Agree (y * z) (y * w) := by
    rw [Binary32.mul_comm y z, Binary32.mul_comm y w]
    exact h'.mul_right y
  exact (h.mul_right z).trans hsecond

/-- Differences of terms that agree do. -/
theorem Agree.sub (h : Agree x y) (h' : Agree z w) : Agree (x - z) (y - w) := by
  rw [sub_eq_add_neg, sub_eq_add_neg]
  exact h.add h'.neg

/-- A product with a negated factor is the negated product, bit for bit. -/
theorem neg_mul (x y : Float32) : -x * y = -(x * y) := by
  rw [Binary32.mul_comm, mul_neg, Binary32.mul_comm]

/-- What agrees with a number equals it. -/
theorem Agree.beq_of_isNaN (h : Agree x y) (hy : y.isNaN = false) : (x == y) = true := by
  refine h.resolve_right fun hnan => ?_
  rw [hy] at hnan
  exact absurd hnan.2 nofun

theorem not_isZero_one : ¬IsZero 1 := by
  rintro ⟨s, h⟩
  rw [value_one] at h
  cases h

/-! ## Amounts -/

/-- Agreement as an equivalence. -/
def agreement : Setoid Float32 := ⟨Agree, Agree.refl, Agree.symm, Agree.trans⟩

/-- A number of binary32 but for the sign of a zero. -/
def Amount : Type := Quotient agreement

/-- The amount that a number is. -/
def amount (x : Float32) : Amount := Quotient.mk agreement x

/-- Two numbers have one amount exactly if they agree. -/
theorem amount_eq_iff : amount x = amount y ↔ Agree x y := Quotient.eq (r := agreement)

namespace Amount

instance : Zero Amount := ⟨amount 0⟩

instance : One Amount := ⟨amount 1⟩

instance : Add Amount := ⟨Quotient.map₂ (· + ·) fun _ _ h _ _ h' => Agree.add h h'⟩

instance : Mul Amount := ⟨Quotient.map₂ (· * ·) fun _ _ h _ _ h' => Agree.mul h h'⟩

instance : Sub Amount := ⟨Quotient.map₂ (· - ·) fun _ _ h _ _ h' => Agree.sub h h'⟩

instance : Neg Amount := ⟨Quotient.map (- ·) fun _ _ h => Agree.neg h⟩

@[simp]
theorem amount_zero : amount 0 = 0 := rfl

@[simp]
theorem amount_one : amount 1 = 1 := rfl

@[simp]
theorem amount_add (x y : Float32) : amount (x + y) = amount x + amount y := rfl

@[simp]
theorem amount_mul (x y : Float32) : amount (x * y) = amount x * amount y := rfl

@[simp]
theorem amount_sub (x y : Float32) : amount (x - y) = amount x - amount y := rfl

@[simp]
theorem amount_neg (x : Float32) : amount (-x) = -amount x := rfl

/-! The laws. -/

instance : AddZeroClass Amount where
  zero_add a := by
    induction a using Quotient.inductionOn with
    | h x => exact amount_eq_iff.mpr (agree_zero_add x isZero_zero)
  add_zero a := by
    induction a using Quotient.inductionOn with
    | h x => exact amount_eq_iff.mpr (agree_add_zero x isZero_zero)

instance : AddCommMagma Amount where
  add_comm a b := by
    induction a, b using Quotient.inductionOn₂ with
    | h x y => exact congrArg amount (Binary32.add_comm x y)

instance : MulOneClass Amount where
  one_mul a := by
    induction a using Quotient.inductionOn with
    | h x => exact congrArg amount (Binary32.one_mul x)
  mul_one a := by
    induction a using Quotient.inductionOn with
    | h x => exact congrArg amount (Binary32.mul_one x)

instance : CommMagma Amount where
  mul_comm a b := by
    induction a, b using Quotient.inductionOn₂ with
    | h x y => exact congrArg amount (Binary32.mul_comm x y)

instance : NegZeroClass Amount where
  neg_zero := amount_eq_iff.mpr (isZero_zero.neg.agree isZero_zero)

instance : HasDistribNeg Amount where
  neg_neg a := by
    induction a using Quotient.inductionOn with
    | h x => exact congrArg amount (Binary32.neg_neg x)
  neg_mul a b := by
    induction a, b using Quotient.inductionOn₂ with
    | h x y => exact congrArg amount (Binary32.neg_mul x y)
  mul_neg a b := by
    induction a, b using Quotient.inductionOn₂ with
    | h x y => exact congrArg amount (Binary32.mul_neg x y)

variable {a b : Amount}

/-- A difference of amounts is the sum with the negation. -/
theorem sub_eq (a b : Amount) : a - b = a + -b := by
  induction a, b using Quotient.inductionOn₂ with
  | h x y => exact congrArg amount (Binary32.sub_eq_add_neg x y)

/-- Taking a zero away changes nothing. -/
@[simp]
theorem sub_zero (a : Amount) : a - 0 = a := by
  rw [sub_eq, neg_zero, add_zero]

/-- Taking from zero negates. -/
@[simp]
theorem zero_sub (a : Amount) : 0 - a = -a := by
  rw [sub_eq, zero_add]

/-- The amount is a finite number. -/
def IsFinite : Amount → Prop :=
  Quotient.lift (fun x => x.isFinite = true) fun _ _ h =>
    propext ⟨Agree.isFinite (Agree.symm h), Agree.isFinite h⟩

@[simp]
theorem isFinite_amount : (amount x).IsFinite ↔ x.isFinite = true := Iff.rfl

/-- The negation of an amount is finite where the amount is. -/
@[simp]
theorem isFinite_neg : (-a).IsFinite ↔ a.IsFinite := by
  induction a using Quotient.inductionOn with
  | h x => exact iff_of_eq (congrArg (· = true) (Binary32.isFinite_neg x))

@[simp]
theorem isFinite_zero : (0 : Amount).IsFinite := Binary32.isFinite_zero

@[simp]
theorem isFinite_one : (1 : Amount).IsFinite := Binary32.isFinite_one

/-- Zero times a finite amount is zero. -/
theorem zero_mul (h : a.IsFinite) : 0 * a = 0 := by
  induction a using Quotient.inductionOn with
  | h x => exact amount_eq_iff.mpr ((isZero_zero_mul h).agree isZero_zero)

/-- A finite amount times zero is zero. -/
theorem mul_zero (h : a.IsFinite) : a * 0 = 0 := by
  rw [CommMagma.mul_comm, zero_mul h]

end Amount

end Spatial.Binary32

namespace Spatial.Components

open Binary32 (amount)
open Tolerance (Fieldwise everyPair_iff)

variable {F : Type → Type} [Components F] {u v : F Float32}

/-- Values agree if their components are the same amounts. -/
theorem agree_iff_amounts : Agree u v ↔ (toList u).map amount = (toList v).map amount := by
  rw [← List.forall₂_eq_eq_eq, List.forall₂_map_left_iff, List.forall₂_map_right_iff]
  simp only [Binary32.amount_eq_iff]
  rfl

/-! ## Equality by components -/

/-- Where all components are finite, none is undefined. -/
theorem isNaN_of_isFinite (hv : Components.isFinite v = true) : Components.isNaN v = false :=
  List.any_eq_false.mpr fun _ hy =>
    Bool.eq_false_iff.mp (Binary32.isNaN_of_isFinite (isFinite_of_mem hv hy))

/-- A sum of finite values may overflow, but its components are numbers. -/
theorem isNaN_add [Pointwise F] (hu : Components.isFinite u = true)
    (hv : Components.isFinite v = true) : Components.isNaN (add u v) = false := by
  rw [Components.isNaN, add, Pointwise.toList_zipWith, ← List.map_uncurry_zip_eq_zipWith]
  refine List.any_eq_false.mpr fun z hz => Bool.eq_false_iff.mp ?_
  obtain ⟨⟨x, y⟩, hxy, rfl⟩ := List.mem_map.mp hz
  obtain ⟨hx, hy⟩ := List.of_mem_zip hxy
  exact (Binary32.isRoundedSum_add (isFinite_of_mem hu hx) (isFinite_of_mem hv hy)).isNaN

variable [BEq (F Float32)] [Fieldwise F]

/-- Values that are equal agree. -/
theorem agree_of_beq (h : (u == v) = true) : Agree u v := by
  rw [Fieldwise.beq_eq] at h
  exact (everyPair_iff.mp h).imp fun _ _ => .inl

/-- What agrees with a value all of whose components are numbers equals it. -/
theorem Agree.beq_of_isNaN (h : Agree u v) (hv : Components.isNaN v = false) :
    (u == v) = true := by
  have hnumbers : ∀ y ∈ toList v, y.isNaN = false := fun y hy =>
    Bool.eq_false_iff.mpr (List.any_eq_false.mp hv y hy)
  have hpairs := (List.forall₂_and_left _ _).mpr ⟨hnumbers, h.symm⟩
  rw [Fieldwise.beq_eq, everyPair_iff]
  exact hpairs.flip.imp fun _ _ hab => hab.2.symm.beq_of_isNaN hab.1

/-- What agrees with a finite value equals it. -/
theorem Agree.beq (h : Agree u v) (hv : Components.isFinite v = true) : (u == v) = true :=
  h.beq_of_isNaN (isNaN_of_isFinite hv)

end Spatial.Components
