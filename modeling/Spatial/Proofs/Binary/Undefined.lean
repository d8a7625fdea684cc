import Mathlib
import Spatial.Proofs.Binary.Agreement
import Spatial.Proofs.Binary.Order

/-!
# What is no number, and what is without bound

There is one number of binary32 that is none.  Every operation hands it on, and every
comparison with it is false.

A number is without bound if it is infinite and positive, or is none.  Squares of what is
not finite are such, sums with them and roots of them, and what is not finite divided by
them is undefined.  None is at most a finite number.
-/

namespace Spatial.Binary32

open Float.Model (UnpackedFloat)
open Scalar (undefined)

/-! Undefined operands. -/

theorem value_undefined : value undefined = .notANumber := (isNaN_iff _).mp isNaN_undefined

/-- There is one undefined number. -/
theorem eq_undefined_iff {x : Float32} : x = undefined ↔ x.isNaN = true :=
  ⟨fun h => h ▸ isNaN_undefined, fun h => eq_of_isNaN h isNaN_undefined⟩

theorem ofValue_notANumber : ofValue .notANumber = undefined :=
  eq_of_isNaN isNaN_ofValue_notANumber isNaN_undefined

/-- What is undefined spoils every sum, difference, product and quotient, from either side. -/
theorem add_undefined (x : Float32) : x + undefined = undefined :=
  eq_undefined_iff.mpr (isNaN_add_right x isNaN_undefined)

theorem undefined_add (x : Float32) : undefined + x = undefined := by
  rw [add_eq, value_undefined]
  exact ofValue_notANumber

theorem neg_undefined : -undefined = (undefined : Float32) := by
  rw [neg_eq, value_undefined]
  exact ofValue_notANumber

theorem sub_undefined (x : Float32) : x - undefined = undefined := by
  rw [sub_eq_add_neg, neg_undefined, add_undefined]

theorem undefined_sub (x : Float32) : undefined - x = undefined := by
  rw [sub_eq_add_neg, undefined_add]

theorem mul_undefined (x : Float32) : x * undefined = undefined :=
  eq_undefined_iff.mpr (isNaN_mul_right x isNaN_undefined)

theorem undefined_mul (x : Float32) : undefined * x = undefined := by
  rw [mul_comm, mul_undefined]

theorem div_undefined (x : Float32) : x / undefined = undefined :=
  eq_undefined_iff.mpr (isNaN_div_right x isNaN_undefined)

/-- The root of the undefined number is undefined. -/
theorem sqrt_undefined : Scalar.sqrt (undefined : Float32) = undefined := by
  decide +kernel

/-- No comparison with the undefined number holds. -/
theorem not_lt_undefined (x : Float32) : ¬x < undefined := by
  rw [lt_iff_rank, isNaN_undefined]
  exact fun h => absurd h.2.1 nofun

theorem not_undefined_lt (x : Float32) : ¬undefined < x := by
  rw [lt_iff_rank, isNaN_undefined]
  exact fun h => absurd h.1 nofun

theorem not_le_undefined (x : Float32) : ¬x ≤ undefined := by
  rw [le_iff_rank, isNaN_undefined]
  exact fun h => absurd h.2.1 nofun

theorem not_undefined_le (x : Float32) : ¬undefined ≤ x := by
  rw [le_iff_rank, isNaN_undefined]
  exact fun h => absurd h.1 nofun

/-! Numbers without bound. -/

/-- The number is positive and infinite, or is no number. -/
def IsUnbounded (x : Float32) : Prop := value x = .infinity .positive ∨ value x = .notANumber

/-- What is packed from infinity or from the undefined value is without bound. -/
theorem isUnbounded_ofValue {u : UnpackedFloat}
    (h : u = .infinity .positive ∨ u = .notANumber) : IsUnbounded (ofValue u) := by
  rcases h with rfl | rfl
  · exact .inl (value_ofValue_infinity _)
  · exact .inr (Binary.unpack_packedNaN .binary32)

/-- A zero times what is not finite is no number. -/
theorem IsZero.isNaN_mul {x z : Float32} (hz : IsZero z) (hx : x.isFinite = false) :
    (z * x).isNaN = true := by
  obtain ⟨s, hz⟩ := hz
  rw [mul_eq, hz, isNaN_ofValue]
  rcases not_finite_cases hx with ⟨t, hx⟩ | hx <;> rw [hx] <;> rfl

/-- What is neither none nor infinite is finite. -/
theorem isFinite_of_not {x : Float32} (hnan : x.isNaN = false) (hinf : x.isInf = false) :
    x.isFinite = true := by
  have hinf' : (value x).isInf = false := hinf
  rw [isNaN_eq] at hnan
  rw [isFinite_eq]
  cases hx : value x with
  | notANumber => rw [hx] at hnan; cases hnan
  | infinity s => rw [hx] at hinf'; cases hinf'
  | zero | finite => rfl

/-- A number without bound is not at most a finite one. -/
theorem IsUnbounded.not_le_of_isFinite {x y : Float32} (h : IsUnbounded x)
    (hy : y.isFinite = true) : ¬x ≤ y := by
  rw [le_iff_rank, isNaN_eq]
  rintro ⟨hnan, -, hle⟩
  rcases h with h | h
  · rw [h] at hle
    refine absurd hle (not_le.mpr ?_)
    rcases finite_cases hy with ⟨s, hv⟩ | ⟨s, m, e, hm, hv⟩ <;> rw [hv]
    · exact Prod.Lex.toLex_lt_toLex.mpr (.inl two_pos)
    · cases s with
      | positive => exact Prod.Lex.toLex_lt_toLex.mpr (.inl one_lt_two)
      | negative => exact Prod.Lex.toLex_lt_toLex.mpr (.inl (by norm_num))
  · rw [h] at hnan
    cases hnan

/-- A sum with a side without bound is without bound: infinite, or undefined where the other side is
a negative infinity. -/
theorem IsUnbounded.add {x y : Float32} (h : IsUnbounded x ∨ IsUnbounded y) :
    IsUnbounded (x + y) := by
  rw [add_eq]
  refine isUnbounded_ofValue ?_
  rcases h with h | h <;> rcases h with h | h <;> rw [h]
  · rcases value y with s | _ | _ | _
    · cases s <;> simp [UnpackedFloat.add]
    all_goals simp [UnpackedFloat.add]
  · exact .inr rfl
  · rcases value x with s | _ | _ | _
    · cases s <;> simp [UnpackedFloat.add]
    all_goals simp [UnpackedFloat.add]
  · rcases value x <;> exact .inr rfl

/-- The square of what is not finite is without bound. -/
theorem isUnbounded_mul_self {x : Float32} (h : x.isFinite = false) : IsUnbounded (x * x) := by
  rw [mul_eq]
  refine isUnbounded_ofValue ?_
  rcases not_finite_cases h with ⟨s, h⟩ | h <;> rw [h]
  · cases s <;> exact .inl rfl
  · exact .inr rfl

/-- The root of a number without bound is without bound. -/
theorem IsUnbounded.sqrt {x : Float32} (h : IsUnbounded x) : IsUnbounded (Scalar.sqrt x) := by
  have hsqrt : Scalar.sqrt x = ofValue (.sqrt .binary32 (value x)) := rfl
  rw [hsqrt]
  refine isUnbounded_ofValue ?_
  rcases h with h | h <;> rw [h]
  · exact .inl rfl
  · exact .inr rfl

/-- What is not finite over what is without bound. -/
theorem IsUnbounded.div {x y : Float32} (hx : x.isFinite = false) (hy : IsUnbounded y) :
    x / y = undefined := by
  rw [div_eq, ← ofValue_notANumber]
  congr 1
  rcases not_finite_cases hx with ⟨s, hx⟩ | hx <;> rcases hy with hy | hy <;> rw [hx, hy] <;> rfl

end Spatial.Binary32
