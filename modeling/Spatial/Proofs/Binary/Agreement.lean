import Mathlib
import Spatial.Proofs.Binary.Arithmetic

/-!
# Agreement of binary32 numbers

Two results agree if they are equal as numbers, where a zero equals the zero of the
other sign, or if neither is a number.  This is equality of bits but for the sign of
a zero, so it is an equivalence, and it is kept when a term is added on the right.

A zero that is added changes at most the sign of a zero.  The product of a zero with
a finite number is a zero; with an infinite one it is no number, so a term with the
factor zero may be dropped from a sum only where the other factor is finite.

Terms that cancel have a positive zero for a sum, and so have their negations.  So a sum
of negated terms agrees with the negated sum, and is equal to it but for the sign of a
zero.
-/

namespace Spatial.Binary32

open Float.Model (UnpackedFloat)

/-- The number is a zero, of either sign. -/
def IsZero (x : Float32) : Prop := ∃ s, value x = .zero s

/-- The two are equal as numbers, or neither is a number. -/
def Agree (x y : Float32) : Prop := (x == y) = true ∨ x.isNaN = true ∧ y.isNaN = true

/-! Comparison of values. -/

/-- A lexicographic comparison is equal where both comparisons are. -/
theorem compare_then_eq_iff (e f : ℤ) (m n : ℕ) :
    (compare e f).then (compare m n) = .eq ↔ e = f ∧ m = n := by
  rw [Ordering.then_eq_eq, compare_eq_iff_eq, compare_eq_iff_eq]

/-- Values that compare as equal are the same, or two zeros. -/
theorem eq_or_zero_of_beq {u v : UnpackedFloat} (h : u.beq v = true) :
    u = v ∨ (∃ s, u = .zero s) ∧ ∃ s, v = .zero s := by
  simp only [UnpackedFloat.beq, beq_iff_eq] at h
  cases u with
  | notANumber => cases h
  | zero s =>
      cases v with
      | zero t => exact .inr ⟨⟨s, rfl⟩, t, rfl⟩
      | notANumber => cases h
      | infinity t | finite t => cases t <;> cases h
  | infinity s =>
      cases v with
      | infinity t => cases s <;> cases t <;> first | exact .inl rfl | cases h
      | notANumber | zero | finite => cases s <;> cases h
  | finite s m e hm =>
      cases v with
      | finite t n f hn =>
          cases s <;> cases t <;> simp only [UnpackedFloat.compare, Option.some.injEq,
            reduceCtorEq, Ordering.swap_eq_eq, compare_then_eq_iff] at h
          all_goals
            obtain ⟨rfl, rfl⟩ := h
            exact .inl rfl
      | notANumber => cases s <;> cases h
      | zero => cases s <;> cases h
      | infinity t => cases s <;> cases t <;> cases h

/-- A number equals itself. -/
theorem beq_self_of_isNaN {u : UnpackedFloat} (h : u.isNaN = false) : u.beq u = true := by
  rw [UnpackedFloat.beq, beq_iff_eq]
  cases u with
  | notANumber => cases h
  | zero s => rfl
  | infinity s => cases s <;> rfl
  | finite s m e hm =>
      cases s <;> simp [UnpackedFloat.compare]

/-- Agreement is equality of bits but for the sign of a zero. -/
theorem agree_iff (x y : Float32) : Agree x y ↔ x = y ∨ IsZero x ∧ IsZero y := by
  constructor
  · rintro (hequal | ⟨hx, hy⟩)
    · rcases eq_or_zero_of_beq hequal with hvalue | hzeros
      · exact .inl (value_injective hvalue)
      · exact .inr hzeros
    · exact .inl (eq_of_isNaN hx hy)
  · rintro (rfl | ⟨⟨s, hx⟩, t, hy⟩)
    · cases hnan : x.isNaN with
      | true => exact .inr ⟨hnan, hnan⟩
      | false => exact .inl (beq_self_of_isNaN hnan)
    · left
      rw [beq_eq, hx, hy]
      rfl

/-- Every number agrees with itself. -/
theorem Agree.refl (x : Float32) : Agree x x := (agree_iff x x).mpr (.inl rfl)

/-- Agreement goes both ways. -/
theorem Agree.symm {x y : Float32} (h : Agree x y) : Agree y x := by
  rw [agree_iff] at h ⊢
  exact h.imp Eq.symm And.symm

/-- Agreement goes through a third number. -/
theorem Agree.trans {x y z : Float32} (hxy : Agree x y) (hyz : Agree y z) : Agree x z := by
  rw [agree_iff] at hxy hyz ⊢
  rcases hxy with rfl | ⟨hx, hy⟩
  · exact hyz
  · rcases hyz with rfl | ⟨-, hz⟩
    · exact .inr ⟨hx, hy⟩
    · exact .inr ⟨hx, hz⟩

/-! Terms that are zero. -/

/-- An infinity is unpacked as it was packed. -/
theorem value_ofValue_infinity (s : UnpackedFloat.Sign) :
    value (ofValue (.infinity s)) = .infinity s := by
  cases s <;> rfl

/-- A zero is unpacked as it was packed. -/
theorem value_ofValue_zero (s : UnpackedFloat.Sign) : value (ofValue (.zero s)) = .zero s := by
  cases s <;> rfl

/-- A sum with a zero is the other term, or a zero if that is one. -/
theorem agree_ofValue {x : Float32} {u : UnpackedFloat}
    (h : u = value x ∨ (∃ s, u = .zero s) ∧ IsZero x) : Agree (ofValue u) x := by
  rw [agree_iff]
  rcases h with rfl | ⟨⟨s, rfl⟩, hx⟩
  · exact .inl (ofValue_value x)
  · exact .inr ⟨⟨s, value_ofValue_zero s⟩, hx⟩

/-- A zero on the right of a sum changes at most the sign of zero. -/
theorem agree_add_zero (x : Float32) {z : Float32} (hz : IsZero z) : Agree (x + z) x := by
  obtain ⟨s, hz⟩ := hz
  rw [add_eq, hz]
  apply agree_ofValue
  cases hx : value x with
  | infinity | notANumber | finite => exact .inl rfl
  | zero t =>
      refine .inr ⟨?_, t, hx⟩
      simp only [UnpackedFloat.add]
      split_ifs <;> exact ⟨_, rfl⟩

/-- A sum with a zero is the same in either order. -/
theorem zero_add_comm (x : Float32) {z : Float32} (hz : IsZero z) : z + x = x + z := by
  obtain ⟨s, hz⟩ := hz
  rw [add_eq, add_eq, hz]
  cases value x with
  | zero t => cases s <;> cases t <;> rfl
  | infinity | notANumber | finite => rfl

/-- A zero on the left of a sum changes at most the sign of zero. -/
theorem agree_zero_add (x : Float32) {z : Float32} (hz : IsZero z) : Agree (z + x) x := by
  rw [zero_add_comm x hz]
  exact agree_add_zero x hz

theorem isZero_zero : IsZero 0 := ⟨_, value_zero⟩

/-- Two zeros agree, whatever their signs. -/
theorem IsZero.agree {x y : Float32} (hx : IsZero x) (hy : IsZero y) : Agree x y :=
  (agree_iff x y).mpr (.inr ⟨hx, hy⟩)

/-- A sum of zeros is a zero. -/
theorem IsZero.add {x y : Float32} (hx : IsZero x) (hy : IsZero y) : IsZero (x + y) := by
  rcases (agree_iff _ _).mp (agree_add_zero x hy) with heq | ⟨hsum, -⟩
  · rw [heq]
    exact hx
  · exact hsum

/-- The negation of a zero is a zero. -/
theorem IsZero.neg {x : Float32} (hx : IsZero x) : IsZero (-x) := by
  obtain ⟨s, hs⟩ := hx
  refine ⟨-s, ?_⟩
  rw [value_neg, hs]
  rfl

/-- A difference of zeros is a zero. -/
theorem IsZero.sub {x y : Float32} (hx : IsZero x) (hy : IsZero y) : IsZero (x - y) := by
  rw [sub_eq_add_neg]
  exact hx.add hy.neg

/-- The same term may be added to both sides. -/
theorem Agree.add_right {x y : Float32} (h : Agree x y) (c : Float32) : Agree (x + c) (y + c) := by
  rcases (agree_iff x y).mp h with rfl | ⟨hx, hy⟩
  · exact .refl _
  · exact (agree_zero_add c hx).trans (agree_zero_add c hy).symm

/-- A zero times a finite number is a zero. -/
theorem IsZero.mul {x z : Float32} (hz : IsZero z) (h : x.isFinite = true) : IsZero (z * x) := by
  obtain ⟨t, hz⟩ := hz
  rw [IsZero, mul_eq, hz]
  rcases finite_cases h with ⟨s, hx⟩ | ⟨s, m, e, hm, hx⟩ <;> rw [hx] <;>
    exact ⟨_, value_ofValue_zero _⟩

/-- Zero times a finite number is a zero. -/
theorem isZero_zero_mul {x : Float32} (h : x.isFinite = true) : IsZero (0 * x) :=
  isZero_zero.mul h

/-- A finite number times zero is a zero. -/
theorem isZero_mul_zero {x : Float32} (h : x.isFinite = true) : IsZero (x * 0) := by
  rw [mul_comm]
  exact isZero_zero_mul h

/-- What agrees with a zero is one. -/
theorem Agree.isZero {x z : Float32} (h : Agree x z) (hz : IsZero z) : IsZero x := by
  rcases (agree_iff x z).mp h with rfl | ⟨hx, -⟩
  · exact hz
  · exact hx

/-- What agrees with a number that is not a zero is that number. -/
theorem Agree.eq_of_not_isZero {x y : Float32} (h : Agree x y) (hy : ¬IsZero y) : x = y :=
  ((agree_iff x y).mp h).resolve_right fun hzeros => hy hzeros.2

/-- What agrees with a finite number is finite. -/
theorem Agree.isFinite {x y : Float32} (h : Agree x y) (hy : y.isFinite = true) :
    x.isFinite = true := by
  rcases (agree_iff x y).mp h with rfl | ⟨⟨s, hx⟩, -⟩
  · exact hy
  · rw [isFinite_eq, hx]
    rfl

/-- What agrees with a finite number equals it. -/
theorem Agree.beq {x y : Float32} (h : Agree x y) (hy : y.isFinite = true) :
    (x == y) = true := by
  refine h.resolve_right fun hnan => ?_
  rw [isFinite_eq, (isNaN_iff y).mp hnan.2] at hy
  cases hy

/-! Opposite numbers. -/

/-- A negation is finite where the number is. -/
theorem isFinite_neg (x : Float32) : (-x).isFinite = x.isFinite := by
  rw [isFinite_eq, isFinite_eq, value_neg]
  cases value x <;> rfl

/-- Negation keeps agreement. -/
theorem Agree.neg {x y : Float32} (h : Agree x y) : Agree (-x) (-y) := by
  rw [agree_iff] at h ⊢
  rcases h with rfl | ⟨hx, hy⟩
  · exact .inl rfl
  · exact .inr ⟨hx.neg, hy.neg⟩

/-- A sum of negated terms agrees with the negated sum. -/
theorem agree_neg_add_neg (x y : Float32) : Agree (-x + -y) (-(x + y)) := by
  rw [add_eq, add_eq, value_neg, value_neg, neg_ofValue, agree_iff]
  rcases Binary.neg_add_neg .binary32 (value x) (value y) with hneg | ⟨⟨s, hs⟩, t, ht⟩
  · rw [hneg]
    exact .inl rfl
  · rw [hs, ht]
    exact .inr ⟨⟨s, value_ofValue_zero s⟩, -t, value_ofValue_zero (-t)⟩

/-- Of a number and its negation one is below zero, if it is neither a zero nor none. -/
theorem neg_lt_zero_iff {x : Float32} (hzero : (x == 0) = false) (hnan : x.isNaN = false) :
    -x < 0 ↔ ¬ x < 0 := by
  rw [beq_eq, value_zero] at hzero
  rw [isNaN_eq] at hnan
  rw [lt_iff, lt_iff, value_neg, value_zero]
  cases hx : value x with
  | notANumber => simp [hx, UnpackedFloat.isNaN] at hnan
  | zero s => simp [hx, UnpackedFloat.beq, UnpackedFloat.compare] at hzero
  | infinity s | finite s =>
      cases s <;> simp [UnpackedFloat.neg, UnpackedFloat.lt, UnpackedFloat.compare]

/-! Magnitudes. -/

/-- A magnitude is the value without its sign. -/
theorem value_abs (x : Float32) : value x.abs = (value x).abs := by
  have habs : x.abs = ofValue (value x).abs := rfl
  rw [habs]
  have hself : value (ofValue (value x)) = value x := by rw [ofValue_value]
  have hneg : value (ofValue (value x).neg) = (value x).neg := by
    rw [value_ofValue_neg, hself]
  cases hx : value x with
  | notANumber => rw [hx] at hself; exact hself
  | zero s => exact value_ofValue_zero _
  | infinity s => exact value_ofValue_infinity _
  | finite s m e hm =>
      rw [hx] at hself hneg
      cases s with
      | positive => exact hself
      | negative => exact hneg

/-- A number and its negation have one magnitude, bit for bit. -/
theorem abs_neg (x : Float32) : (-x).abs = x.abs := by
  apply value_injective
  rw [value_abs, value_abs, value_neg]
  cases value x <;> rfl

/-- Numbers that agree have one magnitude. -/
theorem Agree.abs_eq (h : Agree x y) : x.abs = y.abs := by
  rcases (agree_iff x y).mp h with rfl | ⟨⟨s, hs⟩, t, ht⟩
  · rfl
  · apply value_injective
    rw [value_abs, value_abs, hs, ht]
    rfl

/-- A magnitude is a number where its argument is. -/
theorem isNaN_abs (x : Float32) : x.abs.isNaN = x.isNaN := by
  rw [isNaN_eq, isNaN_eq, value_abs]
  cases value x <;> rfl

/-- The distance of two numbers is the same from either, bit for bit. -/
theorem abs_sub_comm (x y : Float32) : (x - y).abs = (y - x).abs := by
  have hswap : y - x = -x + - -y := by rw [sub_eq_add_neg, neg_neg, Binary32.add_comm]
  rw [hswap, (agree_neg_add_neg x (-y)).abs_eq, abs_neg, sub_eq_add_neg]

end Spatial.Binary32
