import Mathlib
import Spatial.Proofs.Binary.Packing

/-!
# Rounded results

The four operations on unpacked numbers deal with infinities, zeros and what is no
number case by case, and round the exact result of two finite numbers.  Rounding
looks at the significand and the exponent and hands the sign through.

1.  So a product with a negated factor is the negated product, down to the sign of
    a zero, and a difference is the sum with the negation.
2.  A sum of negated terms is the negated sum, but for terms that cancel: their sum is
    a positive zero, and so is that of their negations.
3.  Sums and products do not depend on the order of their operands.
4.  A number in canonical form, written with any number of further zeros at its
    end, rounds to itself.
-/

namespace Spatial.Binary

open Float.Model (Format totalExponent UnpackedFloat)
open Float.Model.UnpackedFloat

variable {S : Format}

/-! Signs. -/

/-- The opposite sign negates what a sign is applied to. -/
theorem apply_neg (s : Sign) (n : ℤ) : (-s).apply n = -s.apply n := by
  cases s
  · exact (neg_neg n).symm
  · rfl

/-- The opposite sign of a factor is that of the product. -/
theorem sign_mul_neg (s t : Sign) : s * -t = -(s * t) := by
  cases s <;> cases t <;> rfl

/-- Rounding goes by the magnitude and leaves the sign. -/
theorem roundWithAccuracy_neg (S : Format) (s : Sign) (m : ℕ) (e : ℤ) (a : Accuracy) :
    roundWithAccuracy S (-s) m e a = (roundWithAccuracy S s m e a).neg := by
  simp only [roundWithAccuracy]
  split_ifs <;> rfl

/-- A difference is the sum with the negation, zeros and infinities included. -/
theorem sub_eq_add_neg (S : Format) (x y : UnpackedFloat) :
    UnpackedFloat.sub S x y = UnpackedFloat.add S x y.neg := by
  cases x <;> cases y <;>
    simp only [UnpackedFloat.sub, UnpackedFloat.add, UnpackedFloat.neg, apply_neg,
      Int.sub_eq_add_neg]

/-- A product with a negated factor is the negated product. -/
theorem mul_neg (S : Format) (x y : UnpackedFloat) :
    UnpackedFloat.mul S x y.neg = (UnpackedFloat.mul S x y).neg := by
  cases x <;> cases y <;>
    simp only [UnpackedFloat.mul, UnpackedFloat.neg, sign_mul_neg, roundWithAccuracy_neg]

/-! Sums of negated terms. -/

/-- The opposite of the opposite sign. -/
theorem sign_neg_neg (s : Sign) : - -s = s := by
  cases s <;> rfl

/-- Opposite signs are equal where the signs are. -/
theorem sign_beq_neg (s t : Sign) : (-s == -t) = (s == t) := by
  cases s <;> cases t <;> rfl

/-- Negating a value twice gives it back. -/
theorem unpacked_neg_neg (u : UnpackedFloat) : u.neg.neg = u := by
  cases u <;> simp only [UnpackedFloat.neg, sign_neg_neg]

/-- An exact sum other than zero is rounded to the negation where it is negated. -/
theorem normalize_neg (S : Format) {m : ℤ} (hm : m ≠ 0) (e : ℤ) (s : Sign) :
    UnpackedFloat.normalize S (-m) e s = (UnpackedFloat.normalize S m e s).neg := by
  rcases lt_or_gt_of_ne hm with hneg | hpos
  · have hcompare : compare m 0 = .lt := compare_lt_iff_lt.mpr hneg
    have hopposite : compare (-m) 0 = .gt := compare_gt_iff_gt.mpr (by omega)
    simp only [UnpackedFloat.normalize, hcompare, hopposite]
    exact roundWithAccuracy_neg S .negative _ _ _
  · have hcompare : compare m 0 = .gt := compare_gt_iff_gt.mpr hpos
    have hopposite : compare (-m) 0 = .lt := compare_lt_iff_lt.mpr (by omega)
    simp only [UnpackedFloat.normalize, hcompare, hopposite, Int.neg_neg]
    exact roundWithAccuracy_neg S .positive _ _ _

/-- A sum of negated terms is the negated sum, or the terms cancel and both sums are
zeros. -/
theorem neg_add_neg (S : Format) (u v : UnpackedFloat) :
    UnpackedFloat.add S u.neg v.neg = (UnpackedFloat.add S u v).neg ∨
      (∃ s, UnpackedFloat.add S u.neg v.neg = .zero s) ∧
        ∃ s, UnpackedFloat.add S u v = .zero s := by
  cases u with
  | notANumber => exact .inl rfl
  | infinity s =>
      cases v with
      | infinity t =>
          left
          simp only [UnpackedFloat.neg, UnpackedFloat.add, sign_beq_neg]
          split_ifs <;> rfl
      | notANumber | zero | finite => exact .inl rfl
  | zero s =>
      cases v with
      | zero t =>
          right
          simp only [UnpackedFloat.neg, UnpackedFloat.add, sign_beq_neg]
          split_ifs <;> exact ⟨⟨_, rfl⟩, _, rfl⟩
      | notANumber | infinity | finite => exact .inl rfl
  | finite s m e hm =>
      cases v with
      | finite t n f hn =>
          simp only [UnpackedFloat.neg, UnpackedFloat.add, apply_neg, ← neg_add]
          by_cases hsum : s.apply (decreaseExponent m e (min e f)).1 +
              t.apply (decreaseExponent n f (min e f)).1 = 0
          · right
            rw [hsum]
            exact ⟨⟨_, rfl⟩, _, rfl⟩
          · left
            exact normalize_neg S hsum _ _
      | notANumber | infinity | zero => exact .inl rfl

/-- A number does not cancel itself: twice the negation is the negation of twice the
number. -/
theorem neg_add_neg_self (S : Format) (u : UnpackedFloat) :
    UnpackedFloat.add S u.neg u.neg = (UnpackedFloat.add S u u).neg := by
  cases u with
  | notANumber => rfl
  | infinity s | zero s => cases s <;> rfl
  | finite s m e hm =>
      have haligned : (decreaseExponent m e e).1 = m := by simp [decreaseExponent]
      have htwice : s.apply m + s.apply m ≠ 0 := by
        cases s <;> simp only [Sign.apply] <;> omega
      simp only [UnpackedFloat.neg, UnpackedFloat.add, apply_neg, ← neg_add, min_self, haligned]
      exact normalize_neg S htwice _ _

/-! The order of the terms and of the factors. -/

/-- A sum does not depend on the order of its terms. -/
protected theorem add_comm (S : Float.Model.Format) (u v : UnpackedFloat) :
    UnpackedFloat.add S u v = UnpackedFloat.add S v u := by
  have hsign (s t : Sign) : (s == t) = (t == s) := by
    cases s <;> cases t <;> rfl
  have hequal {s t : Sign} (h : (s == t) = true) : s = t := by
    cases s <;> cases t <;> first | rfl | cases h
  cases u with
  | notANumber => cases v <;> rfl
  | infinity s =>
      cases v with
      | infinity t =>
          simp only [UnpackedFloat.add, hsign t s]
          split_ifs with h
          · rw [hequal h]
          · rfl
      | notANumber | zero | finite => rfl
  | zero s =>
      cases v with
      | zero t =>
          simp only [UnpackedFloat.add, hsign t s]
          split_ifs with h
          · rw [hequal h]
          · rfl
      | notANumber | infinity | finite => rfl
  | finite s m e hm =>
      cases v with
      | finite t n f hn => simp only [UnpackedFloat.add, min_comm f e, Int.add_comm]
      | notANumber | infinity | zero => rfl

/-- Signs multiply in either order. -/
theorem sign_mul_comm (s t : Sign) : s * t = t * s := by
  cases s <;> cases t <;> rfl

/-- A product does not depend on the order of its factors. -/
theorem mul_comm (S : Format) (x y : UnpackedFloat) :
    UnpackedFloat.mul S x y = UnpackedFloat.mul S y x := by
  cases x <;> cases y <;>
    simp only [UnpackedFloat.mul, sign_mul_comm, Nat.mul_comm, Int.add_comm]

/-! Results that need no rounding. -/

/-- Zeros that are shifted out leave no trace. -/
theorem shiftRight_exact (m k : ℕ) :
    ExtendedMantissa.ofMantissaAndAccuracy (m * 2 ^ k) .exact >>> k =
      ExtendedMantissa.ofMantissaAndAccuracy m .exact := by
  show k.repeat ExtendedMantissa.shiftRightOne ⟨m * 2 ^ k, false, false⟩ = ⟨m, false, false⟩
  induction k generalizing m with
  | zero => simp [Nat.repeat]
  | succ k ih =>
      have hdouble : m * 2 ^ (k + 1) = m * 2 * 2 ^ k := by ring
      rw [Nat.repeat, hdouble, ih]
      simp [ExtendedMantissa.shiftRightOne]

/-- The leading digit stands where it stood, however many zeros follow. -/
theorem totalExponent_scaled {m : ℕ} (hm : 0 < m) (e : ℤ) (k : ℕ) :
    totalExponent (m * 2 ^ k) (e - k) = totalExponent m e := by
  have hle := Nat.log2_self_le hm.ne'
  have hlt := @Nat.lt_log2_self m
  have hlog : (m * 2 ^ k).log2 = m.log2 + k := by
    rw [Nat.log2_eq_iff (by positivity), pow_add, add_right_comm, pow_add _ (m.log2 + 1)]
    exact ⟨Nat.mul_le_mul_right _ hle, Nat.mul_lt_mul_of_pos_right hlt (by positivity)⟩
  simp only [totalExponent, hlog]
  push_cast
  ring

/-- A number written with a smaller exponent is shifted back to its canonical form. -/
theorem shiftToTargetExponent_scaled {m : ℕ} {e : ℤ} (hm : 0 < m)
    (h : S.targetExponent (totalExponent m e) = e) (k : ℕ) :
    shiftToTargetExponent S (m * 2 ^ k) (e - k) .exact =
      (ExtendedMantissa.ofMantissaAndAccuracy m .exact, e) := by
  have hshift : (e - (e - k)).toNat = k := by omega
  rw [shiftToTargetExponent, totalExponent_scaled hm, h, shiftToExponent, hshift,
    shiftRight_exact, sub_add_cancel]

/-- A number in canonical form, with further zeros at its end, rounds to itself. -/
theorem roundWithAccuracy_scaled {m : ℕ} {e : ℤ} (hm : 0 < m)
    (h : S.targetExponent (totalExponent m e) = e) (s : Sign) (k : ℕ) :
    roundWithAccuracy S s (m * 2 ^ k) (e - k) .exact = .finite s m e hm := by
  have hsecond := shiftToTargetExponent_scaled hm h 0
  simp only [pow_zero, mul_one, Nat.cast_zero, sub_zero] at hsecond
  have hrounded :
      (ExtendedMantissa.ofMantissaAndAccuracy m .exact).roundedMantissa = m := rfl
  simp only [roundWithAccuracy, shiftToTargetExponent_scaled hm h, hrounded, hsecond]
  exact dif_neg hm.ne'

end Spatial.Binary
