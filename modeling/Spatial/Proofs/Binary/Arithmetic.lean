import Mathlib
import Spatial.Proofs.Binary.Rounding

/-!
# Arithmetic in binary32

A number of binary32 is determined by its value, which is what it unpacks to, and
every operation is one on values whose result is packed.  So the few laws that the
operations on values have are laws of binary32 itself.

1.  A sign is carried through products and differences exactly.
2.  What is no number is one number only, and it absorbs every other operand.
3.  The sum and the product are commutative, and one is neutral for the product.
4.  Zero times a finite number is a zero, and adding a zero changes no number that
    is not a zero itself.
-/

namespace Spatial.Binary32

open Float.Model (Format UnpackedFloat totalExponent)
open Float.Model.UnpackedFloat (Sign)
open Binary (Canonical)

/-- What a number unpacks to. -/
def value (x : Float32) : UnpackedFloat := x.toModel.unpack

/-- The number that a value packs to. -/
def ofValue (u : UnpackedFloat) : Float32 := .ofModel (.pack u)

/-- The value of a number is what its bits stand for. -/
theorem unpacks_value (x : Float32) :
    Binary.Unpacks .binary32 x.toModel.toBits.toBitVec (value x) :=
  Binary.unpacks_unpack (S := .binary32) x.toModel.toBits.toBitVec

/-- Packing undoes unpacking. -/
theorem ofValue_value (x : Float32) : ofValue (value x) = x := by
  have hpack := (unpacks_value x).pack_eq (by decide) x.toModel.valid
  have hbits : UInt32.ofBitVec x.toModel.toBits.toBitVec = x.toModel.toBits := rfl
  simp only [ofValue, Float32.Model.pack, hpack, hbits]

/-- Numbers with one value are the same, bit for bit. -/
theorem value_injective : Function.Injective value :=
  Function.LeftInverse.injective ofValue_value

/-- What a number unpacks to is in canonical form. -/
theorem canonical_value (x : Float32) : Canonical .binary32 (value x) :=
  (unpacks_value x).canonical

/-- The digits and the exponent of a number of binary32. -/
theorem bounds_of_value {x : Float32} {s : Sign} {m : ℕ} {e : ℤ} {hm : 0 < m}
    (h : value x = .finite s m e hm) :
    m < 2 ^ 24 ∧ -149 ≤ e ∧ e ≤ 104 ∧
      Format.binary32.targetExponent (totalExponent m e) = e := by
  have hunpacks := unpacks_value x
  rw [h] at hunpacks
  have hcanonical : Format.binary32.targetExponent (totalExponent m e) = e := hunpacks.canonical
  have hmax := hunpacks.exponent_lt (by decide)
  have hmax' : e + 127 + 23 + 1 < 256 := hmax
  have hform : max ((m.log2 : ℤ) + 1 + e - 24) (-149) = e := hcanonical
  refine ⟨(Nat.log2_lt hm.ne').mp (by omega), by omega, by omega, hcanonical⟩

/-! The operations, by their values. -/

/-- A sum is the packed sum of the values, and likewise with the other operations. -/
theorem add_eq (x y : Float32) : x + y = ofValue (.add .binary32 (value x) (value y)) := rfl

theorem sub_eq (x y : Float32) : x - y = ofValue (.sub .binary32 (value x) (value y)) := rfl

theorem mul_eq (x y : Float32) : x * y = ofValue (.mul .binary32 (value x) (value y)) := rfl

theorem div_eq (x y : Float32) : x / y = ofValue (.div .binary32 (value x) (value y)) := rfl

theorem neg_eq (x : Float32) : -x = ofValue (value x).neg := rfl

theorem beq_eq (x y : Float32) : (x == y) = (value x).beq (value y) := rfl

theorem lt_iff (x y : Float32) : x < y ↔ (value x).lt (value y) = true :=
  decide_eq_true_iff

/-- Whether a number is undefined is read off its value, and so is whether it is finite. -/
theorem isNaN_eq (x : Float32) : x.isNaN = (value x).isNaN := rfl

theorem isFinite_eq (x : Float32) : x.isFinite = (value x).isFinite := rfl

/-- A finite number is a zero or has a significand. -/
theorem finite_cases {x : Float32} (h : x.isFinite = true) :
    (∃ s, value x = .zero s) ∨ ∃ s m e hm, value x = .finite s m e hm := by
  rw [isFinite_eq] at h
  cases hx : value x with
  | zero s => exact .inl ⟨s, rfl⟩
  | finite s m e hm => exact .inr ⟨s, m, e, hm, rfl⟩
  | infinity | notANumber => rw [hx] at h; cases h

/-- A number that is not finite is an infinity or undefined. -/
theorem not_finite_cases {x : Float32} (h : x.isFinite = false) :
    (∃ s, value x = .infinity s) ∨ value x = .notANumber := by
  rw [isFinite_eq] at h
  cases hx : value x with
  | infinity s => exact .inl ⟨s, rfl⟩
  | notANumber => exact .inr rfl
  | zero | finite => rw [hx] at h; cases h

/-! Signs. -/

/-- Negating before packing negates what is unpacked. -/
theorem value_ofValue_neg (u : UnpackedFloat) :
    value (ofValue u.neg) = (value (ofValue u)).neg :=
  Binary.unpack_pack_neg u

/-- The value of a negation is the negation of the value. -/
theorem value_neg (x : Float32) : value (-x) = (value x).neg := by
  rw [neg_eq, value_ofValue_neg, ofValue_value]

/-- A packed value is negated by its sign. -/
theorem neg_ofValue (u : UnpackedFloat) : -ofValue u = ofValue u.neg := by
  apply value_injective
  rw [value_neg, value_ofValue_neg]

/-- A difference is the sum with the negation, bit for bit. -/
theorem sub_eq_add_neg (x y : Float32) : x - y = x + -y := by
  rw [sub_eq, add_eq, value_neg, Binary.sub_eq_add_neg]

/-- A product with a negated factor is the negated product, bit for bit. -/
theorem mul_neg (x y : Float32) : x * -y = -(x * y) := by
  rw [mul_eq, mul_eq, value_neg, Binary.mul_neg, neg_ofValue]

/-- Two negations give the number back, bit for bit. -/
theorem neg_neg (x : Float32) : - -x = x := by
  apply value_injective
  rw [value_neg, value_neg, Binary.unpacked_neg_neg]

/-- Twice the negation is the negation of twice the number, bit for bit. -/
theorem neg_add_neg_self (x : Float32) : -x + -x = -(x + x) := by
  rw [add_eq, add_eq, value_neg, Binary.neg_add_neg_self, neg_ofValue]

/-! What is no number. -/

/-- The numbers that are undefined have one value. -/
theorem isNaN_iff (x : Float32) : x.isNaN = true ↔ value x = .notANumber := by
  rw [isNaN_eq]
  cases value x <;> simp [UnpackedFloat.isNaN]

/-- Packing makes no number into none. -/
theorem isNaN_ofValue (u : UnpackedFloat) : (ofValue u).isNaN = u.isNaN :=
  Binary.isNaN_unpack_pack u

/-- The undefined value is packed as an undefined number. -/
theorem isNaN_ofValue_notANumber : (ofValue .notANumber).isNaN = true :=
  isNaN_ofValue .notANumber

theorem isNaN_undefined : (Scalar.undefined : Float32).isNaN = true := by
  decide +kernel

/-- There is one value of no number, whichever operation gave it. -/
theorem eq_of_isNaN {x y : Float32} (hx : x.isNaN = true) (hy : y.isNaN = true) : x = y :=
  value_injective (((isNaN_iff x).mp hx).trans ((isNaN_iff y).mp hy).symm)

/-- An operation on values that gives no number for a second operand that is none
gives no number in binary32 either. -/
theorem isNaN_of_absorbs (op : UnpackedFloat → UnpackedFloat → UnpackedFloat)
    (habsorbs : ∀ u, op u .notANumber = .notANumber) (x : Float32) {y : Float32}
    (h : y.isNaN = true) : (ofValue (op (value x) (value y))).isNaN = true := by
  rw [(isNaN_iff y).mp h, habsorbs]
  exact isNaN_ofValue_notANumber

/-- A sum with an undefined right side is undefined. -/
theorem isNaN_add_right (x : Float32) {y : Float32} (h : y.isNaN = true) :
    (x + y).isNaN = true :=
  isNaN_of_absorbs (.add .binary32) (by rintro (_ | _) <;> rfl) x h

/-- A product with an undefined right side is undefined. -/
theorem isNaN_mul_right (x : Float32) {y : Float32} (h : y.isNaN = true) :
    (x * y).isNaN = true :=
  isNaN_of_absorbs (.mul .binary32) (by rintro (_ | _) <;> rfl) x h

/-- A quotient by an undefined number is undefined. -/
theorem isNaN_div_right (x : Float32) {y : Float32} (h : y.isNaN = true) :
    (x / y).isNaN = true :=
  isNaN_of_absorbs (.div .binary32) (by rintro (_ | _) <;> rfl) x h

/-- What is no number equals nothing. -/
theorem beq_eq_false_of_isNaN {x : Float32} (h : x.isNaN = true) (y : Float32) :
    (x == y) = false := by
  rw [beq_eq, (isNaN_iff x).mp h]
  rfl

/-! One and zero. -/

/-- One is the least number of 24 digits, with its last digit at `2⁻²³`. -/
theorem value_one : value 1 = .finite .positive (2 ^ 23) (-23) (by decide) := by
  rfl

theorem value_zero : value 0 = .zero .positive := by
  rfl

theorem isFinite_one : (1 : Float32).isFinite = true := by
  rfl

theorem isFinite_zero : (0 : Float32).isFinite = true := by
  rfl

/-- One times a number is the number, bit for bit. -/
theorem one_mul (x : Float32) : 1 * x = x := by
  have hsign (s : UnpackedFloat.Sign) : .positive * s = s := by
    cases s <;> rfl
  have hone : UnpackedFloat.mul .binary32 (value 1) (value x) = value x := by
    have hcanonical := canonical_value x
    rw [value_one]
    cases hx : value x with
    | infinity s | zero s => simp only [UnpackedFloat.mul, hsign]
    | notANumber => rfl
    | finite s m e hm =>
        rw [hx] at hcanonical
        -- One is `2²³ · 2⁻²³`: the product is `m` with 23 zeros at its end.
        have hexponent : -23 + e = e - (23 : ℕ) := by
          push_cast
          ring
        rw [UnpackedFloat.mul, hsign, mul_comm, hexponent]
        exact Binary.roundWithAccuracy_scaled hm hcanonical s 23
  rw [mul_eq, hone, ofValue_value]

/-- A sum does not depend on the order of its terms, bit for bit. -/
protected theorem add_comm (x y : Float32) : x + y = y + x := by
  rw [add_eq, add_eq, Binary.add_comm]

/-- A product does not depend on the order of its factors, bit for bit. -/
theorem mul_comm (x y : Float32) : x * y = y * x := by
  rw [mul_eq, mul_eq, Binary.mul_comm]

/-- A number times one is the number, bit for bit. -/
theorem mul_one (x : Float32) : x * 1 = x := by
  rw [mul_comm, one_mul]

/-- The signs of two negated factors cancel, bit for bit. -/
theorem neg_mul_neg (x y : Float32) : -x * -y = x * y := by
  rw [mul_neg, mul_comm, mul_neg, neg_neg, mul_comm]

end Spatial.Binary32
