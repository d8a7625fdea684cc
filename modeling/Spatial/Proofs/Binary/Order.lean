import Mathlib
import Spatial.Proofs.Binary.Arithmetic

/-!
# The order of binary32

Values that are numbers are compared by their sign, then by their exponent, then by
their significand; the two zeros stand in one place.  So they stand in a line, and a
comparison of numbers is a comparison of their places.  What is no number has no place:
every comparison with it is false, and this is the only way for two numbers to be
neither at most nor above one another.
-/

namespace Spatial.Binary

open Float.Model (UnpackedFloat)
open Float.Model.UnpackedFloat (Sign)

/-- Where a value stands among the numbers. -/
def rank : UnpackedFloat → ℤ ×ₗ ℤ ×ₗ ℤ
  | .infinity .negative => toLex (-2, toLex (0, 0))
  | .finite .negative m e _ => toLex (-1, toLex (-e, -m))
  | .zero _ | .notANumber => toLex (0, toLex (0, 0))
  | .finite .positive m e _ => toLex (1, toLex (e, m))
  | .infinity .positive => toLex (2, toLex (0, 0))

theorem compare_toLex {β : Type} [Ord β] (a b : ℤ) (c d : β) :
    compare (toLex (a, c)) (toLex (b, d)) = (compare a b).then (compare c d) := rfl

/-- Natural numbers compare as integers do. -/
theorem compare_natCast (m n : ℕ) : compare (m : ℤ) n = compare m n := by
  rcases lt_trichotomy m n with h | rfl | h
  · rw [compare_lt_iff_lt.mpr h, compare_lt_iff_lt.mpr (Int.ofNat_lt.mpr h)]
  · rw [Std.ReflOrd.compare_self, Std.ReflOrd.compare_self]
  · rw [compare_gt_iff_gt.mpr h, compare_gt_iff_gt.mpr (Int.ofNat_lt.mpr h)]

/-- Negation turns a comparison round. -/
theorem compare_neg (m n : ℤ) : compare (-m) (-n) = (compare m n).swap := by
  rcases lt_trichotomy m n with h | rfl | h
  · rw [compare_lt_iff_lt.mpr h, compare_gt_iff_gt.mpr (neg_lt_neg h)]
    rfl
  · rw [Std.ReflOrd.compare_self, Std.ReflOrd.compare_self]
    rfl
  · rw [compare_gt_iff_gt.mpr h, compare_lt_iff_lt.mpr (neg_lt_neg h)]
    rfl

/-- Numbers compare as their places do. -/
theorem compare_eq {u v : UnpackedFloat} (hu : u ≠ .notANumber) (hv : v ≠ .notANumber) :
    u.compare v = some (compare (rank u) (rank v)) := by
  cases u with
  | notANumber => exact absurd rfl hu
  | infinity s =>
      cases v with
      | notANumber => exact absurd rfl hv
      | infinity t => cases s <;> cases t <;> rfl
      | zero t => cases s <;> rfl
      | finite t n f hn => cases s <;> cases t <;> rfl
  | zero s =>
      cases v with
      | notANumber => exact absurd rfl hv
      | infinity t => cases t <;> rfl
      | zero t => rfl
      | finite t n f hn => cases t <;> rfl
  | finite s m e hm =>
      cases v with
      | notANumber => exact absurd rfl hv
      | infinity t => cases s <;> cases t <;> rfl
      | zero t => cases s <;> rfl
      | finite t n f hn =>
          cases s <;> cases t
          · simp only [UnpackedFloat.compare, rank, compare_toLex, compare_neg, compare_natCast,
              Std.ReflOrd.compare_self, Ordering.eq_then, Ordering.swap_then]
          · rfl
          · rfl
          · simp only [UnpackedFloat.compare, rank, compare_toLex, compare_natCast,
              Std.ReflOrd.compare_self, Ordering.eq_then]

/-- Nothing compares with an undefined number. -/
theorem compare_notANumber (u : UnpackedFloat) : u.compare .notANumber = none := by
  cases u <;> rfl

end Spatial.Binary

namespace Spatial.Binary32

open Float.Model (UnpackedFloat)
open Binary (rank compare_eq compare_notANumber)

variable {x y z : Float32}

/-- The numbers with a rank are those that are not undefined. -/
theorem value_ne_iff (x : Float32) : value x ≠ .notANumber ↔ x.isNaN = false := by
  rw [ne_eq, ← isNaN_iff, Bool.not_eq_true]

/-- Two numbers compare as their places do, and what is no number with nothing. -/
theorem compare_eq_some_iff (o : Ordering) :
    (value x).compare (value y) = some o ↔
      x.isNaN = false ∧ y.isNaN = false ∧ compare (rank (value x)) (rank (value y)) = o := by
  cases hx : x.isNaN with
  | true =>
      rw [(isNaN_iff x).mp hx]
      exact ⟨nofun, nofun⟩
  | false =>
      cases hy : y.isNaN with
      | true =>
          rw [(isNaN_iff y).mp hy, compare_notANumber]
          exact ⟨nofun, nofun⟩
      | false =>
          rw [compare_eq ((value_ne_iff x).mpr hx) ((value_ne_iff y).mpr hy), Option.some_inj]
          exact ⟨fun h => ⟨rfl, rfl, h⟩, fun h => h.2.2⟩

/-- One number is below another exactly if both are numbers and their ranks are in that order. -/
theorem lt_iff_rank :
    x < y ↔ x.isNaN = false ∧ y.isNaN = false ∧ rank (value x) < rank (value y) := by
  rw [lt_iff, UnpackedFloat.lt, beq_iff_eq, compare_eq_some_iff, compare_lt_iff_lt]

/-- Two numbers are equal exactly if both are numbers and of one rank. -/
theorem beq_iff_rank :
    (x == y) = true ↔ x.isNaN = false ∧ y.isNaN = false ∧ rank (value x) = rank (value y) := by
  rw [beq_eq, UnpackedFloat.beq, beq_iff_eq, compare_eq_some_iff, compare_eq_iff_eq]

/-- One number is at most another exactly if both are numbers and their ranks are. -/
theorem le_iff_rank :
    x ≤ y ↔ x.isNaN = false ∧ y.isNaN = false ∧ rank (value x) ≤ rank (value y) := by
  have hle : x ≤ y ↔ (value x).le (value y) = true := decide_eq_true_iff
  simp only [hle, UnpackedFloat.le, Option.any_eq_true, compare_eq_some_iff, ← compare_le_iff_le]
  constructor
  · rintro ⟨o, ⟨hx, hy, rfl⟩, ho⟩
    exact ⟨hx, hy, Ordering.isLE_iff_ne_gt.mp ho⟩
  · rintro ⟨hx, hy, ho⟩
    exact ⟨_, ⟨hx, hy, rfl⟩, Ordering.isLE_iff_ne_gt.mpr ho⟩

/-- The order goes through a third number. -/
theorem le_trans (hxy : x ≤ y) (hyz : y ≤ z) : x ≤ z := by
  obtain ⟨hx, -, hxy⟩ := le_iff_rank.mp hxy
  obtain ⟨-, hz, hyz⟩ := le_iff_rank.mp hyz
  exact le_iff_rank.mpr ⟨hx, hz, hxy.trans hyz⟩

/-- What is below a number is at most that number. -/
theorem le_of_lt (hxy : x < y) : x ≤ y := by
  obtain ⟨hx, hy, hless⟩ := lt_iff_rank.mp hxy
  exact le_iff_rank.mpr ⟨hx, hy, hless.le⟩

theorem lt_trans (hxy : x < y) (hyz : y < z) : x < z := by
  obtain ⟨hx, -, hxy⟩ := lt_iff_rank.mp hxy
  obtain ⟨-, hz, hyz⟩ := lt_iff_rank.mp hyz
  exact lt_iff_rank.mpr ⟨hx, hz, hxy.trans hyz⟩

protected theorem lt_of_le_of_lt (hxy : x ≤ y) (hyz : y < z) : x < z := by
  obtain ⟨hx, -, hxy⟩ := le_iff_rank.mp hxy
  obtain ⟨-, hz, hyz⟩ := lt_iff_rank.mp hyz
  exact lt_iff_rank.mpr ⟨hx, hz, hxy.trans_lt hyz⟩

protected theorem lt_of_lt_of_le (hxy : x < y) (hyz : y ≤ z) : x < z := by
  obtain ⟨hx, -, hxy⟩ := lt_iff_rank.mp hxy
  obtain ⟨-, hz, hyz⟩ := le_iff_rank.mp hyz
  exact lt_iff_rank.mpr ⟨hx, hz, hxy.trans_le hyz⟩

/-- A number is at most itself, if it is not undefined. -/
theorem le_self (hx : x.isNaN = false) : x ≤ x := le_iff_rank.mpr ⟨hx, hx, le_rfl⟩

/-- No number is below itself. -/
theorem not_lt_self (x : Float32) : ¬x < x := fun h => (lt_iff_rank.mp h).2.2.ne rfl

/-- A number below another is not equal to it. -/
theorem beq_eq_false_of_lt (hxy : x < y) : (x == y) = false := by
  obtain ⟨-, -, hless⟩ := lt_iff_rank.mp hxy
  rw [← Bool.not_eq_true, beq_iff_rank]
  exact fun hequal => hless.ne hequal.2.2

/-- Of two numbers one at most is below the other. -/
theorem lt_asymm (hxy : x < y) : ¬y < x := by
  intro hyx
  exact (lt_iff_rank.mp hxy).2.2.asymm (lt_iff_rank.mp hyx).2.2

/-- Equality goes both ways. -/
theorem beq_comm (x y : Float32) : (x == y) = (y == x) := by
  rw [Bool.eq_iff_iff, beq_iff_rank, beq_iff_rank, and_left_comm, @eq_comm _ (rank (value x))]

/-- Two numbers of which the first is not above the second are in order. -/
theorem not_lt_iff : ¬y < x ↔ x ≤ y ∨ x.isNaN = true ∨ y.isNaN = true := by
  rw [lt_iff_rank, le_iff_rank, ← not_lt, ← Bool.not_eq_true, ← Bool.not_eq_true]
  tauto

/-- The order is total away from undefined numbers. -/
protected theorem le_of_not_lt (h : ¬y < x) (hx : x.isNaN = false) (hy : y.isNaN = false) :
    x ≤ y := by
  rcases not_lt_iff.mp h with hle | hnan | hnan
  · exact hle
  · exact absurd (hx.symm.trans hnan) nofun
  · exact absurd (hy.symm.trans hnan) nofun

/-- A number is not below one that is at most it. -/
protected theorem not_lt_of_le (h : x ≤ y) : ¬y < x := not_lt_iff.mpr (.inl h)

/-- Nothing is below an undefined number or above it. -/
theorem not_lt_of_isNaN (h : x.isNaN = true ∨ y.isNaN = true) : ¬y < x := not_lt_iff.mpr (.inr h)

end Spatial.Binary32
