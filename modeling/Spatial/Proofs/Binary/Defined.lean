import Mathlib
import Spatial.Proofs.Binary.Monotone
import Spatial.Proofs.Binary.Signed
import Spatial.Proofs.Binary.Undefined

/-!
# Defined results

When an operation of binary32 gives a number, and when a finite one.

1.  Rounding and packing make no number into none.  So a product or a quotient with a finite
    number that is not a zero is none only if the other operand is.
2.  An exact sum of finite numbers is a multiple of the least one.  So it is rounded to a zero
    only if it is zero, and the difference of two numbers only if they are equal.
3.  What the circular functions give is left to the platform.  Binary32 is taken with any such
    functions, and what is needed of them is assumed where it is.
-/

namespace Spatial.Binary

open Float.Model (Format totalExponent UnpackedFloat)
open Float.Model.UnpackedFloat

variable {S : Format} {u v : UnpackedFloat}

/-- What is rounded is a number. -/
theorem isNaN_roundWithAccuracy (S : Format) (s : Sign) (m : ℕ) (e : ℤ) (a : Accuracy) :
    (roundWithAccuracy S s m e a).isNaN = false := by
  simp only [roundWithAccuracy]
  split_ifs <;> rfl

/-! ## Exact sums -/

/-- What an exact sum of numbers of the format is rounded to. -/
inductive SumRoundsTo (S : Format) : ℚ → UnpackedFloat → Prop
  | zero (s : Sign) : SumRoundsTo S 0 (.zero s)
  | nonzero {s : Sign} {r : ℚ} {u : UnpackedFloat} (hr : 0 < r) (hu : RoundsTo S s r u) :
      SumRoundsTo S (s.apply 1 * r) u

/-- The rational number of a finite value is its sign times its magnitude. -/
theorem rational_finite (s : Sign) (m : ℕ) (e : ℤ) (hm : 0 < m) :
    rational (.finite s m e hm) = s.apply 1 * (m * 2 ^ e) := by
  cases s <;> simp [rational, Sign.apply]

/-- Finite numbers are in the order of the rational numbers that they are. -/
theorem rational_le_of_rank_le (hfinite : u.isFinite = true) (hfinite' : v.isFinite = true)
    (hu : Canonical S u) (hv : Canonical S v) (hle : rank u ≤ rank v) :
    rational u ≤ rational v := by
  have hfirst {a b : ℤ} {c d : ℤ ×ₗ ℤ} (h : b < a) : ¬toLex (a, c) ≤ toLex (b, d) :=
    not_le.mpr (Prod.Lex.toLex_lt_toLex.mpr (.inl h))
  cases u with
  | notANumber | infinity => cases hfinite
  | zero s =>
      cases v with
      | notANumber | infinity => cases hfinite'
      | zero t => exact le_rfl
      | finite t n f hn =>
          cases t with
          | positive =>
              rw [rational_finite, Sign.apply, Int.cast_one, one_mul]
              exact (by positivity : (0 : ℚ) ≤ n * 2 ^ f)
          | negative => exact absurd hle (hfirst (by norm_num))
  | finite s m e hm =>
      have hm_pos : (0 : ℚ) < m * 2 ^ e := by positivity
      rw [rational_finite]
      cases v with
      | notANumber | infinity => cases hfinite'
      | zero t =>
          cases s with
          | positive => exact absurd hle (hfirst (by norm_num))
          | negative =>
              rw [Sign.apply, Int.cast_neg, Int.cast_one, neg_one_mul]
              exact neg_nonpos.mpr hm_pos.le
      | finite t n f hn =>
          have hn_pos : (0 : ℚ) < n * 2 ^ f := by positivity
          rw [rational_finite]
          cases s with
          | positive =>
              cases t with
              | positive =>
                  rw [Sign.apply, Int.cast_one, one_mul, one_mul]
                  exact (rank_le_iff hu hv).mp hle
              | negative => exact absurd hle (hfirst (by norm_num))
          | negative =>
              cases t with
              | positive =>
                  rw [Sign.apply, Sign.apply, Int.cast_neg, Int.cast_one]
                  linarith
              | negative =>
                  have hmagnitudes := (rank_le_iff hv hu).mp (rank_negative_le_iff.mp hle)
                  rw [Sign.apply, Int.cast_neg, Int.cast_one, neg_one_mul, neg_one_mul]
                  exact neg_le_neg hmagnitudes

/-- A number of the format is rounded to itself. -/
theorem SumRoundsTo.self (hfinite : u.isFinite = true) (hu : Canonical S u) :
    SumRoundsTo S (rational u) u := by
  cases u with
  | notANumber | infinity => cases hfinite
  | zero s => exact .zero s
  | finite s m e hm =>
      rw [rational_finite]
      exact .nonzero (by positivity) (.self s hm hu)

/-- A signed number is rounded as a sum is, if its last digit is within the format. -/
theorem round_sumRoundsTo (s : Sign) {n : ℕ} {k : ℤ} (hn : 0 < n) (hk : S.minExponent ≤ k) :
    SumRoundsTo S (s.apply 1 * (n * 2 ^ k)) (.round S s n k) := by
  refine .nonzero (by positivity) (round_roundsTo S s hn k ?_)
  have hone : (1 : ℚ) ≤ n := by exact_mod_cast hn
  calc (2 : ℚ) ^ (S.minExponent - 1) < 2 ^ k := zpow_lt_zpow_right₀ one_lt_two (by omega)
    _ ≤ n * 2 ^ k := le_mul_of_one_le_left (by positivity) hone

/-- A sum over one last digit is rounded once, with its sign. -/
theorem normalize_sumRoundsTo (D : ℤ) {k : ℤ} (t : Sign) (hk : S.minExponent ≤ k) :
    SumRoundsTo S (D * 2 ^ k) (.normalize S D k t) := by
  rcases lt_trichotomy D 0 with hneg | rfl | hpos
  · obtain ⟨n, rfl⟩ : ∃ n : ℕ, D = -n := ⟨D.natAbs, by omega⟩
    have hround := round_sumRoundsTo (S := S) .negative (n := n) (by omega) hk
    have hvalue : ((-n : ℤ) : ℚ) * 2 ^ k = Sign.negative.apply 1 * (n * 2 ^ k) := by
      simp [Sign.apply]
    rw [hvalue]
    simpa only [UnpackedFloat.normalize, compare_lt_iff_lt.mpr hneg, neg_neg, Int.toNat_natCast]
      using hround
  · rw [Int.cast_zero, zero_mul]
    exact .zero t
  · obtain ⟨n, rfl⟩ : ∃ n : ℕ, D = n := ⟨D.toNat, by omega⟩
    have hround := round_sumRoundsTo (S := S) .positive (n := n) (by omega) hk
    have hvalue : ((n : ℤ) : ℚ) * 2 ^ k = Sign.positive.apply 1 * (n * 2 ^ k) := by
      simp [Sign.apply]
    rw [hvalue]
    simpa only [UnpackedFloat.normalize, compare_gt_iff_gt.mpr hpos, Int.toNat_natCast]
      using hround

/-- Writing a number with a smaller exponent keeps its signed value. -/
theorem apply_decreaseExponent (s : Sign) (m : ℕ) {e k : ℤ} (h : k ≤ e) :
    ((s.apply (decreaseExponent m e k).1 : ℤ) : ℚ) * 2 ^ k = s.apply 1 * (m * 2 ^ e) := by
  rw [← decreaseExponent_value m h]
  cases s <;> simp [Sign.apply]

/-- **Sums.**  The sum of two finite numbers of the format is the exact sum, rounded once. -/
theorem add_sumRoundsTo (hfinite : u.isFinite = true) (hfinite' : v.isFinite = true)
    (hu : Canonical S u) (hv : Canonical S v) :
    SumRoundsTo S (rational u + rational v) (.add S u v) := by
  cases u with
  | notANumber | infinity => cases hfinite
  | zero s =>
      have hvalue : rational (.zero s) + rational v = rational v := zero_add _
      rw [hvalue]
      cases v with
      | notANumber | infinity => cases hfinite'
      | zero t => cases s <;> cases t <;> exact .zero _
      | finite t n f hn => exact .self hfinite' hv
  | finite s m e hm =>
      cases v with
      | notANumber | infinity => cases hfinite'
      | zero t =>
          have hvalue : rational (.finite s m e hm) + rational (.zero t) =
              rational (.finite s m e hm) := add_zero _
          rw [hvalue]
          exact .self hfinite hu
      | finite t n f hn =>
          have he : S.minExponent ≤ e := hu ▸ le_max_right _ _
          have hf : S.minExponent ≤ f := hv ▸ le_max_right _ _
          rw [rational_finite, rational_finite, ← apply_decreaseExponent s m (min_le_left e f),
            ← apply_decreaseExponent t n (min_le_right e f), ← add_mul, ← Int.cast_add]
          exact normalize_sumRoundsTo _ .positive (le_min he hf)

end Spatial.Binary

namespace Spatial.Binary32

open Float.Model (Format UnpackedFloat)
open Float.Model.UnpackedFloat (Sign)
open Binary (SumRoundsTo isNaN_roundWithAccuracy lastExponent rational_finite)

variable {x y z : Float32} {r : ℚ}

/-- A finite number is a number. -/
theorem isNaN_of_isFinite (h : x.isFinite = true) : x.isNaN = false := by
  rw [isFinite_eq] at h
  rw [isNaN_eq]
  cases hx : value x with
  | notANumber => rw [hx] at h; cases h
  | infinity | zero | finite => rfl

/-- An infinite number is an infinity of either sign. -/
theorem exists_infinity (h : x.isInf = true) : ∃ s, value x = .infinity s := by
  have hinfinite : (value x).isInf = true := h
  cases hx : value x with
  | infinity s => exact ⟨s, rfl⟩
  | notANumber | zero | finite => rw [hx] at hinfinite; cases hinfinite

/-- The zeros are what is equal to zero. -/
theorem isZero_iff : IsZero x ↔ (x == 0) = true := by
  constructor
  · rintro ⟨s, h⟩
    rw [beq_eq, h]
    rfl
  · intro h
    exact Agree.isZero (.inl h) isZero_zero

/-! ## Products and quotients -/

/-- A finite number that is not a zero. -/
structure IsDivisor (x : Float32) : Prop where
  isFinite : x.isFinite = true
  ne_zero : (x == 0) = false

/-- A divisor is not zero. -/
theorem IsDivisor.not_isZero (h : IsDivisor x) : ¬IsZero x := by
  rw [isZero_iff, h.ne_zero]
  nofun

/-- A divisor is finite and has a sign and a magnitude. -/
theorem IsDivisor.exists_value (h : IsDivisor x) : ∃ s m e hm, value x = .finite s m e hm := by
  rcases finite_cases h.isFinite with hzero | hfinite
  · exact absurd hzero h.not_isZero
  · exact hfinite

/-- An operation on a number gives one, if it does on each kind of number. -/
theorem isNaN_apply (f : UnpackedFloat → UnpackedFloat) (hx : x.isNaN = false)
    (hinfinity : ∀ s, (f (.infinity s)).isNaN = false) (hzero : ∀ s, (f (.zero s)).isNaN = false)
    (hfinite : ∀ s m e hm, (f (.finite s m e hm)).isNaN = false) :
    (ofValue (f (value x))).isNaN = false := by
  rw [isNaN_eq] at hx
  rw [isNaN_ofValue]
  cases hvx : value x with
  | notANumber => rw [hvx] at hx; cases hx
  | infinity s => exact hinfinity s
  | zero s => exact hzero s
  | finite s m e hm => exact hfinite s m e hm

/-- A product with a divisor is a number where the other factor is. -/
theorem isNaN_mul (hx : x.isNaN = false) (hy : IsDivisor y) : (x * y).isNaN = false := by
  obtain ⟨s, m, e, hm, hvy⟩ := hy.exists_value
  rw [mul_eq, hvy]
  exact isNaN_apply (.mul .binary32 · _) hx (fun _ => rfl) (fun _ => rfl)
    fun _ _ _ _ => isNaN_roundWithAccuracy ..

/-- A quotient by a divisor is a number where the dividend is. -/
theorem isNaN_div (hx : x.isNaN = false) (hy : IsDivisor y) : (x / y).isNaN = false := by
  obtain ⟨s, m, e, hm, hvy⟩ := hy.exists_value
  rw [div_eq, hvy]
  exact isNaN_apply (.div .binary32 · _) hx (fun _ => rfl) (fun _ => rfl)
    fun _ _ _ _ => isNaN_roundWithAccuracy ..

/-- A finite number that is not a zero may be divided by every number. -/
theorem IsDivisor.isNaN_div (hx : IsDivisor x) (hy : y.isNaN = false) :
    (x / y).isNaN = false := by
  obtain ⟨s, m, e, hm, hvx⟩ := hx.exists_value
  rw [div_eq, hvx]
  exact isNaN_apply _ hy (fun _ => rfl) (fun _ => rfl) fun _ _ _ _ => isNaN_roundWithAccuracy ..

/-! ## Sums -/

/-- The number is an exact sum, rounded once. -/
def IsRoundedSum (r : ℚ) (x : Float32) : Prop :=
  ∃ u, SumRoundsTo .binary32 r u ∧ value x = saturate u

/-- What a sum is rounded to is packed up to the greatest exponent. -/
theorem value_ofValue_sum {u : UnpackedFloat} (h : SumRoundsTo .binary32 r u) :
    value (ofValue u) = saturate u := by
  cases h with
  | zero s => exact value_ofValue_zero s
  | nonzero _ hu => exact value_ofValue_roundsTo hu

/-- The sum of finite numbers is their exact sum, rounded. -/
theorem isRoundedSum_add (hx : x.isFinite = true) (hy : y.isFinite = true) :
    IsRoundedSum (exact x + exact y) (x + y) := by
  have hsum := Binary.add_sumRoundsTo hx hy (canonical_value x) (canonical_value y)
  exact ⟨_, hsum, value_ofValue_sum hsum⟩

/-- The difference of finite numbers is their exact difference, rounded. -/
theorem isRoundedSum_sub (hx : x.isFinite = true) (hy : y.isFinite = true) :
    IsRoundedSum (exact x - exact y) (x - y) := by
  have hexact : exact x - exact y = exact x + exact (-y) := by
    rw [exact_neg]
    ring
  rw [hexact, sub_eq_add_neg]
  exact isRoundedSum_add hx ((isFinite_neg y).trans hy)

/-- A rounded sum is a number. -/
theorem IsRoundedSum.isNaN (h : IsRoundedSum r x) : x.isNaN = false := by
  obtain ⟨u, hu, hx⟩ := h
  rw [isNaN_eq, hx]
  cases hu with
  | zero s => rfl
  | nonzero _ hu =>
      cases hu
      rw [saturate]
      split_ifs <;> rfl

/-- A sum is a zero only if the exact sum is. -/
theorem IsRoundedSum.eq_zero (h : IsRoundedSum r x) (hx : IsZero x) : r = 0 := by
  obtain ⟨u, hu, hvx⟩ := h
  obtain ⟨z, hz⟩ := hx
  cases hu with
  | zero s => rfl
  | nonzero _ hu =>
      cases hu
      rw [hvx, saturate] at hz
      split_ifs at hz

/-- A sum far below the end of the format is finite. -/
theorem IsRoundedSum.isFinite (h : IsRoundedSum r x) (hr : |r| ≤ 2 ^ (100 : ℤ)) :
    x.isFinite = true := by
  obtain ⟨u, hu, hx⟩ := h
  rw [isFinite_eq, hx]
  cases hu with
  | zero s => rfl
  | @nonzero s q _ hq hu =>
      have habs : |(s.apply 1 : ℚ) * q| = q := by
        cases s <;> simp [Sign.apply, abs_of_pos hq]
      rw [habs] at hr
      have hlast : lastExponent .binary32 q ≤ 77 := by
        have hlog := Int.log_mono_right (b := 2) hq hr
        rw [← Nat.cast_two (R := ℚ), Int.log_zpow one_lt_two] at hlog
        show max (Int.log 2 q + 1 - 24) (-149) ≤ 77
        omega
      have hdigit : (2 : ℚ) ^ lastExponent .binary32 q ≤ 2 ^ (77 : ℤ) :=
        zpow_le_zpow_right₀ one_le_two hlast
      cases u with
      | notANumber | infinity | zero => cases hu
      | finite z m e hm =>
          obtain rfl : z = s := by cases hu; rfl
          have hclose := (abs_le.mp hu.abs_sub_le).2
          have hone : (1 : ℚ) ≤ m := by exact_mod_cast hm
          have hless : (2 : ℚ) ^ e < 2 ^ (105 : ℤ) := by
            calc (2 : ℚ) ^ e ≤ m * 2 ^ e := le_mul_of_one_le_left (by positivity) hone
              _ ≤ 2 ^ (100 : ℤ) + 2 ^ (77 : ℤ) / 2 := by linarith
              _ < 2 ^ (105 : ℤ) := by norm_num
          have he : e < 105 := (zpow_lt_zpow_iff_right₀ one_lt_two).mp hless
          rw [saturate, if_pos (by omega)]
          rfl

/-! Differences. -/

/-- The exact value of a finite number is its sign times its magnitude. -/
theorem exact_of_value {s : Sign} {m : ℕ} {e : ℤ} {hm : 0 < m} (h : value x = .finite s m e hm) :
    exact x = s.apply 1 * (m * 2 ^ e) := by
  rw [exact, h, rational_finite]

/-- The exact value of a divisor is not zero. -/
theorem IsDivisor.exact_ne_zero (h : IsDivisor x) : exact x ≠ 0 := by
  obtain ⟨s, m, e, hm, hx⟩ := h.exists_value
  rw [exact_of_value hx]
  refine mul_ne_zero ?_ (by positivity)
  cases s <;> norm_num [Sign.apply]

/-- A finite number is a zero exactly if its exact value is. -/
theorem isZero_iff_exact (h : x.isFinite = true) : IsZero x ↔ exact x = 0 := by
  constructor
  · rintro ⟨s, hx⟩
    rw [exact, hx]
    rfl
  · intro hexact
    by_contra hzero
    rw [isZero_iff, Bool.not_eq_true] at hzero
    exact IsDivisor.exact_ne_zero ⟨h, hzero⟩ hexact

/-- Numbers that are one rational number are one, if it is not zero. -/
theorem IsDivisor.eq_of_exact_eq (hx : IsDivisor x) (hy : IsDivisor y) (h : exact x = exact y) :
    x = y := by
  obtain ⟨s, m, e, hm, hvx⟩ := hx.exists_value
  obtain ⟨t, n, f, hn, hvy⟩ := hy.exists_value
  obtain ⟨-, -, -, he⟩ := bounds_of_value hvx
  obtain ⟨-, -, -, hf⟩ := bounds_of_value hvy
  have hx_pos : (0 : ℚ) < m * 2 ^ e := by positivity
  have hy_pos : (0 : ℚ) < n * 2 ^ f := by positivity
  rw [exact_of_value hvx, exact_of_value hvy] at h
  have hsame : s = t ∧ (m : ℚ) * 2 ^ e = n * 2 ^ f := by
    cases s <;> cases t <;> simp only [Sign.apply] at h <;> push_cast at h <;>
      first | exact ⟨rfl, by linarith⟩ | linarith
  obtain ⟨rfl, hmagnitude⟩ := hsame
  obtain ⟨rfl, rfl⟩ := Binary.canonical_unique hm hn he hf hmagnitude
  exact value_injective (by rw [hvx, hvy])

/-- Finite numbers that are one rational number are equal. -/
theorem beq_of_exact_eq (hx : x.isFinite = true) (hy : y.isFinite = true)
    (h : exact x = exact y) : (x == y) = true := by
  have hzeros : (x == 0) = true ↔ (y == 0) = true := by
    rw [← isZero_iff, ← isZero_iff, isZero_iff_exact hx, isZero_iff_exact hy, h]
  cases hx_zero : x == 0 with
  | true =>
      have hy_zero := hzeros.mp hx_zero
      exact ((isZero_iff.mpr hx_zero).agree (isZero_iff.mpr hy_zero)).beq hy
  | false =>
      have hy_zero : (y == 0) = false := by
        rw [← Bool.not_eq_true, ← hzeros, hx_zero]
        nofun
      have hequal : x = y := IsDivisor.eq_of_exact_eq ⟨hx, hx_zero⟩ ⟨hy, hy_zero⟩ h
      rw [hequal]
      exact (Agree.refl y).beq hy

/-- **Gradual underflow.**  A difference of finite numbers is a zero only if they are equal. -/
theorem not_isZero_sub (hx : x.isFinite = true) (hy : y.isFinite = true)
    (h : (x == y) = false) : ¬IsZero (x - y) := by
  intro hzero
  have hexact := sub_eq_zero.mp ((isRoundedSum_sub hx hy).eq_zero hzero)
  rw [beq_of_exact_eq hx hy hexact] at h
  cases h

/-- The order of finite numbers is that of their exact values. -/
theorem exact_le_of_le (hx : x.isFinite = true) (hy : y.isFinite = true) (h : x ≤ y) :
    exact x ≤ exact y :=
  Binary.rational_le_of_rank_le hx hy (canonical_value x) (canonical_value y)
    (le_iff_rank.mp h).2.2

/-! Numbers between others. -/

/-- Between finite numbers there are finite numbers only. -/
theorem isFinite_of_between (hx : x.isFinite = true) (hy : y.isFinite = true) (hxz : x ≤ z)
    (hzy : z ≤ y) : z.isFinite = true := by
  obtain ⟨-, hnumber, hrank⟩ := le_iff_rank.mp hxz
  refine isFinite_of_not hnumber (Bool.eq_false_iff.mpr fun hinf => ?_)
  obtain ⟨s, hz⟩ := exists_infinity hinf
  cases s with
  | positive => exact IsUnbounded.not_le_of_isFinite (.inl hz) hy hzy
  | negative =>
      rw [hz] at hrank
      refine absurd hrank (not_le.mpr ?_)
      rcases finite_cases hx with ⟨s, hvx⟩ | ⟨s, m, e, hm, hvx⟩ <;> rw [hvx]
      · exact Prod.Lex.toLex_lt_toLex.mpr (.inl (by norm_num))
      · cases s <;> exact Prod.Lex.toLex_lt_toLex.mpr (.inl (by norm_num))

/-- A positive number below another is finite. -/
theorem isFinite_of_lt (hx : 0 < x) (hxy : x < y) : x.isFinite = true := by
  rcases magnitude_or_infinity (le_of_lt hx) with ⟨a, ha⟩ | hinfinite
  · exact ha.isFinite
  · obtain ⟨-, hy, -⟩ := lt_iff_rank.mp hxy
    exact absurd hxy (not_lt_iff.mpr (.inl (le_of_infinity hy hinfinite)))

/-- A positive finite number is a divisor. -/
theorem isDivisor_of_pos (hx : 0 < x) (hfinite : x.isFinite = true) : IsDivisor x :=
  ⟨hfinite, (beq_comm x 0).trans (beq_eq_false_of_lt hx)⟩

end Spatial.Binary32

namespace Spatial

/-! ## Circular functions -/

/-- The circular functions of a platform. -/
structure Circular where
  /-- The sine of an angle in radians. -/
  sin : Float32 → Float32
  /-- The cosine of an angle in radians. -/
  cos : Float32 → Float32
  /-- The tangent of an angle in radians. -/
  tan : Float32 → Float32
  /-- The angle between zero and `pi` that has a given cosine. -/
  acos : Float32 → Float32

namespace Circular

/-- Binary32 with the circular functions of a platform. -/
@[reducible]
def scalar (c : Circular) : Scalar Float32 where
  __ := (inferInstance : Scalar Float32)
  sin := c.sin
  cos := c.cos
  tan := c.tan
  acos := c.acos

/-- The functions that binary32 is computed with. -/
def native : Circular := ⟨Float32.sin, Float32.cos, Float32.tan, Float32.acos⟩

/-- The operations that run are those of binary32. -/
theorem scalar_native : native.scalar = inferInstanceAs (Scalar Float32) := rfl

end Circular

end Spatial
