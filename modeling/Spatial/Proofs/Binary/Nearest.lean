import Mathlib
import Spatial.Proofs.Binary.Rounding

/-!
# The nearest number of a format

What rounding does to a positive rational number.

1.  A significand with a round bit and a sticky bit says between which quarters of its
    last digit a number lies.  A shift to the right keeps that true of the halved number,
    and the rounded significand is the nearest integer, the even one of two.
2.  So a rounded result is the multiple of the last kept digit that is nearest to the
    exact one; a carry into a further digit changes only how it is written.
3.  A number that lies nearer to a number of the format than to its neighbours rounds to
    it, and a number of the format rounds to itself.
4.  The exponent of the last digit is read off the binary logarithm of the number, and
    products and quotients keep enough digits for one rounding.
-/

namespace Spatial.Binary

open Float.Model (Format totalExponent UnpackedFloat)
open Float.Model.UnpackedFloat

variable {S : Format} {r : ℚ}

/-! ## Integers -/

/-- The integer is nearest to the number, and even if another one is as near. -/
structure IsNearest (n : ℕ) (r : ℚ) : Prop where
  lower : (n : ℚ) - 1 / 2 ≤ r
  upper : r ≤ n + 1 / 2
  even_of_lower : r = n - 1 / 2 → n % 2 = 0
  even_of_upper : r = n + 1 / 2 → n % 2 = 0

/-- An integer is nearest to itself. -/
theorem IsNearest.natCast (n : ℕ) : IsNearest n n :=
  ⟨by linarith, by linarith, fun h => by linarith, fun h => by linarith⟩

/-- Of two nearest integers neither is below the other, as ties go to the even one. -/
theorem IsNearest.not_lt {m n : ℕ} (hm : IsNearest m r) (hn : IsNearest n r) : ¬m < n := by
  intro hlt
  have hupper := hm.upper
  have hlower := hn.lower
  have hsucc : (n : ℚ) ≤ m + 1 := by linarith
  have hnext : n = m + 1 := by
    have : n ≤ m + 1 := by exact_mod_cast hsucc
    omega
  subst hnext
  push_cast at hlower
  have hmiddle : r = m + 1 / 2 := by linarith
  have heven := hm.even_of_upper hmiddle
  have heven' := hn.even_of_lower (by push_cast; linarith)
  omega

/-- There is one nearest integer. -/
theorem IsNearest.unique {m n : ℕ} (hm : IsNearest m r) (hn : IsNearest n r) : m = n :=
  le_antisymm (Nat.le_of_not_lt (hn.not_lt hm)) (Nat.le_of_not_lt (hm.not_lt hn))

/-- Where a number lies, given its digits down to the unit and what is known of the rest. -/
def Approximates (x : ExtendedMantissa) (r : ℚ) : Prop :=
  match x.accuracy with
  | .exact => r = x.mantissa
  | .inexact .lt => x.mantissa < r ∧ r < x.mantissa + 1 / 2
  | .inexact .eq => r = x.mantissa + 1 / 2
  | .inexact .gt => x.mantissa + 1 / 2 < r ∧ r < x.mantissa + 1

/-- Dropping one binary digit halves what is approximated. -/
theorem Approximates.shiftRightOne {x : ExtendedMantissa} (h : Approximates x r) :
    Approximates x.shiftRightOne (r / 2) := by
  obtain ⟨m, roundBit, stickyBit⟩ := x
  obtain ⟨k, rfl | rfl⟩ := Nat.even_or_odd' m
  · have hhalf : 2 * k / 2 = k := by omega
    have hbit : (2 * k % 2 != 0) = false := by simp
    cases roundBit <;> cases stickyBit <;>
      simp only [Approximates, ExtendedMantissa.shiftRightOne, ExtendedMantissa.accuracy, hhalf,
        hbit, Bool.or_self, Bool.or_true, Bool.or_false] at h ⊢ <;> push_cast at h
    · linarith
    · constructor <;> linarith
    · constructor <;> linarith
    · constructor <;> linarith
  · have hhalf : (2 * k + 1) / 2 = k := by omega
    have hbit : ((2 * k + 1) % 2 != 0) = true := by simp
    cases roundBit <;> cases stickyBit <;>
      simp only [Approximates, ExtendedMantissa.shiftRightOne, ExtendedMantissa.accuracy, hhalf,
        hbit, Bool.or_self, Bool.or_true, Bool.or_false] at h ⊢ <;> push_cast at h
    · linarith
    · constructor <;> linarith
    · constructor <;> linarith
    · constructor <;> linarith

/-- Dropping binary digits divides what is approximated by a power of two. -/
theorem Approximates.shiftRight {x : ExtendedMantissa} (h : Approximates x r) (k : ℕ) :
    Approximates (x >>> k) (r / 2 ^ k) := by
  show Approximates (k.repeat ExtendedMantissa.shiftRightOne x) (r / 2 ^ k)
  induction k with
  | zero => simpa [Nat.repeat] using h
  | succ k ih =>
      rw [Nat.repeat, pow_succ, ← div_div]
      exact ih.shiftRightOne

/-- What is approximated is not below the digits that are kept. -/
theorem Approximates.lower {x : ExtendedMantissa} (h : Approximates x r) : x.mantissa ≤ r := by
  obtain ⟨m, roundBit, stickyBit⟩ := x
  cases roundBit <;> cases stickyBit <;>
    simp only [Approximates, ExtendedMantissa.accuracy] at h ⊢ <;> linarith

/-- What is approximated is less than one above the digits that are kept. -/
theorem Approximates.upper {x : ExtendedMantissa} (h : Approximates x r) :
    r < x.mantissa + 1 := by
  obtain ⟨m, roundBit, stickyBit⟩ := x
  cases roundBit <;> cases stickyBit <;>
    simp only [Approximates, ExtendedMantissa.accuracy] at h ⊢ <;> linarith

/-- The rounded significand is the nearest integer. -/
theorem Approximates.isNearest {x : ExtendedMantissa} (h : Approximates x r) :
    IsNearest x.roundedMantissa r := by
  obtain ⟨m, roundBit, stickyBit⟩ := x
  cases roundBit <;> cases stickyBit <;>
    simp only [Approximates, ExtendedMantissa.accuracy, ExtendedMantissa.roundedMantissa,
      Accuracy.roundToNearestEven] at h ⊢
  · rw [h]
    exact .natCast m
  · exact ⟨by linarith, by linarith, fun h => by linarith, fun h => by linarith⟩
  · obtain ⟨k, rfl | rfl⟩ := Nat.even_or_odd' m
    · have hrounded : 2 * k + 2 * k % 2 = 2 * k := by omega
      rw [hrounded]
      exact ⟨by linarith, by linarith, fun h => by linarith, fun _ => by omega⟩
    · have hrounded : 2 * k + 1 + (2 * k + 1) % 2 = 2 * k + 2 := by omega
      rw [hrounded]
      push_cast at h ⊢
      exact ⟨by push_cast; linarith, by push_cast; linarith, fun _ => by omega,
        fun h => by push_cast at h; linarith⟩
  · refine ⟨?_, ?_, fun h => ?_, fun h => ?_⟩ <;> push_cast at * <;> linarith

/-- Digits of which none has been dropped approximate their own number. -/
theorem approximates_exact (m : ℕ) : Approximates (.ofMantissaAndAccuracy m .exact) m := rfl

/-! ## The last digit -/

/-- The exponent of the last digit that the format keeps of a positive number. -/
def lastExponent (S : Format) (r : ℚ) : ℤ := S.targetExponent (Int.log 2 r + 1)

/-- The binary logarithm of a number is pinned by two powers of two. -/
theorem log_eq_iff (hr : 0 < r) {j : ℤ} :
    Int.log 2 r = j ↔ (2 : ℚ) ^ j ≤ r ∧ r < 2 ^ (j + 1) := by
  have hlow := Int.zpow_le_iff_le_log one_lt_two (x := j) hr
  have hhigh := Int.lt_zpow_iff_log_lt one_lt_two (x := j + 1) hr
  push_cast at hlow hhigh
  rw [hlow, hhigh]
  omega

/-- The leading digit of a number, read off the integer below it. -/
theorem totalExponent_eq {m : ℕ} (hm : 0 < m) (e : ℤ) (hlow : m ≤ r) (hhigh : r < m + 1) :
    totalExponent m e = Int.log 2 (r * 2 ^ e) + 1 := by
  have hr : 0 < r := lt_of_lt_of_le (by exact_mod_cast hm) hlow
  have hfirst : (2 : ℚ) ^ m.log2 ≤ r :=
    le_trans (by exact_mod_cast Nat.log2_self_le hm.ne') hlow
  have hsucc : m + 1 ≤ 2 ^ (m.log2 + 1) := @Nat.lt_log2_self m
  have hnext : r < (2 : ℚ) ^ (m.log2 + 1) := lt_of_lt_of_le hhigh (by exact_mod_cast hsucc)
  have hlog : Int.log 2 (r * 2 ^ e) = m.log2 + e := by
    rw [log_eq_iff (by positivity), add_right_comm, zpow_add₀ two_ne_zero, zpow_add₀ two_ne_zero]
    constructor
    · exact mul_le_mul_of_nonneg_right (by exact_mod_cast hfirst) (by positivity)
    · exact mul_lt_mul_of_pos_right (by exact_mod_cast hnext) (by positivity)
  rw [totalExponent, hlog]
  ring

/-- The last digit of a number of the format is that of the format. -/
theorem lastExponent_eq_of_canonical {m : ℕ} {e : ℤ} (hm : 0 < m)
    (h : S.targetExponent (totalExponent m e) = e) : lastExponent S (m * 2 ^ e) = e := by
  rw [lastExponent, ← totalExponent_eq hm e le_rfl (lt_add_one _), h]

/-- A number has one form in a format. -/
theorem canonical_unique {m n : ℕ} {e f : ℤ} (hm : 0 < m) (hn : 0 < n)
    (he : S.targetExponent (totalExponent m e) = e)
    (hf : S.targetExponent (totalExponent n f) = f) (h : (m : ℚ) * 2 ^ e = n * 2 ^ f) :
    m = n ∧ e = f := by
  have hexponent : e = f := by
    rw [← lastExponent_eq_of_canonical hm he, h, lastExponent_eq_of_canonical hn hf]
  subst hexponent
  have hmantissa : (m : ℚ) = n := mul_right_cancel₀ (by positivity) h
  exact ⟨by exact_mod_cast hmantissa, rfl⟩

/-! ## Rounding -/

/-- The number of a format that a positive number is rounded to, with a sign: its multiple
of the last digit is the nearest one. -/
inductive RoundsTo (S : Format) (s : Sign) (r : ℚ) : UnpackedFloat → Prop
  | mk {n m : ℕ} {e : ℤ} (hm : 0 < m) (hn : IsNearest n (r / 2 ^ lastExponent S r))
      (hvalue : (m : ℚ) * 2 ^ e = n * 2 ^ lastExponent S r)
      (hcanonical : S.targetExponent (totalExponent m e) = e) :
      RoundsTo S s r (.finite s m e hm)

/-- A multiple of the last digit is a number of the format, after one carry at most. -/
theorem exists_canonical {n : ℕ} {e : ℤ} (hn : 0 < n) (hmax : n ≤ 2 ^ S.mantissaBits)
    (hmin : S.minExponent ≤ e)
    (hfull : e = S.minExponent ∨ 2 ^ S.mantissaBitsWithoutImplicit ≤ n) :
    ∃ (m j : ℕ), 0 < m ∧ n = m * 2 ^ j ∧
      S.targetExponent (totalExponent m (e + j)) = e + j := by
  rcases hmax.lt_or_eq with hlt | rfl
  · have hlog : n.log2 < S.mantissaBits := (Nat.log2_lt hn.ne').mpr hlt
    refine ⟨n, 0, hn, by simp, ?_⟩
    rw [Format.targetExponent, totalExponent]
    rcases hfull with rfl | hfull
    · push_cast
      omega
    · have hlog' : S.mantissaBitsWithoutImplicit ≤ n.log2 := (Nat.le_log2 hn.ne').mpr hfull
      rw [Format.mantissaBits] at hlog ⊢
      push_cast
      omega
  · refine ⟨2 ^ S.mantissaBitsWithoutImplicit, 1, by positivity, ?_, ?_⟩
    · rw [Format.mantissaBits, Nat.add_comm, pow_succ, pow_one]
    · rw [Format.targetExponent, totalExponent, Nat.log2_two_pow, Format.mantissaBits]
      push_cast
      omega

/-- Noting what was dropped keeps the digits. -/
theorem mantissa_ofMantissaAndAccuracy (m : ℕ) (a : Accuracy) :
    (ExtendedMantissa.ofMantissaAndAccuracy m a).mantissa = m := by
  cases a with
  | exact => rfl
  | inexact o => cases o <;> rfl

/-- Digits that are shifted out, and the exponent that they had. -/
theorem div_two_pow_eq (r : ℚ) (e : ℤ) (t : ℕ) : r / 2 ^ t = r * 2 ^ e / 2 ^ (e + t) := by
  rw [add_comm e, zpow_add₀ two_ne_zero, zpow_natCast, mul_div_mul_right _ _ (by positivity)]

/-- The last digit of a number that is no more than the least digit of the format. -/
theorem lastExponent_of_lt (hr : 0 < r) (hless : r < 2 ^ S.minExponent) :
    lastExponent S r = S.minExponent := by
  have hlog := (Int.lt_zpow_iff_log_lt (b := 2) one_lt_two hr).mp (by exact_mod_cast hless)
  rw [lastExponent, Format.targetExponent]
  omega

/-- Rounding begins with a shift to the last digit that the format keeps.  Where the digits given
end above that there has to be one of them; else the least digit of the format is kept anyway. -/
theorem shiftToTargetExponent_eq {m : ℕ} {e : ℤ} {a : Accuracy}
    (h : Approximates (.ofMantissaAndAccuracy m a) r)
    (hr : 1 ≤ r ∨ 0 < r ∧ e ≤ S.minExponent) (he : e ≤ lastExponent S (r * 2 ^ e)) :
    ∃ t : ℕ, lastExponent S (r * 2 ^ e) = e + t ∧
      shiftToTargetExponent S m e a = (ExtendedMantissa.ofMantissaAndAccuracy m a >>> t, e + t) := by
  have hbelow : (ExtendedMantissa.ofMantissaAndAccuracy m a).mantissa = m :=
    mantissa_ofMantissaAndAccuracy m a
  have hlow := h.lower
  have hhigh := h.upper
  rw [hbelow] at hlow hhigh
  have hlast : S.targetExponent (totalExponent m e) = lastExponent S (r * 2 ^ e) := by
    rcases Nat.eq_zero_or_pos m with rfl | hm
    · rw [Nat.cast_zero, zero_add] at hhigh
      obtain ⟨hpos, hleast⟩ := hr.resolve_left hhigh.not_ge
      have hless : r * 2 ^ e < 2 ^ S.minExponent :=
        calc r * 2 ^ e < 1 * 2 ^ e := mul_lt_mul_of_pos_right hhigh (by positivity)
          _ ≤ 2 ^ S.minExponent := by
              rw [one_mul]
              exact zpow_le_zpow_right₀ one_le_two hleast
      rw [lastExponent_of_lt (by positivity) hless, totalExponent, Nat.log2_zero,
        Format.targetExponent, Format.mantissaBits]
      push_cast
      omega
    · rw [lastExponent, totalExponent_eq hm e hlow hhigh]
  rw [← hlast] at he ⊢
  obtain ⟨t, ht⟩ : ∃ t : ℕ, S.targetExponent (totalExponent m e) = e + t :=
    ⟨(S.targetExponent (totalExponent m e) - e).toNat, by omega⟩
  refine ⟨t, ht, ?_⟩
  rw [shiftToTargetExponent, shiftToExponent, ht, add_sub_cancel_left, Int.toNat_natCast]

/-- The result of rounding is any form of the nearest multiple of the last digit. -/
theorem roundWithAccuracy_eq {m k j : ℕ} {e : ℤ} {a : Accuracy} {n : ℕ} (s : Sign)
    (h : Approximates (.ofMantissaAndAccuracy m a) r)
    (hr : 1 ≤ r ∨ 0 < r ∧ e ≤ S.minExponent) (he : e ≤ lastExponent S (r * 2 ^ e))
    (hn : IsNearest n (r * 2 ^ e / 2 ^ lastExponent S (r * 2 ^ e))) (hk : 0 < k)
    (hvalue : n = k * 2 ^ j)
    (hcanonical : S.targetExponent (totalExponent k (lastExponent S (r * 2 ^ e) + j)) =
      lastExponent S (r * 2 ^ e) + j) :
    roundWithAccuracy S s m e a = .finite s k (lastExponent S (r * 2 ^ e) + j) hk := by
  obtain ⟨t, ht, hfirst⟩ := shiftToTargetExponent_eq h hr he
  have hrounded : (ExtendedMantissa.ofMantissaAndAccuracy m a >>> t).roundedMantissa = n := by
    rw [ht, ← div_two_pow_eq] at hn
    exact (h.shiftRight t).isNearest.unique hn
  have hsecond : shiftToTargetExponent S n (e + t) .exact =
      (ExtendedMantissa.ofMantissaAndAccuracy k .exact, e + t + j) := by
    rw [ht] at hcanonical
    have hscaled := shiftToTargetExponent_scaled hk hcanonical j
    rwa [← hvalue, add_sub_cancel_right] at hscaled
  simp only [roundWithAccuracy, hfirst, hrounded, hsecond, ht]
  exact dif_neg hk.ne'

/-- A number of which no multiple of the last digit is left is rounded to zero. -/
theorem roundWithAccuracy_zero {m : ℕ} {e : ℤ} {a : Accuracy} (s : Sign)
    (h : Approximates (.ofMantissaAndAccuracy m a) r)
    (hr : 1 ≤ r ∨ 0 < r ∧ e ≤ S.minExponent) (he : e ≤ lastExponent S (r * 2 ^ e))
    (hn : IsNearest 0 (r * 2 ^ e / 2 ^ lastExponent S (r * 2 ^ e))) :
    roundWithAccuracy S s m e a = .zero s := by
  obtain ⟨t, ht, hfirst⟩ := shiftToTargetExponent_eq h hr he
  have hrounded : (ExtendedMantissa.ofMantissaAndAccuracy m a >>> t).roundedMantissa = 0 := by
    rw [ht, ← div_two_pow_eq] at hn
    exact (h.shiftRight t).isNearest.unique hn
  have hzero (k : ℕ) : (ExtendedMantissa.ofMantissaAndAccuracy 0 .exact >>> k).mantissa = 0 := by
    have hshifted := (approximates_exact 0).shiftRight k
    rw [Nat.cast_zero, zero_div] at hshifted
    exact Nat.le_zero.mp (by exact_mod_cast hshifted.lower)
  obtain ⟨k, f, hsecond⟩ : ∃ k f, shiftToTargetExponent S 0 (e + t) .exact =
      (ExtendedMantissa.ofMantissaAndAccuracy 0 .exact >>> k, f) := ⟨_, _, rfl⟩
  simp only [roundWithAccuracy, hfirst, hrounded, hsecond]
  exact dif_pos (hzero k)

/-- How many last digits a number is worth: no more than the format has room for, and if
the last digit is not the least of the format then all of them are there. -/
theorem last_digits (S : Format) (hr : 0 < r) :
    S.minExponent ≤ lastExponent S r ∧ r / 2 ^ lastExponent S r < 2 ^ S.mantissaBits ∧
      (lastExponent S r = S.minExponent ∨
        2 ^ S.mantissaBitsWithoutImplicit ≤ r / 2 ^ lastExponent S r) := by
  have hbelow := Int.zpow_log_le_self one_lt_two hr
  have habove := Int.lt_zpow_succ_log_self one_lt_two r
  push_cast at hbelow habove
  have htop : Int.log 2 r + 1 ≤ S.mantissaBits + lastExponent S r := by
    rw [lastExponent, Format.targetExponent]
    omega
  have hcases : lastExponent S r = S.minExponent ∨
      Int.log 2 r = S.mantissaBitsWithoutImplicit + lastExponent S r := by
    rw [lastExponent, Format.targetExponent, Format.mantissaBits]
    push_cast
    omega
  refine ⟨le_max_right _ _, ?_, hcases.imp_right fun hfull => ?_⟩
  · rw [div_lt_iff₀ (by positivity), ← zpow_natCast, ← zpow_add₀ two_ne_zero]
    exact lt_of_lt_of_le habove (zpow_le_zpow_right₀ one_le_two htop)
  · rw [le_div_iff₀ (by positivity), ← zpow_natCast, ← zpow_add₀ two_ne_zero, ← hfull]
    exact hbelow

/-- No multiple of the last digit is left of a number that is half the least digit at most. -/
theorem isNearest_zero_of_le (hr : 0 < r) (hsmall : r ≤ 2 ^ (S.minExponent - 1)) :
    IsNearest 0 (r / 2 ^ lastExponent S r) := by
  have hless : r < 2 ^ S.minExponent :=
    hsmall.trans_lt (zpow_lt_zpow_right₀ one_lt_two (by omega))
  have hhalf : r / 2 ^ S.minExponent ≤ 1 / 2 := by
    rw [div_le_iff₀ (by positivity), one_div, inv_mul_eq_div, div_eq_mul_inv,
      ← zpow_sub_one₀ two_ne_zero]
    exact hsmall
  have hpos : 0 < r / 2 ^ S.minExponent := by positivity
  rw [lastExponent_of_lt hr hless]
  refine ⟨?_, ?_, fun _ => rfl, fun _ => rfl⟩
  · rw [Nat.cast_zero]
    linarith
  · rw [Nat.cast_zero, zero_add]
    exact hhalf

/-- The nearest multiple of the last digit of a number that is not too small. -/
theorem IsNearest.bounds {n : ℕ} (hn : IsNearest n (r / 2 ^ lastExponent S r))
    (hmin : (2 : ℚ) ^ (S.minExponent - 1) < r) :
    0 < n ∧ n ≤ 2 ^ S.mantissaBits ∧
      (lastExponent S r = S.minExponent ∨ 2 ^ S.mantissaBitsWithoutImplicit ≤ n) := by
  have hr : 0 < r := lt_trans (by positivity) hmin
  obtain ⟨-, hless, hcases⟩ := last_digits S hr
  have hlower := hn.lower
  have hupper := hn.upper
  have hmax : (n : ℚ) < (2 ^ S.mantissaBits + 1 : ℕ) := by
    push_cast
    linarith
  have hfull : lastExponent S r = S.minExponent ∨ 2 ^ S.mantissaBitsWithoutImplicit ≤ n := by
    refine hcases.imp_right fun hfull => ?_
    have hlt : ((2 ^ S.mantissaBitsWithoutImplicit : ℕ) : ℚ) < (n + 1 : ℕ) := by
      push_cast
      linarith
    exact Nat.lt_succ_iff.mp (by exact_mod_cast hlt)
  refine ⟨?_, Nat.lt_succ_iff.mp (by exact_mod_cast hmax), hfull⟩
  rcases hfull with hleast | hfull
  · have hhalf : 1 / 2 < r / 2 ^ lastExponent S r := by
      rw [hleast, lt_div_iff₀ (by positivity), one_div, inv_mul_eq_div,
        div_eq_mul_inv, ← zpow_sub_one₀ two_ne_zero]
      exact hmin
    have hpos : (0 : ℚ) < n := by linarith
    exact_mod_cast hpos
  · exact lt_of_lt_of_le (by positivity) hfull

/-- **Rounding.**  A significand with what is known of the digits after it is rounded to
the nearest number of the format. -/
theorem roundWithAccuracy_roundsTo {m : ℕ} {e : ℤ} {a : Accuracy} (s : Sign)
    (h : Approximates (.ofMantissaAndAccuracy m a) r)
    (hr : 1 ≤ r ∨ 0 < r ∧ e ≤ S.minExponent) (he : e ≤ lastExponent S (r * 2 ^ e))
    (hmin : (2 : ℚ) ^ (S.minExponent - 1) < r * 2 ^ e) :
    RoundsTo S s (r * 2 ^ e) (roundWithAccuracy S s m e a) := by
  obtain ⟨t, ht⟩ : ∃ t : ℕ, lastExponent S (r * 2 ^ e) = e + t :=
    ⟨(lastExponent S (r * 2 ^ e) - e).toNat, by omega⟩
  have hn := (h.shiftRight t).isNearest
  rw [div_two_pow_eq r e t, ← ht] at hn
  obtain ⟨hpos, hmax, hfull⟩ := hn.bounds hmin
  obtain ⟨k, j, hk, hvalue, hcanonical⟩ :=
    exists_canonical hpos hmax (le_max_right _ _) hfull
  rw [roundWithAccuracy_eq s h hr he hn hk hvalue hcanonical]
  refine .mk hk hn ?_ hcanonical
  rw [hvalue, zpow_add₀ two_ne_zero, zpow_natCast]
  push_cast
  ring

namespace RoundsTo

variable {s : Sign} {u : UnpackedFloat} {m : ℕ} {e : ℤ}

/-- What a number rounds to is any form of the nearest multiple of the last digit. -/
theorem eq_finite (h : RoundsTo S s r u) {n : ℕ} (hm : 0 < m)
    (hn : IsNearest n (r / 2 ^ lastExponent S r))
    (hvalue : (m : ℚ) * 2 ^ e = n * 2 ^ lastExponent S r)
    (hcanonical : S.targetExponent (totalExponent m e) = e) : u = .finite s m e hm := by
  obtain ⟨hm', hn', hvalue', hcanonical'⟩ := h
  obtain rfl := hn.unique hn'
  obtain ⟨rfl, rfl⟩ := canonical_unique hm' hm hcanonical' hcanonical (hvalue'.trans hvalue.symm)
  rfl

/-- A number rounds to one number only. -/
theorem unique {v : UnpackedFloat} (h : RoundsTo S s r u) (h' : RoundsTo S s r v) : u = v := by
  obtain ⟨hm, hn, hvalue, hcanonical⟩ := h'
  exact h.eq_finite hm hn hvalue hcanonical

/-- A number of the format rounds to itself. -/
theorem exact (h : RoundsTo S s (m * 2 ^ e) u) (hm : 0 < m)
    (hcanonical : S.targetExponent (totalExponent m e) = e) : u = .finite s m e hm := by
  have hlast := lastExponent_eq_of_canonical hm hcanonical
  refine h.eq_finite hm ?_ (by rw [hlast]) hcanonical
  rw [hlast, mul_div_cancel_right₀ _ (by positivity)]
  exact .natCast m

/-- A number in canonical form rounds to itself. -/
theorem self (s : Sign) (hm : 0 < m) (hcanonical : S.targetExponent (totalExponent m e) = e) :
    RoundsTo S s (m * 2 ^ e) (.finite s m e hm) := by
  have hlast := lastExponent_eq_of_canonical hm hcanonical
  refine .mk hm ?_ (by rw [hlast]) hcanonical
  rw [hlast, mul_div_cancel_right₀ _ (by positivity)]
  exact .natCast m

/-- What rounds to a number that is not zero is more than half the least digit. -/
theorem least_lt (h : RoundsTo S s r u) : (2 : ℚ) ^ (S.minExponent - 1) < r := by
  obtain @⟨n, m, e, hm, hn, hvalue, -⟩ := h
  by_contra hle
  have hzero : n = 0 := by
    rcases lt_or_ge 0 r with hr | hr
    · exact hn.unique (isNearest_zero_of_le hr (not_lt.mp hle))
    · have hnonpos := div_nonpos_of_nonpos_of_nonneg hr
        (by positivity : (0 : ℚ) ≤ 2 ^ lastExponent S r)
      have hless : (n : ℚ) < (1 : ℕ) := by
        push_cast
        linarith [hn.lower]
      exact Nat.lt_one_iff.mp (by exact_mod_cast hless)
  have hpos : (0 : ℚ) < m * 2 ^ e := by positivity
  rw [hvalue, hzero, Nat.cast_zero, zero_mul] at hpos
  exact lt_irrefl 0 hpos

/-- A number between the middles to both neighbours rounds to what is between them, where
both neighbours are equally far. -/
theorem eq_of_isNearest (h : RoundsTo S s r u) (hm : 0 < m)
    (hcanonical : S.targetExponent (totalExponent m e) = e)
    (hregular : m ≠ 2 ^ S.mantissaBitsWithoutImplicit ∨ e = S.minExponent)
    (hn : IsNearest m (r / 2 ^ e)) : u = .finite s m e hm := by
  have hlower := hn.lower
  have hupper := hn.upper
  have hone : (1 : ℚ) ≤ m := by exact_mod_cast hm
  have hscale : (0 : ℚ) < 2 ^ e := by positivity
  have hr : 0 < r := by
    have : 0 < r / 2 ^ e := by linarith
    exact (div_pos_iff_of_pos_right hscale).mp this
  have hlast : lastExponent S r = e := by
    have hform := hcanonical
    rw [Format.targetExponent, totalExponent, Format.mantissaBits] at hform
    push_cast at hform
    have habove : Int.log 2 r < 1 + S.mantissaBitsWithoutImplicit + e := by
      have hmax : m + 1 ≤ 2 ^ (S.mantissaBitsWithoutImplicit + 1) :=
        (Nat.log2_lt hm.ne').mp (by omega)
      have hmax' : (m : ℚ) + 1 ≤ 2 ^ (S.mantissaBitsWithoutImplicit + 1) := by
        exact_mod_cast hmax
      have hless : r / 2 ^ e < 2 ^ (S.mantissaBitsWithoutImplicit + 1) := by linarith
      rw [div_lt_iff₀ hscale, ← zpow_natCast, ← zpow_add₀ two_ne_zero] at hless
      have := (Int.lt_zpow_iff_log_lt one_lt_two hr).mp (by exact_mod_cast hless)
      push_cast at this
      omega
    rw [lastExponent, Format.targetExponent, Format.mantissaBits]
    push_cast
    by_cases hleast : e = S.minExponent
    · omega
    have hlog : m.log2 = S.mantissaBitsWithoutImplicit := by omega
    have hmin : 2 ^ S.mantissaBitsWithoutImplicit + 1 ≤ m := by
      have hle := Nat.log2_self_le hm.ne'
      rw [hlog] at hle
      have hne := hregular.resolve_right hleast
      omega
    have hmin' : (2 : ℚ) ^ S.mantissaBitsWithoutImplicit + 1 ≤ m := by exact_mod_cast hmin
    have hmore : 2 ^ S.mantissaBitsWithoutImplicit ≤ r / 2 ^ e := by linarith
    rw [le_div_iff₀ hscale, ← zpow_natCast, ← zpow_add₀ two_ne_zero] at hmore
    have := (Int.zpow_le_iff_le_log one_lt_two hr).mp (by exact_mod_cast hmore)
    omega
  exact h.eq_finite hm (by rwa [hlast]) (by rw [hlast]) hcanonical

/-- A number next to a power of two rounds to it.  Its neighbour below is half as far as the one
above, and a number below it has a last digit of half the worth. -/
theorem eq_power (h : RoundsTo S s r u) (he : S.minExponent < e)
    (hlower : (2 : ℚ) ^ S.mantissaBitsWithoutImplicit - 1 / 4 < r / 2 ^ e)
    (hupper : r / 2 ^ e < 2 ^ S.mantissaBitsWithoutImplicit + 1 / 2) :
    u = .finite s (2 ^ S.mantissaBitsWithoutImplicit) e (Nat.pow_pos two_pos) := by
  have hscale : (0 : ℚ) < 2 ^ e := by positivity
  have hone : (1 : ℚ) ≤ 2 ^ S.mantissaBitsWithoutImplicit := one_le_pow₀ one_le_two
  have hr : 0 < r := (div_pos_iff_of_pos_right hscale).mp (by linarith)
  have hcanonical : S.targetExponent (totalExponent (2 ^ S.mantissaBitsWithoutImplicit) e) = e := by
    rw [Format.targetExponent, totalExponent, Nat.log2_two_pow, Format.mantissaBits]
    push_cast
    omega
  have hlast {j : ℤ} (hj : S.minExponent ≤ j)
      (hlow : (2 : ℚ) ^ S.mantissaBitsWithoutImplicit * 2 ^ j ≤ r)
      (hhigh : r < 2 ^ S.mantissaBitsWithoutImplicit * 2 ^ (j + 1)) : lastExponent S r = j := by
    rw [← zpow_natCast, ← zpow_add₀ two_ne_zero] at hlow hhigh
    rw [← add_assoc] at hhigh
    rw [lastExponent, (log_eq_iff hr).mpr ⟨hlow, hhigh⟩, Format.targetExponent,
      Format.mantissaBits]
    push_cast
    omega
  by_cases habove : (2 : ℚ) ^ S.mantissaBitsWithoutImplicit ≤ r / 2 ^ e
  · have hexponent : lastExponent S r = e := by
      refine hlast he.le ((le_div_iff₀ hscale).mp habove) ?_
      rw [zpow_add_one₀ two_ne_zero, ← mul_assoc, mul_right_comm, ← div_lt_iff₀ hscale]
      linarith
    have hn : IsNearest (2 ^ S.mantissaBitsWithoutImplicit) (r / 2 ^ e) := by
      refine ⟨?_, ?_, fun heq => ?_, fun heq => ?_⟩ <;> push_cast at * <;> linarith
    exact h.eq_finite _ (by rwa [hexponent]) (by rw [hexponent]) hcanonical
  · have hdouble : r / 2 ^ (e - 1) = 2 * (r / 2 ^ e) := by
      rw [zpow_sub_one₀ two_ne_zero]
      field_simp
    have hexponent : lastExponent S r = e - 1 := by
      refine hlast (by omega) ?_ ?_
      · rw [← le_div_iff₀ (by positivity), hdouble]
        linarith
      · rw [sub_add_cancel, ← div_lt_iff₀ hscale]
        exact not_le.mp habove
    have hn : IsNearest (2 ^ (S.mantissaBitsWithoutImplicit + 1)) (r / 2 ^ (e - 1)) := by
      rw [hdouble, pow_succ]
      refine ⟨?_, ?_, fun heq => ?_, fun heq => ?_⟩ <;> push_cast at * <;> linarith
    refine h.eq_finite _ (by rwa [hexponent]) ?_ hcanonical
    rw [hexponent, pow_succ, zpow_sub_one₀ two_ne_zero]
    push_cast
    ring

/-- The error is at most half a last digit. -/
theorem abs_sub_le {hm : 0 < m} (h : RoundsTo S s r (.finite s m e hm)) :
    |m * 2 ^ e - r| ≤ 2 ^ lastExponent S r / 2 := by
  obtain ⟨-, hn, hvalue, -⟩ := h
  have hpos : (0 : ℚ) < 2 ^ lastExponent S r := by positivity
  have hlower := hn.lower
  have hupper := hn.upper
  rw [le_div_iff₀ hpos] at hlower
  rw [div_le_iff₀ hpos] at hupper
  rw [hvalue, abs_le]
  constructor <;> linarith

end RoundsTo

/-! ## Operations -/

/-- The quotient of two natural numbers and what its remainder says of the rest. -/
theorem approximates_div (m : ℕ) {n : ℕ} (hn : 0 < n) :
    Approximates (.ofMantissaAndAccuracy (m / n) (accuracyOfFraction (m % n) n)) (m / n) := by
  have hsplit : ((n * (m / n) + m % n : ℕ) : ℚ) = m := by rw [Nat.div_add_mod]
  have hlt := Nat.mod_lt m hn
  have hquotient : (m : ℚ) / n = (m / n : ℕ) + (m % n : ℕ) / n := by
    rw [← hsplit]
    push_cast
    field_simp
  have hn' : (0 : ℚ) < n := by exact_mod_cast hn
  rw [hquotient, accuracyOfFraction]
  generalize m % n = k at *
  generalize m / n = q at *
  split_ifs with hzero
  · simp [Approximates, hzero, ExtendedMantissa.ofMantissaAndAccuracy, ExtendedMantissa.accuracy]
  · have hk : (0 : ℚ) < k := by exact_mod_cast Nat.pos_of_ne_zero hzero
    have hk_lt : (k : ℚ) < n := by exact_mod_cast hlt
    rcases lt_trichotomy (2 * k) n with h | h | h
    · have h' : (2 : ℚ) * k < n := by exact_mod_cast h
      rw [compare_lt_iff_lt.mpr h]
      have hmore : (0 : ℚ) < k / n := by positivity
      have hless : (k : ℚ) / n < 1 / 2 := by
        rw [div_lt_div_iff₀ hn' two_pos]
        linarith
      simp only [Approximates, ExtendedMantissa.ofMantissaAndAccuracy, ExtendedMantissa.accuracy]
      constructor <;> linarith
    · have h' : (2 : ℚ) * k = n := by exact_mod_cast h
      rw [compare_eq_iff_eq.mpr h]
      have hhalf : (k : ℚ) / n = 1 / 2 := by
        rw [div_eq_div_iff hn'.ne' two_ne_zero]
        linarith
      simp only [Approximates, ExtendedMantissa.ofMantissaAndAccuracy, ExtendedMantissa.accuracy,
        hhalf]
    · have h' : (n : ℚ) < 2 * k := by exact_mod_cast h
      rw [compare_gt_iff_gt.mpr h]
      have hmore : 1 / 2 < (k : ℚ) / n := by
        rw [div_lt_div_iff₀ two_pos hn']
        linarith
      have hless : (k : ℚ) / n < 1 := (div_lt_one hn').mpr hk_lt
      simp only [Approximates, ExtendedMantissa.ofMantissaAndAccuracy, ExtendedMantissa.accuracy]
      constructor <;> linarith

/-- A number with further zeros rounds like the number. -/
theorem round_roundsTo (S : Format) (s : Sign) {m : ℕ} (hm : 0 < m) (e : ℤ)
    (hmin : (2 : ℚ) ^ (S.minExponent - 1) < m * 2 ^ e) :
    RoundsTo S s (m * 2 ^ e) (UnpackedFloat.round S s m e) := by
  obtain ⟨k, hk⟩ : ∃ k, (e - S.targetExponent (totalExponent m e)).toNat = k := ⟨_, rfl⟩
  have htotal := totalExponent_eq hm e le_rfl (lt_add_one (m : ℚ))
  have hvalue : (m : ℚ) * 2 ^ e = (m * 2 ^ k : ℕ) * 2 ^ (e - k) := by
    rw [Nat.cast_mul, Nat.cast_pow, mul_assoc, Nat.cast_two, ← zpow_natCast,
      ← zpow_add₀ two_ne_zero, add_sub_cancel]
  have hone : (1 : ℚ) ≤ (m * 2 ^ k : ℕ) := by
    exact_mod_cast Nat.mul_pos hm (by positivity)
  have hle : e - k ≤ lastExponent S (m * 2 ^ e) := by
    rw [lastExponent, ← htotal]
    omega
  simp only [UnpackedFloat.round, decreaseExponent, hk, Nat.shiftLeft_eq]
  rw [hvalue] at hle hmin ⊢
  exact roundWithAccuracy_roundsTo s (approximates_exact _) (.inl hone) hle hmin

/-- A product of significands that have all the digits of the format between them. -/
theorem mul_roundsTo (S : Format) (s t : Sign) {m n : ℕ} (hm : 0 < m) (hn : 0 < n) (e f : ℤ)
    (hdigits : 2 ^ S.mantissaBitsWithoutImplicit ≤ m * n)
    (hmin : (2 : ℚ) ^ (S.minExponent - 1) < m * 2 ^ e * (n * 2 ^ f)) :
    RoundsTo S (s * t) (m * 2 ^ e * (n * 2 ^ f))
      (UnpackedFloat.mul S (.finite s m e hm) (.finite t n f hn)) := by
  have hvalue : (m : ℚ) * 2 ^ e * (n * 2 ^ f) = (m * n : ℕ) * 2 ^ (e + f) := by
    rw [zpow_add₀ two_ne_zero]
    push_cast
    ring
  have hpos := Nat.mul_pos hm hn
  have hlog : S.mantissaBitsWithoutImplicit ≤ (m * n).log2 := (Nat.le_log2 hpos.ne').mpr hdigits
  have htotal := totalExponent_eq hpos (e + f) le_rfl (lt_add_one ((m * n : ℕ) : ℚ))
  have hle : e + f ≤ lastExponent S ((m * n : ℕ) * 2 ^ (e + f)) := by
    rw [lastExponent, ← htotal, Format.targetExponent, totalExponent, Format.mantissaBits]
    push_cast
    omega
  rw [hvalue] at hmin ⊢
  exact roundWithAccuracy_roundsTo (s * t) (approximates_exact _)
    (.inl (by exact_mod_cast hpos)) hle hmin

/-- The leading digit of a quotient is where those of its terms say, or one further down. -/
theorem totalExponent_sub_le {m n : ℕ} (hm : 0 < m) (hn : 0 < n) (e f : ℤ) :
    totalExponent m e - totalExponent n f ≤ Int.log 2 ((m : ℚ) * 2 ^ e / (n * 2 ^ f)) + 1 := by
  have hlow : ((2 ^ m.log2 : ℕ) : ℚ) ≤ m := by exact_mod_cast Nat.log2_self_le hm.ne'
  have hhigh : (n : ℚ) ≤ (2 ^ (n.log2 + 1) : ℕ) := by exact_mod_cast (@Nat.lt_log2_self n).le
  have hn' : (0 : ℚ) < n := by exact_mod_cast hn
  have hquotient : (2 : ℚ) ^ (m.log2 + e - (n.log2 + 1 + f)) ≤ m * 2 ^ e / (n * 2 ^ f) := by
    push_cast at hlow hhigh
    rw [zpow_sub₀ two_ne_zero, zpow_add₀ two_ne_zero, zpow_add₀ two_ne_zero, zpow_natCast,
      ← Nat.cast_succ, zpow_natCast]
    gcongr
  have hpos : 0 < (m : ℚ) * 2 ^ e / (n * 2 ^ f) := lt_of_lt_of_le (by positivity) hquotient
  have hlog := (Int.zpow_le_iff_le_log one_lt_two hpos).mp (by exact_mod_cast hquotient)
  rw [totalExponent, totalExponent]
  omega

/-- The digits of a quotient that are computed: enough for one rounding, or down to the least digit
of the format. -/
theorem exists_quotient (S : Format) (s t : Sign) {m n : ℕ} (hm : 0 < m) (hn : 0 < n) (e f : ℤ) :
    ∃ (M : ℕ) (T : ℤ), (m : ℚ) * 2 ^ e / (n * 2 ^ f) = M / n * 2 ^ T ∧
      T ≤ lastExponent S (m * 2 ^ e / (n * 2 ^ f)) ∧
      (1 ≤ (M : ℚ) / n ∨ 0 < (M : ℚ) / n ∧ T ≤ S.minExponent) ∧
      UnpackedFloat.div S (.finite s m e hm) (.finite t n f hn) =
        roundWithAccuracy S (s / t) (M / n) T (accuracyOfFraction (M % n) n) := by
  have htotal := totalExponent_sub_le hm hn e f
  have hpos : (0 : ℚ) < m * 2 ^ e / (n * 2 ^ f) := by positivity
  have hbelow := Int.zpow_log_le_self (b := 2) one_lt_two hpos
  push_cast at hbelow
  obtain ⟨T, hT⟩ : ∃ T, min (e - f) (S.targetExponent (totalExponent m e - totalExponent n f)) = T :=
    ⟨_, rfl⟩
  obtain ⟨k, hk⟩ : ∃ k : ℕ, e - f - T = k := ⟨(e - f - T).toNat, by omega⟩
  have hvalue : (m : ℚ) * 2 ^ e / (n * 2 ^ f) = (m * 2 ^ k : ℕ) / n * 2 ^ T := by
    have hexponent : (2 : ℚ) ^ e = 2 ^ k * 2 ^ T * 2 ^ f := by
      rw [← zpow_natCast, ← zpow_add₀ two_ne_zero, ← zpow_add₀ two_ne_zero]
      congr 1
      omega
    rw [hexponent]
    push_cast
    field_simp
  have hT_le : T ≤ lastExponent S (m * 2 ^ e / (n * 2 ^ f)) ∧
      (T ≤ Int.log 2 ((m : ℚ) * 2 ^ e / (n * 2 ^ f)) ∨ T ≤ S.minExponent) := by
    rw [lastExponent]
    rw [Format.targetExponent, Format.mantissaBits] at hT ⊢
    push_cast at hT ⊢
    omega
  refine ⟨m * 2 ^ k, T, hvalue, hT_le.1, ?_, ?_⟩
  · refine hT_le.2.imp (fun hlead => ?_) fun hleast => ⟨by positivity, hleast⟩
    have hscale := (zpow_le_zpow_right₀ one_le_two hlead).trans hbelow
    rw [hvalue] at hscale
    exact le_of_mul_le_mul_right (by rwa [one_mul]) (by positivity)
  · simp only [UnpackedFloat.div, divCore, hT, hk, Int.toNat_natCast, Nat.shiftLeft_eq]

/-- A quotient is rounded once. -/
theorem div_roundsTo (S : Format) (s t : Sign) {m n : ℕ} (hm : 0 < m) (hn : 0 < n) (e f : ℤ)
    (hmin : (2 : ℚ) ^ (S.minExponent - 1) < m * 2 ^ e / (n * 2 ^ f)) :
    RoundsTo S (s / t) (m * 2 ^ e / (n * 2 ^ f))
      (UnpackedFloat.div S (.finite s m e hm) (.finite t n f hn)) := by
  obtain ⟨M, T, hvalue, hlast, hr, hdiv⟩ := exists_quotient S s t hm hn e f
  rw [hdiv]
  rw [hvalue] at hlast hmin ⊢
  exact roundWithAccuracy_roundsTo (s / t) (approximates_div M hn) hr hlast hmin

/-- A quotient that is too small for the least digit is rounded to zero. -/
theorem div_small (S : Format) (s t : Sign) {m n : ℕ} (hm : 0 < m) (hn : 0 < n) (e f : ℤ)
    (hsmall : (m : ℚ) * 2 ^ e / (n * 2 ^ f) ≤ 2 ^ (S.minExponent - 1)) :
    UnpackedFloat.div S (.finite s m e hm) (.finite t n f hn) = .zero (s / t) := by
  obtain ⟨M, T, hvalue, hlast, hr, hdiv⟩ := exists_quotient S s t hm hn e f
  have hnearest : IsNearest 0 (m * 2 ^ e / (n * 2 ^ f) /
      2 ^ lastExponent S (m * 2 ^ e / (n * 2 ^ f))) :=
    isNearest_zero_of_le (by positivity) hsmall
  rw [hdiv]
  rw [hvalue] at hlast hnearest
  exact roundWithAccuracy_zero (s / t) (approximates_div M hn) hr hlast hnearest

end Spatial.Binary
