import Mathlib
import Spatial.Json.Number
import Spatial.Proofs.Binary.Estimate
import Spatial.Proofs.Decimal.Shortest

/-!
# Decimals computed in binary64

What the computation of a decimal gives, for digits that binary64 holds and an exponent far
from the ends of the format.

1.  The digits are converted exactly.  The power of ten is rounded once, and the product or
    quotient once more, so the result is within three parts in `2⁵³` of the decimal.
2.  Powers of ten to the 22nd are numbers of binary64.  With such an exponent there is one
    rounding, and a decimal with no more than 53 binary digits is computed exactly.
-/

namespace Spatial.Json

open Float.Model (Format UnpackedFloat)
open Binary64 (Denotes Estimates IsShort InRange inRange_natCast ofValue)

variable {n j : ℕ} {r : ℚ}

/-! ## Digits and powers of ten -/

/-- Powers of ten to the 46th are far from both ends of binary64. -/
theorem inRange_ten_pow (hj : j ≤ 46) : InRange ((10 : ℚ) ^ j) := by
  have hone : (1 : ℚ) ≤ 10 ^ j := one_le_pow₀ (by norm_num)
  have hmax : (10 : ℚ) ^ j ≤ 10 ^ 46 := pow_le_pow_right₀ (by norm_num) hj
  constructor
  · exact le_trans (by norm_num) hone
  · exact hmax.trans (by norm_num)

/-- A natural number with no more than 53 digits is converted exactly. -/
theorem natFloat_denotes (hn : 0 < n) (hlt : n < 2 ^ 53) : Denotes (natFloat n) n := by
  have hrange := inRange_natCast hn hlt
  have hvalue : (n : ℚ) = n * 2 ^ (0 : ℤ) := by rw [zpow_zero, mul_one]
  rw [hvalue] at hrange ⊢
  obtain ⟨m, rfl⟩ := Nat.exists_eq_succ_of_ne_zero hn.ne'
  exact Binary64.denotes_round hn hlt hrange

/-- A power of ten is rounded once. -/
theorem powerOfTen_roundsTo (hj : j ≤ 308) :
    ∃ u, Binary.RoundsTo .binary64 .positive (10 ^ j) u ∧ powerOfTen j = ofValue u := by
  have hone : 0 < 1 <<< Format.binary64.mantissaBits := by decide
  have hten : 0 < 10 ^ j := by positivity
  have hvalue : (10 : ℚ) ^ j = (1 <<< Format.binary64.mantissaBits : ℕ) *
      2 ^ (-(Format.binary64.mantissaBits : ℤ)) * ((10 ^ j : ℕ) * 2 ^ (0 : ℤ)) := by
    rw [Nat.one_shiftLeft, zpow_neg, zpow_natCast, zpow_zero]
    push_cast
    rw [mul_inv_cancel₀ (by positivity), one_mul, mul_one]
  have hleast : (2 : ℚ) ^ (Format.binary64.minExponent - 1) < 10 ^ j :=
    lt_of_lt_of_le (zpow_lt_one_of_neg₀ one_lt_two (by decide)) (one_le_pow₀ (by norm_num))
  have hround := Binary.mul_roundsTo .binary64 .positive .positive hone hten
    (-(Format.binary64.mantissaBits : ℤ)) 0
    (le_trans (by decide) (Nat.le_mul_of_pos_right _ hten)) (hvalue ▸ hleast)
  rw [← hvalue] at hround
  refine ⟨_, hround, ?_⟩
  have hscientific : UnpackedFloat.ofScientific .binary64 1 j =
      .mul .binary64
        (.finite .positive (1 <<< Format.binary64.mantissaBits) (-Format.binary64.mantissaBits) hone)
        (.finite .positive (10 ^ j) 0 hten) := by
    have hlimit : (2 : ℤ) ^ Format.binary64.exponentBits = 2048 := rfl
    rw [UnpackedFloat.ofScientific, dif_neg one_ne_zero, hlimit, if_neg (by omega),
      if_neg (by omega), if_pos (by omega)]
    rfl
  rw [powerOfTen, hscientific]
  rfl

/-- A power of ten far from the greatest number is estimated. -/
theorem powerOfTen_estimates (hj : j ≤ 46) : Estimates (powerOfTen j) (10 ^ j) := by
  obtain ⟨u, hround, hpower⟩ := powerOfTen_roundsTo (hj.trans (by norm_num))
  rw [hpower]
  exact Binary64.estimates_ofValue hround (inRange_ten_pow hj)

/-- Zero over a power of ten is zero, also if the power were infinite. -/
theorem zero_div_powerOfTen (hj : j ≤ 308) : 0 / powerOfTen j = 0 := by
  obtain ⟨u, hround, hpower⟩ := powerOfTen_roundsTo hj
  have hdiv (x : Float) : 0 / x = ofValue (.div .binary64 (.zero .positive) (Binary64.value x)) :=
    rfl
  rw [hpower, hdiv]
  cases hround with
  | @mk n m e hm _ _ hcanonical =>
      by_cases hmax : e + 1023 + 52 + 1 < 2048
      · have hvalue : Binary64.value (ofValue (.finite .positive m e hm)) =
            .finite .positive m e hm := Binary.unpack_pack_finite .positive hm hcanonical hmax
        rw [hvalue]
        rfl
      · have hlarge : ofValue (.finite .positive m e hm) = ofValue (.infinity .positive) := by
          have hlimit : 2 ^ Format.binary64.exponentBits ≤
              (e + Format.binary64.exponentBias +
                Format.binary64.mantissaBitsWithoutImplicit).toNat + 1 := by
            show 2048 ≤ (e + 1023 + 52).toNat + 1
            omega
          simp only [ofValue, Float.Model.pack, Binary.pack_of_large .positive hm hlimit]
        rw [hlarge]
        rfl

/-- Powers of ten to the 22nd have no more than 53 digits. -/
theorem isShort_ten_pow (hj : j ≤ 22) : IsShort ((10 : ℚ) ^ j) := by
  refine ⟨5 ^ j, j, ?_, ?_⟩
  · exact lt_of_le_of_lt (Nat.pow_le_pow_right (by norm_num) hj) (by norm_num)
  · rw [zpow_natCast]
    push_cast
    rw [← mul_pow]
    norm_num

/-! ## The computation -/

/-- An estimated factor, and a product that is estimated in turn. -/
theorem product_close {x p c t : ℚ} (hx : 0 < x) (ht : 0 < t) (hp : |p - t| ≤ t / 2 ^ 53)
    (hc : |c - x * p| ≤ x * p / 2 ^ 53) : |c - x * t| ≤ 3 / 2 ^ 53 * (x * t) := by
  have hscaled : |x * p - x * t| ≤ x * t / 2 ^ 53 := by
    rw [← mul_sub, abs_mul, abs_of_pos hx, mul_div_assoc]
    exact mul_le_mul_of_nonneg_left hp hx.le
  have hxt : 0 < x * t := mul_pos hx ht
  obtain ⟨h₁, h₂⟩ := abs_le.mp hscaled
  obtain ⟨h₃, h₄⟩ := abs_le.mp hc
  rw [abs_le]
  constructor <;> linarith

/-- An estimated divisor, and a quotient that is estimated in turn. -/
theorem quotient_close {x p c t : ℚ} (hx : 0 < x) (ht : 0 < t) (hp : |p - t| ≤ t / 2 ^ 53)
    (hc : |c - x / p| ≤ x / p / 2 ^ 53) : |c - x / t| ≤ 3 / 2 ^ 53 * (x / t) := by
  obtain ⟨hlow, hhigh⟩ := abs_le.mp hp
  have hppos : 0 < p := by linarith
  have hxp : 0 < x / p := div_pos hx hppos
  have hxt : x / t = x / p * (p / t) := by field_simp
  have hratio_low : 1 - 1 / 2 ^ 53 ≤ p / t := by
    rw [le_div_iff₀ ht]
    linarith
  have hratio_high : p / t ≤ 1 + 1 / 2 ^ 53 := by
    rw [div_le_iff₀ ht]
    linarith
  have hbelow := mul_le_mul_of_nonneg_left hratio_low hxp.le
  have habove := mul_le_mul_of_nonneg_left hratio_high hxp.le
  rw [← hxt] at hbelow habove
  obtain ⟨h₃, h₄⟩ := abs_le.mp hc
  rw [abs_le]
  constructor <;> linarith

/-- The power of ten that is computed with, at most twice or half as large as it should be. -/
theorem bounds_of_estimate {p t : ℚ} (ht : 0 < t) (hp : |p - t| ≤ t / 2 ^ 53) :
    t / 2 ≤ p ∧ p ≤ 2 * t := by
  obtain ⟨hlow, hhigh⟩ := abs_le.mp hp
  constructor <;> linarith

/-- A product with a power of ten is within three roundings, and exact where it can be. -/
theorem mul_powerOfTen (hn : 0 < n) (hlt : n < 2 ^ 53) (hj : j ≤ 46) :
    ∃ c, Denotes (natFloat n * powerOfTen j) c ∧
      |c - n * 10 ^ j| ≤ 3 / 2 ^ 53 * (n * 10 ^ j) ∧
      (j ≤ 22 → IsShort (n * 10 ^ j) → c = n * 10 ^ j) := by
  have hrange := inRange_natCast hn hlt
  have hten : (0 : ℚ) < 10 ^ j := by positivity
  obtain ⟨p, hp, hclose, hexact⟩ := powerOfTen_estimates hj
  obtain ⟨hlow, hhigh⟩ := bounds_of_estimate hten hclose
  have hproduct : InRange (n * p) := by
    have hone : (1 : ℚ) ≤ n := by exact_mod_cast hn
    have hmax : (n : ℚ) ≤ 2 ^ 53 := by exact_mod_cast hlt.le
    have hfirst : (1 : ℚ) ≤ 10 ^ j := one_le_pow₀ (by norm_num)
    have hlast : (10 : ℚ) ^ j ≤ 10 ^ 46 := pow_le_pow_right₀ (by norm_num) hj
    constructor
    · calc (2 : ℚ) ^ (-250 : ℤ) ≤ 1 * (1 / 2) := by norm_num
        _ ≤ n * p := mul_le_mul hone (by linarith) (by norm_num) (by linarith)
    · calc n * p ≤ 2 ^ 53 * (2 * 10 ^ 46) :=
            mul_le_mul hmax (by linarith) (by linarith) (by norm_num)
        _ ≤ 2 ^ (250 : ℤ) := by norm_num
  obtain ⟨c, hc, hclose', hexact'⟩ :=
    Binary64.mul_estimates (natFloat_denotes hn hlt) hp hrange hproduct
  refine ⟨c, hc, product_close hrange.pos hten hclose hclose', fun hsmall hshort => ?_⟩
  rw [hexact (isShort_ten_pow hsmall)] at hexact'
  exact hexact' hshort

/-- The same of a quotient by a power of ten. -/
theorem div_powerOfTen (hn : 0 < n) (hlt : n < 2 ^ 53) (hj : j ≤ 46) :
    ∃ c, Denotes (natFloat n / powerOfTen j) c ∧
      |c - n / 10 ^ j| ≤ 3 / 2 ^ 53 * (n / 10 ^ j) ∧
      (j ≤ 22 → IsShort (n / 10 ^ j) → c = n / 10 ^ j) := by
  have hrange := inRange_natCast hn hlt
  have hten : (0 : ℚ) < 10 ^ j := by positivity
  obtain ⟨p, hp, hclose, hexact⟩ := powerOfTen_estimates hj
  obtain ⟨hlow, hhigh⟩ := bounds_of_estimate hten hclose
  have hquotient : InRange (n / p) := by
    have hone : (1 : ℚ) ≤ n := by exact_mod_cast hn
    have hmax : (n : ℚ) ≤ 2 ^ 53 := by exact_mod_cast hlt.le
    have hfirst : (1 : ℚ) ≤ 10 ^ j := one_le_pow₀ (by norm_num)
    have hlast : (10 : ℚ) ^ j ≤ 10 ^ 46 := pow_le_pow_right₀ (by norm_num) hj
    constructor
    · calc (2 : ℚ) ^ (-250 : ℤ) ≤ 1 / (2 * 10 ^ 46) := by norm_num
        _ ≤ n / p := div_le_div₀ (by linarith) hone hp.pos (by linarith)
    · calc n / p ≤ 2 ^ 53 / (1 / 2) :=
            div_le_div₀ (by norm_num) hmax (by norm_num) (by linarith)
        _ ≤ 2 ^ (250 : ℤ) := by norm_num
  obtain ⟨c, hc, hclose', hexact'⟩ :=
    Binary64.div_estimates (natFloat_denotes hn hlt) hp hquotient
  refine ⟨c, hc, quotient_close hrange.pos hten hclose hclose', fun hsmall hshort => ?_⟩
  rw [hexact (isShort_ten_pow hsmall)] at hexact'
  exact hexact' hshort

/-- **The computation.**  A decimal far from the ends of binary64 is computed to within three
parts in `2⁵³`, and exactly if it has few binary digits and its power of ten is exact. -/
theorem computed?_close {d : Decimal} (hpos : 0 < d.digits) (hlt : d.digits < 2 ^ 53)
    (hlow : -46 ≤ d.exponent) (hhigh : d.exponent ≤ 46) :
    ∃ y c, computed? d = some y ∧ Denotes y c ∧ |c - d.toRat| ≤ 3 / 2 ^ 53 * d.toRat ∧
      (-22 ≤ d.exponent → d.exponent ≤ 22 → IsShort d.toRat → c = d.toRat) := by
  obtain ⟨n, j | j⟩ := d <;> simp only at hpos hlt hlow hhigh ⊢
  · have hj : j ≤ 46 := Int.ofNat_le.mp hhigh
    have hvalue : Decimal.toRat ⟨n, .ofNat j⟩ = n * 10 ^ j := rfl
    obtain ⟨c, hc, hclose, hexact⟩ := mul_powerOfTen hpos hlt hj
    rw [hvalue]
    refine ⟨_, c, ?_, hc, hclose, fun _ hsmall => hexact (Int.ofNat_le.mp hsmall)⟩
    simp only [computed?, if_neg hpos.ne', if_pos (show j ≤ 308 by omega), hc.isInf]
    rfl
  · have hj : j + 1 ≤ 46 := by omega
    have hvalue : Decimal.toRat ⟨n, .negSucc j⟩ = n / 10 ^ (j + 1) := by
      rw [Decimal.toRat, zpow_negSucc, div_eq_mul_inv]
    obtain ⟨c, hc, hclose, hexact⟩ := div_powerOfTen hpos hlt hj
    rw [hvalue]
    refine ⟨_, c, ?_, hc, hclose, fun hsmall _ => hexact (by omega)⟩
    simp only [computed?, if_pos (show j + 1 ≤ 308 by omega)]

/-- A decimal is refused only if its exponent is large. -/
theorem isSome_computed? {d : Decimal} (hlt : d.digits < 2 ^ 53) (hhigh : d.exponent ≤ 46) :
    (computed? d).isSome = true := by
  obtain ⟨n, j | j⟩ := d
  · rcases Nat.eq_zero_or_pos n with rfl | hpos
    · rfl
    · obtain ⟨y, -, hy, -⟩ := computed?_close hpos hlt
        (le_trans (by norm_num) (Int.natCast_nonneg j)) hhigh
      rw [hy]
      rfl
  · simp only [computed?]
    split_ifs <;> rfl

end Spatial.Json
