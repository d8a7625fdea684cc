import Mathlib
import Spatial.Proofs.Binary.Agreement
import Spatial.Proofs.Binary.Nearest
import Spatial.Proofs.Binary.Order

/-!
# Products keep the order

A number that is not below another is not rounded to a lower one: either both have the
same last digit, and the nearest multiples of it are in order, or the last digit of the
larger one is worth more, and then all multiples of the smaller one's that it can be
rounded to come first.  A number too small for the last digit of the format goes to zero
and one too large for its greatest exponent to infinity, which keeps the order too.

So a product of factors that are finite and not negative grows with each of them.
-/

namespace Spatial.Binary

open Float.Model (Format totalExponent UnpackedFloat)
open Float.Model.UnpackedFloat

variable {S : Format} {r r' : ℚ} {u u' : UnpackedFloat}

/-- A larger number has no smaller last digit. -/
theorem lastExponent_mono (hr : 0 < r) (h : r ≤ r') : lastExponent S r ≤ lastExponent S r' := by
  have hlog := Int.log_mono_right (b := 2) hr h
  rw [lastExponent, lastExponent, Format.targetExponent, Format.targetExponent]
  omega

/-- The nearest integer of a larger number is no smaller. -/
theorem IsNearest.mono {m n : ℕ} (hm : IsNearest m r) (hn : IsNearest n r') (h : r ≤ r') :
    m ≤ n := by
  by_contra hlt
  have hsucc : (n : ℚ) + 1 ≤ m := by exact_mod_cast not_le.mp hlt
  have hequal : r = r' := by linarith [hm.lower, hn.upper]
  subst hequal
  exact hn.not_lt hm (not_le.mp hlt)

/-- The values of two rounded numbers are in order. -/
theorem RoundsTo.value_le {s t : Sign} {m n : ℕ} {e f : ℤ} {hm : 0 < m} {hn : 0 < n}
    (h : RoundsTo S s r (.finite s m e hm)) (h' : RoundsTo S t r' (.finite t n f hn))
    (hmin : (2 : ℚ) ^ (S.minExponent - 1) < r) (hle : r ≤ r') :
    (m : ℚ) * 2 ^ e ≤ n * 2 ^ f := by
  obtain ⟨-, hi, hvalue, -⟩ := h
  obtain ⟨-, hj, hvalue', -⟩ := h'
  rename_i i j
  have hr : 0 < r := lt_trans (by positivity) hmin
  obtain ⟨-, hi_le, -⟩ := hi.bounds hmin
  obtain ⟨-, -, hfull⟩ := hj.bounds (hmin.trans_le hle)
  have hfirst := (last_digits S hr).1
  rw [hvalue, hvalue']
  rcases (lastExponent_mono (S := S) hr hle).eq_or_lt with hequal | hless
  · rw [← hequal] at hj ⊢
    have hij := hi.mono hj (by gcongr)
    gcongr
  · -- All multiples of the smaller last digit come before the ones of the larger.
    have hj_full : 2 ^ S.mantissaBitsWithoutImplicit ≤ j := hfull.resolve_left (by omega)
    have hi_le' : (i : ℚ) ≤ 2 ^ (S.mantissaBitsWithoutImplicit : ℤ) * 2 := by
      rw [← zpow_add_one₀ two_ne_zero, ← Nat.cast_succ, zpow_natCast]
      rw [Format.mantissaBits, Nat.add_comm] at hi_le
      exact_mod_cast hi_le
    have hj_full' : (2 : ℚ) ^ (S.mantissaBitsWithoutImplicit : ℤ) ≤ j := by
      rw [zpow_natCast]
      exact_mod_cast hj_full
    calc (i : ℚ) * 2 ^ lastExponent S r
        ≤ 2 ^ (S.mantissaBitsWithoutImplicit : ℤ) * 2 * 2 ^ lastExponent S r := by gcongr
      _ = 2 ^ (S.mantissaBitsWithoutImplicit : ℤ) * 2 ^ (lastExponent S r + 1) := by
          rw [zpow_add_one₀ two_ne_zero]
          ring
      _ ≤ j * 2 ^ lastExponent S r' := by
          gcongr
          · exact one_le_two
          · omega

/-- Positive numbers in canonical form are in the order of exponent and digits. -/
theorem rank_finite_le_iff {m n : ℕ} {e f : ℤ} {hm : 0 < m} {hn : 0 < n} :
    rank (.finite .positive m e hm) ≤ rank (.finite .positive n f hn) ↔
      e < f ∨ e = f ∧ m ≤ n := by
  simp [rank, Prod.Lex.toLex_le_toLex]

/-- Negative numbers are in the opposite order of their magnitudes. -/
theorem rank_negative_le_iff {m n : ℕ} {e f : ℤ} {hm : 0 < m} {hn : 0 < n} :
    rank (.finite .negative n f hn) ≤ rank (.finite .negative m e hm) ↔
      rank (.finite .positive m e hm) ≤ rank (.finite .positive n f hn) := by
  simp [rank, Prod.Lex.toLex_le_toLex, eq_comm]

/-- Numbers of the format stand as their values do. -/
theorem rank_le_iff {m n : ℕ} {e f : ℤ} {hm : 0 < m} {hn : 0 < n}
    (he : S.targetExponent (totalExponent m e) = e)
    (hf : S.targetExponent (totalExponent n f) = f) :
    rank (.finite .positive m e hm) ≤ rank (.finite .positive n f hn) ↔
      (m : ℚ) * 2 ^ e ≤ n * 2 ^ f := by
  have hlast := lastExponent_eq_of_canonical hm he
  have hlast' := lastExponent_eq_of_canonical hn hf
  rw [rank_finite_le_iff]
  constructor
  · rintro hless
    by_contra hgreater
    rw [not_le] at hgreater
    have hexponent := lastExponent_mono (S := S) (by positivity) hgreater.le
    rw [hlast, hlast'] at hexponent
    obtain ⟨rfl, hmn⟩ := hless.resolve_left (by omega)
    have : (m : ℚ) * 2 ^ e ≤ n * 2 ^ e := by gcongr
    linarith
  · intro hle
    have hexponent := lastExponent_mono (S := S) (by positivity) hle
    rw [hlast, hlast'] at hexponent
    rcases hexponent.lt_or_eq with hless | rfl
    · exact .inl hless
    · exact .inr ⟨rfl, by exact_mod_cast le_of_mul_le_mul_right hle (by positivity)⟩

/-- What a number that is not negative is rounded to. -/
inductive Rounded (S : Format) (r : ℚ) : UnpackedFloat → Prop
  | zero (s : Sign) (h : r ≤ 2 ^ (S.minExponent - 1)) : Rounded S r (.zero s)
  | finite {m : ℕ} {e : ℤ} {hm : 0 < m} (h : 2 ^ (S.minExponent - 1) < r)
      (hu : RoundsTo S .positive r (.finite .positive m e hm)) :
      Rounded S r (.finite .positive m e hm)

/-- What a number is rounded to is in canonical form. -/
theorem RoundsTo.canonical {s : Sign} (h : RoundsTo S s r u) : Canonical S u := by
  obtain ⟨-, -, -, hcanonical⟩ := h
  exact hcanonical

/-- **Rounding keeps the order.** -/
theorem Rounded.rank_le (h : Rounded S r u) (h' : Rounded S r' u') (hle : r ≤ r') :
    rank u ≤ rank u' := by
  cases h with
  | zero s =>
      cases h' with
      | zero t => exact le_rfl
      | finite => exact Prod.Lex.toLex_le_toLex.mpr (.inl zero_lt_one)
  | finite hmin hu =>
      cases h' with
      | zero t hmax => exact absurd (hmin.trans_le hle) hmax.not_gt
      | finite _ hu' => exact (rank_le_iff hu.canonical hu'.canonical).mpr (hu.value_le hu' hmin hle)

end Spatial.Binary

namespace Spatial.Binary32

open Float.Model (Format totalExponent UnpackedFloat)
open Float.Model.UnpackedFloat (Sign)
open Binary (Rounded rank lastExponent)

variable {x y z : Float32} {a b r r' : ℚ} {u v : UnpackedFloat}

/-! ## Magnitudes -/

/-- The value is finite and not below zero, and is a given rational number. -/
inductive Magnitude : ℚ → UnpackedFloat → Prop
  | zero (s : Sign) : Magnitude 0 (.zero s)
  | finite {m : ℕ} {e : ℤ} (hm : 0 < m)
      (hcanonical : Format.binary32.targetExponent (totalExponent m e) = e) :
      Magnitude (m * 2 ^ e) (.finite .positive m e hm)

/-- A finite number that is not below zero is a magnitude. -/
theorem exists_magnitude (hfinite : x.isFinite = true) (hnonneg : 0 ≤ x) :
    ∃ a, Magnitude a (value x) := by
  obtain ⟨-, -, hrank⟩ := le_iff_rank.mp hnonneg
  have hcanonical := canonical_value x
  rw [value_zero] at hrank
  rcases finite_cases hfinite with ⟨s, hx⟩ | ⟨s, m, e, hm, hx⟩
  · exact ⟨0, hx ▸ .zero s⟩
  · rw [hx] at hrank hcanonical ⊢
    cases s with
    | positive => exact ⟨_, .finite hm hcanonical⟩
    | negative =>
        have hbelow : rank (.finite .negative m e hm) < rank (.zero .positive) :=
          Prod.Lex.toLex_lt_toLex.mpr (.inl (by norm_num))
        exact absurd hrank hbelow.not_ge

/-- A magnitude is not below zero. -/
theorem Magnitude.nonneg (h : Magnitude a u) : 0 ≤ a := by
  cases h <;> positivity

/-- A number with a magnitude is finite. -/
theorem Magnitude.isFinite (h : Magnitude a (value x)) : x.isFinite = true := by
  rw [isFinite_eq]
  generalize value x = u at h ⊢
  cases h <;> rfl

/-- Magnitudes stand as their values do. -/
theorem Magnitude.le_of_rank_le (h : Magnitude a u) (h' : Magnitude b v) (hle : rank u ≤ rank v) :
    a ≤ b := by
  cases h with
  | zero => exact h'.nonneg
  | finite hm hcanonical =>
      cases h' with
      | zero s =>
          refine absurd hle (not_le.mpr ?_)
          exact Prod.Lex.toLex_lt_toLex.mpr (.inl zero_lt_one)
      | finite hn hcanonical' => exact (Binary.rank_le_iff hcanonical hcanonical').mp hle

/-- A finite number has a magnitude. -/
theorem exists_magnitude_abs (h : x.isFinite = true) : ∃ r, Magnitude r (value x.abs) := by
  have hcanonical := canonical_value x
  rw [value_abs]
  rcases finite_cases h with ⟨s, hx⟩ | ⟨s, m, e, hm, hx⟩
  · rw [hx]
    exact ⟨0, .zero _⟩
  · rw [hx] at hcanonical ⊢
    exact ⟨_, .finite hm hcanonical⟩

/-- Two magnitudes of which neither is above the other are one. -/
theorem abs_eq_of_not_lt (hx : x.isNaN = false) (hy : y.isNaN = false) (hxy : ¬y.abs < x.abs)
    (hyx : ¬x.abs < y.abs) : x.abs = y.abs := by
  rw [not_lt_iff, isNaN_abs, isNaN_abs, hx, hy] at hxy hyx
  have hle := (le_iff_rank.mp (hxy.resolve_right nofun)).2.2
  have hge := (le_iff_rank.mp (hyx.resolve_right nofun)).2.2
  have hequal : (x.abs == y.abs) = true :=
    beq_iff_rank.mpr ⟨(isNaN_abs x).trans hx, (isNaN_abs y).trans hy, hle.antisymm hge⟩
  rcases (agree_iff _ _).mp (.inl hequal) with h | ⟨⟨s, hs⟩, t, ht⟩
  · exact h
  · apply value_injective
    rw [value_abs] at hs ht ⊢
    rw [value_abs]
    cases hu : value x <;> rw [hu] at hs <;> cases hs
    cases hv : value y <;> rw [hv] at ht <;> cases ht
    rfl

/-! ## Rounded magnitudes -/

/-- A product that is too small for the last digit of the format. -/
theorem round_small {m : ℕ} {e : ℤ} (s : Sign) (hm : 0 < m)
    (hsmall : (m : ℚ) * 2 ^ e ≤ 2 ^ (-150 : ℤ)) :
    UnpackedFloat.roundWithAccuracy .binary32 s m e .exact = .zero s := by
  have hone : (1 : ℚ) ≤ m := by exact_mod_cast hm
  have hexponent : e ≤ -150 := by
    have hle : (2 : ℚ) ^ e ≤ 2 ^ (-150 : ℤ) :=
      (le_mul_of_one_le_left (by positivity) hone).trans hsmall
    exact (zpow_le_zpow_iff_right₀ one_lt_two).mp hle
  have hlast : e ≤ lastExponent .binary32 ((m : ℚ) * 2 ^ e) :=
    (by omega : e ≤ -149).trans (le_max_right _ _)
  exact Binary.roundWithAccuracy_zero s (Binary.approximates_exact m) (.inl hone) hlast
    (Binary.isNearest_zero_of_le (by positivity) hsmall)

/-- A number of binary32 with few digits has the least exponent. -/
theorem exponent_of_few_digits {m : ℕ} {e : ℤ} (hm : 0 < m)
    (hcanonical : Format.binary32.targetExponent (totalExponent m e) = e) (h : m < 2 ^ 23) :
    e = -149 := by
  have hform : max ((m.log2 : ℤ) + 1 + e - 24) (-149) = e := hcanonical
  have hlog := (Nat.log2_lt hm.ne').mpr h
  omega

/-- Only products that are far too small have fewer digits than the format. -/
theorem digits_of_product {m n : ℕ} {e f : ℤ} (hm : 0 < m) (hn : 0 < n)
    (hcanonical : Format.binary32.targetExponent (totalExponent m e) = e)
    (hcanonical' : Format.binary32.targetExponent (totalExponent n f) = f)
    (hlarge : (2 : ℚ) ^ (-150 : ℤ) < m * 2 ^ e * (n * 2 ^ f)) : 2 ^ 23 ≤ m * n := by
  by_contra hfew
  have hm_lt : m < 2 ^ 23 := lt_of_le_of_lt (Nat.le_mul_of_pos_right m hn) (not_le.mp hfew)
  have hn_lt : n < 2 ^ 23 := lt_of_le_of_lt (Nat.le_mul_of_pos_left n hm) (not_le.mp hfew)
  rw [exponent_of_few_digits hm hcanonical hm_lt, exponent_of_few_digits hn hcanonical' hn_lt]
    at hlarge
  have hproduct : (m : ℚ) * n ≤ 2 ^ 23 := by exact_mod_cast (not_le.mp hfew).le
  have hless : (m : ℚ) * 2 ^ (-149 : ℤ) * (n * 2 ^ (-149 : ℤ)) ≤ 2 ^ (-150 : ℤ) := by
    calc (m : ℚ) * 2 ^ (-149 : ℤ) * (n * 2 ^ (-149 : ℤ))
        = m * n * (2 ^ (-149 : ℤ) * 2 ^ (-149 : ℤ)) := by ring
      _ ≤ 2 ^ 23 * (2 ^ (-149 : ℤ) * 2 ^ (-149 : ℤ)) := by gcongr
      _ ≤ 2 ^ (-150 : ℤ) := by norm_num
  exact absurd hlarge hless.not_gt

/-- A product of magnitudes is rounded once. -/
theorem Magnitude.mul (h : Magnitude a u) (h' : Magnitude b v) :
    Rounded .binary32 (a * b) (UnpackedFloat.mul .binary32 u v) := by
  have hzero (s : Sign) : Rounded .binary32 0 (.zero s) := .zero s (by positivity)
  cases h with
  | zero s =>
      rw [zero_mul]
      cases h' <;> exact hzero _
  | finite hm hcanonical =>
      cases h' with
      | zero t =>
          rw [mul_zero]
          exact hzero _
      | @finite n f hn hcanonical' =>
          rename_i m e
          rcases le_or_gt ((m : ℚ) * 2 ^ e * (n * 2 ^ f)) (2 ^ (-150 : ℤ)) with hsmall | hlarge
          · have hproduct : (m : ℚ) * 2 ^ e * (n * 2 ^ f) = (m * n : ℕ) * 2 ^ (e + f) := by
              rw [zpow_add₀ two_ne_zero]
              push_cast
              ring
            have hrounded : UnpackedFloat.mul .binary32 (.finite .positive m e hm)
                (.finite .positive n f hn) = .zero .positive :=
              round_small .positive (Nat.mul_pos hm hn) (hproduct ▸ hsmall)
            rw [hrounded]
            exact .zero _ hsmall
          · have hround := Binary.mul_roundsTo .binary32 .positive .positive hm hn e f
              (digits_of_product hm hn hcanonical hcanonical' hlarge) hlarge
            generalize UnpackedFloat.mul .binary32 (.finite .positive m e hm)
              (.finite .positive n f hn) = w at hround ⊢
            cases hround with
            | mk hk hi hvalue hform => exact .finite hlarge (.mk hk hi hvalue hform)

/-! ## Packed magnitudes -/

/-- Beyond the greatest exponent of binary32 a number is infinite. -/
def saturate : UnpackedFloat → UnpackedFloat
  | .finite s m e hm => if e ≤ 104 then .finite s m e hm else .infinity s
  | u => u

/-- A rounded number is packed up to the greatest exponent, and beyond it as infinity. -/
theorem value_ofValue_roundsTo {s : Sign} (h : Binary.RoundsTo .binary32 s r u) :
    value (ofValue u) = saturate u := by
  have hcanonical := h.canonical
  cases h with
  | @mk n m e hm =>
      rw [saturate]
      split_ifs with he
      · refine Binary.unpack_pack_finite s hm hcanonical ?_
        show e + 127 + 23 + 1 < 256
        omega
      · have hlimit : 2 ^ Format.binary32.exponentBits ≤
            (e + Format.binary32.exponentBias +
              Format.binary32.mantissaBitsWithoutImplicit).toNat + 1 := by
          show 256 ≤ (e + 127 + 23).toNat + 1
          omega
        have hequal : ofValue (.finite s m e hm) = ofValue (.infinity s) := by
          simp only [ofValue, Float32.Model.pack, Binary.pack_of_large s hm hlimit]
        rw [hequal, value_ofValue_infinity]

/-- The same of a number that may be rounded to zero. -/
theorem value_ofValue_rounded (h : Rounded .binary32 r u) : value (ofValue u) = saturate u := by
  cases h with
  | zero s => exact value_ofValue_zero s
  | finite _ hu => exact value_ofValue_roundsTo hu

/-- Making infinite what is too large keeps the order. -/
theorem rank_saturate_le (h : Rounded .binary32 r u) (h' : Rounded .binary32 r' v)
    (hle : rank u ≤ rank v) : rank (saturate u) ≤ rank (saturate v) := by
  have hinfinite (m : ℕ) (e : ℤ) (hm : 0 < m) :
      rank (.finite .positive m e hm) ≤ rank (.infinity .positive) :=
    Prod.Lex.toLex_le_toLex.mpr (.inl one_lt_two)
  cases h with
  | zero s =>
      cases h' with
      | zero t => exact le_rfl
      | @finite n f hn =>
          have hself : saturate (.zero s) = .zero s := rfl
          rw [hself, saturate]
          split_ifs
          · exact hle
          · exact Prod.Lex.toLex_le_toLex.mpr (.inl two_pos)
  | @finite m e hm =>
      cases h' with
      | zero t => exact absurd hle (not_le.mpr (Prod.Lex.toLex_lt_toLex.mpr (.inl zero_lt_one)))
      | @finite n f hn =>
          rw [saturate, saturate]
          split_ifs with he hf hf
          · exact hle
          · exact hinfinite m e hm
          · rcases Binary.rank_finite_le_iff.mp hle with hless | ⟨rfl, -⟩ <;> omega
          · exact le_rfl

/-- What is rounded and packed is a number. -/
theorem isNaN_ofValue_rounded (h : Rounded .binary32 r u) : (ofValue u).isNaN = false := by
  rw [isNaN_ofValue]
  cases h <;> rfl

/-- **Products of magnitudes keep the order.** -/
theorem mul_le_mul_left (hx : Magnitude a (value x)) (hy : Magnitude b (value y))
    (hz : Magnitude r (value z)) (h : y ≤ z) : x * y ≤ x * z := by
  obtain ⟨-, -, hrank⟩ := le_iff_rank.mp h
  have hvalues := mul_le_mul_of_nonneg_left (hy.le_of_rank_le hz hrank) hx.nonneg
  have hxy := hx.mul hy
  have hxz := hx.mul hz
  rw [le_iff_rank, mul_eq, mul_eq]
  refine ⟨isNaN_ofValue_rounded hxy, isNaN_ofValue_rounded hxz, ?_⟩
  rw [value_ofValue_rounded hxy, value_ofValue_rounded hxz]
  exact rank_saturate_le hxy hxz (hxy.rank_le hxz hvalues)

/-! Infinity. -/

/-- No number is above infinity. -/
theorem le_of_infinity (hx : x.isNaN = false) (hy : value y = .infinity .positive) : x ≤ y := by
  have hy_number : y.isNaN = false := by
    rw [isNaN_eq, hy]
    rfl
  refine le_iff_rank.mpr ⟨hx, hy_number, ?_⟩
  rw [hy]
  cases value x with
  | notANumber | zero => exact Prod.Lex.toLex_le_toLex.mpr (.inl two_pos)
  | infinity s =>
      cases s with
      | negative => exact Prod.Lex.toLex_le_toLex.mpr (.inl (by norm_num))
      | positive => exact le_rfl
  | finite s m e hm =>
      cases s with
      | negative => exact Prod.Lex.toLex_le_toLex.mpr (.inl (by norm_num))
      | positive => exact Prod.Lex.toLex_le_toLex.mpr (.inl one_lt_two)

/-- A number that is not below zero is a magnitude or infinity. -/
theorem magnitude_or_infinity (h : 0 ≤ x) :
    (∃ a, Magnitude a (value x)) ∨ value x = .infinity .positive := by
  cases hfinite : x.isFinite with
  | true => exact .inl (exists_magnitude hfinite h)
  | false =>
      obtain ⟨-, hnumber, hrank⟩ := le_iff_rank.mp h
      rw [value_zero] at hrank
      rcases not_finite_cases hfinite with ⟨s, hx⟩ | hx
      · cases s with
        | positive => exact .inr hx
        | negative =>
            rw [hx] at hrank
            have hbelow : rank (.infinity .negative) < rank (.zero .positive) :=
              Prod.Lex.toLex_lt_toLex.mpr (.inl (by norm_num))
            exact absurd hrank hbelow.not_ge
      · rw [(isNaN_iff x).mpr hx] at hnumber
        cases hnumber

/-- Infinity times a positive number is infinity. -/
theorem value_mul_infinity {m : ℕ} {e : ℤ} {hm : 0 < m}
    (hx : value x = .finite .positive m e hm) (hy : value y = .infinity .positive) :
    value (x * y) = .infinity .positive := by
  rw [mul_eq, hx, hy]
  exact value_ofValue_infinity _

end Spatial.Binary32
