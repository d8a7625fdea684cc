import Mathlib
import Spatial.Proofs.Binary.Arithmetic
import Spatial.Proofs.Binary.Nearest

/-!
# Estimates in binary64

What is known of a product, a quotient and a converted number, for positive numbers far
from both ends of the format.

1.  A result is within one part in `2⁵³` of the exact one, and equal to it if that has no
    more than 53 binary digits.
2.  A natural number below `2⁵³` is converted exactly, and a power of ten is rounded once.
3.  A number of binary64 that lies nearest to a number of binary32 is narrowed to it, with
    its sign.  Next to a power of two the interval reaches only half as far downwards.
-/

namespace Spatial.Binary64

open Float.Model (Format UnpackedFloat totalExponent)
open Float.Model.UnpackedFloat (Sign)
open Binary (RoundsTo IsNearest)

/-- What a number unpacks to. -/
def value (x : Float) : UnpackedFloat := x.toModel.unpack

/-- The number that a value packs to. -/
def ofValue (u : UnpackedFloat) : Float := .ofModel (.pack u)

/-- The number is finite and not zero, and has a given sign and a given magnitude. -/
def HasMagnitude (x : Float) (s : Sign) (r : ℚ) : Prop :=
  ∃ (m : ℕ) (e : ℤ) (hm : 0 < m), value x = .finite s m e hm ∧ r = m * 2 ^ e

/-- The number is finite and positive, and is a given rational number. -/
abbrev Denotes (x : Float) (r : ℚ) : Prop := HasMagnitude x .positive r

/-- The number has no more than 53 binary digits. -/
def IsShort (r : ℚ) : Prop := ∃ (n : ℕ) (j : ℤ), n < 2 ^ 53 ∧ r = n * 2 ^ j

/-- The number is within one part in `2⁵³` of a given one, and equal to a short one. -/
def Estimates (x : Float) (r : ℚ) : Prop :=
  ∃ c, Denotes x c ∧ |c - r| ≤ r / 2 ^ 53 ∧ (IsShort r → c = r)

/-- The number is far from both ends of the format. -/
structure InRange (r : ℚ) : Prop where
  low : 2 ^ (-250 : ℤ) ≤ r
  high : r ≤ 2 ^ (250 : ℤ)

variable {x y : Float} {a b r : ℚ} {m : ℕ} {e : ℤ}

/-- A number far from both ends is positive. -/
theorem InRange.pos (h : InRange r) : 0 < r := lt_of_lt_of_le (by positivity) h.low

/-- What a number of binary64 unpacks to is in canonical form. -/
theorem canonical_value (x : Float) : Binary.Canonical .binary64 (value x) :=
  (Binary.unpacks_unpack (S := .binary64) x.toModel.toBits.toBitVec).canonical

/-- A positive number denotes a positive number. -/
theorem Denotes.pos (h : Denotes x r) : 0 < r := by
  obtain ⟨m, e, hm, -, rfl⟩ := h
  positivity

/-! The exponents of the format. -/

/-- The exponents of binary64: 53 digits, and none below `2⁻¹⁰⁷⁴`. -/
theorem targetExponent_eq (t : ℤ) : Format.binary64.targetExponent t = max (t - 53) (-1074) := rfl

/-- Far from the least exponent a number of the format has all its digits. -/
theorem digits_of_canonical
    (hcanonical : Format.binary64.targetExponent (totalExponent m e) = e)
    (hrange : InRange (m * 2 ^ e)) : m.log2 = 52 := by
  rw [targetExponent_eq, totalExponent] at hcanonical
  by_contra hlog
  have he : e = -1074 := by omega
  have hm' : (m : ℚ) < (2 ^ (m.log2 + 1) : ℕ) := by exact_mod_cast @Nat.lt_log2_self m
  have hlow := hrange.low
  have hless : (m : ℚ) * 2 ^ e < 2 ^ ((m.log2 : ℤ) + 1 + e) := by
    rw [zpow_add₀ two_ne_zero]
    push_cast at hm'
    gcongr
    exact_mod_cast hm'
  have hexponent := (zpow_lt_zpow_iff_right₀ one_lt_two).mp (lt_of_le_of_lt hlow hless)
  omega

/-- A number with few digits, far from both ends, is a number of the format. -/
theorem IsShort.exists_canonical (h : IsShort r) (hrange : InRange r) :
    ∃ (m : ℕ) (e : ℤ), 0 < m ∧ Format.binary64.targetExponent (totalExponent m e) = e ∧
      r = m * 2 ^ e := by
  obtain ⟨n, j, hn, rfl⟩ := h
  have hpos : 0 < n := by
    by_contra hzero
    obtain rfl : n = 0 := by omega
    simpa using hrange.pos
  have hlog : n.log2 < 53 := (Nat.log2_lt hpos.ne').mpr hn
  obtain ⟨k, hk⟩ : ∃ k, n.log2 + k = 52 := ⟨52 - n.log2, by omega⟩
  have htotal : totalExponent (n * 2 ^ k) (j - k) = n.log2 + 1 + j :=
    Binary.totalExponent_scaled hpos j k
  have hless : (2 : ℚ) ^ (-250 : ℤ) < 2 ^ ((n.log2 : ℤ) + 1 + j) := by
    refine lt_of_le_of_lt hrange.low ?_
    rw [zpow_add₀ two_ne_zero]
    gcongr
    exact_mod_cast @Nat.lt_log2_self n
  have hexponent := (zpow_lt_zpow_iff_right₀ one_lt_two).mp hless
  refine ⟨n * 2 ^ k, j - k, by positivity, ?_, ?_⟩
  · rw [htotal, targetExponent_eq]
    omega
  · rw [zpow_sub₀ two_ne_zero, zpow_natCast]
    push_cast
    field_simp

/-- Unpacking undoes packing, for a positive number below the greatest exponent. -/
theorem value_ofValue_finite (s : Sign) (hm : 0 < m)
    (hcanonical : Format.binary64.targetExponent (totalExponent m e) = e)
    (hhigh : (m : ℚ) * 2 ^ e ≤ 2 ^ (251 : ℤ)) :
    value (ofValue (.finite s m e hm)) = .finite s m e hm := by
  have hpos : (0 : ℚ) < m * 2 ^ e := by positivity
  have hlog : Int.log 2 ((m : ℚ) * 2 ^ e) ≤ 251 := by
    have hmono := Int.log_mono_right (b := 2) hpos hhigh
    rwa [← Nat.cast_two (R := ℚ), Int.log_zpow one_lt_two] at hmono
  have hlast := Binary.lastExponent_eq_of_canonical hm hcanonical
  rw [Binary.lastExponent, targetExponent_eq] at hlast
  refine Binary.unpack_pack_finite s hm hcanonical ?_
  show e + 1023 + 52 + 1 < 2048
  omega

/-- What a number far from both ends is rounded to. -/
theorem close_of_roundsTo {s : Sign} {u : UnpackedFloat} (h : RoundsTo .binary64 s r u)
    (hrange : InRange r) :
    ∃ (m : ℕ) (e : ℤ) (hm : 0 < m), u = .finite s m e hm ∧
      Format.binary64.targetExponent (totalExponent m e) = e ∧ |m * 2 ^ e - r| ≤ r / 2 ^ 53 ∧
      (IsShort r → (m : ℚ) * 2 ^ e = r) := by
  have hlow := (Int.zpow_le_iff_le_log one_lt_two hrange.pos).mp (by exact_mod_cast hrange.low)
  have hbelow := Int.zpow_log_le_self one_lt_two hrange.pos
  push_cast at hbelow
  have hlast : Binary.lastExponent .binary64 r = Int.log 2 r - 52 := by
    rw [Binary.lastExponent, targetExponent_eq]
    omega
  obtain ⟨m, e, hm, rfl, hcanonical⟩ : ∃ (m : ℕ) (e : ℤ) (hm : 0 < m),
      u = .finite s m e hm ∧ Format.binary64.targetExponent (totalExponent m e) = e := by
    cases h with
    | mk hm _ _ hcanonical => exact ⟨_, _, hm, rfl, hcanonical⟩
  refine ⟨m, e, hm, rfl, hcanonical, ?_, fun hshort => ?_⟩
  · refine h.abs_sub_le.trans ?_
    rw [hlast, zpow_sub₀ two_ne_zero, div_div, ← zpow_natCast]
    norm_num
    linarith
  · obtain ⟨n, f, hn, hcanonical', rfl⟩ := hshort.exists_canonical hrange
    have heq := h.exact hn hcanonical'
    injection heq with _ hm' he'
    rw [hm', he']

/-- **Estimates.**  A packed number that a number far from both ends is rounded to. -/
theorem magnitude_ofValue {s : Sign} {u : UnpackedFloat} (h : RoundsTo .binary64 s r u)
    (hrange : InRange r) :
    value (ofValue u) = u ∧
      ∃ c, HasMagnitude (ofValue u) s c ∧ |c - r| ≤ r / 2 ^ 53 ∧ (IsShort r → c = r) := by
  obtain ⟨m, e, hm, rfl, hcanonical, hclose, hexact⟩ := close_of_roundsTo h hrange
  have hhigh : (m : ℚ) * 2 ^ e ≤ 2 ^ (251 : ℤ) := by
    have hdouble : (2 : ℚ) ^ (251 : ℤ) = 2 ^ (250 : ℤ) * 2 := by
      rw [← zpow_add_one₀ two_ne_zero]
      norm_num
    have hmax := hrange.high
    have hpos := hrange.pos
    have habove := (abs_le.mp hclose).2
    rw [hdouble]
    linarith
  have hvalue := value_ofValue_finite s hm hcanonical hhigh
  exact ⟨hvalue, _, ⟨m, e, hm, hvalue, rfl⟩, hclose, hexact⟩

/-- A number far from both ends, rounded once, is estimated. -/
theorem estimates_ofValue {u : UnpackedFloat} (h : RoundsTo .binary64 .positive r u)
    (hrange : InRange r) : Estimates (ofValue u) r :=
  (magnitude_ofValue h hrange).2

/-- A natural number with no more than 53 digits is far from both ends. -/
theorem inRange_natCast {n : ℕ} (hn : 0 < n) (hlt : n < 2 ^ 53) : InRange (n : ℚ) := by
  have hone : (1 : ℚ) ≤ n := by exact_mod_cast hn
  have hmax : (n : ℚ) < 2 ^ 53 := by exact_mod_cast hlt
  constructor
  · exact le_trans (by norm_num) hone
  · exact hmax.le.trans (by norm_num)

/-- Far from the ends a number is above what binary64 rounds to zero. -/
theorem InRange.least_lt (h : InRange r) : (2 : ℚ) ^ (Format.binary64.minExponent - 1) < r :=
  lt_of_lt_of_le (zpow_lt_zpow_right₀ one_lt_two (by decide)) h.low

/-- A number in any form is rounded once. -/
theorem estimates_round {m : ℕ} {e : ℤ} (hm : 0 < m) (h : InRange (m * 2 ^ e)) :
    Estimates (ofValue (.round .binary64 .positive m e)) (m * 2 ^ e) :=
  estimates_ofValue (Binary.round_roundsTo .binary64 .positive hm e h.least_lt) h

/-- A number with few digits is not rounded. -/
theorem denotes_round {m : ℕ} {e : ℤ} (hm : 0 < m) (hm_lt : m < 2 ^ 53)
    (h : InRange (m * 2 ^ e)) : Denotes (ofValue (.round .binary64 .positive m e)) (m * 2 ^ e) := by
  obtain ⟨c, hc, -, hshort⟩ := estimates_round hm h
  rwa [hshort ⟨m, e, hm_lt, rfl⟩] at hc

/-! The operations. -/

/-- A product of two numbers is estimated. -/
theorem mul_estimates (hx : Denotes x a) (hy : Denotes y b) (ha : InRange a)
    (hab : InRange (a * b)) : Estimates (x * y) (a * b) := by
  obtain ⟨m, e, hm, hvx, rfl⟩ := hx
  obtain ⟨n, f, hn, hvy, rfl⟩ := hy
  have hcanonical := canonical_value x
  rw [hvx] at hcanonical
  have hdigits : 2 ^ 52 ≤ m * n := by
    have hlog := digits_of_canonical hcanonical ha
    have hlow := Nat.log2_self_le hm.ne'
    rw [hlog] at hlow
    exact hlow.trans (Nat.le_mul_of_pos_right m hn)
  have hmin : (2 : ℚ) ^ (Format.binary64.minExponent - 1) < m * 2 ^ e * (n * 2 ^ f) :=
    lt_of_lt_of_le (zpow_lt_zpow_right₀ one_lt_two (by decide)) hab.low
  have hround := Binary.mul_roundsTo .binary64 .positive .positive hm hn e f hdigits hmin
  have hproduct : x * y = ofValue (.mul .binary64 (value x) (value y)) := rfl
  rw [hproduct, hvx, hvy]
  exact estimates_ofValue hround hab

/-- A quotient of two numbers is estimated. -/
theorem div_estimates (hx : Denotes x a) (hy : Denotes y b) (hab : InRange (a / b)) :
    Estimates (x / y) (a / b) := by
  obtain ⟨m, e, hm, hvx, rfl⟩ := hx
  obtain ⟨n, f, hn, hvy, rfl⟩ := hy
  have hround := Binary.div_roundsTo .binary64 .positive .positive hm hn e f hab.least_lt
  have hquotient : x / y = ofValue (.div .binary64 (value x) (value y)) := rfl
  rw [hquotient, hvx, hvy]
  exact estimates_ofValue hround hab

/-- A number that denotes one is not infinite. -/
theorem Denotes.isInf (h : Denotes x r) : x.isInf = false := by
  obtain ⟨m, e, hm, hvx, -⟩ := h
  show (value x).isInf = false
  rw [hvx]
  rfl

/-! Narrowing. -/

/-- Unpacking, packing and unpacking again gives the same value. -/
theorem value_ofValue_value (x : Float) : value (ofValue (value x)) = value x :=
  congrArg (Float.Model.UnpackedFloat.unpack .binary64)
    ((Binary.unpacks_unpack (S := .binary64) x.toModel.toBits.toBitVec).pack_eq
      (by decide) x.toModel.valid)

/-- The value of a negation is the negation of the value. -/
theorem value_neg (x : Float) : value (-x) = (value x).neg := by
  have hneg : value (-x) = value (ofValue (value x).neg) := rfl
  have hpacked : value (ofValue (value x).neg) = (value (ofValue (value x))).neg :=
    Binary.unpack_pack_neg (value x)
  rw [hneg, hpacked, value_ofValue_value]

/-- Numbers that unpack to the same value are narrowed to the same number. -/
theorem narrow_congr (h : value x = value y) :
    Spatial.Binary.narrow x = Spatial.Binary.narrow y := by
  show Binary32.ofValue (Spatial.Binary.convert .binary32 (value x)) = _
  rw [h]
  rfl

/-- A negation has the other sign and the same magnitude. -/
theorem HasMagnitude.neg {s : Sign} (h : HasMagnitude x s r) : HasMagnitude (-x) (-s) r := by
  obtain ⟨m, e, hm, hvx, rfl⟩ := h
  exact ⟨m, e, hm, by rw [value_neg, hvx]; rfl, rfl⟩

/-- A number is narrowed by rounding it once more. -/
theorem narrow_roundsTo {s : Sign} (hx : HasMagnitude x s r)
    (hmin : (2 : ℚ) ^ (Format.binary32.minExponent - 1) < r) :
    ∃ u, RoundsTo .binary32 s r u ∧ Spatial.Binary.narrow x = Binary32.ofValue u := by
  obtain ⟨n, f, hn, hvx, rfl⟩ := hx
  refine ⟨_, Binary.round_roundsTo .binary32 s hn f hmin, ?_⟩
  show Binary32.ofValue (Spatial.Binary.convert .binary32 (value x)) = _
  rw [hvx, Spatial.Binary.convert]

/-- Half a last digit of binary32 or more is not rounded to zero. -/
theorem least_lt_of_half {t : ℚ} (he : -149 ≤ e) (ht : 1 / 2 < t / 2 ^ e) :
    (2 : ℚ) ^ (Format.binary32.minExponent - 1) < t := by
  have hleast : (2 : ℚ) ^ (Format.binary32.minExponent - 1) ≤ 2 ^ (e - 1) :=
    zpow_le_zpow_right₀ one_le_two (by show (-150 : ℤ) ≤ e - 1; omega)
  refine lt_of_le_of_lt hleast ?_
  rwa [zpow_sub_one₀ two_ne_zero, ← lt_div_iff₀' (by positivity), ← one_div]

/-- A number that lies nearest to a number of binary32 between equally far neighbours is
narrowed to it. -/
theorem narrow_eq {s : Sign} (hx : HasMagnitude x s r) (hm : 0 < m)
    (hcanonical : Format.binary32.targetExponent (totalExponent m e) = e)
    (hregular : m ≠ 2 ^ 23 ∨ e = -149) (hn : IsNearest m (r / 2 ^ e)) :
    Spatial.Binary.narrow x = Binary32.ofValue (.finite s m e hm) := by
  have hone : (1 : ℚ) ≤ m := by exact_mod_cast hm
  have hfirst : -149 ≤ e := by
    rw [← hcanonical]
    exact le_max_right _ _
  have hhalf : 1 / 2 < r / 2 ^ e := by
    refine lt_of_le_of_ne (le_trans (by linarith) hn.lower) fun heq => ?_
    have hm_one : (m : ℚ) = 1 := by linarith [hn.lower]
    have heven := hn.even_of_lower (by linarith)
    obtain rfl : m = 1 := by exact_mod_cast hm_one
    omega
  obtain ⟨u, hround, hnarrow⟩ := narrow_roundsTo hx (least_lt_of_half hfirst hhalf)
  rw [hnarrow, hround.eq_of_isNearest hm hcanonical hregular hn]

/-- A number next to a power of two is narrowed to it. -/
theorem narrow_eq_power {s : Sign} (hx : HasMagnitude x s r) (he : -149 < e)
    (hlower : (2 : ℚ) ^ 23 - 1 / 4 < r / 2 ^ e) (hupper : r / 2 ^ e < 2 ^ 23 + 1 / 2) :
    Spatial.Binary.narrow x = Binary32.ofValue (.finite s (2 ^ 23) e (by decide)) := by
  obtain ⟨u, hround, hnarrow⟩ :=
    narrow_roundsTo hx (least_lt_of_half he.le (by norm_num at hlower ⊢; linarith))
  rw [hnarrow, hround.eq_power he hlower hupper]

end Spatial.Binary64
