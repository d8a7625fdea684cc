import Mathlib
import Spatial.Number.Binary
import Spatial.Proofs.Binary.Estimate

/-!
# Signed numbers of binary64

What is known of a difference, of a nearest integer and of a widened number.

1.  A difference of two numbers far from both ends is within one part in `2⁵³` of the exact
    one, also where its terms cancel: it is a multiple of the last digit of one of them.
2.  A nearest integer has no more digits than its number, so that it is not rounded.
3.  A number of binary32 is widened exactly.
4.  A change of the sign goes through each of these operations, and through products and
    quotients, but for the sign of a zero.
-/

namespace Spatial.Binary

open Float.Model (Format totalExponent UnpackedFloat)
open Float.Model.UnpackedFloat

variable {S : Format}

/-- The rational number that a finite value is. -/
def rational : UnpackedFloat → ℚ
  | .finite s m e _ => s.apply m * 2 ^ e
  | _ => 0

/-- The rational number of a negation is the negation. -/
theorem rational_neg (u : UnpackedFloat) : rational u.neg = -rational u := by
  cases u with
  | finite s m e hm =>
      rw [UnpackedFloat.neg, rational, rational, apply_neg]
      push_cast
      ring
  | notANumber | infinity | zero => exact neg_zero.symm

/-! Signs. -/

/-- Converting a number of the other sign gives the negation. -/
theorem round_neg (S : Format) (s : Sign) (m : ℕ) (e : ℤ) :
    UnpackedFloat.round S (-s) m e = (UnpackedFloat.round S s m e).neg :=
  roundWithAccuracy_neg S s _ _ _

/-- Converting between formats keeps the sign apart from the magnitude. -/
theorem convert_neg (S : Format) (u : UnpackedFloat) : convert S u.neg = (convert S u).neg := by
  cases u with
  | finite s m e hm => exact round_neg S s m e
  | notANumber | infinity | zero => rfl

/-- The nearest integer of a negation is the negation. -/
theorem nearestInteger_neg (S : Format) (u : UnpackedFloat) :
    nearestInteger S u.neg = (nearestInteger S u).neg := by
  cases u with
  | notANumber | infinity | zero => rfl
  | finite s m e hm =>
      cases e with
      | ofNat k => rfl
      | negSucc k =>
          simp only [UnpackedFloat.neg, nearestInteger]
          split_ifs
          · rfl
          · exact round_neg S s _ 0

/-- A negated dividend gives the negated quotient. -/
theorem neg_div (S : Format) (u v : UnpackedFloat) :
    UnpackedFloat.div S u.neg v = (UnpackedFloat.div S u v).neg := by
  have hsign (s t : Sign) : -s / t = -(s / t) := by
    cases s <;> cases t <;> rfl
  cases u <;> cases v <;>
    simp only [UnpackedFloat.div, UnpackedFloat.neg, hsign, roundWithAccuracy_neg]

/-! Integers. -/

/-- A quotient lies nearest to an integer if its dividend does, in halves of the divisor. -/
theorem isNearest_div {a b n : ℕ} (hb : 0 < b) (hlow : 2 * (b * n) ≤ 2 * a + b)
    (hhigh : 2 * a ≤ 2 * (b * n) + b) (heven : 2 * (b * n) = 2 * a + b → n % 2 = 0)
    (heven' : 2 * a = 2 * (b * n) + b → n % 2 = 0) : IsNearest n (a / b : ℚ) := by
  have hb' : (0 : ℚ) < b := by exact_mod_cast hb
  have hlow' : (2 : ℚ) * (b * n) ≤ 2 * a + b := by exact_mod_cast hlow
  have hhigh' : (2 : ℚ) * a ≤ 2 * (b * n) + b := by exact_mod_cast hhigh
  refine ⟨?_, ?_, fun h => heven ?_, fun h => heven' ?_⟩
  · rw [le_div_iff₀ hb']
    linarith
  · rw [div_le_iff₀ hb']
    linarith
  · rw [div_eq_iff hb'.ne'] at h
    have : (2 : ℚ) * (b * n) = 2 * a + b := by linarith
    exact_mod_cast this
  · rw [div_eq_iff hb'.ne'] at h
    have : (2 : ℚ) * a = 2 * (b * n) + b := by linarith
    exact_mod_cast this

/-- Dividing integers with rounding gives the nearest integer. -/
theorem divRoundEven_isNearest (a : ℕ) {b : ℕ} (hb : 0 < b) :
    IsNearest (divRoundEven a b) (a / b : ℚ) := by
  have hdiv := Nat.div_add_mod a b
  have hmod := Nat.mod_lt a hb
  unfold divRoundEven
  dsimp only
  split_ifs with hless hmore
  · apply isNearest_div hb <;> omega
  · apply isNearest_div hb <;> rw [Nat.mul_add, Nat.mul_one] <;> omega
  · -- A half goes to the even neighbour.
    rcases Nat.mod_two_eq_zero_or_one (a / b) with hparity | hparity <;> rw [hparity]
    · rw [Nat.add_zero]
      apply isNearest_div hb <;> omega
    · apply isNearest_div hb <;> rw [Nat.mul_add, Nat.mul_one] <;> omega

/-- A significand with zeros at its end is the same number. -/
theorem decreaseExponent_value (m : ℕ) {e k : ℤ} (h : k ≤ e) :
    ((decreaseExponent m e k).1 : ℚ) * 2 ^ k = m * 2 ^ e := by
  obtain ⟨j, hj⟩ : ∃ j : ℕ, e = k + j := ⟨(e - k).toNat, by omega⟩
  subst hj
  simp only [decreaseExponent, Nat.shiftLeft_eq, add_sub_cancel_left, Int.toNat_natCast]
  rw [zpow_add₀ two_ne_zero, zpow_natCast]
  push_cast
  ring

end Spatial.Binary

namespace Spatial.Binary32

/-- The rational number that a finite number of binary32 is. -/
def exact (z : Float32) : ℚ := Binary.rational (Binary32.value z)

/-- The exact value of a negation, in binary32. -/
theorem exact_neg (z : Float32) : exact (-z) = -exact z := by
  rw [exact, value_neg, Binary.rational_neg, exact]

end Spatial.Binary32

namespace Spatial.Binary64

open Float.Model (Format UnpackedFloat totalExponent)
open Float.Model.UnpackedFloat (Sign decreaseExponent)
open Binary (IsNearest RoundsTo rational)

variable {x y : Float} {a b c r : ℚ}

/-- The rational number that a finite number is. -/
def exact (x : Float) : ℚ := rational (value x)

/-- What a positive number denotes is its exact value. -/
theorem Denotes.exact_eq (h : Denotes x r) : exact x = r := by
  obtain ⟨m, e, hm, hvx, rfl⟩ := h
  rw [exact, hvx]
  rfl

/-- Packing undoes unpacking. -/
theorem ofValue_value (x : Float) : ofValue (value x) = x := by
  have hpack := (Binary.unpacks_unpack (S := .binary64) x.toModel.toBits.toBitVec).pack_eq
    (by decide) x.toModel.valid
  have hbits : UInt64.ofBitVec x.toModel.toBits.toBitVec = x.toModel.toBits := rfl
  simp only [ofValue, value, Float.Model.pack, Float.Model.unpack, hpack, hbits]

/-- Negating before packing negates what is unpacked. -/
theorem value_ofValue_neg (u : UnpackedFloat) : value (ofValue u.neg) = (value (ofValue u)).neg :=
  Binary.unpack_pack_neg u

/-- A packed negation is the negation. -/
theorem ofValue_neg (u : UnpackedFloat) : ofValue u.neg = -ofValue u := by
  rw [← ofValue_value (ofValue u.neg), ← ofValue_value (-ofValue u), value_neg, value_ofValue_neg]

/-- The exact value of a negation, in binary64. -/
theorem exact_neg (x : Float) : exact (-x) = -exact x := by
  rw [exact, value_neg, Binary.rational_neg, exact]

/-- A negation is finite where the number is. -/
theorem isFinite_neg (x : Float) : (-x).isFinite = x.isFinite := by
  show (value (-x)).isFinite = (value x).isFinite
  rw [value_neg]
  cases value x <;> rfl

/-- A zero is unpacked as it was packed. -/
theorem value_ofValue_zero (s : Sign) : value (ofValue (.zero s)) = .zero s := by
  cases s <;> rfl

/-! ## The operations -/

/-- A result is finite and within one part in `2⁵³` of the exact one. -/
def Approaches (x : Float) (r : ℚ) : Prop := x.isFinite = true ∧ |exact x - r| ≤ |r| / 2 ^ 53

/-- A number that denotes a positive one is finite. -/
theorem Denotes.isFinite (h : Denotes x r) : x.isFinite = true := by
  obtain ⟨m, e, hm, hvx, -⟩ := h
  show (value x).isFinite = true
  rw [hvx]
  rfl

/-- An estimate is within one part in `2⁵³`. -/
theorem Estimates.approaches (h : Estimates x r) (hr : 0 ≤ r) : Approaches x r := by
  obtain ⟨c, hc, hclose, -⟩ := h
  refine ⟨hc.isFinite, ?_⟩
  rwa [hc.exact_eq, abs_of_nonneg hr]

/-- A negation approaches the negation. -/
theorem Approaches.neg (h : Approaches x r) : Approaches (-x) (-r) := by
  refine ⟨(isFinite_neg x).trans h.1, ?_⟩
  rw [exact_neg, neg_sub_neg, abs_neg, abs_sub_comm]
  exact h.2

/-- A zero approaches zero. -/
theorem approaches_of_zero {s : Sign} (h : value x = .zero s) : Approaches x 0 := by
  constructor
  · show (value x).isFinite = true
    rw [h]
    rfl
  · rw [exact, h]
    norm_num [rational]

/-- An exact difference is rounded once, or is zero. -/
theorem approaches_normalize (D : ℤ) (k : ℤ) (s : Sign)
    (h : D ≠ 0 → InRange (|(D : ℚ)| * 2 ^ k)) :
    Approaches (ofValue (.normalize .binary64 D k s)) (D * 2 ^ k) := by
  rcases lt_trichotomy D 0 with hneg | rfl | hpos
  · obtain ⟨n, rfl⟩ : ∃ n : ℕ, D = -n := ⟨D.natAbs, by omega⟩
    have hn : 0 < n := by omega
    have hrange := h hneg.ne
    push_cast at hrange
    rw [abs_neg, Nat.abs_cast] at hrange
    have hrounded : UnpackedFloat.normalize .binary64 (-n) k s =
        (UnpackedFloat.round .binary64 .positive n k).neg := by
      simp only [UnpackedFloat.normalize, compare_lt_iff_lt.mpr hneg, neg_neg, Int.toNat_natCast]
      exact Binary.round_neg .binary64 .positive n k
    rw [hrounded, ofValue_neg, Int.cast_neg, neg_mul, Int.cast_natCast]
    exact ((estimates_round hn hrange).approaches (by positivity)).neg
  · have hrounded : UnpackedFloat.normalize .binary64 0 k s = .zero s := rfl
    rw [hrounded, Int.cast_zero, zero_mul]
    exact approaches_of_zero (value_ofValue_zero s)
  · obtain ⟨n, rfl⟩ : ∃ n : ℕ, D = n := ⟨D.toNat, by omega⟩
    have hn : 0 < n := by omega
    have hrange := h hpos.ne'
    rw [Int.cast_natCast, Nat.abs_cast] at hrange
    have hrounded : UnpackedFloat.normalize .binary64 n k s =
        UnpackedFloat.round .binary64 .positive n k := by
      simp only [UnpackedFloat.normalize, compare_gt_iff_gt.mpr hpos, Int.toNat_natCast]
    rw [hrounded, Int.cast_natCast]
    exact (estimates_round hn hrange).approaches (by positivity)

/-- The number is far from both ends of the format, so that a multiple of its last digit is
as well. -/
structure InMiddle (r : ℚ) : Prop where
  low : 2 ^ (-150 : ℤ) ≤ r
  high : r ≤ 2 ^ (250 : ℤ)

/-- What is far from both ends by a multiple is far from them. -/
theorem InMiddle.inRange (h : InMiddle r) : InRange r :=
  ⟨le_trans (zpow_le_zpow_right₀ one_le_two (by norm_num)) h.low, h.high⟩

/-- A number of binary64 has at most 53 digits. -/
theorem significand_lt {m : ℕ} {e : ℤ} {s : Sign} {hm : 0 < m} (h : value x = .finite s m e hm) :
    m < 2 ^ 53 := by
  have hcanonical := canonical_value x
  rw [h] at hcanonical
  have hform : max ((m.log2 : ℤ) + 1 + e - 53) (-1074) = e := hcanonical
  exact (Nat.log2_lt hm.ne').mp (by omega)

/-- The last digit of a number far from both ends. -/
theorem exponent_le {m : ℕ} {e : ℤ} {hm : 0 < m} (hvx : value x = .finite .positive m e hm)
    (h : InMiddle (m * 2 ^ e)) : -250 ≤ e := by
  have hcanonical := canonical_value x
  rw [hvx] at hcanonical
  have hlog := digits_of_canonical hcanonical h.inRange
  have hm_lt : (m : ℚ) < 2 ^ (53 : ℤ) := by
    have hlt := @Nat.lt_log2_self m
    rw [hlog] at hlt
    exact_mod_cast hlt
  have hless : (2 : ℚ) ^ (-150 : ℤ) < 2 ^ (53 + e) := by
    refine lt_of_le_of_lt h.low ?_
    rw [zpow_add₀ two_ne_zero]
    gcongr
  have := (zpow_lt_zpow_iff_right₀ one_lt_two).mp hless
  omega

/-- **Differences.**  A difference is rounded once, also where its terms cancel. -/
theorem sub_approaches (hx : Denotes x a) (hy : Denotes y b) (ha : InMiddle a)
    (hb : InMiddle b) : Approaches (x - y) (a - b) := by
  obtain ⟨m, e, hm, hvx, rfl⟩ := hx
  obtain ⟨n, f, hn, hvy, rfl⟩ := hy
  obtain ⟨k, hk⟩ : ∃ k, min e f = k := ⟨_, rfl⟩
  obtain ⟨D, hD⟩ : ∃ D : ℤ, ((decreaseExponent m e k).1 : ℤ) - (decreaseExponent n f k).1 = D :=
    ⟨_, rfl⟩
  have hdifference : (m : ℚ) * 2 ^ e - n * 2 ^ f = D * 2 ^ k := by
    rw [← Binary.decreaseExponent_value m (k := k) (by omega),
      ← Binary.decreaseExponent_value n (k := k) (by omega), ← sub_mul, ← hD]
    push_cast
    rfl
  have hsub : x - y = ofValue (.sub .binary64 (value x) (value y)) := rfl
  rw [hsub, hvx, hvy, hdifference]
  simp only [UnpackedFloat.sub, hk, Sign.apply, hD]
  refine approaches_normalize D k .positive fun hzero => ?_
  have hone : (1 : ℚ) ≤ |(D : ℚ)| := by exact_mod_cast Int.one_le_abs hzero
  have hpos : (0 : ℚ) < 2 ^ k := by positivity
  have habs : |(D : ℚ)| * 2 ^ k = |(m : ℚ) * 2 ^ e - n * 2 ^ f| := by
    rw [hdifference, abs_mul, abs_of_pos hpos]
  constructor
  · have hexponent : -250 ≤ k := by
      have := exponent_le hvx ha
      have := exponent_le hvy hb
      omega
    calc (2 : ℚ) ^ (-250 : ℤ) ≤ 2 ^ k := zpow_le_zpow_right₀ one_le_two hexponent
      _ ≤ |(D : ℚ)| * 2 ^ k := le_mul_of_one_le_left hpos.le hone
  · have hx_pos := ha.inRange.pos
    have hy_pos := hb.inRange.pos
    rw [habs]
    exact abs_le.mpr ⟨by linarith [hb.high], by linarith [ha.high]⟩

/-- **Nearest integers.**  The nearest integer of a number has no more digits than the
number. -/
theorem roundEven_denotes (hx : Denotes x c) (hc : c ≤ 2 ^ (250 : ℤ)) :
    ∃ n : ℕ, IsNearest n c ∧
      (n = 0 ∧ value (Scalar.roundEven x) = .zero .positive ∨
        0 < n ∧ Denotes (Scalar.roundEven x) n) := by
  have hround : Scalar.roundEven x =
      ofValue (Spatial.Binary.nearestInteger .binary64 (value x)) := rfl
  obtain ⟨m, e, hm, hvx, rfl⟩ := hx
  cases e with
  | ofNat k =>
      have hinteger : (m : ℚ) * 2 ^ (Int.ofNat k) = (m * 2 ^ k : ℕ) := by
        rw [Int.ofNat_eq_natCast, zpow_natCast]
        push_cast
        rfl
      have hself : Scalar.roundEven x = x := by
        rw [hround, hvx]
        exact (congrArg ofValue hvx.symm).trans (ofValue_value x)
      rw [hself]
      refine ⟨m * 2 ^ k, ?_, .inr ⟨by positivity, m, _, hm, hvx, hinteger.symm⟩⟩
      rw [hinteger]
      exact .natCast _
  | negSucc k =>
      have hquotient : (m : ℚ) * 2 ^ (Int.negSucc k) = m / (Nat.pow 2 (k + 1) : ℕ) := by
        rw [zpow_negSucc, ← div_eq_mul_inv, Nat.pow_eq]
        push_cast
        rfl
      have hnearest := Binary.divRoundEven_isNearest m (b := Nat.pow 2 (k + 1))
        (Nat.pow_pos two_pos)
      rw [hround, hvx, Spatial.Binary.nearestInteger, hquotient]
      obtain ⟨n, hn⟩ : ∃ n, Spatial.Binary.divRoundEven m (Nat.pow 2 (k + 1)) = n := ⟨_, rfl⟩
      rw [hn] at hnearest ⊢
      rcases Nat.eq_zero_or_pos n with rfl | hpos
      · exact ⟨0, hnearest, .inl ⟨rfl, value_ofValue_zero _⟩⟩
      · refine ⟨n, hnearest, .inr ⟨hpos, ?_⟩⟩
        rw [if_neg hpos.ne']
        have hm_lt := significand_lt hvx
        have hhalf : n < 2 ^ 53 := by
          have hlower := hnearest.lower
          have hpower : (1 : ℚ) ≤ (Nat.pow 2 (k + 1) : ℕ) := by
            exact_mod_cast Nat.one_le_two_pow
          have hless : (m : ℚ) / (Nat.pow 2 (k + 1) : ℕ) ≤ m := div_le_self (by positivity) hpower
          have hsucc : (n : ℚ) < m + 1 := by linarith
          have : n < m + 1 := by exact_mod_cast hsucc
          omega
        have hvalue : (n : ℚ) = n * 2 ^ (0 : ℤ) := by rw [zpow_zero, mul_one]
        have hrange := inRange_natCast hpos hhalf
        rw [hvalue] at hrange ⊢
        exact denotes_round hpos hhalf hrange

/-- How large and how small a number of binary32 is. -/
theorem binary32_bounds {z : Float32} {s : Sign} {m : ℕ} {e : ℤ} {hm : 0 < m}
    (h : Binary32.value z = .finite s m e hm) :
    2 ^ (-150 : ℤ) ≤ (m : ℚ) * 2 ^ e ∧ (m : ℚ) * 2 ^ e ≤ 2 ^ (128 : ℤ) := by
  obtain ⟨hm_lt, he, he_le, -⟩ := Binary32.bounds_of_value h
  have hone : (1 : ℚ) ≤ m := by exact_mod_cast hm
  have hmax : (m : ℚ) ≤ 2 ^ (24 : ℤ) := by exact_mod_cast hm_lt.le
  constructor
  · calc (2 : ℚ) ^ (-150 : ℤ) ≤ 2 ^ e := zpow_le_zpow_right₀ one_le_two (by omega)
      _ ≤ m * 2 ^ e := le_mul_of_one_le_left (by positivity) hone
  · calc (m : ℚ) * 2 ^ e ≤ 2 ^ (24 : ℤ) * 2 ^ e := by gcongr
      _ = 2 ^ (24 + e) := (zpow_add₀ two_ne_zero 24 e).symm
      _ ≤ 2 ^ (128 : ℤ) := zpow_le_zpow_right₀ one_le_two (by omega)

/-- **Widening.**  A number of binary32 is a number of binary64. -/
theorem widen_denotes {z : Float32} {m : ℕ} {e : ℤ} {hm : 0 < m}
    (h : Binary32.value z = .finite .positive m e hm) :
    Denotes (Spatial.Binary.widen z) (m * 2 ^ e) := by
  obtain ⟨hm_lt, -⟩ := Binary32.bounds_of_value h
  obtain ⟨hlow, hhigh⟩ := binary32_bounds h
  have hrange : InRange (m * 2 ^ e) :=
    ⟨le_trans (zpow_le_zpow_right₀ one_le_two (by norm_num)) hlow,
      hhigh.trans (zpow_le_zpow_right₀ one_le_two (by norm_num))⟩
  have hwiden : Spatial.Binary.widen z =
      ofValue (Spatial.Binary.convert .binary64 (Binary32.value z)) := rfl
  rw [hwiden, h, Spatial.Binary.convert]
  exact denotes_round hm (hm_lt.trans (by norm_num)) hrange

/-! Signs. -/

/-- Widening keeps the sign apart from the magnitude. -/
theorem widen_neg (z : Float32) : Spatial.Binary.widen (-z) = -Spatial.Binary.widen z := by
  have hwiden (z : Float32) : Spatial.Binary.widen z =
      ofValue (Spatial.Binary.convert .binary64 (Binary32.value z)) := rfl
  rw [hwiden, hwiden, Binary32.value_neg, Binary.convert_neg, ofValue_neg]

/-- A quotient of a negation is the negation, bit for bit. -/
theorem neg_div (x y : Float) : -x / y = -(x / y) := by
  have hdiv (x y : Float) : x / y = ofValue (.div .binary64 (value x) (value y)) := rfl
  rw [hdiv, hdiv, value_neg, Binary.neg_div, ofValue_neg]

/-- Rounding to an integer commutes with negation, bit for bit. -/
theorem roundEven_neg (x : Float) : Scalar.roundEven (-x) = -Scalar.roundEven x := by
  have hround (x : Float) : Scalar.roundEven x =
      ofValue (Spatial.Binary.nearestInteger .binary64 (value x)) := rfl
  rw [hround, hround, value_neg, Binary.nearestInteger_neg, ofValue_neg]

/-- A product with a negation is the negation, bit for bit. -/
theorem neg_mul (x y : Float) : -x * y = -(x * y) := by
  have hmul (x y : Float) : x * y = ofValue (.mul .binary64 (value x) (value y)) := rfl
  rw [hmul, hmul, value_neg, Binary.mul_comm, Binary.mul_neg, ofValue_neg, Binary.mul_comm]

/-- A difference of negated terms is the negated difference, or both are zeros. -/
theorem exact_neg_sub_neg (x y : Float) :
    exact (-x - -y) = -exact (x - y) ∧ (-x - -y).isFinite = (x - y).isFinite := by
  have hsub (x y : Float) : x - y = ofValue (.add .binary64 (value x) (value y).neg) := by
    rw [← Binary.sub_eq_add_neg]
    rfl
  rw [hsub, hsub, value_neg, value_neg]
  rcases Binary.neg_add_neg .binary64 (value x) (value y).neg with h | ⟨⟨s, hs⟩, t, ht⟩
  · rw [h, ofValue_neg]
    exact ⟨exact_neg _, isFinite_neg _⟩
  · rw [hs, ht, exact, exact, value_ofValue_zero, value_ofValue_zero]
    refine ⟨neg_zero.symm, ?_⟩
    cases s <;> cases t <;> rfl

end Spatial.Binary64
