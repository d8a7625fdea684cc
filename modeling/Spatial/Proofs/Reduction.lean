import Mathlib
import Spatial.Number.Angle
import Spatial.Proofs.Binary.Signed
import Spatial.Proofs.Decimal.Gap

/-!
# Reduced angles

An angle is reduced by a quotient, its nearest integer, a product and a difference, each
rounded in binary64.

1.  The quotient is off by one part in `2⁵³`, so its nearest integer may be that of the
    next turn, and the product is off by as much again.  What is left differs from half a
    turn by more than that only if it is less.  The errors grow with the angle, and nothing
    stops a reduced angle from leaving the range by them.
2.  Below `2²⁸` no angle of binary32 comes as near to an odd multiple of half a turn as the
    errors reach.  How near it comes is a question about the fractions near a fixed ratio,
    one ratio for each exponent of the angle.  So up to there the range is kept.
3.  A change of the sign goes through, so it is enough to reduce positive angles.
-/

namespace Spatial

open Float.Model (UnpackedFloat)
open Decimal (Bracket)
open Binary (IsNearest)
open Binary64 (Denotes Approaches InMiddle value exact)

/-! ## Odd multiples of half a turn -/

/-- The digits of half a turn, in units of `2⁻⁴⁸`. -/
def halfTurnDigits : ℕ := 884279719003555

/-- The number that `pi` is in binary64. -/
def halfTurn : ℚ := halfTurnDigits / 2 ^ 48

/-- The number that stands for half a turn. -/
theorem pi_denotes : Denotes (Scalar.pi : Float) halfTurn :=
  ⟨7074237752028440, -51, by norm_num, rfl, by norm_num [halfTurn, halfTurnDigits]⟩

theorem turn_denotes : Denotes (2 * Scalar.pi : Float) (2 * halfTurn) :=
  ⟨7074237752028440, -50, by norm_num, rfl, by norm_num [halfTurn, halfTurnDigits]⟩

theorem exact_pi : exact Scalar.pi = halfTurn := pi_denotes.exact_eq

/-- A product of terms that are not neighbours is at least as far from a multiple as the nearer
of two neighbouring fractions with larger denominators. -/
theorem apart_of_tight {x : Bracket} (h : x.Tight) {a b g i n : ℕ}
    (hlow : x.p * b + g ≤ a * x.q) (hhigh : a * x.q' + g ≤ x.p' * b) (hi : 0 < i)
    (hi_lt : i < 2 ^ 25) : i * a + g ≤ n * b ∨ n * b + g ≤ i * a := by
  obtain ⟨hneighbours, hlarge⟩ := h
  zify at *
  -- The two fractions are a basis: `i` and `n` are combinations of their terms.
  obtain ⟨s, hs⟩ : ∃ s : ℤ, s = i * x.p' - n * x.q' := ⟨_, rfl⟩
  obtain ⟨t, ht⟩ : ∃ t : ℤ, t = n * x.q - i * x.p := ⟨_, rfl⟩
  have hi_eq : (i : ℤ) = s * x.q + t * x.q' := by
    rw [hs, ht]
    linear_combination -(i : ℤ) * hneighbours
  have hdistance : (i : ℤ) * a - n * b =
      s * (a * x.q - x.p * b) - t * (x.p' * b - a * x.q') := by
    rw [hs, ht]
    linear_combination (n * b - i * a : ℤ) * hneighbours
  have hg : (0 : ℤ) ≤ g := by positivity
  have hq : (0 : ℤ) ≤ x.q := by positivity
  have hq' : (0 : ℤ) ≤ x.q' := by positivity
  have hA : (g : ℤ) ≤ a * x.q - x.p * b := by linarith
  have hB : (g : ℤ) ≤ x.p' * b - a * x.q' := by linarith
  rcases le_or_gt s 0 with hs_nonpos | hs_pos
  · have hsq : s * x.q ≤ 0 := mul_nonpos_of_nonpos_of_nonneg hs_nonpos hq
    have hsA : s * (a * x.q - x.p * b) ≤ 0 :=
      mul_nonpos_of_nonpos_of_nonneg hs_nonpos (hg.trans hA)
    rcases le_or_gt t 0 with ht_nonpos | ht_pos
    · have htq : t * x.q' ≤ 0 := mul_nonpos_of_nonpos_of_nonneg ht_nonpos hq'
      linarith
    · have htB := le_mul_of_one_le_left (hg.trans hB) ht_pos
      left
      linarith
  · have hsq := le_mul_of_one_le_left hq hs_pos
    have hsA := le_mul_of_one_le_left (hg.trans hA) hs_pos
    rcases le_or_gt t 0 with ht_nonpos | ht_pos
    · have htB : t * (x.p' * b - a * x.q') ≤ 0 :=
        mul_nonpos_of_nonpos_of_nonneg ht_nonpos (hg.trans hB)
      right
      linarith
    · have htq := le_mul_of_one_le_left hq' ht_pos
      linarith

/-- The neighbours of the ratio of `2²⁶⁺ᵏ` to the digits of half a turn.  What the search
finds is checked. -/
def neighbours (k : ℕ) : Bracket :=
  let a := Nat.pow 2 (26 + k)
  (Bracket.step a halfTurnDigits)^[24] ⟨a / halfTurnDigits, 1, a / halfTurnDigits + 1, 1⟩

/-- What is checked: the neighbours are as far from the ratio as the errors reach. -/
def Clear (k : ℕ) : Prop :=
  let a := Nat.pow 2 (26 + k)
  let g := a / 2 ^ 29 + 2
  (neighbours k).Tight ∧ (neighbours k).p * halfTurnDigits + g ≤ a * (neighbours k).q ∧
    a * (neighbours k).q' + g ≤ (neighbours k).p' * halfTurnDigits

instance (k : ℕ) : Decidable (Clear k) := inferInstanceAs (Decidable (_ ∧ _ ∧ _))

/-- What is checked holds for every power of two up to `2²⁸`. -/
theorem clear_range : ∀ k ∈ List.range 27, Clear k := by decide +kernel

/-- Below `2²⁸` a number of binary32 is clear of every multiple of half a turn. -/
theorem clear_of_halfTurns {k m : ℕ} (hk : k < 27) (hm : 0 < m) (hm_lt : m < 2 ^ 24) (n : ℕ) :
    ((m : ℚ) * 2 ^ (k - 22 : ℤ) + 32) / 2 ^ 53 ≤ |(m : ℚ) * 2 ^ (k - 22 : ℤ) - n * halfTurn| := by
  obtain ⟨htight, hlow, hhigh⟩ := clear_range k (List.mem_range.mpr hk)
  have hapart := apart_of_tight htight hlow hhigh hm (hm_lt.trans (by norm_num)) (n := n)
  obtain ⟨a, ha⟩ : ∃ a, Nat.pow 2 (26 + k) = a := ⟨_, rfl⟩
  rw [ha] at hapart
  have hpower : (2 : ℚ) ^ (k - 22 : ℤ) = a / 2 ^ 48 := by
    rw [← ha, Nat.pow_eq, eq_div_iff (by positivity), ← zpow_natCast, ← zpow_add₀ two_ne_zero]
    push_cast
    rw [← zpow_natCast]
    congr 1
    push_cast
    ring
  have hfloor : (a : ℚ) / 2 ^ 29 + 1 ≤ (a / 2 ^ 29 + 2 : ℕ) := by
    have hlt : a < 2 ^ 29 * (a / 2 ^ 29 + 1) := by omega
    have hlt' : (a : ℚ) < 2 ^ 29 * ((a / 2 ^ 29 : ℕ) + 1) := by exact_mod_cast hlt
    push_cast
    rw [← le_sub_iff_add_le, div_le_iff₀ (by positivity)]
    linarith
  have hdistance : ((a / 2 ^ 29 + 2 : ℕ) : ℚ) ≤ |(m : ℚ) * a - n * halfTurnDigits| := by
    rw [le_abs]
    rcases hapart with h | h
    · right
      have h' : (m : ℚ) * a + (a / 2 ^ 29 + 2 : ℕ) ≤ n * halfTurnDigits := by exact_mod_cast h
      linarith
    · left
      have h' : (n : ℚ) * halfTurnDigits + (a / 2 ^ 29 + 2 : ℕ) ≤ m * a := by exact_mod_cast h
      linarith
  have hm_le : (m : ℚ) ≤ 2 ^ 24 := by exact_mod_cast hm_lt.le
  have hterm := mul_le_mul_of_nonneg_right hm_le (Nat.cast_nonneg (α := ℚ) a)
  have hscaled : (m : ℚ) * (a / 2 ^ 48) - n * halfTurn = (m * a - n * halfTurnDigits) / 2 ^ 48 := by
    rw [halfTurn]
    ring
  have hpos : (0 : ℚ) < 2 ^ 48 := by positivity
  rw [hpower, hscaled, abs_div, abs_of_pos hpos, div_le_div_iff₀ (by positivity) hpos]
  linarith

/-! ## The errors -/

/-- Half a turn is between three and four. -/
theorem halfTurn_bounds : 3 < halfTurn ∧ halfTurn < 4 := by
  norm_num [halfTurn, halfTurnDigits]

/-- The rest that the nearest integer of an estimated quotient leaves. -/
theorem rest_le {r c : ℚ} {n : ℕ} (hc : |c - r / (2 * halfTurn)| ≤ r / (2 * halfTurn) / 2 ^ 53)
    (hn : IsNearest n c) :
    |r - n * (2 * halfTurn)| ≤ halfTurn + r / 2 ^ 53 := by
  have hpos : 0 < 2 * halfTurn := by linarith [halfTurn_bounds.1]
  have hlow := mul_le_mul_of_nonneg_right hn.lower hpos.le
  have hhigh := mul_le_mul_of_nonneg_right hn.upper hpos.le
  have hquotient : |c * (2 * halfTurn) - r| ≤ r / 2 ^ 53 := by
    have hscaled := mul_le_mul_of_nonneg_right hc hpos.le
    rw [← abs_of_pos hpos, ← abs_mul, abs_of_pos hpos, sub_mul, div_mul_cancel₀ _ hpos.ne',
      div_right_comm, div_mul_cancel₀ _ hpos.ne'] at hscaled
    exact hscaled
  obtain ⟨h₁, h₂⟩ := abs_le.mp hquotient
  rw [abs_le]
  constructor <;> linarith

/-- Less a number of turns that is zero an angle is itself. -/
theorem approaches_sub_zero {x p : Float} {r : ℚ} (hx : Denotes x r)
    (hp : value p = .zero .positive) : Approaches (x - p) (r - 0) := by
  obtain ⟨m, e, hm, hvx, hr⟩ := hx
  have hself : x - p = x := by
    have hsub : x - p = Binary64.ofValue (.sub .binary64 (value x) (value p)) := rfl
    rw [hsub, hp, hvx]
    exact (congrArg Binary64.ofValue hvx.symm).trans (Binary64.ofValue_value x)
  have hx' : Denotes x r := ⟨m, e, hm, hvx, hr⟩
  rw [hself, sub_zero]
  refine ⟨hx'.isFinite, ?_⟩
  rw [hx'.exact_eq, sub_self, abs_zero]
  positivity

/-- **The steps of the reduction.**  What is left of a positive angle is a rounded difference
from an estimated number of turns. -/
theorem wrapAngle_steps {z : Float32} {m : ℕ} {e : ℤ} {hm : 0 < m}
    (h : Binary32.value z = .finite .positive m e hm) :
    ∃ (n : ℕ) (b : ℚ), |(m : ℚ) * 2 ^ e - n * (2 * halfTurn)| ≤ halfTurn + m * 2 ^ e / 2 ^ 53 ∧
      |b - n * (2 * halfTurn)| ≤ n * (2 * halfTurn) / 2 ^ 53 ∧
      Approaches (wrapAngle z) (m * 2 ^ e - b) := by
  obtain ⟨hpi_low, hpi_high⟩ := halfTurn_bounds
  obtain ⟨hlow, hhigh⟩ := Binary64.binary32_bounds h
  have hx := Binary64.widen_denotes h
  obtain ⟨r, hr⟩ : ∃ r : ℚ, (m : ℚ) * 2 ^ e = r := ⟨_, rfl⟩
  obtain ⟨T, hT⟩ : ∃ T : ℚ, 2 ^ (128 : ℤ) = T := ⟨_, rfl⟩
  obtain ⟨t, ht⟩ : ∃ t : ℚ, 2 ^ (-150 : ℤ) = t := ⟨_, rfl⟩
  have hT_one : 1 ≤ T := by norm_num [← hT]
  have hT_large : 64 * T ≤ 2 ^ (250 : ℤ) := by norm_num [← hT]
  have ht_pos : 0 < t := ht ▸ by positivity
  have ht_one : t ≤ 1 := by norm_num [← ht]
  have ht_small : (2 : ℚ) ^ (-250 : ℤ) ≤ t / 8 := by norm_num [← ht]
  rw [hr, hT] at hhigh
  rw [hr, ht] at hlow
  rw [hr] at hx ⊢
  have hpos : 0 < r := lt_of_lt_of_le ht_pos hlow
  have hquotient_low : r / 8 ≤ r / (2 * halfTurn) := by
    gcongr
    linarith
  have hquotient_high : r / (2 * halfTurn) ≤ r / 6 := by
    gcongr
    linarith
  have hrange : Binary64.InRange (r / (2 * halfTurn)) := ⟨ht_small.trans (by linarith), by linarith⟩
  obtain ⟨c, hc, hclose, -⟩ := Binary64.div_estimates hx turn_denotes hrange
  have hc_le : c ≤ T := by
    have habove := (abs_le.mp hclose).2
    linarith
  obtain ⟨n, hn, hcases⟩ := Binary64.roundEven_denotes hc (by linarith)
  have hrest := rest_le hclose hn
  have hwrap : (wrapAngle z : Float) = Spatial.Binary.widen z -
      Scalar.roundEven (Spatial.Binary.widen z / (2 * Scalar.pi)) * (2 * Scalar.pi) := rfl
  rw [hwrap]
  rcases hcases with ⟨rfl, hzero⟩ | ⟨hn_pos, hinteger⟩
  · refine ⟨0, 0, hrest, by simp, approaches_sub_zero hx ?_⟩
    have hmul (x y : Float) : x * y = Binary64.ofValue (.mul .binary64 (value x) (value y)) := rfl
    obtain ⟨k, f, hk, hturn, -⟩ := turn_denotes
    rw [hmul, hzero, hturn]
    exact Binary64.value_ofValue_zero _
  · have hone : (1 : ℚ) ≤ n := by exact_mod_cast hn_pos
    have hn_le : (n : ℚ) ≤ 2 * T := by linarith [hn.lower]
    have hturns_low : (n : ℚ) * 6 ≤ n * (2 * halfTurn) := by
      gcongr
      linarith
    have hturns_high : (n : ℚ) * (2 * halfTurn) ≤ n * 8 := by
      gcongr
      linarith
    have hn_range : Binary64.InRange (n : ℚ) := ⟨ht_small.trans (by linarith), by linarith⟩
    have hturns : Binary64.InRange ((n : ℚ) * (2 * halfTurn)) :=
      ⟨ht_small.trans (by linarith), by linarith⟩
    obtain ⟨b, hb, hb_close, -⟩ := Binary64.mul_estimates hinteger turn_denotes hn_range hturns
    obtain ⟨hb_low, hb_high⟩ := abs_le.mp hb_close
    refine ⟨n, b, hrest, hb_close, Binary64.sub_approaches hx hb ⟨ht.trans_le hlow, by linarith⟩ ?_⟩
    exact ⟨ht.trans_le (by linarith), by linarith⟩

/-- What is left, by the rest that the estimated number of turns leaves. -/
theorem abs_exact_le {d : Float} {r b E : ℚ} {n : ℕ} (hE : |r - n * (2 * halfTurn)| ≤ E)
    (hb : |b - n * (2 * halfTurn)| ≤ n * (2 * halfTurn) / 2 ^ 53) (hd : Approaches d (r - b)) :
    |exact d| ≤ (E + (r + E) / 2 ^ 53) * (1 + 1 / 2 ^ 53) := by
  have hturns : (n : ℚ) * (2 * halfTurn) ≤ r + E := by linarith [(abs_le.mp hE).1]
  have hrest : |r - b| ≤ E + (r + E) / 2 ^ 53 := by
    have hsplit : r - b = (r - n * (2 * halfTurn)) - (b - n * (2 * halfTurn)) := by ring
    calc |r - b| ≤ |r - n * (2 * halfTurn)| + |b - n * (2 * halfTurn)| := by
          rw [hsplit]
          exact abs_sub _ _
      _ ≤ E + (r + E) / 2 ^ 53 := by
          refine add_le_add hE (hb.trans ?_)
          gcongr
  have htotal : |exact d| ≤ |r - b| * (1 + 1 / 2 ^ 53) := by
    have hsplit := abs_sub_abs_le_abs_sub (exact d) (r - b)
    linarith [hd.2]
  exact htotal.trans (mul_le_mul_of_nonneg_right hrest (by positivity))

/-- No turn is taken off an angle below two. -/
theorem turns_eq_zero {r : ℚ} {n : ℕ} (hsmall : r < 2)
    (hE : |r - n * (2 * halfTurn)| ≤ halfTurn + r / 2 ^ 53) : n = 0 := by
  obtain ⟨hpi_low, hpi_high⟩ := halfTurn_bounds
  by_contra hne
  have hone : (1 : ℚ) ≤ n := by exact_mod_cast Nat.one_le_iff_ne_zero.mpr hne
  have hturns : 2 * halfTurn ≤ n * (2 * halfTurn) := le_mul_of_one_le_left (by linarith) hone
  linarith [(abs_le.mp hE).1]

/-- A rest that is not above half a turn by the errors is clearly below it, for an angle clear
of the multiples of half a turn. -/
theorem rest_le_of_clear {r : ℚ} {n : ℕ} (hr : 0 < r)
    (hE : |r - n * (2 * halfTurn)| ≤ halfTurn + r / 2 ^ 53)
    (hclear : ∀ i : ℕ, (r + 32) / 2 ^ 53 ≤ |r - i * halfTurn|) :
    |r - n * (2 * halfTurn)| ≤ halfTurn - (r + 32) / 2 ^ 53 := by
  have hpi := halfTurn_bounds.1
  rcases le_or_gt ((n : ℚ) * (2 * halfTurn)) r with hbelow | habove
  · rw [abs_of_nonneg (sub_nonneg.mpr hbelow)] at hE ⊢
    have hnext := hclear (2 * n + 1)
    push_cast at hnext
    rcases le_abs.mp hnext with h | h <;> linarith
  · have hn : 0 < n := Nat.pos_of_ne_zero fun hzero => by
      rw [hzero, Nat.cast_zero, zero_mul] at habove
      exact absurd hr habove.not_gt
    rw [abs_of_neg (sub_neg.mpr habove)] at hE ⊢
    have hprevious := hclear (2 * n - 1)
    rw [Nat.cast_sub (by omega)] at hprevious
    push_cast at hprevious
    rcases le_abs.mp hprevious with h | h <;> linarith

/-- A small angle is left as it is. -/
theorem abs_exact_le_of_small {d : Float} {r b : ℚ} {n : ℕ} (hpos : 0 < r) (hsmall : r < 2)
    (hE : |r - n * (2 * halfTurn)| ≤ halfTurn + r / 2 ^ 53)
    (hb : |b - n * (2 * halfTurn)| ≤ n * (2 * halfTurn) / 2 ^ 53) (hd : Approaches d (r - b)) :
    |exact d| ≤ halfTurn := by
  obtain rfl := turns_eq_zero hsmall hE
  have hself : |r - (0 : ℕ) * (2 * halfTurn)| ≤ r := by
    rw [Nat.cast_zero, zero_mul, sub_zero, abs_of_pos hpos]
  have htotal := abs_exact_le hself hb hd
  linarith [halfTurn_bounds.1]

section Positive

variable {z : Float32} {m : ℕ} {e : ℤ} {hm : 0 < m}
  (h : Binary32.value z = .finite .positive m e hm)
include h

/-- A reduced angle leaves the range by the errors at most. -/
theorem abs_wrapAngle_le :
    (wrapAngle z : Float).isFinite = true ∧
      |exact (wrapAngle z)| ≤ halfTurn + m * 2 ^ e / 2 ^ 50 := by
  obtain ⟨n, b, hE, hb, hd⟩ := wrapAngle_steps h
  obtain ⟨r, hr⟩ : ∃ r : ℚ, (m : ℚ) * 2 ^ e = r := ⟨_, rfl⟩
  have hpos : 0 < r := hr ▸ by positivity
  obtain ⟨hpi_low, hpi_high⟩ := halfTurn_bounds
  rw [hr] at hE hd ⊢
  refine ⟨hd.1, ?_⟩
  rcases lt_or_ge r 2 with hsmall | hlarge
  · have hrange := abs_exact_le_of_small hpos hsmall hE hb hd
    have hpart : 0 ≤ r / 2 ^ 50 := by positivity
    linarith
  · have htotal := abs_exact_le hE hb hd
    linarith

/-- The exponent of an angle between two and `2²⁸`. -/
theorem exists_exponent (hlarge : 2 ≤ (m : ℚ) * 2 ^ e) (hlt : (m : ℚ) * 2 ^ e < 2 ^ 28) :
    ∃ k : ℕ, e = k - 22 ∧ k < 27 := by
  obtain ⟨hm_lt, -, -, hcanonical⟩ := Binary32.bounds_of_value h
  have hform : max ((m.log2 : ℤ) + 1 + e - 24) (-149) = e := hcanonical
  have hpos : (0 : ℚ) < 2 ^ e := by positivity
  have hlow : -22 ≤ e := by
    have hm_lt' : (m : ℚ) < 2 ^ (24 : ℤ) := by exact_mod_cast hm_lt
    have hless : (2 : ℚ) ^ (1 : ℤ) < 2 ^ (24 + e) := by
      rw [zpow_one, zpow_add₀ two_ne_zero]
      exact hlarge.trans_lt (mul_lt_mul_of_pos_right hm_lt' hpos)
    have := (zpow_lt_zpow_iff_right₀ one_lt_two).mp hless
    omega
  have hhigh : e ≤ 4 := by
    have hlog := Nat.log2_self_le hm.ne'
    rw [show m.log2 = 23 by have := (Nat.log2_lt hm.ne').mpr hm_lt; omega] at hlog
    have hfull : (2 : ℚ) ^ (23 : ℤ) ≤ m := by exact_mod_cast hlog
    have hless : (2 : ℚ) ^ (23 + e) < 2 ^ (28 : ℤ) := by
      rw [zpow_add₀ two_ne_zero]
      exact (mul_le_mul_of_nonneg_right hfull hpos.le).trans_lt (by exact_mod_cast hlt)
    have := (zpow_lt_zpow_iff_right₀ one_lt_two).mp hless
    omega
  exact ⟨(e + 22).toNat, by omega, by omega⟩

/-- Below `2²⁸` a reduced angle is in the range. -/
theorem abs_wrapAngle_le_of_lt (hlt : (m : ℚ) * 2 ^ e < 2 ^ 28) :
    |exact (wrapAngle z)| ≤ halfTurn := by
  obtain ⟨n, b, hE, hb, hd⟩ := wrapAngle_steps h
  have hm_lt := (Binary32.bounds_of_value h).1
  obtain ⟨r, hr⟩ : ∃ r : ℚ, (m : ℚ) * 2 ^ e = r := ⟨_, rfl⟩
  have hpos : 0 < r := hr ▸ by positivity
  obtain ⟨hpi_low, hpi_high⟩ := halfTurn_bounds
  rw [hr] at hE hd
  rcases lt_or_ge r 2 with hsmall | hlarge
  · exact abs_exact_le_of_small hpos hsmall hE hb hd
  · obtain ⟨k, hk, hk_lt⟩ := exists_exponent h (hr ▸ hlarge) (hr ▸ hlt)
    have hclear (i : ℕ) : (r + 32) / 2 ^ 53 ≤ |r - i * halfTurn| := by
      have := clear_of_halfTurns hk_lt hm hm_lt i
      rwa [← hk, hr] at this
    have htotal := abs_exact_le (rest_le_of_clear hpos hE hclear) hb hd
    linarith

end Positive

/-! ## Every finite angle -/

/-- The opposite angle is reduced to the opposite. -/
theorem exact_wrapAngle_neg (z : Float32) :
    exact (wrapAngle (-z)) = -exact (wrapAngle z) ∧
      (wrapAngle (-z) : Float).isFinite = (wrapAngle z : Float).isFinite := by
  have hwrap (z : Float32) : (wrapAngle z : Float) = Spatial.Binary.widen z -
      Scalar.roundEven (Spatial.Binary.widen z / (2 * Scalar.pi)) * (2 * Scalar.pi) := rfl
  rw [hwrap, hwrap, Binary64.widen_neg, Binary64.neg_div, Binary64.roundEven_neg,
    Binary64.neg_mul]
  exact Binary64.exact_neg_sub_neg _ _

/-- What is shown of a reduced angle: how far it can be from the range, and that it is in the
range below `2²⁸`. -/
structure Reduced (z : Float32) : Prop where
  finite : (wrapAngle z : Float).isFinite = true
  near : |exact (wrapAngle z)| ≤ exact Scalar.pi + |Binary32.exact z| / 2 ^ 50
  within : |Binary32.exact z| < 2 ^ 28 → |exact (wrapAngle z)| ≤ exact Scalar.pi

/-- What is said of an angle holds of its opposite. -/
theorem Reduced.neg {z : Float32} (h : Reduced z) : Reduced (-z) := by
  obtain ⟨hexact, hfinite⟩ := exact_wrapAngle_neg z
  constructor
  · rw [hfinite]
    exact h.finite
  · rw [hexact, Binary32.exact_neg, abs_neg, abs_neg]
    exact h.near
  · rw [hexact, Binary32.exact_neg, abs_neg, abs_neg]
    exact h.within

/-- What is said of an angle holds of the positive ones. -/
theorem reduced_of_positive {z : Float32} {m : ℕ} {e : ℤ} {hm : 0 < m}
    (h : Binary32.value z = .finite .positive m e hm) : Reduced z := by
  have hz : |Binary32.exact z| = m * 2 ^ e := by
    rw [Binary32.exact, h, Binary.rational, UnpackedFloat.Sign.apply, Int.cast_natCast]
    exact abs_of_nonneg (by positivity)
  obtain ⟨hfinite, hnear⟩ := abs_wrapAngle_le h
  refine ⟨hfinite, ?_, ?_⟩
  · rwa [hz, exact_pi]
  · rw [hz, exact_pi]
    exact abs_wrapAngle_le_of_lt h

theorem reduced_zero : Reduced 0 := by
  have hzero : (wrapAngle (0 : Float32) : Float) = 0 := by decide +kernel
  have hexact : exact (wrapAngle (0 : Float32)) = 0 := by
    rw [hzero]
    rfl
  have hpi : 0 ≤ exact Scalar.pi := by
    rw [exact_pi]
    linarith [halfTurn_bounds.1]
  refine ⟨hzero ▸ rfl, ?_, fun _ => ?_⟩
  · rw [hexact, abs_zero]
    exact add_nonneg hpi (div_nonneg (abs_nonneg _) (by norm_num))
  · rwa [hexact, abs_zero]

/-- **Reduced angles.**  Every finite angle is reduced to a finite one that is outside the range
of half a turn either way by one part of the angle in `2⁵⁰` at most, and an angle below `2²⁸` is
reduced to one in the range. -/
theorem wrapAngle_near_range (z : Float32) (hz : z.isFinite = true) :
    (wrapAngle z : Float).isFinite = true ∧
      |exact (wrapAngle z)| ≤ exact Scalar.pi + |Binary32.exact z| / 2 ^ 50 ∧
      (|Binary32.exact z| < 2 ^ 28 → |exact (wrapAngle z)| ≤ exact Scalar.pi) := by
  suffices h : Reduced z from ⟨h.finite, h.near, h.within⟩
  rw [Binary32.isFinite_eq] at hz
  cases hvalue : Binary32.value z with
  | notANumber | infinity =>
      rw [hvalue] at hz
      cases hz
  | zero s =>
      rw [← Binary32.ofValue_value z, hvalue]
      cases s with
      | positive => exact reduced_zero
      | negative => exact reduced_zero.neg
  | finite s m e hm =>
      cases s with
      | positive => exact reduced_of_positive hvalue
      | negative =>
          have hneg : Binary32.value (-z) = .finite .positive m e hm := by
            rw [Binary32.value_neg, hvalue]
            rfl
          rw [← Binary32.neg_neg z]
          exact (reduced_of_positive hneg).neg

/-- Sixteen million turns. -/
theorem sixteen_million_turns_reduced :
    (100000000 : Float32).isFinite = true ∧ |Binary32.exact 100000000| < 2 ^ 28 ∧
      |exact (wrapAngle (100000000 : Float32))| ≤ exact Scalar.pi := by
  have hfinite : (100000000 : Float32).isFinite = true := by decide +kernel
  have hvalue : Binary32.value 100000000 = .finite .positive 12500000 3 (by decide) := rfl
  have hless : |Binary32.exact 100000000| < 2 ^ 28 := by
    rw [Binary32.exact, hvalue]
    norm_num [Binary.rational, UnpackedFloat.Sign.apply]
  exact ⟨hfinite, hless, (wrapAngle_near_range 100000000 hfinite).2.2 hless⟩

/-- The angle `2351268608` is reduced to one below the range, and one near the end of binary32 to
`2⁷⁵`, whose sine and cosine are taken for those of half a turn. -/
theorem reduced_angles_leave_range :
    exact (wrapAngle (2351268608 : Float32)) < -exact Scalar.pi ∧
      exact Scalar.pi < exact (wrapAngle (Float32.ofBits 0x7f68d32d)) ∧
      snappedSinCos (Float32.ofBits 0x7f68d32d) = ((0, -1) : Float32 × Float32) := by
  have hlow : (wrapAngle (2351268608 : Float32) : Float) = .ofBits 0xc00921fb80000000 := by
    decide +kernel
  have hlow_value : value (.ofBits 0xc00921fb80000000) =
      .finite .negative 7074238485757952 (-51) (by decide) := rfl
  have hhigh : (wrapAngle (Float32.ofBits 0x7f68d32d) : Float) = .ofBits 0x44a0000000000000 := by
    decide +kernel
  have hhigh_value : value (.ofBits 0x44a0000000000000) =
      .finite .positive 4503599627370496 23 (by decide) := rfl
  refine ⟨?_, ?_, by decide +kernel⟩
  · rw [exact_pi, hlow, exact, hlow_value]
    norm_num [Binary.rational, UnpackedFloat.Sign.apply, halfTurn, halfTurnDigits]
  · rw [exact_pi, hhigh, exact, hhigh_value]
    norm_num [Binary.rational, UnpackedFloat.Sign.apply, halfTurn, halfTurnDigits]

end Spatial
