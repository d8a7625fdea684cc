import Mathlib
import Spatial.Proofs.Decimal.Shortest

/-!
# Decimals near a middle

A decimal that is read with a small error must not lie close to the middle between two
binary32 numbers.  Shortest decimals do not, but for one.

1.  A decimal on a grid finer than `2ᵉ` is within half a step of its number, which leaves
    the rest of the way to the middle.
2.  Any other is a multiple of the first power of ten that is not below `2ᵉ`.  How near
    such a multiple comes to a middle is a question about the fractions near a fixed ratio:
    two neighbouring fractions around it have none with a small denominator between them.
3.  Which fractions these are is computed for each exponent, and that they are far enough
    from the ratio is checked.  The lower one is not for one exponent, where
    `7038531 · 10⁻³²` nearly reaches the middle above `11420669 · 2⁻¹⁰⁷`.
4.  The powers of two, with a neighbour that is nearer, are checked one by one.
-/

namespace Spatial.Decimal

open Binary (IsNearest)

/-! ## Neighbouring fractions -/

/-- No fraction between two neighbours has a denominator less than the sum of theirs. -/
theorem add_le_of_between {p q p' q' n m : ℕ} (hneighbours : p' * q = p * q' + 1)
    (hlow : p * m < n * q) (hhigh : n * q' < p' * m) : q + q' ≤ m := by
  obtain ⟨i, hi⟩ : ∃ i, n * q = p * m + 1 + i := ⟨n * q - p * m - 1, by omega⟩
  obtain ⟨j, hj⟩ : ∃ j, p' * m = n * q' + 1 + j := ⟨p' * m - n * q' - 1, by omega⟩
  have hm : m + p * q' * m = q * (1 + j) + q' * (1 + i) + p * q' * m := by
    calc m + p * q' * m = (p * q' + 1) * m := by ring
      _ = p' * m * q := by rw [← hneighbours]; ring
      _ = n * q * q' + q * (1 + j) := by rw [hj]; ring
      _ = q * (1 + j) + q' * (1 + i) + p * q' * m := by rw [hi]; ring
  have hsum : m = q * (1 + j) + q' * (1 + i) := Nat.add_right_cancel hm
  have hq : q ≤ q * (1 + j) := Nat.le_mul_of_pos_right q (by omega)
  have hq' : q' ≤ q' * (1 + i) := Nat.le_mul_of_pos_right q' (by omega)
  omega

/-- Fractions with a term below `2²⁵` that are more than a ratio are clearly more. -/
def ClearAbove (a b : ℕ) : Prop :=
  ∀ n m : ℕ, n < 2 ^ 25 → m < 2 ^ 25 → a * m < n * b → 2 ^ 53 * (a * m) < (2 ^ 53 - 3) * (n * b)

/-- Fractions that are less than a ratio are clearly less, but for one denominator. -/
def ClearBelow (a b except : ℕ) : Prop :=
  ∀ n m : ℕ, n < 2 ^ 25 → m < 2 ^ 25 → m ≠ except → n * b < a * m →
    (2 ^ 53 + 3) * (n * b) < 2 ^ 53 * (a * m)

/-- Two fractions. -/
structure Bracket where
  /-- The numerator of the lower one. -/
  p : ℕ
  /-- The denominator of the lower one. -/
  q : ℕ
  /-- The numerator of the upper one. -/
  p' : ℕ
  /-- The denominator of the upper one. -/
  q' : ℕ

namespace Bracket

variable {x : Bracket} {a b : ℕ}

/-- The fractions are neighbours and have no fraction with a small denominator between them. -/
def Tight (x : Bracket) : Prop := x.p' * x.q = x.p * x.q' + 1 ∧ 2 ^ 25 ≤ x.q + x.q'

instance (x : Bracket) : Decidable x.Tight := inferInstanceAs (Decidable (_ ∧ _))

/-- A fraction with a small denominator is outside. -/
theorem Tight.outside (h : x.Tight) {n m : ℕ} (hm : m < 2 ^ 25) :
    n * x.q ≤ x.p * m ∨ x.p' * m ≤ n * x.q' := by
  by_contra hinside
  rw [not_or, not_le, not_le] at hinside
  have hsum := add_le_of_between h.1 hinside.1 hinside.2
  have hlarge := h.2
  omega

/-- A fraction above the ratio is as clearly above it as the upper one is. -/
theorem Tight.above (h : x.Tight) {c d : ℕ} (hlow : x.p * b ≤ a * x.q)
    (hhigh : d * (a * x.q') < c * (x.p' * b)) {n m : ℕ} (hm : m < 2 ^ 25) (hpos : 0 < m)
    (hless : a * m < n * b) : d * (a * m) < c * (n * b) := by
  have hq : 0 < x.q := by
    by_contra hzero
    have hneighbours := h.1
    rw [Nat.eq_zero_of_not_pos hzero, Nat.mul_zero] at hneighbours
    omega
  have hlower : x.p * m < n * x.q := by
    refine Nat.lt_of_mul_lt_mul_right (a := b) ?_
    calc x.p * m * b = x.p * b * m := by ring
      _ ≤ a * x.q * m := Nat.mul_le_mul_right m hlow
      _ = a * m * x.q := by ring
      _ < n * b * x.q := Nat.mul_lt_mul_of_pos_right hless hq
      _ = n * x.q * b := by ring
  have hupper : x.p' * m ≤ n * x.q' := (h.outside hm).resolve_left (not_le.mpr hlower)
  refine Nat.lt_of_mul_lt_mul_right (a := x.q') ?_
  calc d * (a * m) * x.q' = d * (a * x.q') * m := by ring
    _ < c * (x.p' * b) * m := Nat.mul_lt_mul_of_pos_right hhigh hpos
    _ = c * b * (x.p' * m) := by ring
    _ ≤ c * b * (n * x.q') := Nat.mul_le_mul_left _ hupper
    _ = c * (n * b) * x.q' := by ring

/-- A fraction that is not above the lower one is as clearly below the ratio. -/
theorem below_of_le {c d : ℕ} (hlow : c * (x.p * b) < d * (a * x.q)) {n m : ℕ} (hpos : 0 < m)
    (hle : n * x.q ≤ x.p * m) : c * (n * b) < d * (a * m) := by
  refine Nat.lt_of_mul_lt_mul_right (a := x.q) ?_
  calc c * (n * b) * x.q = c * b * (n * x.q) := by ring
    _ ≤ c * b * (x.p * m) := Nat.mul_le_mul_left _ hle
    _ = c * (x.p * b) * m := by ring
    _ < d * (a * x.q) * m := Nat.mul_lt_mul_of_pos_right hlow hpos
    _ = d * (a * m) * x.q := by ring

/-- A fraction below the ratio is not above the lower one. -/
theorem Tight.le_lower (h : x.Tight) (hhigh : a * x.q' ≤ x.p' * b) {n m : ℕ} (hm : m < 2 ^ 25)
    (hless : n * b < a * m) : n * x.q ≤ x.p * m := by
  refine (h.outside hm).resolve_right fun hupper => ?_
  have hle : a * m * x.q' ≤ n * b * x.q' := by
    calc a * m * x.q' = a * x.q' * m := by ring
      _ ≤ x.p' * b * m := Nat.mul_le_mul_right m hhigh
      _ = b * (x.p' * m) := by ring
      _ ≤ b * (n * x.q') := Nat.mul_le_mul_left b hupper
      _ = n * b * x.q' := by ring
  have hq' : 0 < x.q' := by
    by_contra hzero
    have hneighbours := h.1
    have hlarge := h.2
    rw [Nat.eq_zero_of_not_pos hzero] at hneighbours hlarge
    have hone : x.q ∣ 1 := ⟨x.p', by rw [Nat.mul_comm, hneighbours, Nat.mul_zero]⟩
    have := Nat.le_of_dvd one_pos hone
    omega
  exact absurd (Nat.le_of_mul_le_mul_right hle hq') (not_le.mpr hless)

/-- The lower fraction is not above the ratio, and the upper one is clearly above it. -/
def Above (x : Bracket) (a b : ℕ) : Prop :=
  x.Tight ∧ x.p * b ≤ a * x.q ∧ 2 ^ 53 * (a * x.q') < (2 ^ 53 - 3) * (x.p' * b)

instance (x : Bracket) (a b : ℕ) : Decidable (x.Above a b) := inferInstanceAs (Decidable (_ ∧ _))

/-- The upper fraction is not below the ratio, and the lower one is clearly below it. -/
def Below (x : Bracket) (a b : ℕ) : Prop :=
  x.Tight ∧ a * x.q' ≤ x.p' * b ∧ (2 ^ 53 + 3) * (x.p * b) < 2 ^ 53 * (a * x.q)

instance (x : Bracket) (a b : ℕ) : Decidable (x.Below a b) := inferInstanceAs (Decidable (_ ∧ _))

/-- A bracket whose upper fraction is clearly above the ratio settles all that are above. -/
theorem Above.clear (h : x.Above a b) : ClearAbove a b := by
  obtain ⟨htight, hlow, hhigh⟩ := h
  intro n m _ hm hless
  rcases Nat.eq_zero_or_pos m with rfl | hpos
  · rw [Nat.mul_zero] at hless ⊢
    exact Nat.mul_pos (by norm_num) hless
  · exact htight.above hlow hhigh hm hpos hless

/-- A bracket whose lower fraction is clearly below the ratio settles all that are below. -/
theorem Below.clear (h : x.Below a b) (except : ℕ) : ClearBelow a b except := by
  obtain ⟨htight, hhigh, hlow⟩ := h
  intro n m _ hm _ hless
  have hpos : 0 < m := Nat.pos_of_ne_zero fun hzero => by simp [hzero] at hless
  exact below_of_le hlow hpos (htight.le_lower hhigh hm hless)

/-- Where the lower fraction of a bracket is too near to the ratio but has a large
denominator, the fraction before it decides on all other denominators. -/
theorem clear_before {y : Bracket} (hx : x.Tight) (hhigh : a * x.q' ≤ x.p' * b)
    (hlarge : 2 ^ 25 ≤ 2 * x.q) (hy : y.Tight) (hp : y.p' = x.p) (hq : y.q' = x.q)
    (hlow : (2 ^ 53 + 3) * (y.p * b) < 2 ^ 53 * (a * y.q)) : ClearBelow a b x.q := by
  intro n m _ hm hne hless
  have hpos : 0 < m := Nat.pos_of_ne_zero fun hzero => by simp [hzero] at hless
  have hle := hx.le_lower hhigh hm hless
  refine below_of_le hlow hpos ((hy.outside hm).resolve_right fun hupper => ?_)
  rw [hp, hq] at hupper
  -- The lower fraction itself: its terms have no common factor.
  have hequal : n * x.q = x.p * m := le_antisymm hle hupper
  have hcoprime : Nat.Coprime x.q x.p := by
    refine Nat.dvd_one.mp ?_
    have hproduct : Nat.gcd x.q x.p ∣ x.p * x.q' + 1 :=
      hx.1 ▸ (Nat.gcd_dvd_left x.q x.p).mul_left x.p'
    exact (Nat.dvd_add_right ((Nat.gcd_dvd_right x.q x.p).mul_right x.q')).mp hproduct
  obtain ⟨i, rfl⟩ : x.q ∣ m := hcoprime.dvd_of_dvd_mul_left ⟨n, by rw [← hequal, Nat.mul_comm]⟩
  have hi : 2 ≤ i := by
    rcases i with - | - | i
    · exact absurd hpos (lt_irrefl 0)
    · exact absurd (Nat.mul_one x.q) hne
    · omega
  have htwice : x.q * 2 ≤ x.q * i := Nat.mul_le_mul_left x.q hi
  omega

/-- One step of the search for the neighbours of a ratio.  The fraction that is farther from
the ratio moves towards it, past as many fractions as do not reach it. -/
def step (a b : ℕ) (x : Bracket) : Bracket :=
  let down := a * x.q - x.p * b
  let up := x.p' * b - a * x.q'
  if up < down then
    let j := min ((down - 1) / up) ((2 ^ 25 - 1 - x.q) / x.q')
    ⟨x.p + j * x.p', x.q + j * x.q', x.p', x.q'⟩
  else
    let j := min ((up - 1) / down) ((2 ^ 25 - 1 - x.q') / x.q)
    ⟨x.p, x.q, x.p' + j * x.p, x.q' + j * x.q⟩

/-- The neighbours of a ratio less than one.  Nothing is proved of the search: what it finds
is checked. -/
def around (a b : ℕ) : Bracket := (step a b)^[24] ⟨0, 1, 1, 1⟩

end Bracket

/-- Two terms that are not equal differ by a common divisor of the ratio. -/
theorem clear_of_gcd {a b : ℕ} (hb : 0 < b) (h : 3 * 2 ^ 25 * b ≤ 2 ^ 53 * Nat.gcd a b) :
    ClearAbove a b ∧ ∀ except, ClearBelow a b except := by
  have hshare (n : ℕ) (hn : n < 2 ^ 25) : 3 * (n * b) < 2 ^ 53 * Nat.gcd a b := by
    calc 3 * (n * b) = 3 * n * b := by ring
      _ < 3 * 2 ^ 25 * b := Nat.mul_lt_mul_of_pos_right (by omega) hb
      _ ≤ 2 ^ 53 * Nat.gcd a b := h
  constructor
  · intro n m hn _ hless
    have hgap : Nat.gcd a b ≤ n * b - a * m := Nat.le_of_dvd (by omega)
      (Nat.dvd_sub ((Nat.gcd_dvd_right a b).mul_left n) ((Nat.gcd_dvd_left a b).mul_right m))
    have := hshare n hn
    omega
  · intro except n m hn _ _ hless
    have hgap : Nat.gcd a b ≤ a * m - n * b := Nat.le_of_dvd (by omega)
      (Nat.dvd_sub ((Nat.gcd_dvd_left a b).mul_right m) ((Nat.gcd_dvd_right a b).mul_left n))
    have := hshare n hn
    omega

/-! ## The exponents of binary32 -/

/-- The first power of ten that is not below `2ᵉ`. -/
def coarse (e : ℤ) : ℤ := -(-e * 30103 / 100000)

/-- What is checked for an exponent: where the first power of ten lies, and that the
neighbours of half the ratio of `2ᵉ` to it are clear of it. -/
def Checked (e : ℤ) : Prop :=
  let k := coarse e
  let a := 2 * quarterFactor e k
  let b := gridFactor e k
  4 * quarterFactor e k ≤ b ∧
    (2 ^ 26 + 1) * gridFactor e (k - 1) ≤ 2 ^ 26 * (4 * quarterFactor e (k - 1)) ∧
    (3 * 2 ^ 25 * b ≤ 2 ^ 53 * Nat.gcd a b ∨
      (Bracket.around a b).Above a b ∧ (e = -107 ∨ (Bracket.around a b).Below a b))

instance (e : ℤ) : Decidable (Checked e) :=
  inferInstanceAs (Decidable (_ ∧ _ ∧ (_ ∨ _ ∧ (_ ∨ _))))

set_option maxRecDepth 10000 in
theorem checked_range : ∀ i ∈ List.range 254, Checked (i - 149) := by decide +kernel

variable {m : ℕ} {e k : ℤ} {d : Decimal} {c : ℚ}

/-- What is checked holds for every exponent of binary32. -/
theorem checked (he : -149 ≤ e) (he_le : e ≤ 104) : Checked e := by
  have h := checked_range (e + 149).toNat (List.mem_range.mpr (by omega))
  rwa [Int.toNat_of_nonneg (by omega), add_sub_cancel_right] at h

/-- A grid in units of `2ᵉ`. -/
theorem grid_eq (e k : ℤ) :
    (10 : ℚ) ^ k / 2 ^ e = (gridFactor e k : ℕ) / (4 * quarterFactor e k : ℕ) := by
  have hpoint := point_eq 1 e k
  rwa [Nat.cast_one, one_mul, one_mul] at hpoint

/-- The denominator of that ratio is not zero. -/
theorem four_quarters_pos (e k : ℤ) : (0 : ℚ) < (4 * quarterFactor e k : ℕ) := by
  exact_mod_cast Nat.mul_pos (by norm_num) (quarterFactor_pos e k)

/-- The coarse power of ten is not below the power of two. -/
theorem le_coarse (he : -149 ≤ e) (he_le : e ≤ 104) : (2 : ℚ) ^ e ≤ 10 ^ coarse e := by
  obtain ⟨h, -⟩ := checked he he_le
  rw [← one_le_div (by positivity), grid_eq, one_le_div (four_quarters_pos _ _)]
  exact_mod_cast h

/-- The power of ten before it is clearly below. -/
theorem coarse_pred_lt (he : -149 ≤ e) (he_le : e ≤ 104) :
    (2 ^ 26 + 1) * (10 ^ (coarse e - 1) / 2 ^ e) ≤ (2 : ℚ) ^ 26 := by
  obtain ⟨-, h, -⟩ := checked he he_le
  rw [grid_eq, ← mul_div_assoc, div_le_iff₀ (four_quarters_pos _ _)]
  exact_mod_cast h

/-- On the coarse grid, whatever is above a middle is clearly above it. -/
theorem clear_above (he : -149 ≤ e) (he_le : e ≤ 104) :
    ClearAbove (2 * quarterFactor e (coarse e)) (gridFactor e (coarse e)) := by
  obtain ⟨-, -, hgcd | ⟨habove, -⟩⟩ := checked he he_le
  · exact (clear_of_gcd (gridFactor_pos _ _) hgcd).1
  · exact habove.clear

/-- The denominator of the lower fraction that is too near to its ratio. -/
def nearMiddle : ℕ := 22841339

/-- At the one exponent with an exception, whatever is below another middle is clearly below. -/
theorem clear_below_unless (h : e = -107) :
    ClearBelow (2 * quarterFactor e (coarse e)) (gridFactor e (coarse e)) nearMiddle := by
  subst h
  exact Bracket.clear_before (x := ⟨7038531, nearMiddle, 4466801, 14495598⟩)
    (y := ⟨9610261, 31187080, 7038531, nearMiddle⟩) (by decide +kernel) (by decide +kernel)
    (by decide +kernel) (by decide +kernel) rfl rfl (by decide +kernel)

/-- On the coarse grid, whatever is below a middle is clearly below it, but for one middle. -/
theorem clear_below (he : -149 ≤ e) (he_le : e ≤ 104) (hm : ¬(e = -107 ∧ m = nearMiddle)) :
    ∀ n : ℕ, n < 2 ^ 25 → m < 2 ^ 25 →
      n * gridFactor e (coarse e) < 2 * quarterFactor e (coarse e) * m →
      (2 ^ 53 + 3) * (n * gridFactor e (coarse e)) <
        2 ^ 53 * (2 * quarterFactor e (coarse e) * m) := by
  intro n hn hm_lt
  by_cases hspecial : e = -107
  · exact clear_below_unless hspecial n m hn hm_lt fun h => hm ⟨hspecial, h⟩
  · obtain ⟨-, -, hgcd | ⟨-, habsurd | hbelow⟩⟩ := checked he he_le
    · exact (clear_of_gcd (gridFactor_pos _ _) hgcd).2 (m + 1) n m hn hm_lt (by omega)
    · exact absurd habsurd hspecial
    · exact hbelow.clear (m + 1) n m hn hm_lt (by omega)

/-! ## Decimals that are read with a small error -/

/-- Half of a natural number, in the units of a grid. -/
theorem half_eq (e k : ℤ) (m : ℕ) :
    (m : ℚ) / 2 = (2 * quarterFactor e k * m : ℕ) / (4 * quarterFactor e k : ℕ) := by
  have hq := quarterFactor_pos e k
  push_cast
  field_simp
  norm_num

/-- A point of the first grid above a middle is clearly above it. -/
theorem above_middle (he : -149 ≤ e) (he_le : e ≤ 104) {n : ℕ} (hn : n < 2 ^ 25)
    (hm : m < 2 ^ 25) (h : (m : ℚ) / 2 < n * 10 ^ coarse e / 2 ^ e) :
    2 ^ 53 * ((m : ℚ) / 2) < (2 ^ 53 - 3) * (n * 10 ^ coarse e / 2 ^ e) := by
  have hpos := four_quarters_pos e (coarse e)
  rw [half_eq e (coarse e), point_eq] at h ⊢
  rw [div_lt_div_iff_of_pos_right hpos, Nat.cast_lt] at h
  rw [← mul_div_assoc, ← mul_div_assoc, div_lt_div_iff_of_pos_right hpos]
  have hclear := clear_above he he_le n m hn hm h
  have hthree : (2 : ℚ) ^ 53 - 3 = (2 ^ 53 - 3 : ℕ) := by norm_num
  rw [hthree]
  exact_mod_cast hclear

/-- A point of the first grid below a middle is clearly below it, but for one. -/
theorem below_middle (he : -149 ≤ e) (he_le : e ≤ 104) {n : ℕ} (hn : n < 2 ^ 25)
    (hm : m < 2 ^ 25) (hunless : ¬(e = -107 ∧ m = nearMiddle))
    (h : n * 10 ^ coarse e / 2 ^ e < (m : ℚ) / 2) :
    (2 ^ 53 + 3) * (n * 10 ^ coarse e / 2 ^ e) < 2 ^ 53 * ((m : ℚ) / 2) := by
  have hpos := four_quarters_pos e (coarse e)
  rw [half_eq e (coarse e), point_eq] at h ⊢
  rw [div_lt_div_iff_of_pos_right hpos, Nat.cast_lt] at h
  rw [← mul_div_assoc, ← mul_div_assoc, div_lt_div_iff_of_pos_right hpos]
  exact_mod_cast clear_below he he_le hunless n hn hm h

/-- All powers of ten before the coarse one are clearly below the power of two. -/
theorem coarse_pred_le (he : -149 ≤ e) (he_le : e ≤ 104) (h : k ≤ coarse e - 1) :
    (2 ^ 26 + 1) * (10 ^ k / 2 ^ e) ≤ (2 : ℚ) ^ 26 := by
  have hpower : (10 : ℚ) ^ k ≤ 10 ^ (coarse e - 1) := zpow_le_zpow_right₀ (by norm_num) h
  refine le_trans ?_ (coarse_pred_lt he he_le)
  gcongr

/-- On a fine grid the nearest point leaves room for a small error. -/
theorem inside_of_fine (hm_lt : m < 2 ^ 24) (he : -149 ≤ e) (he_le : e ≤ 104)
    (hfine : (10 : ℚ) ^ k < 2 ^ e) {t : ℚ} (hnear : |t - m| ≤ 10 ^ k / 2 ^ e / 2)
    (hclose : |c - t| ≤ 3 / 2 ^ 53 * t) : (m : ℚ) - 1 / 2 < c ∧ c < m + 1 / 2 := by
  have hten : (1 : ℚ) < 10 := by norm_num
  have hk := (zpow_lt_zpow_iff_right₀ hten).mp (lt_of_lt_of_le hfine (le_coarse he he_le))
  have hstep := coarse_pred_le he he_le (k := k) (by omega)
  have hm_max : (m : ℚ) + 1 ≤ 2 ^ 24 := by exact_mod_cast hm_lt
  generalize (10 : ℚ) ^ k / 2 ^ e = g at *
  obtain ⟨hnear₁, hnear₂⟩ := abs_le.mp hnear
  obtain ⟨hclose₁, hclose₂⟩ := abs_le.mp hclose
  constructor <;> linarith

/-- On a coarse grid no point is near to a middle, but for one. -/
theorem inside_of_coarse (hm : 0 < m) (hm_lt : m < 2 ^ 24) (he : -149 ≤ e) (he_le : e ≤ 104)
    (hunless : ¬(e = -107 ∧ 2 * m + 1 = nearMiddle)) (hcoarse : (2 : ℚ) ^ e ≤ 10 ^ d.exponent)
    (hlower : (m : ℚ) - 1 / 2 < d.toRat / 2 ^ e) (hupper : d.toRat / 2 ^ e < m + 1 / 2)
    (hclose : |c - d.toRat / 2 ^ e| ≤ 3 / 2 ^ 53 * (d.toRat / 2 ^ e)) :
    (m : ℚ) - 1 / 2 < c ∧ c < m + 1 / 2 := by
  have hexponent : coarse e ≤ d.exponent := by
    by_contra hless
    have hstep := coarse_pred_le he he_le (k := d.exponent) (by omega)
    have hone := (one_le_div (by positivity)).mpr hcoarse
    linarith
  obtain ⟨j, hj⟩ := Int.eq_ofNat_of_zero_le (sub_nonneg.mpr hexponent)
  have hpoint : d.toRat = (d.digits * 10 ^ j : ℕ) * 10 ^ coarse e := by
    rw [toRat, show d.exponent = j + coarse e by omega, zpow_add₀ (by norm_num), zpow_natCast]
    push_cast
    ring
  have hlow_cast : ((2 * m - 1 : ℕ) : ℚ) / 2 = m - 1 / 2 := by
    rw [Nat.cast_sub (by omega)]
    push_cast
    ring
  have hhigh_cast : ((2 * m + 1 : ℕ) : ℚ) / 2 = m + 1 / 2 := by
    push_cast
    ring
  have hm_max : (m : ℚ) + 1 ≤ 2 ^ 24 := by exact_mod_cast hm_lt
  have hdigits : d.digits * 10 ^ j < 2 ^ 25 := by
    have hbound : ((d.digits * 10 ^ j : ℕ) : ℚ) ≤ d.toRat / 2 ^ e := by
      rw [le_div_iff₀ (by positivity), hpoint]
      exact mul_le_mul_of_nonneg_left (le_coarse he he_le) (Nat.cast_nonneg _)
    have hless : ((d.digits * 10 ^ j : ℕ) : ℚ) < (2 ^ 25 : ℕ) := by
      push_cast at hbound ⊢
      linarith
    exact_mod_cast hless
  rw [hpoint] at hlower hupper hclose
  have habove := above_middle he he_le hdigits (m := 2 * m - 1) (by omega)
    (by rwa [hlow_cast])
  have hbelow := below_middle he he_le hdigits (m := 2 * m + 1) (by omega) hunless
    (by rwa [hhigh_cast])
  rw [hlow_cast] at habove
  rw [hhigh_cast] at hbelow
  obtain ⟨hclose₁, hclose₂⟩ := abs_le.mp hclose
  constructor <;> linarith

/-- **Small errors do no harm.**  A number that is near to the decimal written for `m · 2ᵉ`,
and equal to it if that lies at a middle, is nearest to `m · 2ᵉ`; this says nothing of the
one number whose decimal nearly reaches a middle. -/
theorem nearest_of_close (hm : 0 < m) (hm_lt : m < 2 ^ 24) (he : -149 ≤ e) (he_le : e ≤ 104)
    (hd : IsWrittenFor m e d) (hunless : ¬(e = -107 ∧ 2 * m + 1 = nearMiddle))
    (hclose : |c - d.toRat| ≤ 3 / 2 ^ 53 * d.toRat)
    (hmiddle : d.toRat / 2 ^ e = m - 1 / 2 ∨ d.toRat / 2 ^ e = m + 1 / 2 → c = d.toRat) :
    IsNearest m (c / 2 ^ e) := by
  have hpos : (0 : ℚ) < 2 ^ e := by positivity
  rcases eq_or_lt_of_le hd.nearest.lower with hlower | hlower
  · rw [hmiddle (.inl hlower.symm)]
    exact hd.nearest
  rcases eq_or_lt_of_le hd.nearest.upper with hupper | hupper
  · rw [hmiddle (.inr hupper)]
    exact hd.nearest
  have hscaled : |c / 2 ^ e - d.toRat / 2 ^ e| ≤ 3 / 2 ^ 53 * (d.toRat / 2 ^ e) := by
    rw [← sub_div, abs_div, abs_of_pos hpos, ← mul_div_assoc]
    exact div_le_div_of_nonneg_right hclose hpos.le
  have hinside : (m : ℚ) - 1 / 2 < c / 2 ^ e ∧ c / 2 ^ e < m + 1 / 2 := by
    by_cases hfine : (10 : ℚ) ^ d.exponent < 2 ^ e
    · refine inside_of_fine hm_lt he he_le hfine ?_ hscaled
      have hnear := div_le_div_of_nonneg_right (hd.close hfine) hpos.le
      rwa [← abs_of_pos hpos, ← abs_div, abs_of_pos hpos, sub_div,
        mul_div_cancel_right₀ _ hpos.ne', div_right_comm] at hnear
    · exact inside_of_coarse hm hm_lt he he_le hunless (not_lt.mp hfine) hlower hupper hscaled
  exact ⟨hinside.1.le, hinside.2.le, fun heq => absurd heq hinside.1.ne',
    fun heq => absurd heq hinside.2.ne⟩

/-! ## Powers of two -/

instance (d : Decimal) : Decidable (IsSmall d) :=
  decidable_of_iff (0 < d.digits ∧ d.digits < 2 ^ 28 ∧ -46 ≤ d.exponent ∧ d.exponent ≤ 38)
    ⟨fun ⟨h₁, h₂, h₃, h₄⟩ => ⟨h₁, h₂, h₃, h₄⟩, fun h => ⟨h.1, h.2, h.3, h.4⟩⟩

/-- What is checked for a power of two `2²³ · 2ᵉ`, whose neighbour below is only half as far as the
one above: its decimal is small, and clearly inside the interval. -/
def PowerChecked (e : ℤ) : Prop :=
  let d := shortest .even (2 ^ 23) e
  let p := d.digits * gridFactor e d.exponent
  let q := quarterFactor e d.exponent
  IsSmall d ∧ 2 ^ 53 * ((4 * 2 ^ 23 - 1) * q) < (2 ^ 53 - 3) * p ∧
    (2 ^ 53 + 3) * p < 2 ^ 53 * ((4 * 2 ^ 23 + 2) * q)

instance (e : ℤ) : Decidable (PowerChecked e) := inferInstanceAs (Decidable (_ ∧ _ ∧ _))

set_option maxRecDepth 10000 in
theorem powers_checked : ∀ i ∈ List.range 253, PowerChecked (i - 148) := by decide +kernel

/-- What is checked holds for every power of two of binary32. -/
theorem powerChecked (he : -149 < e) (he_le : e ≤ 104) : PowerChecked e := by
  have h := powers_checked (e + 148).toNat (List.mem_range.mpr (by omega))
  rwa [Int.toNat_of_nonneg (by omega), add_sub_cancel_right] at h

/-- The decimal that is written for a number of binary32 is small. -/
theorem isSmall_shortest (hm : 0 < m) (hm_lt : m < 2 ^ 24) (he : -149 ≤ e) (he_le : e ≤ 104) :
    IsSmall (shortest .even m e) := by
  by_cases hregular : Regular m e
  · exact (isWrittenFor_shortest .even hm hm_lt he he_le hregular).toIsSmall
  · rw [Regular, not_or, not_not] at hregular
    obtain ⟨rfl, hne⟩ := hregular
    exact (powerChecked (by omega) he_le).1

/-- A number that is near to the decimal written for a power of two is inside its interval. -/
theorem inside_of_power (he : -149 < e) (he_le : e ≤ 104)
    (hclose : |c - (shortest .even (2 ^ 23) e).toRat| ≤
      3 / 2 ^ 53 * (shortest .even (2 ^ 23) e).toRat) :
    (2 : ℚ) ^ 23 - 1 / 4 < c / 2 ^ e ∧ c / 2 ^ e < 2 ^ 23 + 1 / 2 := by
  obtain ⟨-, hlow, hhigh⟩ := powerChecked he he_le
  generalize shortest .even (2 ^ 23) e = d at *
  have hpos : (0 : ℚ) < 2 ^ e := by positivity
  have hpoint : d.toRat / 2 ^ e =
      (d.digits * gridFactor e d.exponent : ℕ) / (4 * quarterFactor e d.exponent : ℕ) :=
    point_eq d.digits e d.exponent
  have hquarter : (0 : ℚ) < quarterFactor e d.exponent := by
    exact_mod_cast quarterFactor_pos e d.exponent
  have hscaled : |c / 2 ^ e - d.toRat / 2 ^ e| ≤ 3 / 2 ^ 53 * (d.toRat / 2 ^ e) := by
    rw [← sub_div, abs_div, abs_of_pos hpos, ← mul_div_assoc]
    exact div_le_div_of_nonneg_right hclose hpos.le
  rw [hpoint] at hscaled
  generalize d.digits * gridFactor e d.exponent = p at *
  generalize quarterFactor e d.exponent = q at *
  have hthree : (2 : ℚ) ^ 53 - 3 = (2 ^ 53 - 3 : ℕ) := by norm_num
  have hlow' : (2 : ℚ) ^ 53 * ((4 * 2 ^ 23 - 1) * q) < (2 ^ 53 - 3) * p := by
    rw [hthree, show (4 * 2 ^ 23 - 1 : ℚ) = (4 * 2 ^ 23 - 1 : ℕ) by norm_num]
    exact_mod_cast hlow
  have hhigh' : ((2 : ℚ) ^ 53 + 3) * p < 2 ^ 53 * ((4 * 2 ^ 23 + 2) * q) := by
    exact_mod_cast hhigh
  obtain ⟨t, ht⟩ : ∃ t : ℚ, (p : ℚ) / (4 * q : ℕ) = t := ⟨_, rfl⟩
  have hp : (p : ℚ) = t * (4 * q) := by
    rw [← ht]
    push_cast
    field_simp
  rw [ht] at hscaled
  rw [hp] at hlow' hhigh'
  have hbelow : (2 : ℚ) ^ 53 * (2 ^ 23 - 1 / 4) < (2 ^ 53 - 3) * t := by
    refine lt_of_mul_lt_mul_right ?_ (by positivity : (0 : ℚ) ≤ 4 * q)
    linarith
  have habove : ((2 : ℚ) ^ 53 + 3) * t < 2 ^ 53 * (2 ^ 23 + 1 / 2) := by
    refine lt_of_mul_lt_mul_right ?_ (by positivity : (0 : ℚ) ≤ 4 * q)
    linarith
  obtain ⟨hclose₁, hclose₂⟩ := abs_le.mp hscaled
  constructor <;> linarith

/-! ## Decimals at a middle -/

/-- How often a small number is divisible by five. -/
theorem padicValNat_five_le {n j : ℕ} (hn : 0 < n) (hlt : n < 5 ^ (j + 1)) :
    padicValNat 5 n ≤ j :=
  (padicValNat_le_nat_log n).trans
    (Nat.lt_succ_iff.mp (Nat.log_lt_of_lt_pow hn.ne' hlt))

/-- A decimal with few digits that is also a fraction with few binary digits has a small
exponent: all fives are in its power of ten or in its digits. -/
theorem exponent_of_fraction {n i : ℕ} {f : ℤ} (hn : 0 < n) (hn_lt : n < 2 ^ 28) (hi : 0 < i)
    (hi_lt : i < 2 ^ 25) (h : (n : ℚ) * 10 ^ k = i * 2 ^ f) : -22 ≤ k ∧ k ≤ 22 := by
  have : Fact (Nat.Prime 5) := ⟨Nat.prime_five⟩
  have hn' : (n : ℚ) ≠ 0 := by exact_mod_cast hn.ne'
  have hi' : (i : ℚ) ≠ 0 := by exact_mod_cast hi.ne'
  have htwo : padicValRat 5 (2 : ℚ) = 0 := by
    rw [← Nat.cast_two, padicValRat.of_nat, padicValNat.eq_zero_of_not_dvd (by norm_num)]
    rfl
  have hten : padicValRat 5 (10 : ℚ) = 1 := by
    have hfactor : (10 : ℚ) = 2 * (5 : ℕ) := by norm_num
    rw [hfactor, padicValRat.mul (by norm_num) (by norm_num), htwo,
      padicValRat.self (by norm_num), zero_add]
  have hcount := congrArg (padicValRat 5) h
  rw [padicValRat.mul hn' (by positivity), padicValRat.mul hi' (by positivity),
    padicValRat.zpow, padicValRat.zpow, hten, htwo, padicValRat.of_nat, padicValRat.of_nat]
    at hcount
  have hdigits := padicValNat_five_le hn (j := 12) (hn_lt.trans (by norm_num))
  have hfraction := padicValNat_five_le hi (j := 10) (hi_lt.trans (by norm_num))
  omega

end Spatial.Decimal
