import Mathlib
import Spatial.Number.Decimal
import Spatial.Proofs.Binary.Nearest

/-!
# The shortest decimal

What the search over grids finds, for a number `m · 2ᵉ` whose neighbours are equally far.

1.  A point of a grid is accepted exactly if the number is nearest to it among the
    multiples of `2ᵉ`.
2.  A grid that is finer than `2ᵉ` has a point that is accepted, and of its points the one
    nearest to the number is taken.
3.  So the grid that is found is the first one finer than `2ᵉ` or a coarser one, which
    bounds the digits of the decimal.

The factors that the search multiplies by keep everything a natural number; they stand in
the ratio of `10ᵏ` to a quarter of `2ᵉ`, and all statements are about that ratio.
-/

namespace Spatial.Decimal

open Binary (IsNearest)

/-- The number that a decimal stands for. -/
def toRat (d : Decimal) : ℚ := d.digits * 10 ^ d.exponent

/-- Both neighbours of `m · 2ᵉ` are equally far. -/
def Regular (m : ℕ) (e : ℤ) : Prop := m ≠ 2 ^ 23 ∨ e = -149

variable {m n : ℕ} {e k : ℤ}

/-! ## Grids -/

theorem quarterFactor_pos (e k : ℤ) : 0 < quarterFactor e k :=
  Nat.mul_pos (Nat.pow_pos two_pos) (Nat.pow_pos (by norm_num))

theorem gridFactor_pos (e k : ℤ) : 0 < gridFactor e k :=
  Nat.mul_pos (Nat.pow_pos two_pos) (Nat.pow_pos (by norm_num))

/-- A power with an exponent of either sign, as a quotient of powers of natural numbers. -/
theorem zpow_eq_div {b : ℚ} (hb : b ≠ 0) (j : ℤ) :
    b ^ j = b ^ j.toNat / b ^ (-j).toNat := by
  rw [← zpow_natCast, ← zpow_natCast, ← zpow_sub₀ hb]
  congr 1
  omega

/-- A point of a grid, in units of `2ᵉ`. -/
theorem point_eq (n : ℕ) (e k : ℤ) :
    (n : ℚ) * 10 ^ k / 2 ^ e = (n * gridFactor e k : ℕ) / (4 * quarterFactor e k : ℕ) := by
  have hten := zpow_eq_div (b := 10) (by norm_num) k
  have htwo := zpow_eq_div (b := 2) (by norm_num) (e - 2)
  have hfour : (2 : ℚ) ^ e = 4 * 2 ^ (e - 2) := by
    rw [zpow_sub₀ two_ne_zero]
    ring
  have hneg : (-(e - 2)).toNat = (2 - e).toNat := by omega
  rw [hneg] at htwo
  rw [hfour, hten, htwo, gridFactor, quarterFactor]
  simp only [Nat.pow_eq]
  push_cast
  field_simp

/-- Which of a power of ten and a power of two is larger, in integers. -/
theorem grid_lt_iff : (10 : ℚ) ^ k < 2 ^ e ↔ gridFactor e k < 4 * quarterFactor e k := by
  have hpoint := point_eq 1 e k
  have hpos := quarterFactor_pos e k
  rw [Nat.cast_one, one_mul, one_mul] at hpoint
  rw [← div_lt_one (by positivity), hpoint, div_lt_one (by positivity), Nat.cast_lt]

/-! ## Points that are accepted -/

/-- With neighbours equally far, the interval reaches half a step down. -/
theorem lowerQuarters_eq (h : Regular m e) : lowerQuarters m e = 4 * m - 2 := by
  rw [lowerQuarters, if_neg]
  rintro ⟨rfl, hlt⟩
  rcases h with h | rfl
  · exact h rfl
  · omega

/-- The lower end of the interval is the middle to the neighbour below. -/
theorem lower_compare (hm : 0 < m) (p : ℕ) {q : ℕ} (hq : 0 < q) :
    ((4 * m - 2) * q ≤ p ↔ (m : ℚ) - 1 / 2 ≤ p / (4 * q : ℕ)) ∧
      ((4 * m - 2) * q < p ↔ (m : ℚ) - 1 / 2 < p / (4 * q : ℕ)) := by
  have hcast : ((4 * m - 2 : ℕ) : ℚ) = 4 * m - 2 := by
    rw [Nat.cast_sub (by omega)]
    norm_num
  have hscale : ((m : ℚ) - 1 / 2) * (4 * q : ℕ) = ((4 * m - 2) * q : ℕ) := by
    push_cast [hcast]
    ring
  constructor
  · rw [le_div_iff₀ (by positivity), hscale, Nat.cast_le]
  · rw [lt_div_iff₀ (by positivity), hscale, Nat.cast_lt]

/-- The upper end of the interval is the middle to the neighbour above. -/
theorem upper_compare (m p : ℕ) {q : ℕ} (hq : 0 < q) :
    (p ≤ (4 * m + 2) * q ↔ (p : ℚ) / (4 * q : ℕ) ≤ m + 1 / 2) ∧
      (p < (4 * m + 2) * q ↔ (p : ℚ) / (4 * q : ℕ) < m + 1 / 2) := by
  have hscale : ((m : ℚ) + 1 / 2) * (4 * q : ℕ) = ((4 * m + 2) * q : ℕ) := by
    push_cast
    ring
  constructor
  · rw [div_le_iff₀ (by positivity), hscale, Nat.cast_le]
  · rw [div_lt_iff₀ (by positivity), hscale, Nat.cast_lt]

/-- A point is accepted exactly if it is nearest to the number. -/
theorem reads_iff (hm : 0 < m) (h : Regular m e) :
    reads m e k n = true ↔ IsNearest m (n * 10 ^ k / 2 ^ e) := by
  obtain ⟨hlow, hlow'⟩ := lower_compare hm (n * gridFactor e k) (quarterFactor_pos e k)
  obtain ⟨hhigh, hhigh'⟩ := upper_compare m (n * gridFactor e k) (quarterFactor_pos e k)
  rw [point_eq, reads, lowerQuarters_eq h, upperQuarters]
  generalize ((n * gridFactor e k : ℕ) : ℚ) / (4 * quarterFactor e k : ℕ) = x at *
  by_cases heven : m % 2 = 0
  · rw [if_pos heven, Bool.and_eq_true, decide_eq_true_eq, decide_eq_true_eq, hlow, hhigh]
    exact ⟨fun ⟨h₁, h₂⟩ => ⟨h₁, h₂, fun _ => heven, fun _ => heven⟩,
      fun hn => ⟨hn.lower, hn.upper⟩⟩
  · rw [if_neg heven, Bool.and_eq_true, decide_eq_true_eq, decide_eq_true_eq, hlow', hhigh']
    constructor
    · rintro ⟨h₁, h₂⟩
      exact ⟨h₁.le, h₂.le, fun heq => absurd heq h₁.ne', fun heq => absurd heq h₂.ne⟩
    · intro hn
      exact ⟨lt_of_le_of_ne hn.lower fun heq => heven (hn.even_of_lower heq.symm),
        lt_of_le_of_ne hn.upper fun heq => heven (hn.even_of_upper heq)⟩

/-- A point that is nearer to the number than half a step is accepted. -/
theorem reads_of_close (hm : 0 < m) (h : Regular m e)
    (hlow : 4 * m * quarterFactor e k < n * gridFactor e k + 2 * quarterFactor e k)
    (hhigh : n * gridFactor e k < 4 * m * quarterFactor e k + 2 * quarterFactor e k) :
    reads m e k n = true := by
  rw [reads, lowerQuarters_eq h, upperQuarters]
  have hlower : (4 * m - 2) * quarterFactor e k < n * gridFactor e k := by
    have hsplit : (4 * m - 2) * quarterFactor e k + 2 * quarterFactor e k =
        4 * m * quarterFactor e k := by
      rw [← Nat.add_mul]
      congr 1
      omega
    omega
  have hupper : n * gridFactor e k < (4 * m + 2) * quarterFactor e k := by
    rw [Nat.add_mul]
    exact hhigh
  split_ifs
  · simp [hlower.le, hupper.le]
  · simp [hlower, hupper]

/-! ## The point that is taken -/

/-- The point that a grid gives: it is accepted, and on a grid finer than `2ᵉ` it is the
nearest one to the number. -/
theorem onGrid?_some {tie : Tie} {d : Decimal} (hm : 0 < m) (h : Regular m e)
    (hd : onGrid? tie m e k = some d) :
    d.exponent = k ∧ reads m e k d.digits = true ∧
      (gridFactor e k < 4 * quarterFactor e k →
        2 * (d.digits * gridFactor e k) ≤ 2 * (4 * m * quarterFactor e k) + gridFactor e k ∧
        2 * (4 * m * quarterFactor e k) ≤ 2 * (d.digits * gridFactor e k) + gridFactor e k) := by
  have hmod := Nat.mod_lt (4 * m * quarterFactor e k) (gridFactor_pos e k)
  have hbelow := Nat.div_add_mod' (4 * m * quarterFactor e k) (gridFactor e k)
  unfold onGrid? at hd
  simp only [Nat.add_mul, Nat.one_mul] at hd
  generalize 4 * m * quarterFactor e k / gridFactor e k = b at *
  have hclose_below := reads_of_close (k := k) (n := b) hm h
  have hclose_above := reads_of_close (k := k) (n := b + 1) hm h
  rw [Nat.add_mul, Nat.one_mul] at hclose_above
  generalize 4 * m * quarterFactor e k = v at *
  split at hd
  case h_1 hread hread' =>
    obtain rfl := Option.some.inj hd
    simp only
    refine ⟨trivial, by split_ifs <;> assumption, fun _ => ?_⟩
    by_cases hequal : v - b * gridFactor e k = b * gridFactor e k + gridFactor e k - v
    · simp only [if_pos hequal]
      split_ifs
      · rw [Nat.add_mul, Nat.one_mul]
        omega
      · omega
    · simp only [if_neg hequal, decide_eq_true_eq]
      split_ifs
      · rw [Nat.add_mul, Nat.one_mul]
        omega
      · omega
  case h_2 hread hread' =>
    obtain rfl := Option.some.inj hd
    refine ⟨rfl, hread, fun hfine => ?_⟩
    have hfar : ¬(v < b * gridFactor e k + gridFactor e k + 2 * quarterFactor e k ∧
        b * gridFactor e k + gridFactor e k < v + 2 * quarterFactor e k) := by
      rintro ⟨h₁, h₂⟩
      rw [hclose_above h₁ h₂] at hread'
      cases hread'
    simp only
    omega
  case h_3 hread hread' =>
    obtain rfl := Option.some.inj hd
    refine ⟨rfl, hread', fun hfine => ?_⟩
    have hfar : ¬(v < b * gridFactor e k + 2 * quarterFactor e k ∧
        b * gridFactor e k < v + 2 * quarterFactor e k) := by
      rintro ⟨h₁, h₂⟩
      rw [hclose_below h₁ h₂] at hread
      cases hread
    rw [Nat.add_mul, Nat.one_mul]
    omega
  case h_4 => cases hd

/-- A grid finer than `2ᵉ` has a point that is accepted. -/
theorem isSome_onGrid? (tie : Tie) (hm : 0 < m) (h : Regular m e)
    (hfine : gridFactor e k < 4 * quarterFactor e k) : (onGrid? tie m e k).isSome = true := by
  have hmod := Nat.mod_lt (4 * m * quarterFactor e k) (gridFactor_pos e k)
  have hbelow := Nat.div_add_mod' (4 * m * quarterFactor e k) (gridFactor e k)
  unfold onGrid?
  simp only
  generalize 4 * m * quarterFactor e k / gridFactor e k = b at *
  have hclose_below := reads_of_close (k := k) (n := b) hm h
  have hclose_above := reads_of_close (k := k) (n := b + 1) hm h
  rw [Nat.add_mul, Nat.one_mul] at hclose_above
  generalize 4 * m * quarterFactor e k = v at *
  split
  case h_1 | h_2 | h_3 => rfl
  case h_4 hread hread' =>
    exfalso
    by_cases hnear : 2 * (v % gridFactor e k) < gridFactor e k
    · rw [hclose_below (by omega) (by omega)] at hread
      cases hread
    · rw [hclose_above (by omega) (by omega)] at hread'
      cases hread'

/-! ## The search -/

/-- What stands before an index of a range are the smaller ones. -/
theorem range_split {n i : ℕ} {before after : List ℕ}
    (h : List.range n = before ++ i :: after) : i < n ∧ ∀ j < i, j ∈ before := by
  have hi : i ∈ List.range n := by
    rw [h]
    simp
  have hn := List.mem_range.mp hi
  have hsorted : (before ++ i :: after).Pairwise (· < ·) := h ▸ List.pairwise_lt_range
  obtain ⟨-, hafter, -⟩ := List.pairwise_append.mp hsorted
  refine ⟨hn, fun j hj => ?_⟩
  have hmem : j ∈ before ++ i :: after := by
    rw [← h]
    exact List.mem_range.mpr (by omega)
  rcases List.mem_append.mp hmem with hbefore | hlater
  · exact hbefore
  rcases List.mem_cons.mp hlater with rfl | hlater
  · omega
  · have := (List.pairwise_cons.mp hafter).1 j hlater
    omega

/-- What the search finds: the point of a grid, where the next coarser grid is not finer
than `2ᵉ`. -/
theorem shortest_spec (tie : Tie) (hm : 0 < m) (h : Regular m e) (he : -149 ≤ e) :
    ∃ k, -46 ≤ k ∧ k ≤ 39 ∧ onGrid? tie m e k = some (shortest tie m e) ∧
      (k = 39 ∨ (2 : ℚ) ^ e ≤ 10 ^ (k + 1)) := by
  have hexists : ((List.range 86).findSome? fun (i : ℕ) => onGrid? tie m e (39 - i)).isSome := by
    rw [List.findSome?_isSome_iff]
    refine ⟨85, List.mem_range.mpr (by norm_num), isSome_onGrid? tie hm h ?_⟩
    rw [← grid_lt_iff]
    refine lt_of_lt_of_le ?_ (zpow_le_zpow_right₀ one_le_two he)
    norm_num
  obtain ⟨d, hd⟩ := Option.isSome_iff_exists.mp hexists
  have hshortest : shortest tie m e = d := by
    rw [shortest, hd]
    rfl
  obtain ⟨before, i, after, hsplit, hi, hnone⟩ := List.findSome?_eq_some_iff.mp hd
  obtain ⟨hlt, hbefore⟩ := range_split hsplit
  refine ⟨39 - i, by omega, by omega, by rw [hshortest]; exact hi, ?_⟩
  rcases Nat.eq_zero_or_pos i with rfl | hpos
  · exact .inl rfl
  · right
    by_contra hfine
    have hgrid := isSome_onGrid? tie (k := 39 - (i - 1 : ℕ)) hm h
      (grid_lt_iff.mp (by
        have hk : (39 - (i - 1 : ℕ) : ℤ) = 39 - i + 1 := by omega
        rw [hk]
        exact not_le.mp hfine))
    rw [hnone (i - 1) (hbefore _ (by omega))] at hgrid
    cases hgrid

/-- A point within half a step of the number, in the units of the grid. -/
theorem close_of_gap
    (habove : 2 * (n * gridFactor e k) ≤ 2 * (4 * m * quarterFactor e k) + gridFactor e k)
    (hbelow : 2 * (4 * m * quarterFactor e k) ≤ 2 * (n * gridFactor e k) + gridFactor e k) :
    |(n : ℚ) * 10 ^ k - m * 2 ^ e| ≤ 10 ^ k / 2 := by
  have htwo : (0 : ℚ) < 2 ^ e := by positivity
  have hq : (0 : ℚ) < 4 * quarterFactor e k := by
    exact_mod_cast Nat.mul_pos (by norm_num) (quarterFactor_pos e k)
  have hpoint := point_eq n e k
  have hstep := point_eq 1 e k
  push_cast at hpoint hstep
  rw [div_eq_div_iff htwo.ne' hq.ne'] at hpoint hstep
  have habove' : 2 * ((n : ℚ) * gridFactor e k) ≤
      2 * (4 * m * quarterFactor e k) + gridFactor e k := by
    exact_mod_cast habove
  have hbelow' : 2 * (4 * (m : ℚ) * quarterFactor e k) ≤
      2 * (n * gridFactor e k) + gridFactor e k := by
    exact_mod_cast hbelow
  have habove'' := mul_le_mul_of_nonneg_right habove' htwo.le
  have hbelow'' := mul_le_mul_of_nonneg_right hbelow' htwo.le
  rw [abs_le]
  constructor
  · refine le_of_mul_le_mul_right ?_ hq
    linarith
  · refine le_of_mul_le_mul_right ?_ hq
    linarith

/-- The decimal is positive and has few digits and a small exponent. -/
structure IsSmall (d : Decimal) : Prop where
  digits_pos : 0 < d.digits
  digits_lt : d.digits < 2 ^ 28
  le_exponent : -46 ≤ d.exponent
  exponent_le : d.exponent ≤ 38

/-- What is known of the decimal that is written for `m · 2ᵉ`. -/
structure IsWrittenFor (m : ℕ) (e : ℤ) (d : Decimal) : Prop extends IsSmall d where
  /-- It is nearer to the number than to its neighbours. -/
  nearest : IsNearest m (d.toRat / 2 ^ e)
  /-- On a grid finer than `2ᵉ` it is the nearest point. -/
  close : (10 : ℚ) ^ d.exponent < 2 ^ e → |d.toRat - m * 2 ^ e| ≤ 10 ^ d.exponent / 2

/-- **The shortest decimal.**  Of a number of binary32 whose neighbours are equally far. -/
theorem isWrittenFor_shortest (tie : Tie) (hm : 0 < m) (hm_lt : m < 2 ^ 24)
    (he : -149 ≤ e) (he_le : e ≤ 104) (h : Regular m e) :
    IsWrittenFor m e (shortest tie m e) := by
  obtain ⟨k, hk, hk_le, hgrid, hcoarse⟩ := shortest_spec tie hm h he
  obtain ⟨hexponent, hreads, hclose⟩ := onGrid?_some hm h hgrid
  generalize shortest tie m e = d at *
  obtain ⟨n, f⟩ := d
  obtain rfl : f = k := hexponent
  have hnear := (reads_iff hm h).mp hreads
  have hupper := hnear.upper
  have hlower := hnear.lower
  have htwo : (0 : ℚ) < 2 ^ e := by positivity
  have hten : (0 : ℚ) < 10 ^ f := by positivity
  have hm_one : (1 : ℚ) ≤ m := by exact_mod_cast hm
  have hm_max : (m : ℚ) + 1 ≤ 2 ^ 24 := by exact_mod_cast hm_lt
  have hn : 0 < n := by
    by_contra hzero
    obtain rfl : n = 0 := by omega
    rw [Nat.cast_zero, zero_mul, zero_div] at hlower
    linarith
  have hvalue : (n : ℚ) * 10 ^ f ≤ 2 ^ 24 * 2 ^ e := by
    rw [div_le_iff₀ htwo] at hupper
    exact hupper.trans (mul_le_mul_of_nonneg_right (by linarith) htwo.le)
  have hf : f ≤ 38 := by
    by_contra hlarge
    obtain rfl : f = 39 := by omega
    have hone : (1 : ℚ) * 10 ^ (39 : ℤ) ≤ n * 10 ^ (39 : ℤ) := by
      gcongr
      exact_mod_cast hn
    have htop : (2 : ℚ) ^ 24 * 2 ^ e ≤ 2 ^ 24 * 2 ^ (104 : ℤ) := by
      gcongr
      · norm_num
    have hlimit : (2 : ℚ) ^ 24 * 2 ^ (104 : ℤ) < 1 * 10 ^ (39 : ℤ) := by norm_num
    linarith
  refine ⟨⟨hn, ?_, hk, hf⟩, hnear, fun hfine => ?_⟩
  · have hgrid' := hcoarse.resolve_left (by omega)
    rw [zpow_add_one₀ (by norm_num)] at hgrid'
    have hbound : (n : ℚ) * 10 ^ f ≤ 2 ^ 24 * 10 * 10 ^ f := by linarith
    have hn_le : (n : ℚ) ≤ 2 ^ 24 * 10 := le_of_mul_le_mul_right hbound hten
    have hn_le' : n ≤ 2 ^ 24 * 10 := by exact_mod_cast hn_le
    exact lt_of_le_of_lt hn_le' (by norm_num)
  · obtain ⟨habove, hbelow⟩ := hclose (grid_lt_iff.mp hfine)
    exact close_of_gap habove hbelow

end Spatial.Decimal
