import Mathlib
import Spatial.Proofs.Json.Numerals

/-!
# Numbers that are read through binary64

A finite number is written with its shortest decimal.  What it is narrowed to, after it has been
read as a number of binary64, by each of the two accounts of which number that is.

1.  Both accounts are near: they are within three parts in `2⁵³` of the decimal, and equal to it
    where it is at a middle.
2.  So the number is narrowed to what was written, but for `11420669 · 2⁻¹⁰⁷`.  Its decimal is
    `7038531 · 10⁻³²`, and the number of binary64 nearest to that is the middle itself, from which
    it is narrowed to the neighbour.  Computed from its digits it is on the right side.
3.  The zeros keep their sign.
-/

namespace Spatial

namespace Json

open Binary (RoundsTo IsNearest)
open Binary64 (HasMagnitude IsShort InRange)
open Decimal (IsWrittenFor Regular nearMiddle)
open Float.Model (Format UnpackedFloat totalExponent)
open Float.Model.UnpackedFloat (Sign)

variable {l : Literal} {w : Float}

namespace Literal

/-! ## Near numbers -/

/-- The digits make a positive number that binary64 holds, and the exponent is small. -/
structure Moderate (l : Literal) : Prop where
  digits_pos : 0 < l.exact.digits
  digits_lt : l.exact.digits < 2 ^ 53
  le_exponent : -46 ≤ l.exact.exponent
  exponent_le : l.exact.exponent ≤ 46

/-- The number has the sign of the literal and is within three parts in `2⁵³` of it, and equal to it
where its power of ten is exact and it has few binary digits. -/
def Near (l : Literal) (w : Float) : Prop :=
  ∃ c, HasMagnitude w l.sign c ∧ |c - l.exact.toRat| ≤ 3 / 2 ^ 53 * l.exact.toRat ∧
    (-22 ≤ l.exact.exponent → l.exact.exponent ≤ 22 → IsShort l.exact.toRat → c = l.exact.toRat)

/-- A moderate number is far from both ends of binary64. -/
theorem Moderate.inRange (hl : l.Moderate) : InRange l.exact.toRat := by
  have hone : (1 : ℚ) ≤ l.exact.digits := by exact_mod_cast hl.digits_pos
  have hmax : (l.exact.digits : ℚ) ≤ 2 ^ 53 := by exact_mod_cast hl.digits_lt.le
  have hfirst : (10 : ℚ) ^ (-46 : ℤ) ≤ 10 ^ l.exact.exponent :=
    zpow_le_zpow_right₀ (by norm_num) hl.le_exponent
  have hlast : (10 : ℚ) ^ l.exact.exponent ≤ 10 ^ (46 : ℤ) :=
    zpow_le_zpow_right₀ (by norm_num) hl.exponent_le
  constructor
  · calc (2 : ℚ) ^ (-250 : ℤ) ≤ 1 * 10 ^ (-46 : ℤ) := by norm_num
      _ ≤ l.exact.digits * 10 ^ l.exact.exponent :=
          mul_le_mul hone hfirst (by positivity) (by linarith)
  · calc (l.exact.digits : ℚ) * 10 ^ l.exact.exponent ≤ 2 ^ 53 * 10 ^ (46 : ℤ) :=
          mul_le_mul hmax hlast (by positivity) (by norm_num)
      _ ≤ 2 ^ (250 : ℤ) := by norm_num

/-- The sign of a literal in front of a positive number. -/
theorem magnitude_signed {r : ℚ} (h : Binary64.Denotes w r) :
    HasMagnitude (l.signed w) l.sign r := by
  rw [signed, sign]
  cases l.negative with
  | true => exact h.neg
  | false => exact h

/-- What is computed from a moderate literal. -/
theorem exists_scaled (hl : l.Moderate) : ∃ w, l.Scaled w ∧ l.Near w := by
  have hword : l.exact.digits < wordLimit := hl.digits_lt.trans (by decide)
  have hlow := hl.le_exponent
  have hhigh := hl.exponent_le
  rcases le_or_gt 0 l.exact.exponent with hnonneg | hneg
  · obtain ⟨k, hk⟩ := Int.eq_ofNat_of_zero_le hnonneg
    obtain ⟨c, hc, hclose, hexact⟩ :=
      mul_powerOfTen hl.digits_pos hl.digits_lt (j := k) (by omega)
    have hvalue : l.exact.toRat = l.exact.digits * 10 ^ k := by
      rw [Decimal.toRat, hk, zpow_natCast]
    refine ⟨_, .product hl.digits_pos hword hk (by omega) hc.isInf, c, magnitude_signed hc, ?_, ?_⟩
    · rwa [hvalue]
    · intro _ hsmall
      rw [hvalue]
      exact hexact (by omega)
  · obtain ⟨k, hk⟩ : ∃ k : ℕ, l.exact.exponent = -(k + 1 : ℕ) :=
      ⟨(-l.exact.exponent - 1).toNat, by omega⟩
    obtain ⟨c, hc, hclose, hexact⟩ :=
      div_powerOfTen hl.digits_pos hl.digits_lt (j := k + 1) (by omega)
    have hvalue : l.exact.toRat = l.exact.digits / 10 ^ (k + 1) := by
      rw [Decimal.toRat, hk, zpow_neg, zpow_natCast, div_eq_mul_inv]
    refine ⟨_, .quotient hl.digits_pos hword hk (by omega), c, magnitude_signed hc, ?_, ?_⟩
    · rwa [hvalue]
    · intro hsmall _
      rw [hvalue]
      exact hexact (by omega)

end Literal

/-- The number of binary64 nearest to a decimal, with a sign; infinite where the decimal is too
large. -/
def nearestTo (s : Sign) (d : Decimal) : Float :=
  if hpos : 0 < d.digits then
    Binary64.ofValue (.div .binary64
      (.finite s (d.digits * 10 ^ d.exponent.toNat) 0
        (Nat.mul_pos hpos (Nat.pow_pos (by decide))))
      (.finite .positive (10 ^ (-d.exponent).toNat) 0 (Nat.pow_pos (by decide))))
  else Binary64.ofValue (.zero s)

/-- The quotient that is packed is what the decimal is rounded to. -/
theorem nearestTo_roundsTo {d : Decimal} (s : Sign) (hpos : 0 < d.digits)
    (hmin : (2 : ℚ) ^ (Format.binary64.minExponent - 1) < d.toRat) :
    ∃ u, nearestTo s d = Binary64.ofValue u ∧ RoundsTo .binary64 s d.toRat u := by
  have hvalue : d.toRat = (d.digits * 10 ^ d.exponent.toNat : ℕ) * 2 ^ (0 : ℤ) /
      ((10 ^ (-d.exponent).toNat : ℕ) * 2 ^ (0 : ℤ)) := by
    rw [Decimal.toRat, Decimal.zpow_eq_div (by norm_num)]
    push_cast
    ring
  have hsign : s / .positive = s := by cases s <;> rfl
  refine ⟨_, dif_pos hpos, ?_⟩
  rw [hvalue] at hmin ⊢
  have hround := Binary.div_roundsTo .binary64 s .positive
    (Nat.mul_pos hpos (Nat.pow_pos (by decide) : 0 < 10 ^ d.exponent.toNat))
    (Nat.pow_pos (by decide) : 0 < 10 ^ (-d.exponent).toNat) 0 0 hmin
  rwa [hsign] at hround

namespace Literal

/-- The nearest number of a moderate literal. -/
theorem nearest_near (hl : l.Moderate) :
    l.Nearest (nearestTo l.sign l.exact) ∧ l.Near (nearestTo l.sign l.exact) := by
  obtain ⟨u, hu, hround⟩ := nearestTo_roundsTo l.sign hl.digits_pos hl.inRange.least_lt
  obtain ⟨hvalue, c, hc, hclose, hexact⟩ := Binary64.magnitude_ofValue hround hl.inRange
  have hpos := hl.inRange.pos
  refine ⟨.round ?_, c, by rwa [hu], ?_, fun _ _ => hexact⟩
  · rwa [hu, hvalue]
  · linarith

/-- Any number that is nearest to a literal is narrowed like that one. -/
theorem Nearest.narrow_eq (h : l.Nearest w) :
    Binary.narrow (nearestTo l.sign l.exact) = Binary.narrow w := by
  cases h with
  | zero hdigits hx =>
      have hnearest : nearestTo l.sign l.exact = Binary64.ofValue (.zero l.sign) := by
        rw [nearestTo, dif_neg (by omega)]
      rw [hnearest, ← hx]
      exact Binary64.narrow_congr (Binary64.value_ofValue_value w)
  | round hx =>
      have hpos : 0 < l.exact.digits := by
        have hrat : 0 < l.exact.toRat := lt_trans (by positivity) hx.least_lt
        by_contra hzero
        rw [Decimal.toRat, Nat.eq_zero_of_not_pos hzero, Nat.cast_zero, zero_mul] at hrat
        exact lt_irrefl 0 hrat
      obtain ⟨u, hu, hround⟩ := nearestTo_roundsTo l.sign hpos hx.least_lt
      rw [hu, hround.unique hx]
      exact Binary64.narrow_congr (Binary64.value_ofValue_value w)

/-! ## Narrowing -/

variable {m : ℕ} {e : ℤ} {d : Decimal}

/-- A literal that shows a small decimal is moderate. -/
theorem Shows.moderate (h : l.Shows d) (hd : d.IsSmall) (hshort : l.Short) : l.Moderate := by
  have hlow := hd.le_exponent
  have hhigh := hd.exponent_le
  have hexponent := h.exponent_cases
  have hzero := h.digits_eq_zero_iff
  have hpos := hd.digits_pos
  exact ⟨by omega, hshort.digits_lt, by omega, by omega⟩

/-- At a middle the decimal has few binary digits, and its power of ten is exact. -/
theorem middle_spec (hm : 0 < m) (hm_lt : m < 2 ^ 24) (hd : IsWrittenFor m e d)
    (h : d.toRat / 2 ^ e = m - 1 / 2 ∨ d.toRat / 2 ^ e = m + 1 / 2) :
    IsShort d.toRat ∧ -22 ≤ d.exponent ∧ d.exponent ≤ 22 := by
  obtain ⟨i, hi, hi_lt, hvalue⟩ : ∃ i : ℕ, 0 < i ∧ i < 2 ^ 25 ∧ d.toRat = i * 2 ^ (e - 1) := by
    have hpos : (0 : ℚ) < 2 ^ e := by positivity
    rcases h with h | h
    · refine ⟨2 * m - 1, by omega, by omega, ?_⟩
      rw [div_eq_iff hpos.ne'] at h
      rw [h, zpow_sub_one₀ two_ne_zero, Nat.cast_sub (by omega)]
      push_cast
      ring
    · refine ⟨2 * m + 1, by omega, by omega, ?_⟩
      rw [div_eq_iff hpos.ne'] at h
      rw [h, zpow_sub_one₀ two_ne_zero]
      push_cast
      ring
  refine ⟨⟨i, e - 1, hi_lt.trans (by norm_num), hvalue⟩, ?_⟩
  exact Decimal.exponent_of_fraction hd.digits_pos hd.digits_lt hi hi_lt hvalue

/-- **Narrowing.**  A number that is near to what is written for `m · 2ᵉ` is narrowed to it, but for
the one whose decimal nearly reaches a middle. -/
theorem Near.narrow_eq (h : l.Near w) (hshows : l.Shows (Decimal.shortest .even m e)) (hm : 0 < m)
    (hm_lt : m < 2 ^ 24) (he : -149 ≤ e) (he_le : e ≤ 104)
    (hcanonical : Format.binary32.targetExponent (totalExponent m e) = e)
    (hunless : ¬(m = 11420669 ∧ e = -107)) :
    Binary.narrow w = Binary32.ofValue (.finite l.sign m e hm) := by
  obtain ⟨c, hc, hclose, hexact⟩ := h
  have hmiddle : ¬(e = -107 ∧ 2 * m + 1 = nearMiddle) := by
    rintro ⟨rfl, hmiddle⟩
    rw [nearMiddle] at hmiddle
    exact hunless ⟨by omega, rfl⟩
  have hexponent := hshows.exponent_cases
  rw [hshows.toRat_eq] at hclose hexact
  by_cases hregular : Regular m e
  · have hd := Decimal.isWrittenFor_shortest .even hm hm_lt he he_le hregular
    refine Binary64.narrow_eq hc hm hcanonical hregular
      (Decimal.nearest_of_close hm hm_lt he he_le hd hmiddle hclose fun hat => ?_)
    -- At a middle nearness does not decide, but there nothing has been rounded.
    obtain ⟨hfew, hsmall, hlarge⟩ := middle_spec hm hm_lt hd hat
    exact hexact (by omega) (by omega) hfew
  · -- A power of two: its interval is narrower below, and its decimals were checked apart.
    rw [Regular, not_or, not_not] at hregular
    obtain ⟨rfl, hne⟩ := hregular
    obtain ⟨hlower, hupper⟩ := Decimal.inside_of_power (by omega) he_le hclose
    exact Binary64.narrow_eq_power hc (by omega) hlower hupper

/-- The literal of the number whose decimal nearly reaches a middle. -/
theorem Shows.exact_nearMiddle (h : l.Shows (Decimal.shortest .even 11420669 (-107))) :
    l.exact = ⟨7038531, -32⟩ := by
  have hdecimal : Decimal.shortest .even 11420669 (-107) = ⟨7038531, -32⟩ := by decide +kernel
  rw [hdecimal] at h
  exact h.exact.resolve_right fun hinteger => absurd hinteger.1 (by decide)

/-- Computed from its digits it is narrowed to the number. -/
theorem scaled_nearMiddle (hexact : l.exact = ⟨7038531, -32⟩) :
    ∃ w, l.Scaled w ∧
      Binary.narrow w = Binary32.ofValue (.finite l.sign 11420669 (-107) (by decide)) := by
  have hscaled : l.Scaled (l.signed (natFloat l.exact.digits / powerOfTen (31 + 1))) := by
    refine .quotient ?_ ?_ ?_ (by decide) <;> rw [hexact] <;> decide
  refine ⟨_, hscaled, ?_⟩
  rw [hexact, signed, sign]
  cases l.negative <;> decide +kernel

/-- The nearest number is narrowed to the one after it. -/
theorem nearest_nearMiddle (hexact : l.exact = ⟨7038531, -32⟩) :
    Binary.narrow (nearestTo l.sign l.exact) =
      Binary32.ofValue (.finite l.sign 11420670 (-107) (by decide)) := by
  rw [hexact]
  cases l.sign <;> decide +kernel

end Literal

/-! ## Numbers of binary32 -/

/-- The number after `11420669 · 2⁻¹⁰⁷` in place of that one, with either sign, and any other number
itself. -/
def pastMiddle (x : Float32) : Float32 :=
  if x = .ofBits 0x15ae43fd then .ofBits 0x15ae43fe
  else if x = .ofBits 0x95ae43fd then .ofBits 0x95ae43fe
  else x

/-- Every other number is left as it is. -/
theorem pastMiddle_of_ne {x : Float32} {s : Sign} {m : ℕ} {e : ℤ} {hm : 0 < m}
    (hvalue : Binary32.value x = .finite s m e hm) (hne : ¬(m = 11420669 ∧ e = -107)) :
    pastMiddle x = x := by
  have hother {bits : UInt32} {t : Sign} (hbits : Binary32.value (.ofBits bits) =
      .finite t 11420669 (-107) (by decide)) : x ≠ .ofBits bits := by
    rintro rfl
    rw [hvalue] at hbits
    injection hbits with _ hm he
    exact hne ⟨hm, he⟩
  rw [pastMiddle, if_neg (hother (t := .positive) rfl), if_neg (hother (t := .negative) rfl)]

/-- The number in question is taken to the one after it. -/
theorem pastMiddle_nearMiddle (s : Sign) :
    pastMiddle (Binary32.ofValue (.finite s 11420669 (-107) (by decide))) =
      Binary32.ofValue (.finite s 11420670 (-107) (by decide)) := by
  cases s <;> decide +kernel

/-- A literal with the sign of a number. -/
theorem sign_eq {x : Float32} (h : l.negative = Binary32.isNegative x) :
    (∀ s, Binary32.value x = .zero s → l.sign = s) ∧
      ∀ s m e hm, Binary32.value x = .finite s m e hm → l.sign = s := by
  constructor
  · intro s hvalue
    rw [Literal.sign, h, Binary32.isNegative, hvalue]
    cases s <;> rfl
  · intro s m e hm hvalue
    rw [Literal.sign, h, Binary32.isNegative, hvalue]
    cases s <;> rfl

section

variable {x : Float32}

/-- **Computed numbers.**  A finite number is computed from its digits and narrowed to itself. -/
theorem exists_scaled_narrow (hx : x.isFinite = true) (hshort : l.Short)
    (hnegative : l.negative = Binary32.isNegative x) (hshows : l.Shows (Binary32.shortest x)) :
    ∃ w, l.Scaled w ∧ Binary.narrow w = x := by
  have hself := Binary32.ofValue_value x
  obtain ⟨hzero, hfinite⟩ := sign_eq hnegative
  rcases Binary32.finite_cases hx with ⟨s, hvalue⟩ | ⟨s, m, e, hm, hvalue⟩
  · rw [Binary32.shortest, hvalue] at hshows
    refine ⟨_, .zero (hshows.digits_eq_zero_iff.mpr rfl), ?_⟩
    rw [← hself, hvalue, ← hzero s hvalue, Literal.signed, Literal.sign]
    cases l.negative <;> decide +kernel
  · obtain ⟨hm_lt, he, he_le, hcanonical⟩ := Binary32.bounds_of_value hvalue
    rw [Binary32.shortest, hvalue] at hshows
    rw [← hself, hvalue, ← hfinite s m e hm hvalue]
    by_cases hunless : m = 11420669 ∧ e = -107
    · obtain ⟨rfl, rfl⟩ := hunless
      exact Literal.scaled_nearMiddle hshows.exact_nearMiddle
    · obtain ⟨w, hscaled, hnear⟩ := Literal.exists_scaled
        (hshows.moderate (Decimal.isSmall_shortest hm hm_lt he he_le) hshort)
      exact ⟨w, hscaled, hnear.narrow_eq hshows hm hm_lt he he_le hcanonical hunless⟩

/-- **Nearest numbers.**  The number of binary64 nearest to what is written for a finite number is
narrowed to it, but for one. -/
theorem exists_nearest_narrow (hx : x.isFinite = true) (hshort : l.Short)
    (hnegative : l.negative = Binary32.isNegative x) (hshows : l.Shows (Binary32.shortest x)) :
    ∃ w, l.Nearest w ∧ Binary.narrow w = pastMiddle x := by
  have hself := Binary32.ofValue_value x
  obtain ⟨hzero, hfinite⟩ := sign_eq hnegative
  rcases Binary32.finite_cases hx with ⟨s, hvalue⟩ | ⟨s, m, e, hm, hvalue⟩
  · rw [Binary32.shortest, hvalue] at hshows
    refine ⟨Binary64.ofValue (.zero l.sign), .zero (hshows.digits_eq_zero_iff.mpr rfl) ?_, ?_⟩
    · cases l.sign <;> rfl
    · rw [← hself, hvalue, ← hzero s hvalue]
      cases l.sign <;> decide +kernel
  · obtain ⟨hm_lt, he, he_le, hcanonical⟩ := Binary32.bounds_of_value hvalue
    rw [Binary32.shortest, hvalue] at hshows
    obtain ⟨hnearest, hnear⟩ := Literal.nearest_near
      (hshows.moderate (Decimal.isSmall_shortest hm hm_lt he he_le) hshort)
    refine ⟨_, hnearest, ?_⟩
    have hsign := hfinite s m e hm hvalue
    by_cases hunless : m = 11420669 ∧ e = -107
    · obtain ⟨rfl, rfl⟩ := hunless
      rw [← hself, hvalue, pastMiddle_nearMiddle, ← hsign]
      exact Literal.nearest_nearMiddle hshows.exact_nearMiddle
    · rw [pastMiddle_of_ne hvalue hunless,
        hnear.narrow_eq hshows hm hm_lt he he_le hcanonical hunless, hsign, ← hvalue, hself]

end

end Json

end Spatial
