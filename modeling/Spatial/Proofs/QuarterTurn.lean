import Mathlib
import Spatial.Affine2
import Spatial.Proofs.Exact

/-!
# Quarter turns

An angle near a multiple of a quarter turn is taken for that multiple.  It is reduced first,
and then compared with the multiples between half a turn one way and the other.

1.  Reduction takes off a whole number of turns, that nearest to the angle, so that half a
    turn either way is left at most.
2.  Half a turn is at both ends of what is left: an angle near it may be left near either
    end.  So there are five multiples to be near to for four quarter turns, and a reduced
    angle is near one of them exactly if the angle itself is near a multiple that differs
    from it by whole turns.
3.  Whether an angle is near a multiple, and near which up to whole turns, is the same for an
    angle and what a turn more makes of it.  Where it is near none, the sine and cosine are
    those of the angle itself.
-/

namespace Spatial

open Scalar Widening

/-- A multiple of a quarter turn, up to whole turns. -/
inductive QuarterTurn where
  /-- No turn. -/
  | ahead
  /-- A quarter turn, from the first axis to the second. -/
  | left
  /-- Half a turn. -/
  | back
  /-- A quarter turn, from the second axis to the first. -/
  | right
deriving DecidableEq

namespace QuarterTurn

/-- The turn that a number of quarter turns makes. -/
def ofInt (k : ℤ) : QuarterTurn :=
  match k % 4 with
  | 0 => ahead
  | 1 => left
  | 2 => back
  | _ => right

/-- Four quarter turns more are the same turn. -/
theorem ofInt_add_four_mul (k n : ℤ) : ofInt (k + 4 * n) = ofInt k := by
  rw [ofInt, ofInt, Int.add_mul_emod_self_left]

section

variable {α : Type} [Scalar α]

/-- The sine and cosine of the turn. -/
def sinCos : QuarterTurn → α × α
  | ahead => (0, 1)
  | left => (1, 0)
  | back => (0, -1)
  | right => (-1, 0)

/-- The turn as a map of the plane. -/
def map : QuarterTurn → Affine2 α
  | ahead => ⟨⟨1, 0⟩, ⟨0, 1⟩, ⟨0, 0⟩⟩
  | left => ⟨⟨0, 1⟩, ⟨-1, 0⟩, ⟨0, 0⟩⟩
  | back => ⟨⟨-1, 0⟩, ⟨0, -1⟩, ⟨0, 0⟩⟩
  | right => ⟨⟨0, -1⟩, ⟨1, 0⟩, ⟨0, 0⟩⟩

/-- The turn that a reduced angle is taken for, if it is near enough to one. -/
def near? (r : α) : Option QuarterTurn :=
  let quarter : α := pi / 2
  if r > -snapWidth ∧ r < snapWidth then some ahead
  else if r > quarter - snapWidth ∧ r < quarter + snapWidth then some left
  else if r < -pi + snapWidth ∨ r > pi - snapWidth then some back
  else if r > -quarter - snapWidth ∧ r < -quarter + snapWidth then some right
  else none

end

end QuarterTurn

section

variable {α β : Type} [Scalar α] [Scalar β] [Widening α β]

/-- The sine and cosine of an angle are those of the turn that it is taken for. -/
theorem snappedSinCos_eq (radians : α) :
    snappedSinCos radians =
      match QuarterTurn.near? (wrapAngle radians : β) with
      | some turn => turn.sinCos
      | none => (narrow (sin (wrapAngle radians : β)), narrow (cos (wrapAngle radians : β))) := by
  unfold snappedSinCos QuarterTurn.near?
  dsimp only
  split_ifs <;> rfl

/-- The rotation with a given sine and cosine, about the origin. -/
def Affine2.ofSinCos (p : α × α) : Affine2 α :=
  ⟨⟨p.2, p.1⟩, ⟨-p.1, p.2⟩, ⟨0 * (1 - p.2) + 0 * p.1, 0 * (1 - p.2) - 0 * p.1⟩⟩

theorem Affine2.rotation_eq (radians : α) : rotation radians = ofSinCos (snappedSinCos radians) :=
  rfl

end

/-! ## Reduction -/

/-- The nearest integer is at most one half away. -/
theorem exists_nearestEven (x : ℝ) : ∃ n : ℤ, nearestEven x = n ∧ |x - n| ≤ 1 / 2 := by
  have hsplit := Int.floor_add_fract x
  have hnonneg := Int.fract_nonneg x
  have hless := Int.fract_lt_one x
  unfold nearestEven
  split_ifs with hlow hhigh heven
  · refine ⟨⌊x⌋, rfl, ?_⟩
    rw [abs_le]
    constructor <;> linarith
  · refine ⟨⌊x⌋ + 1, by push_cast; rfl, ?_⟩
    push_cast
    rw [abs_le]
    constructor <;> linarith
  · refine ⟨⌊x⌋, rfl, ?_⟩
    rw [abs_le]
    constructor <;> linarith
  · refine ⟨⌊x⌋ + 1, by push_cast; rfl, ?_⟩
    push_cast
    rw [abs_le]
    constructor <;> linarith

/-- A remainder is left by a whole multiple, and is half the divisor at most. -/
theorem exists_remainder (x : ℝ) {y : ℝ} (hy : y ≠ 0) :
    ∃ n : ℤ, remainder x y = x - n * y ∧ |remainder x y| ≤ |y| / 2 := by
  obtain ⟨n, hn, hnear⟩ := exists_nearestEven (x / y)
  have hremainder : remainder x y = x - n * y := congrArg (fun z => x - z * y) hn
  refine ⟨n, hremainder, ?_⟩
  have hscaled : x - n * y = (x / y - n) * y := by
    field_simp
  calc |remainder x y| = |x / y - n| * |y| := by rw [hremainder, hscaled, abs_mul]
    _ ≤ 1 / 2 * |y| := by gcongr
    _ = |y| / 2 := by ring

/-- The real numbers have no more digits than themselves. -/
noncomputable instance : Widening ℝ ℝ := ⟨id, id⟩

/-- A reduced angle is left by whole turns, and is half a turn either way at most. -/
theorem exists_wrapAngle (x : ℝ) :
    ∃ n : ℤ, wrapAngle x = x - n * (2 * Real.pi) ∧ |wrapAngle x| ≤ Real.pi := by
  obtain ⟨n, hn, hbound⟩ := exists_remainder x Real.two_pi_pos.ne'
  refine ⟨n, hn, hbound.trans_eq ?_⟩
  rw [abs_of_pos Real.two_pi_pos]
  ring

/-! ## Near a quarter turn -/

/-- The width is a thousandth of a degree. -/
theorem snapWidth_eq : (snapWidth : ℝ) = 0.001 * Real.pi / 180 := by
  have hwidth : (snapWidth : ℝ) = 0.001 * Real.pi / 180.0 := rfl
  rw [hwidth]
  norm_num

/-- The width is small against a quarter turn. -/
theorem snapWidth_bounds : 0 < (snapWidth : ℝ) ∧ (snapWidth : ℝ) < Real.pi / 8 := by
  have hpi := Real.pi_pos
  rw [snapWidth_eq]
  constructor <;> linarith

/-- A real number is taken for a turn by these comparisons. -/
theorem QuarterTurn.near?_eq (r : ℝ) :
    near? r =
      if -snapWidth < r ∧ r < snapWidth then some ahead
      else if Real.pi / 2 - snapWidth < r ∧ r < Real.pi / 2 + snapWidth then some left
      else if r < -Real.pi + snapWidth ∨ Real.pi - snapWidth < r then some back
      else if -(Real.pi / 2) - snapWidth < r ∧ r < -(Real.pi / 2) + snapWidth then some right
      else none := by
  unfold near?
  dsimp only
  congr 1

/-- A number of quarter turns that a reduced angle is near to. -/
theorem QuarterTurn.abs_le_two_of_near {r : ℝ} (hr : |r| ≤ Real.pi) {k : ℤ}
    (h : |r - k * (Real.pi / 2)| < snapWidth) : -2 ≤ k ∧ k ≤ 2 := by
  obtain ⟨hlow, hhigh⟩ := abs_le.mp hr
  obtain ⟨hbelow, habove⟩ := abs_lt.mp h
  have hwidth := snapWidth_bounds.2
  have hquarter : 0 < Real.pi / 2 := by positivity
  have hk_low : (-3 : ℝ) < k := by
    refine lt_of_mul_lt_mul_right ?_ hquarter.le
    linarith
  have hk_high : (k : ℝ) < 3 := by
    refine lt_of_mul_lt_mul_right ?_ hquarter.le
    linarith
  have : (-3 : ℤ) < k := by exact_mod_cast hk_low
  have : k < (3 : ℤ) := by exact_mod_cast hk_high
  omega

/-- What is taken for a turn is near a multiple of a quarter turn that has its direction. -/
theorem QuarterTurn.exists_near_of_near? {r : ℝ} (hr : |r| ≤ Real.pi) {turn : QuarterTurn}
    (h : near? r = some turn) : ∃ k : ℤ, ofInt k = turn ∧ |r - k * (Real.pi / 2)| < snapWidth := by
  obtain ⟨hlow, hhigh⟩ := abs_le.mp hr
  have hpos := snapWidth_bounds.1
  rw [near?_eq] at h
  split_ifs at h with hahead hleft hback hright <;> obtain rfl := Option.some_inj.mp h
  · refine ⟨0, rfl, abs_lt.mpr ?_⟩
    push_cast
    constructor <;> linarith
  · refine ⟨1, rfl, abs_lt.mpr ?_⟩
    push_cast
    constructor <;> linarith
  · -- Half a turn is near either end.
    rcases hback with hback | hback
    · refine ⟨-2, rfl, abs_lt.mpr ?_⟩
      push_cast
      constructor <;> linarith
    · refine ⟨2, rfl, abs_lt.mpr ?_⟩
      push_cast
      constructor <;> linarith
  · refine ⟨-1, rfl, abs_lt.mpr ?_⟩
    push_cast
    constructor <;> linarith

/-- What is near a multiple of a quarter turn is taken for it: the ranges do not meet. -/
theorem QuarterTurn.near?_of_near {r : ℝ} (hr : |r| ≤ Real.pi) {k : ℤ}
    (hk : |r - k * (Real.pi / 2)| < snapWidth) : near? r = some (ofInt k) := by
  have hwidth := snapWidth_bounds.2
  obtain ⟨hk_low, hk_high⟩ := abs_le_two_of_near hr hk
  obtain ⟨hbelow, habove⟩ := abs_lt.mp hk
  rw [near?_eq]
  interval_cases k <;> push_cast at hbelow habove
  · rw [if_neg, if_neg, if_pos]
    · rfl
    · exact .inl (by linarith)
    · rintro ⟨h, -⟩
      linarith
    · rintro ⟨h, -⟩
      linarith
  · rw [if_neg, if_neg, if_neg, if_pos]
    · rfl
    · constructor <;> linarith
    · rintro (h | h) <;> linarith
    · rintro ⟨h, -⟩
      linarith
    · rintro ⟨h, -⟩
      linarith
  · rw [if_pos]
    · rfl
    · constructor <;> linarith
  · rw [if_neg, if_pos]
    · rfl
    · constructor <;> linarith
    · rintro ⟨-, h⟩
      linarith
  · rw [if_neg, if_neg, if_pos]
    · rfl
    · exact .inr (by linarith)
    · rintro ⟨-, h⟩
      linarith
    · rintro ⟨-, h⟩
      linarith

/-- A reduced angle is taken for the turn of the multiple of a quarter turn that it is near
to. -/
theorem QuarterTurn.near?_eq_some_iff {r : ℝ} (hr : |r| ≤ Real.pi) (turn : QuarterTurn) :
    near? r = some turn ↔ ∃ k : ℤ, ofInt k = turn ∧ |r - k * (Real.pi / 2)| < snapWidth := by
  constructor
  · exact exists_near_of_near? hr
  · rintro ⟨k, rfl, hk⟩
    exact near?_of_near hr hk

/-- An angle is taken for the turn of the multiple of a quarter turn that it is near to. -/
theorem QuarterTurn.near?_wrapAngle_eq_some_iff (x : ℝ) (turn : QuarterTurn) :
    near? (wrapAngle x) = some turn ↔
      ∃ k : ℤ, ofInt k = turn ∧ |x - k * (Real.pi / 2)| < snapWidth := by
  obtain ⟨n, hn, hbound⟩ := exists_wrapAngle x
  have hturns (k : ℤ) :
      wrapAngle x - k * (Real.pi / 2) = x - (k + 4 * n : ℤ) * (Real.pi / 2) := by
    rw [hn]
    push_cast
    ring
  rw [near?_eq_some_iff hbound]
  constructor
  · rintro ⟨k, rfl, hk⟩
    exact ⟨k + 4 * n, ofInt_add_four_mul k n, hturns k ▸ hk⟩
  · rintro ⟨k, rfl, hk⟩
    refine ⟨k + 4 * -n, ofInt_add_four_mul k (-n), ?_⟩
    rw [hturns]
    ring_nf at hk ⊢
    exact hk

namespace Affine2

/-- Over the real numbers nothing is left of the origin's image. -/
theorem ofSinCos_real (p : ℝ × ℝ) : ofSinCos p = ⟨⟨p.2, p.1⟩, ⟨-p.1, p.2⟩, ⟨0, 0⟩⟩ := by
  unfold ofSinCos
  congr 2 <;> ring

/-- The sine and cosine of a quarter turn make its map. -/
theorem ofSinCos_quarterTurn (turn : QuarterTurn) :
    ofSinCos (turn.sinCos : ℝ × ℝ) = turn.map := by
  rw [ofSinCos_real]
  cases turn <;> simp [QuarterTurn.sinCos, QuarterTurn.map]

/-- An angle near a multiple of a right angle is snapped to it. -/
theorem rotation_of_near {x : ℝ} {k : ℤ} (h : |x - k * (Real.pi / 2)| < snapWidth) :
    rotation x = (QuarterTurn.ofInt k).map := by
  have hnear := (QuarterTurn.near?_wrapAngle_eq_some_iff x _).mpr ⟨k, rfl, h⟩
  rw [rotation_eq, snappedSinCos_eq, hnear]
  exact ofSinCos_quarterTurn _

/-- Any other angle keeps its own sine and cosine. -/
theorem rotation_of_not_near {x : ℝ} (h : ∀ k : ℤ, snapWidth ≤ |x - k * (Real.pi / 2)|) :
    rotation x = ⟨⟨Real.cos x, Real.sin x⟩, ⟨-Real.sin x, Real.cos x⟩, ⟨0, 0⟩⟩ := by
  have hnone : QuarterTurn.near? (wrapAngle x) = none := by
    refine Option.eq_none_iff_forall_ne_some.mpr fun turn hturn => ?_
    obtain ⟨k, -, hk⟩ := (QuarterTurn.near?_wrapAngle_eq_some_iff x turn).mp hturn
    exact absurd hk (h k).not_gt
  obtain ⟨n, hn, -⟩ := exists_wrapAngle x
  rw [rotation_eq, snappedSinCos_eq, hnone]
  show ofSinCos (Real.sin (wrapAngle x), Real.cos (wrapAngle x)) = _
  rw [ofSinCos_real, hn, Real.sin_sub_int_mul_two_pi, Real.cos_sub_int_mul_two_pi]

/-- Whole turns change nothing. -/
theorem rotation_add_turns (x : ℝ) (n : ℤ) : rotation (x + n * (2 * Real.pi)) = rotation x := by
  have hturns (k : ℤ) :
      x + n * (2 * Real.pi) - k * (Real.pi / 2) = x - (k + 4 * -n : ℤ) * (Real.pi / 2) := by
    push_cast
    ring
  by_cases hnear : ∃ k : ℤ, |x + n * (2 * Real.pi) - k * (Real.pi / 2)| < snapWidth
  · obtain ⟨k, hk⟩ := hnear
    rw [rotation_of_near hk, rotation_of_near (hturns k ▸ hk), QuarterTurn.ofInt_add_four_mul]
  · simp only [not_exists, not_lt] at hnear
    have hfar (k : ℤ) : snapWidth ≤ |x - k * (Real.pi / 2)| := by
      have hk := hnear (k + 4 * n)
      rw [hturns] at hk
      simpa using hk
    rw [rotation_of_not_near hnear, rotation_of_not_near hfar, Real.sin_add_int_mul_two_pi,
      Real.cos_add_int_mul_two_pi]

end Affine2

/-- **Rotations and quarter turns.**  A remainder differs from its dividend by whole
multiples of the divisor and is half of it at most.  The rotation by an angle less than a
thousandth of a degree from a multiple of a quarter turn is that quarter turn, and any other
has the sine and cosine of its angle; none moves the origin.  Whole turns change no
rotation. -/
theorem rotations_snap_to_quarter_turns :
    (∀ x y : ℝ, y ≠ 0 → ∃ n : ℤ, remainder x y = x - n * y ∧ |remainder x y| ≤ |y| / 2) ∧
    (∀ (x : ℝ) (k : ℤ), |x - k * (Real.pi / 2)| < 0.001 * Real.pi / 180 →
      Affine2.rotation x = (QuarterTurn.ofInt k).map) ∧
    (∀ x : ℝ, (∀ k : ℤ, 0.001 * Real.pi / 180 ≤ |x - k * (Real.pi / 2)|) →
      Affine2.rotation x =
        ⟨⟨Real.cos x, Real.sin x⟩, ⟨-Real.sin x, Real.cos x⟩, ⟨0, 0⟩⟩) ∧
    ∀ (x : ℝ) (n : ℤ), Affine2.rotation (x + n * (2 * Real.pi)) = Affine2.rotation x := by
  refine ⟨fun x y hy => exists_remainder x hy, ?_, ?_, Affine2.rotation_add_turns⟩
  · intro x k hk
    rw [← snapWidth_eq] at hk
    exact Affine2.rotation_of_near hk
  · intro x hx
    simp only [← snapWidth_eq] at hx
    exact Affine2.rotation_of_not_near hx

/-- Two turns and a half the other way, but for less than a thousandth of a degree, is half a
turn.  A hundredth of a degree more than half a turn is not. -/
theorem near_and_far_from_half_turn :
    ((2 : ℝ) ≠ 0 ∧ ∃ n : ℤ, remainder (7 : ℝ) 2 = 7 - n * 2 ∧ |remainder (7 : ℝ) 2| ≤ |2| / 2) ∧
    (|-5 * Real.pi + 0.00001 - (-10 : ℤ) * (Real.pi / 2)| < 0.001 * Real.pi / 180 ∧
      Affine2.rotation (-5 * Real.pi + 0.00001) = QuarterTurn.back.map) ∧
    ((∀ k : ℤ, 0.001 * Real.pi / 180 ≤
        |Real.pi + 0.01 * Real.pi / 180 - k * (Real.pi / 2)|) ∧
      Affine2.rotation (Real.pi + 0.01 * Real.pi / 180) =
        ⟨⟨Real.cos (Real.pi + 0.01 * Real.pi / 180), Real.sin (Real.pi + 0.01 * Real.pi / 180)⟩,
          ⟨-Real.sin (Real.pi + 0.01 * Real.pi / 180),
            Real.cos (Real.pi + 0.01 * Real.pi / 180)⟩, ⟨0, 0⟩⟩) := by
  have hpi := Real.pi_gt_three
  obtain ⟨hremainder, hnear, hfar, -⟩ := rotations_snap_to_quarter_turns
  have hclose : |-5 * Real.pi + 0.00001 - (-10 : ℤ) * (Real.pi / 2)| < 0.001 * Real.pi / 180 := by
    push_cast
    rw [abs_lt]
    constructor <;> linarith
  have hclear (k : ℤ) : 0.001 * Real.pi / 180 ≤
      |Real.pi + 0.01 * Real.pi / 180 - k * (Real.pi / 2)| := by
    rw [le_abs]
    rcases le_or_gt k 2 with hk | hk
    · have hk' : (k : ℝ) * (Real.pi / 2) ≤ 2 * (Real.pi / 2) := by
        gcongr
        exact_mod_cast hk
      left
      linarith
    · have hk' : 3 * (Real.pi / 2) ≤ (k : ℝ) * (Real.pi / 2) := by
        gcongr
        exact_mod_cast hk
      right
      linarith
  exact ⟨⟨two_ne_zero, hremainder 7 2 two_ne_zero⟩, ⟨hclose, hnear _ _ hclose⟩,
    hclear, hfar _ hclear⟩

end Spatial
