import Mathlib
import Spatial.Proofs.Binary.Error
import Spatial.Proofs.Binary.Componentwise
import Spatial.Proofs.Tolerance

/-!
# Ends of an interpolation in binary32

The number a fraction `t` of the way from `a` to `b` is computed as `a + (b - a) * t`, so the
difference is rounded before anything is added.

1.  At zero the first number is kept as long as the difference is finite.  A difference that
    overflows is infinite, and zero times infinity is no number.
2.  At one the result is the sum of the first number and the difference.  It is the second number
    if the difference was not rounded, as between two multiples of a power of two that are not too
    far apart.
3.  Where the difference was rounded the second number may be missed, by one part in `2²⁴` of it
    and of the difference: a small number is lost next to a large one.

Values are interpolated component by component, so that all this carries over.
-/

namespace Spatial

open Float.Model (UnpackedFloat)
open Scalar (lerp)

namespace Binary32

variable {a b : Float32}

/-! ## Numbers -/

/-- The difference of the two numbers is finite and not rounded. -/
structure ExactlyApart (a b : Float32) : Prop where
  isFinite : (b - a).isFinite = true
  exact_sub : exact (b - a) = exact b - exact a

/-- Zero times what is not finite is undefined. -/
theorem isNaN_mul_zero (h : a.isFinite = false) : (a * 0).isNaN = true := by
  rw [mul_comm]
  exact isZero_zero.isNaN_mul h

/-- At one the way to the other end is added to the first. -/
theorem lerp_one (a b : Float32) : lerp a b 1 = a + (b - a) := by
  rw [lerp, mul_one]

/-- The first number is kept unless the difference overflows. -/
theorem lerp_zero_beq (ha : a.isFinite = true) : (lerp a b 0 == a) = (b - a).isFinite := by
  rw [lerp]
  cases hd : (b - a).isFinite with
  | true => exact (agree_add_zero a (isZero_mul_zero hd)).beq ha
  | false => exact beq_eq_false_of_isNaN (isNaN_add_right a (isNaN_mul_zero hd)) a

/-- A difference that overflows leaves nothing at either end. -/
theorem lerp_of_overflow (h : (b - a).isFinite = false) :
    (lerp a b 0).isNaN = true ∧ (lerp a b 1).isFinite = false := by
  constructor
  · exact isNaN_add_right a (isNaN_mul_zero h)
  · rw [lerp_one, ← Bool.not_eq_true]
    intro hsum
    rw [(isFinite_of_add hsum).2] at h
    cases h

/-- The second number is reached if the difference is not rounded. -/
theorem lerp_one_beq (ha : a.isFinite = true) (hb : b.isFinite = true) (h : ExactlyApart a b) :
    (lerp a b 1 == b) = true := by
  have hsum := (isRoundedSum_add ha h.isFinite).isRounded
  rw [h.exact_sub, add_sub_cancel] at hsum
  rw [lerp_one]
  exact hsum.beq hb

/-- Multiples of a power of two with few digits between them have an exact difference. -/
theorem exactlyApart_of_multiples (ha : a.isFinite = true) (hb : b.isFinite = true) {i j k : ℤ}
    (hai : exact a = i * 2 ^ k) (hbj : exact b = j * 2 ^ k) (hij : |j - i| < 2 ^ 24)
    (hk : -149 ≤ k) (hk' : k ≤ 104) : ExactlyApart a b := by
  have hsub := (isRoundedSum_sub hb ha).isRounded
  have hvalue : exact b - exact a = (j - i : ℤ) * 2 ^ k := by
    rw [hai, hbj]
    push_cast
    ring
  have hij' : |((j - i : ℤ) : ℚ)| ≤ 2 ^ 24 - 1 := by
    exact_mod_cast Int.le_sub_one_of_lt hij
  have hfinite : (b - a).isFinite = true := by
    refine hsub.isFinite ?_
    calc |exact b - exact a| = |((j - i : ℤ) : ℚ)| * 2 ^ k := by
          rw [hvalue, abs_mul, abs_of_pos (by positivity : (0 : ℚ) < 2 ^ k)]
      _ ≤ (2 ^ 24 - 1) * 2 ^ (104 : ℤ) :=
          mul_le_mul hij' (zpow_le_zpow_right₀ one_le_two hk') (by positivity) (by norm_num)
      _ < 2 ^ (128 : ℤ) - 2 ^ (103 : ℤ) := by norm_num
  exact ⟨hfinite, hsub.exact_eq hfinite hvalue hij hk⟩

/-- How far the sum of the first number and the difference is from the second, before it is
rounded. -/
theorem abs_add_sub_sub_le (ha : a.isFinite = true) (hb : b.isFinite = true)
    (hd : (b - a).isFinite = true) :
    |exact a + exact (b - a) - exact b| ≤ |exact b - exact a| / 2 ^ 24 := by
  have hdifference : exact a + exact (b - a) - exact b =
      exact (b - a) - (exact b - exact a) := by ring
  rw [hdifference]
  exact abs_sub_sub_le hb ha hd

/-- The second number is not missed by more than the two roundings. -/
theorem abs_lerp_one_sub_le (ha : a.isFinite = true) (hb : b.isFinite = true)
    (hd : (b - a).isFinite = true) (h : (lerp a b 1).isFinite = true) :
    |exact (lerp a b 1) - exact b| ≤
      (|exact b| + |exact b - exact a| * (1 + 1 / 2 ^ 24)) / 2 ^ 24 := by
  rw [lerp_one] at h ⊢
  have hdifference := abs_add_sub_sub_le ha hb hd
  have hrounded := abs_add_sub_le ha hd h
  have hsum : |exact a + exact (b - a)| ≤ |exact b| + |exact b - exact a| / 2 ^ 24 := by
    calc |exact a + exact (b - a)|
        = |exact b + (exact a + exact (b - a) - exact b)| := by rw [add_sub_cancel]
      _ ≤ |exact b| + |exact a + exact (b - a) - exact b| := abs_add_le _ _
      _ ≤ |exact b| + |exact b - exact a| / 2 ^ 24 := by linarith
  calc |exact (a + (b - a)) - exact b|
      ≤ |exact (a + (b - a)) - (exact a + exact (b - a))| +
          |exact a + exact (b - a) - exact b| := abs_sub_le _ _ _
    _ ≤ |exact a + exact (b - a)| / 2 ^ 24 + |exact b - exact a| / 2 ^ 24 := by linarith
    _ ≤ (|exact b| + |exact b - exact a| * (1 + 1 / 2 ^ 24)) / 2 ^ 24 := by linarith

/-- A number far from the end of the format is not missed by an overflow. -/
theorem isFinite_lerp_one (ha : a.isFinite = true) (hb : b.isFinite = true)
    (hd : (b - a).isFinite = true) (hlow : |exact b| ≤ 2 ^ (127 : ℤ)) :
    (lerp a b 1).isFinite = true := by
  have hdifference := abs_add_sub_sub_le ha hb hd
  have hspread : |exact b - exact a| ≤ 2 ^ (129 : ℤ) := by
    calc |exact b - exact a| ≤ |exact b| + |exact a| := abs_sub _ _
      _ ≤ 2 ^ (129 : ℤ) := by
          have hmax := abs_exact_le_largest a
          norm_num at hmax hlow ⊢
          linarith
  rw [lerp_one]
  refine (isRoundedSum_add ha hd).isRounded.isFinite ?_
  calc |exact a + exact (b - a)|
      = |exact b + (exact a + exact (b - a) - exact b)| := by rw [add_sub_cancel]
    _ ≤ |exact b| + |exact a + exact (b - a) - exact b| := abs_add_le _ _
    _ ≤ 2 ^ (127 : ℤ) + 2 ^ (129 : ℤ) / 2 ^ 24 := by linarith
    _ < 2 ^ (128 : ℤ) - 2 ^ (103 : ℤ) := by norm_num

/-- What the interpolation between two finite numbers keeps of them. -/
structure EndsOf (a b : Float32) : Prop where
  /-- The first number is kept at zero unless the difference overflows. -/
  start : (lerp a b 0 == a) = (b - a).isFinite
  /-- An overflow leaves nothing at either end. -/
  overflow (h : (b - a).isFinite = false) :
    (lerp a b 0).isNaN = true ∧ (lerp a b 1).isFinite = false
  /-- The second number is reached at one if the difference is not rounded. -/
  finish (h : ExactlyApart a b) : (lerp a b 1 == b) = true
  /-- Multiples of a power of two with few digits between them have an exact difference. -/
  multiples {i j k : ℤ} (ha : exact a = i * 2 ^ k) (hb : exact b = j * 2 ^ k)
    (hij : |j - i| < 2 ^ 24) (hk : -149 ≤ k) (hk' : k ≤ 104) : ExactlyApart a b
  /-- A second number far from the end of the format is not missed by an overflow. -/
  inRange (hd : (b - a).isFinite = true) (hb : |exact b| ≤ 2 ^ (127 : ℤ)) :
    (lerp a b 1).isFinite = true
  /-- What is finite at one is within the two roundings of the second number. -/
  missed (hd : (b - a).isFinite = true) (h : (lerp a b 1).isFinite = true) :
    |exact (lerp a b 1) - exact b| ≤
      (|exact b| + |exact b - exact a| * (1 + 1 / 2 ^ 24)) / 2 ^ 24

/-- All that is said of the ends holds of finite numbers. -/
theorem endsOf (ha : a.isFinite = true) (hb : b.isFinite = true) : EndsOf a b where
  start := lerp_zero_beq ha
  overflow := lerp_of_overflow
  finish := lerp_one_beq ha hb
  multiples := exactlyApart_of_multiples ha hb
  inRange := isFinite_lerp_one ha hb
  missed := abs_lerp_one_sub_le ha hb

end Binary32

/-! ## Values -/

namespace Components

open Binary32 (ExactlyApart exact)
open Tolerance (Fieldwise everyPair_iff)

variable {F : Type → Type} [Components F]

/-- The components of two values, each with its match. -/
def pairs {α : Type} (u v : F α) : List (α × α) := (toList u).zip (toList v)

/-- What the interpolation of componentwise values keeps of finite ends. -/
structure KeepsEnds (F : Type → Type) [Components F] [BEq (F Float32)] : Prop where
  /-- The first value is kept at zero unless the difference overflows. -/
  start {u v : F Float32} (hu : isFinite u = true) :
    (lerp u v 0 == u) = isFinite (sub v u)
  /-- The second value is reached at one if no component of the difference is rounded. -/
  finish {u v : F Float32} (hu : isFinite u = true) (hv : isFinite v = true)
    (h : ∀ p ∈ pairs u v, ExactlyApart p.1 p.2) : (lerp u v 1 == v) = true
  /-- A component that is finite at one is within the two roundings of the second value's. -/
  missed {u v : F Float32} (hu : isFinite u = true) (hv : isFinite v = true)
    (hd : isFinite (sub v u) = true) :
    List.Forall₂ (fun p c => c.isFinite = true → |exact c - exact p.2| ≤
      (|exact p.2| + |exact p.2 - exact p.1| * (1 + 1 / 2 ^ 24)) / 2 ^ 24)
      (pairs u v) (toList (lerp u v 1))

/-- Pairs of components of finite values are finite. -/
theorem isFinite_of_mem_pairs {u v : F Float32} (hu : isFinite u = true)
    (hv : isFinite v = true) {p : Float32 × Float32} (hp : p ∈ pairs u v) :
    p.1.isFinite = true ∧ p.2.isFinite = true :=
  ⟨isFinite_of_mem hu (List.of_mem_zip hp).1, isFinite_of_mem hv (List.of_mem_zip hp).2⟩

section

variable [Pointwise F] (u v : F Float32)

/-- Interpolation is that of the pairs of components. -/
theorem toList_lerp (t : Float32) :
    toList (lerp u v t) = (pairs u v).map fun p => Scalar.lerp p.1 p.2 t := by
  rw [lerp, Pointwise.toList_zipWith, ← List.map_uncurry_zip_eq_zipWith]
  rfl

/-- The difference is that of the pairs of components. -/
theorem toList_sub : toList (sub v u) = (pairs u v).map fun p => p.2 - p.1 := by
  rw [sub, Pointwise.toList_zipWith, ← List.map_uncurry_zip_eq_zipWith, pairs, ← List.zip_swap,
    List.map_map]
  rfl

/-- A difference is finite where the differences of all pairs are. -/
theorem isFinite_sub_iff :
    isFinite (sub v u) = true ↔ ∀ p ∈ pairs u v, (p.2 - p.1).isFinite = true := by
  rw [isFinite, toList_sub, List.all_map, List.all_eq_true]
  rfl

end

section

variable [BEq (F Float32)] [Fieldwise F]

/-- The first value is the first sides of the pairs. -/
theorem toList_eq_fst (u v : F Float32) : toList u = (pairs u v).map Prod.fst :=
  (List.map_fst_zip (Fieldwise.length_toList u v).le).symm

/-- The second value is the second sides of the pairs. -/
theorem toList_eq_snd (u v : F Float32) : toList v = (pairs u v).map Prod.snd :=
  (List.map_snd_zip (Fieldwise.length_toList u v).ge).symm

/-- Two values are equal if what they make of each pair is. -/
theorem beq_iff_pairs {u v w w' : F Float32} {f g : Float32 × Float32 → Float32}
    (hw : toList w = (pairs u v).map f) (hw' : toList w' = (pairs u v).map g) :
    (w == w') = true ↔ ∀ p ∈ pairs u v, (f p == g p) = true := by
  rw [Fieldwise.beq_eq, everyPair_iff, hw, hw', List.forall₂_map_left_iff,
    List.forall₂_map_right_iff, List.forall₂_same]

/-- What is interpolated component by component keeps its ends as numbers do. -/
theorem KeepsEnds.of_pointwise [Pointwise F] : KeepsEnds F where
  start {u v} hu := by
    rw [Bool.eq_iff_iff, beq_iff_pairs (toList_lerp u v 0) (toList_eq_fst u v), isFinite_sub_iff]
    refine forall₂_congr fun p hp => ?_
    rw [Binary32.lerp_zero_beq (isFinite_of_mem hu (List.of_mem_zip hp).1)]
  finish {u v} hu hv h := by
    rw [beq_iff_pairs (toList_lerp u v 1) (toList_eq_snd u v)]
    intro p hp
    obtain ⟨ha, hb⟩ := isFinite_of_mem_pairs hu hv hp
    exact Binary32.lerp_one_beq ha hb (h p hp)
  missed {u v} hu hv hd := by
    rw [toList_lerp, List.forall₂_map_right_iff, List.forall₂_same]
    intro p hp
    obtain ⟨ha, hb⟩ := isFinite_of_mem_pairs hu hv hp
    exact Binary32.abs_lerp_one_sub_le ha hb ((isFinite_sub_iff u v).mp hd p hp)

end

end Components

open Components (KeepsEnds)

/-- **Ends of an interpolation.**  Between finite numbers the first is kept at zero unless the
difference overflows, and the second is reached at one if the difference is not rounded, as between
multiples of one power of two with few digits between them.  Else the second may be missed, by the
two roundings and no more.  The same holds of vectors and of both kinds of matrix. -/
theorem lerp_keeps_ends {a b : Float32} (ha : a.isFinite = true) (hb : b.isFinite = true) :
    Binary32.EndsOf a b ∧ KeepsEnds Vec2 ∧ KeepsEnds Vec3 ∧ KeepsEnds Vec4 ∧
      KeepsEnds Affine2 ∧ KeepsEnds Matrix4 :=
  ⟨Binary32.endsOf ha hb, .of_pointwise, .of_pointwise, .of_pointwise, .of_pointwise,
    .of_pointwise⟩

/-- Both ends are reached between one and a number with the opposite sign that is eight million
times as small, and between the greatest number and its last digit. -/
theorem distant_ends_kept :
    let u : Vec2 Float32 := ⟨1, .ofBits 0x7f7fffff⟩
    let v : Vec2 Float32 := ⟨.ofBits 0xb4000000, .ofBits 0x73800000⟩
    (Components.lerp u v 0 == u) = true ∧ (Components.lerp u v 1 == v) = true := by
  have hone : Binary32.exact 1 = (2 ^ 23 : ℤ) * 2 ^ (-23 : ℤ) := by
    rw [Binary32.exact_of_value Binary32.value_one]
    norm_num [UnpackedFloat.Sign.apply]
  have hsmall : Binary32.exact (.ofBits 0xb4000000) = (-1 : ℤ) * 2 ^ (-23 : ℤ) := by
    have hvalue : Binary32.value (.ofBits 0xb4000000) =
        .finite .negative (2 ^ 23) (-46) (by decide) := by rfl
    rw [Binary32.exact_of_value hvalue]
    norm_num [UnpackedFloat.Sign.apply]
  have hlargest : Binary32.exact (.ofBits 0x7f7fffff) = (2 ^ 24 - 1 : ℤ) * 2 ^ (104 : ℤ) := by
    have hvalue : Binary32.value (.ofBits 0x7f7fffff) =
        .finite .positive (2 ^ 24 - 1) 104 (by decide) := by rfl
    rw [Binary32.exact_of_value hvalue]
    norm_num [UnpackedFloat.Sign.apply]
  have hdigit : Binary32.exact (.ofBits 0x73800000) = (1 : ℤ) * 2 ^ (104 : ℤ) := by
    have hvalue : Binary32.value (.ofBits 0x73800000) =
        .finite .positive (2 ^ 23) 81 (by decide) := by rfl
    rw [Binary32.exact_of_value hvalue]
    norm_num [UnpackedFloat.Sign.apply]
  obtain ⟨hfirst, hvectors, -⟩ :=
    lerp_keeps_ends (a := 1) (b := .ofBits 0xb4000000) rfl rfl
  obtain ⟨hsecond, -⟩ :=
    lerp_keeps_ends (a := .ofBits 0x7f7fffff) (b := .ofBits 0x73800000) rfl rfl
  refine ⟨(hvectors.start rfl).trans rfl, hvectors.finish rfl rfl ?_⟩
  intro p hp
  obtain rfl | rfl :
      p = (1, .ofBits 0xb4000000) ∨ p = (.ofBits 0x7f7fffff, .ofBits 0x73800000) := by
    simpa [Components.pairs, Components.toList] using hp
  · exact hfirst.multiples hone hsmall (by norm_num) (by norm_num) (by norm_num)
  · exact hsecond.multiples hlargest hdigit (by norm_num) (by norm_num) (by norm_num)

/-- A small number is lost next to one that is a hundred million times as large, and the ends of a
spread that overflows are lost both. -/
theorem ends_lost :
    let small := Float32.ofBits 0x322bcc77
    let largest := Float32.ofBits 0x7f7fffff
    small.isFinite = true ∧ lerp 1 small 1 = 0 ∧ (lerp 1 small 1 == small) = false ∧
      (lerp (-largest) largest 0).isNaN = true ∧ (lerp (-largest) largest 1).isFinite = false :=
  ⟨rfl, rfl, rfl, rfl, rfl⟩

end Spatial
