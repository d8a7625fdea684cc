import Mathlib
import Spatial.Proofs.Singular
import Spatial.Proofs.Binary.Amount
import Spatial.Proofs.Binary.Length

/-!
# Normalising in binary32

A vector is divided by its computed length, and a quaternion is multiplied by the reciprocal of
it.  What comes out is decided by that length.

1.  A length of zero divides each component by zero, which leaves no number of a zero and infinity
    of every other component.  The length is zero for the zero vector, and also for vectors so
    short that all the squares underflow.
2.  A length without bound leaves zeros.
3.  Any other length is near enough to the largest component that the result is finite, even where
    the squares have lost nearly all their digits.
-/

namespace Spatial

open Float.Model (UnpackedFloat)

namespace Binary32

variable {l s x y : Float32}

/-- An undefined number is not infinite. -/
theorem isInf_of_isNaN (h : x.isNaN = true) : x.isInf = false := by
  show (value x).isInf = false
  rw [(isNaN_iff x).mp h]
  rfl

/-! ## Division by zero and by infinity -/

/-- What a finite number becomes over zero: none if it is a zero, and else infinite with its
sign. -/
inductive OverZero (x y : Float32) : Prop
  | undefined (hx : (x == 0) = true) (hy : y.isNaN = true) : OverZero x y
  | infinite (hx : (x == 0) = false) (hy : y.isInf = true) (hsign : y < 0 ↔ x < 0) : OverZero x y

/-- What a component over zero comes to, from its value. -/
theorem overZero_of_value (hx : x.isFinite = true) (hnone : IsZero x → y.isNaN = true)
    (hinfinite : ∀ {s m e hm}, value x = .finite s m e hm → value y = .infinity s) :
    OverZero x y := by
  rcases finite_cases hx with hzero | ⟨s, m, e, hm, hvx⟩
  · exact .undefined (isZero_iff.mp hzero) (hnone hzero)
  · have hvy := hinfinite hvx
    have hinf : (value y).isInf = true := by
      rw [hvy]
      rfl
    refine .infinite ?_ hinf ?_
    · rw [beq_eq, hvx, value_zero]
      cases s <;> rfl
    · rw [lt_iff, lt_iff, hvx, hvy, value_zero]
      cases s <;> exact Iff.rfl

/-- A finite component divided by zero. -/
theorem overZero_div (hx : x.isFinite = true) : OverZero x (x / 0) := by
  refine overZero_of_value hx ?_ ?_
  · rintro ⟨s, h⟩
    rw [div_eq, h, value_zero]
    exact isNaN_ofValue_notANumber
  · intro s m e hm h
    rw [div_eq, h, value_zero]
    cases s <;> exact value_ofValue_infinity _

/-- A finite component over an infinite length is a zero. -/
theorem isZero_div_infinity (hx : x.isFinite = true) (hl : value l = .infinity .positive) :
    IsZero (x / l) := by
  rw [div_eq, hl]
  rcases finite_cases hx with ⟨s, hvx⟩ | ⟨s, m, e, hm, hvx⟩ <;> rw [hvx] <;>
    exact ⟨_, value_ofValue_zero _⟩

/-! ## Scaling by a length -/

/-- A way to divide components by a length. -/
structure Scales (scaled : Float32 → Float32 → Float32) : Prop where
  zero : ∀ {x}, x.isFinite = true → OverZero x (scaled 0 x)
  infinite : ∀ {l x}, value l = .infinity .positive → x.isFinite = true → IsZero (scaled l x)
  positive : ∀ {s x}, 0 < exact s → x.isFinite = true → exact x ^ 2 ≤ 8 / 5 * exact s →
    (scaled (Float32.sqrt s) x).isFinite = true

/-- Dividing by the length is a way of scaling. -/
theorem scales_div : Scales fun l x => x / l where
  zero := overZero_div
  infinite hl hx := isZero_div_infinity hx hl
  positive := by
    intro s x hs hx hle
    obtain ⟨-, -, -, hsquare⟩ := sqrt_within hs
    have hdivisor := isDivisor_sqrt hs
    have hl_pos : 0 < exact (Float32.sqrt s) ^ 2 := sq_pos_of_ne_zero hdivisor.exact_ne_zero
    have hquotient : (exact x / exact (Float32.sqrt s)) ^ 2 ≤ 2 ^ 2 := by
      rw [div_pow, div_le_iff₀ hl_pos]
      linarith [hsquare.lower]
    have hle_two := abs_le_of_sq_le_sq hquotient zero_le_two
    exact (isRounded_div hx hdivisor).isFinite (hle_two.trans_lt (by norm_num))

/-- Multiplying with the reciprocal of the length is a way of scaling. -/
theorem scales_mul_reciprocal : Scales fun l x => x * (1 / l) where
  zero := by
    intro x hx
    have hreciprocal : value (1 / 0) = .infinity .positive := by
      rw [div_eq, value_one, value_zero]
      exact value_ofValue_infinity _
    refine overZero_of_value hx ?_ ?_
    · rintro ⟨s, h⟩
      rw [mul_eq, h, hreciprocal]
      exact isNaN_ofValue_notANumber
    · intro s m e hm h
      rw [mul_eq, h, hreciprocal]
      cases s <;> exact value_ofValue_infinity _
  infinite := by
    intro l x hl hx
    rw [mul_comm]
    exact (isZero_div_infinity isFinite_one hl).mul hx
  positive := by
    intro s x hs hx hle
    obtain ⟨hk, -, hwithin⟩ := reciprocal_sqrt hs
    refine (isFinite_mul_of_sq_le hx hk ?_).1
    calc (exact x * exact (1 / Float32.sqrt s)) ^ 2
        = exact (1 / Float32.sqrt s) ^ 2 * exact x ^ 2 := by ring
      _ ≤ exact (1 / Float32.sqrt s) ^ 2 * (8 / 5 * exact s) :=
          mul_le_mul_of_nonneg_left hle (sq_nonneg _)
      _ = 8 / 5 * (exact (1 / Float32.sqrt s) ^ 2 * exact s) := by ring
      _ ≤ 8 / 5 * ((1 + 65 / 2 ^ 28) * 1) :=
          mul_le_mul_of_nonneg_left hwithin.upper (by norm_num)
      _ ≤ 2 := by norm_num

end Binary32

/-! ## Values that are normalised -/

namespace Components

open Binary32 (OverZero Scales exact isZero_iff)

/-- What normalising makes of a value with finite components, by the computed length. -/
structure NormalizesByLength (F : Type → Type) [Components F]
    (normalize : F Float32 → F Float32) : Prop where
  /-- Over a length of zero a component that is a zero leaves no number, and any other one
  infinity. -/
  zero : ∀ v, isFinite v = true → (length v == 0) = true →
    List.Forall₂ OverZero (toList v) (toList (normalize v))
  /-- Over an infinite length zeros are left. -/
  infinite : ∀ v, isFinite v = true → (length v).isInf = true →
    ∀ y ∈ toList (normalize v), (y == 0) = true
  /-- Over any other length all components are finite. -/
  finite : ∀ v, isFinite v = true → (length v == 0) = false → (length v).isInf = false →
    isFinite (normalize v) = true
  /-- Of the zero vector no number is left. -/
  origin : ∀ v, (∀ x ∈ toList v, (x == 0) = true) → AllNaN (normalize v)
  /-- Some component is infinite, or numbers stand beside what is none, only if the length is zero
  and the vector is not. -/
  mixed : ∀ v, isFinite v = true →
    (∃ y ∈ toList (normalize v), y.isInf = true) ∨
      (isNaN (normalize v) = true ∧ ¬AllNaN (normalize v)) →
    (length v == 0) = true ∧ ∃ x ∈ toList v, (x == 0) = false

variable {F : Type → Type} [Components F] [Pointwise F] {normalize : F Float32 → F Float32}
  {scaled : Float32 → Float32 → Float32} {v : F Float32}

/-- Where the length is zero, every component is taken over zero. -/
theorem overZero_normalize
    (hnormalize : ∀ v, toList (normalize v) = (toList v).map (scaled (length v)))
    (hscaled : Scales scaled) (hv : isFinite v = true) (hlength : (length v == 0) = true) :
    List.Forall₂ OverZero (toList v) (toList (normalize v)) := by
  rw [hnormalize, length_eq_zero hv hlength, List.forall₂_map_right_iff, List.forall₂_same]
  exact fun x hx => hscaled.zero (isFinite_of_mem hv hx)

/-- Where the length is neither zero nor infinite, the result is finite. -/
theorem isFinite_normalize
    (hnormalize : ∀ v, toList (normalize v) = (toList v).map (scaled (length v)))
    (hscaled : Scales scaled) (hv : isFinite v = true) (hzero : (length v == 0) = false)
    (hinf : (length v).isInf = false) : isFinite (normalize v) = true := by
  have hs := (isExtent_lengthSquared hv).pos_of_sqrt hzero hinf
  rw [isFinite, hnormalize, List.all_map]
  refine List.all_eq_true.mpr fun x hx => ?_
  exact hscaled.positive hs (isFinite_of_mem hv hx) (sq_le_lengthSquared hv hs hx)

/-- Where the length is infinite, the result is zero. -/
theorem isZero_normalize
    (hnormalize : ∀ v, toList (normalize v) = (toList v).map (scaled (length v)))
    (hscaled : Scales scaled) (hv : isFinite v = true) (hlength : (length v).isInf = true) :
    ∀ y ∈ toList (normalize v), (y == 0) = true := by
  have hroot := Binary32.value_sqrt_infinity ((isExtent_lengthSquared hv).value_of_sqrt hlength)
  intro y hy
  rw [hnormalize] at hy
  obtain ⟨x, hx, rfl⟩ := List.mem_map.mp hy
  exact isZero_iff.mp (hscaled.infinite hroot (isFinite_of_mem hv hx))

/-- Only over a length of zero are there components that are not finite. -/
theorem isFinite_normalize_of_ne_zero
    (hnormalize : ∀ v, toList (normalize v) = (toList v).map (scaled (length v)))
    (hscaled : Scales scaled) (hv : isFinite v = true) (hzero : (length v == 0) = false) :
    isFinite (normalize v) = true := by
  cases hinf : (length v).isInf with
  | false => exact isFinite_normalize hnormalize hscaled hv hzero hinf
  | true =>
      refine List.all_eq_true.mpr fun y hy => ?_
      have hy_zero := isZero_normalize hnormalize hscaled hv hinf y hy
      exact Binary32.Agree.isFinite (.inl hy_zero) Binary32.isFinite_zero

/-- Of a zero value the result is undefined in every component. -/
theorem allNaN_normalize
    (hnormalize : ∀ v, toList (normalize v) = (toList v).map (scaled (length v)))
    (hscaled : Scales scaled) (hv : ∀ x ∈ toList v, (x == 0) = true) :
    AllNaN (normalize v) := by
  intro y hy
  rw [hnormalize, length_of_zeros hv] at hy
  obtain ⟨x, hx, rfl⟩ := List.mem_map.mp hy
  have hfinite := Binary32.Agree.isFinite (.inl (hv x hx)) Binary32.isFinite_zero
  cases hscaled.zero hfinite with
  | undefined _ hnone => exact hnone
  | infinite hx_ne => exact absurd ((hv x hx).symm.trans hx_ne) nofun

namespace NormalizesByLength

/-- What scales every component by the length follows the length. -/
theorem of_scales
    (hnormalize : ∀ v, toList (normalize v) = (toList v).map (scaled (length v)))
    (hscaled : Scales scaled) : NormalizesByLength F normalize where
  zero _ := overZero_normalize hnormalize hscaled
  infinite _ := isZero_normalize hnormalize hscaled
  finite _ := isFinite_normalize hnormalize hscaled
  origin _ := allNaN_normalize hnormalize hscaled
  mixed := by
    intro v hv hmixed
    -- Finite components are neither infinite nor none.
    have hdefect : ¬isFinite (normalize v) = true := by
      intro hfinite
      rcases hmixed with ⟨y, hy, hinf⟩ | ⟨hnan, -⟩
      · rw [Binary32.isInf_of_isFinite (isFinite_of_mem hfinite hy)] at hinf
        cases hinf
      · rw [isNaN_of_isFinite hfinite] at hnan
        cases hnan
    have hlength : (length v == 0) = true := by
      by_contra hzero
      rw [Bool.not_eq_true] at hzero
      exact hdefect (isFinite_normalize_of_ne_zero hnormalize hscaled hv hzero)
    refine ⟨hlength, ?_⟩
    by_contra hzeros
    simp only [not_exists, not_and, Bool.not_eq_false] at hzeros
    have hnone := allNaN_normalize hnormalize hscaled hzeros
    rcases hmixed with ⟨y, hy, hinf⟩ | ⟨-, hsome⟩
    · rw [Binary32.isInf_of_isNaN (hnone y hy)] at hinf
      cases hinf
    · exact hsome hnone

end NormalizesByLength

end Components

open Components (AllNaN NormalizesByLength)
open Binary32 (scales_div scales_mul_reciprocal)

/-- **Normalising by the length.**  A vector or a quaternion with finite components whose computed
length is zero leaves no number of its zeros and infinities of its other components; one whose
length is infinite leaves zeros; and any other one leaves finite components. -/
theorem normalizations_follow_length :
    NormalizesByLength Vec2 Components.normalize ∧ NormalizesByLength Vec3 Components.normalize ∧
      NormalizesByLength Vec4 Components.normalize ∧
      NormalizesByLength Quaternion Quaternion.normalize :=
  ⟨.of_scales (fun _ => rfl) scales_div, .of_scales (fun _ => rfl) scales_div,
    .of_scales (fun _ => rfl) scales_div, .of_scales (fun _ => rfl) scales_mul_reciprocal⟩

/-- The largest vector is normalised to zeros, and one that has hardly a digit left in its squared
length to finite components. -/
theorem longest_and_short_normalized :
    let long : Vec4 Float32 := Components.splat (.ofBits 0x7f7fffff)
    let short : Quaternion Float32 := ⟨.ofBits 0x1b3504f3, 0, .ofBits 0x80000001, 0⟩
    (∀ y ∈ Components.toList (Components.normalize long), (y == 0) = true) ∧
      Components.isFinite short.normalize = true := by
  intro long short
  obtain ⟨-, -, hvectors, hquaternions⟩ := normalizations_follow_length
  exact ⟨hvectors.infinite long (by decide +kernel) (by decide +kernel),
    hquaternions.finite short (by decide +kernel) (by decide +kernel) (by decide +kernel)⟩

/-- A vector whose squared length underflows is not zero, and an infinity stands beside what is no
number once it is divided by its length. -/
theorem short_vector_mixes_infinite_and_undefined :
    let v : Vec3 Float32 := ⟨.ofBits 0x0da24260, 0, 0⟩
    Components.isFinite v = true ∧ Components.length v = 0 ∧
      (Components.normalize v).x.isInf = true ∧ (Components.normalize v).y.isNaN = true ∧
      ¬AllNaN (Components.normalize v) := by
  intro v
  have hinf : (Components.normalize v).x.isInf = true := by decide +kernel
  refine ⟨by decide +kernel, by decide +kernel, hinf, by decide +kernel, fun hnone => ?_⟩
  have hx := hnone (Components.normalize v).x List.mem_cons_self
  rw [Binary32.isInf_of_isNaN hx] at hinf
  cases hinf

end Spatial
