import Mathlib
import Spatial.Proofs.Binary.Normalization

/-!
# Rotations about an axis in binary32

The quaternion of a rotation about an axis is made of the direction of the axis, times the sine of
half the angle, and of the cosine.  Only a squared length of zero is set apart, and the axis need
not be zero for that.

Any other axis is divided by its length.  If that is infinite then zeros are left, and else what is
finite: so no axis leaves an infinity or a component that is no number, provided that sine and
cosine lie between minus one and one.
-/

namespace Spatial

namespace Quaternion

open Binary32 (IsUnit isUnit_half)

/-- The axis of a rotation is given the length one, or is taken for zero. -/
def direction (axis : Vec3 Float32) : Vec3 Float32 :=
  if Components.lengthSquared axis == 0 then Vec3.zero else Components.normalize axis

/-- The rotation about an axis, on a platform. -/
theorem ofAxisAngle_eq (platform : Circular) (axis : Vec3 Float32) (angle : Float32) :
    @ofAxisAngle Float32 platform.scalar axis angle =
      ofParts (direction axis * platform.sin (angle * 0.5)) (platform.cos (angle * 0.5)) := rfl

variable {axis : Vec3 Float32} {angle : Float32}

/-- The direction of an axis with finite components is finite, also if it underflows. -/
theorem isFinite_direction (haxis : Components.isFinite axis = true) :
    Components.isFinite (direction axis) = true := by
  unfold direction
  split_ifs with hsquared
  · decide +kernel
  · have hlength : (Components.length axis == 0) = false := by
      rw [Bool.eq_false_iff]
      intro hzero
      have hextent := Components.isExtent_lengthSquared haxis
      rw [hextent.eq_zero_of_sqrt hzero] at hsquared
      exact hsquared rfl
    exact Components.isFinite_normalize_of_ne_zero (fun _ => rfl) Binary32.scales_div haxis hlength

/-- **Rotations about an axis.**  In binary32, on a platform whose sine and cosine lie between minus
one and one, the quaternion of a rotation about an axis with finite components by a finite angle
has finite components, whatever becomes of the squared length of the axis. -/
theorem axis_angles_finite (platform : Circular)
    (hsin : ∀ x, x.isFinite = true → -1 ≤ platform.sin x ∧ platform.sin x ≤ 1)
    (hcos : ∀ x, x.isFinite = true → -1 ≤ platform.cos x ∧ platform.cos x ≤ 1)
    (axis : Vec3 Float32) (angle : Float32) (haxis : Components.isFinite axis = true)
    (hangle : angle.isFinite = true) :
    Components.isFinite (@ofAxisAngle Float32 platform.scalar axis angle) = true := by
  have hhalf : (angle * 0.5).isFinite = true := isUnit_half.isFinite_mul hangle
  obtain ⟨hs_low, hs_high⟩ := hsin _ hhalf
  obtain ⟨hc_low, hc_high⟩ := hcos _ hhalf
  have hs : IsUnit (platform.sin (angle * 0.5)) := ⟨hs_low, hs_high⟩
  have hc : IsUnit (platform.cos (angle * 0.5)) := ⟨hc_low, hc_high⟩
  obtain ⟨hx, hy, hz⟩ := (Vec3.isFinite_iff _).mp (isFinite_direction haxis)
  rw [ofAxisAngle_eq, isFinite_iff]
  exact ⟨hs.isFinite_mul hx, hs.isFinite_mul hy, hs.isFinite_mul hz, hc.isFinite⟩

/-- Half a turn about an axis whose squared length underflows, about one whose squared length has
a single digit, and about the longest one. -/
theorem half_turns_finite :
    let platform : Circular :=
      { Circular.native with sin := fun _ => 1, cos := fun _ => .ofBits 0xb33bbd2e }
    let pi := Float32.ofBits 0x40490fdb
    let underflowing : Vec3 Float32 := ⟨.ofBits 0x0da24260, 0, .ofBits 0x80000001⟩
    let subnormal : Vec3 Float32 := ⟨.ofBits 0x1a3504f4, 0, 0⟩
    let longest : Vec3 Float32 := Components.splat (.ofBits 0x7f7fffff)
    (Components.lengthSquared underflowing = 0 ∧
      Components.isFinite (@ofAxisAngle Float32 platform.scalar underflowing pi) = true) ∧
    (Components.lengthSquared subnormal = .ofBits 0x00000001 ∧
      Components.isFinite (@ofAxisAngle Float32 platform.scalar subnormal pi) = true) ∧
    (Components.lengthSquared longest).isInf = true ∧
      Components.isFinite (@ofAxisAngle Float32 platform.scalar longest pi) = true := by
  intro platform pi underflowing subnormal longest
  have hsin : ∀ x, x.isFinite = true → -1 ≤ platform.sin x ∧ platform.sin x ≤ 1 :=
    fun _ _ => ⟨(by decide +kernel : (-1 : Float32) ≤ 1), (by decide +kernel : (1 : Float32) ≤ 1)⟩
  have hcos : ∀ x, x.isFinite = true → -1 ≤ platform.cos x ∧ platform.cos x ≤ 1 :=
    fun _ _ => ⟨(by decide +kernel : (-1 : Float32) ≤ .ofBits 0xb33bbd2e),
      (by decide +kernel : Float32.ofBits 0xb33bbd2e ≤ 1)⟩
  have hfinite (axis : Vec3 Float32) (haxis : Components.isFinite axis = true) :
      Components.isFinite (@ofAxisAngle Float32 platform.scalar axis pi) = true :=
    axis_angles_finite platform hsin hcos axis pi haxis (by decide +kernel)
  refine ⟨⟨by decide +kernel, hfinite _ (by decide +kernel)⟩,
    ⟨by decide +kernel, hfinite _ (by decide +kernel)⟩,
    by decide +kernel, hfinite _ (by decide +kernel)⟩

end Quaternion

end Spatial
