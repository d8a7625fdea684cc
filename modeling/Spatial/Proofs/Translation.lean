import Mathlib
import Spatial.Proofs.Singular
import Spatial.Proofs.Binary.Amount

/-!
# Translations in binary32

The matrix of a translation has ones and zeros beside the vector.  A component of the vector is
in the last row, where it is multiplied by a zero or by a one, so it is added to others without
having been rounded; and it is left out of the determinant, which is one.

1.  The inverse divides by one, and what it divides are the components negated.
2.  Two translations in a row add their vectors, each sum rounded once as the sum of vectors is,
    and without bound where that is.
3.  A point is moved by the sum of vectors.
-/

namespace Spatial

open Binary32 (amount)
open Binary32.Amount (mul_zero zero_mul)
open Components (Agree Pointwise agree_iff_amounts isFinite_of_mem isNaN_add isNaN_of_isFinite)
open Tolerance (Fieldwise)

/-- Translations are inverted, composed and applied with no more rounding than in the sum of
their vectors. -/
structure ExactTranslations {V M : Type → Type} [Components V] [BEq (V Float32)]
    [Add (V Float32)] [Neg (V Float32)] [BEq (M Float32)] [Mul (M Float32)]
    (translation : V Float32 → M Float32)
    (invert : M Float32 → Except (Failure Float32) (M Float32))
    (transformPoint : M Float32 → V Float32 → V Float32) : Prop where
  /-- A translation is inverted by the translation by the opposite vector. -/
  inverse : ∀ v, Components.isFinite v = true →
    ∃ inverse, invert (translation v) = .ok inverse ∧ (inverse == translation (-v)) = true
  /-- Two translations in a row are the translation by the sum. -/
  product : ∀ u v, Components.isFinite u = true → Components.isFinite v = true →
    (translation u * translation v == translation (u + v)) = true
  /-- A point is moved to its sum with the vector. -/
  image : ∀ v p, Components.isFinite v = true → Components.isFinite p = true →
    (transformPoint (translation v) p == p + v) = true

/-- Agreement suffices, as long as the matrix of a translation has no component that is no number
beside those of the vector: sums of finite vectors, and vectors negated, consist of numbers. -/
theorem ExactTranslations.of_agree {V M : Type → Type} [Components V] [Pointwise V]
    [BEq (V Float32)] [Fieldwise V] [Add (V Float32)] [Neg (V Float32)] [Components M]
    [BEq (M Float32)] [Fieldwise M] [Mul (M Float32)] {translation : V Float32 → M Float32}
    {invert : M Float32 → Except (Failure Float32) (M Float32)}
    {transformPoint : M Float32 → V Float32 → V Float32}
    (hadd : ∀ u v : V Float32, u + v = Components.add u v)
    (hneg : ∀ v : V Float32, Components.toList (-v) = (Components.toList v).map (- ·))
    (hnumbers : ∀ {v}, Components.isNaN v = false → Components.isNaN (translation v) = false)
    (hinverse : ∀ {v}, Components.isFinite v = true →
      ∃ inverse, invert (translation v) = .ok inverse ∧ Agree inverse (translation (-v)))
    (hproduct : ∀ {u v}, Components.isFinite u = true → Components.isFinite v = true →
      Agree (translation u * translation v) (translation (u + v)))
    (himage : ∀ {v p}, Components.isFinite p = true →
      Agree (transformPoint (translation v) p) (p + v)) :
    ExactTranslations translation invert transformPoint where
  inverse v hv := by
    obtain ⟨inverse, hok, hagree⟩ := hinverse hv
    have hfinite : Components.isFinite (-v) = true := by
      rw [Components.isFinite, hneg, List.all_map, List.all_eq_true]
      intro x hx
      exact (Binary32.isFinite_neg x).trans (isFinite_of_mem hv hx)
    exact ⟨inverse, hok, hagree.beq_of_isNaN (hnumbers (isNaN_of_isFinite hfinite))⟩
  product u v hu hv := by
    refine (hproduct hu hv).beq_of_isNaN (hnumbers ?_)
    rw [hadd]
    exact isNaN_add hu hv
  image v p hv hp := by
    refine (himage hp).beq_of_isNaN ?_
    rw [hadd]
    exact isNaN_add hp hv

namespace Binary32

theorem isNaN_zero : (0 : Float32).isNaN = false := isNaN_of_isFinite isFinite_zero

theorem isNaN_one : (1 : Float32).isNaN = false := isNaN_of_isFinite isFinite_one

theorem one_beq_zero : ((1 : Float32) == 0) = false := by decide +kernel

theorem one_div_one : (1 / 1 : Float32) = 1 := by decide +kernel

end Binary32

open Binary32 (isNaN_zero isNaN_one one_beq_zero one_div_one)

/-! ## The plane -/

namespace Affine2

variable {u v p : Vec2 Float32}

/-- The determinant of a translation is one, bit for bit. -/
theorem determinant_translation (v : Vec2 Float32) : (translation v).determinant = 1 := by
  show (1 * 1 - 0 * 0 : Float32) = 1
  decide +kernel

/-- The inverse of a translation, element by element as it is computed. -/
theorem invert_translation (v : Vec2 Float32) :
    (translation v).invert =
      .ok ⟨⟨1 * 1, -0 * 1⟩, ⟨-0 * 1, 1 * 1⟩,
        ⟨(0 * v.y - v.x * 1) * 1, (v.x * 0 - 1 * v.y) * 1⟩⟩ := by
  simp only [invert, determinant_translation, one_beq_zero, one_div_one, Bool.false_eq_true,
    if_false]
  rfl

/-- A translation is inverted to the opposite one. -/
theorem exists_inverse_translation (hv : Components.isFinite v = true) :
    ∃ inverse, (translation v).invert = .ok inverse ∧ Agree inverse (translation (-v)) := by
  obtain ⟨hx, hy⟩ := (Vec2.isFinite_iff v).mp hv
  refine ⟨_, invert_translation v, ?_⟩
  rw [agree_iff_amounts]
  simp only [Components.toList, translation, Vec2.neg_eq, List.map_cons, List.map_nil]
  simp [mul_zero, zero_mul, hx, hy]

/-- The product of two translations is that of the sum. -/
theorem translation_mul_agree (hu : Components.isFinite u = true) :
    Agree (translation u * translation v) (translation (u + v)) := by
  obtain ⟨hx, hy⟩ := (Vec2.isFinite_iff u).mp hu
  rw [agree_iff_amounts]
  simp only [Components.toList, mul_rows, transformDirection, transformPoint, translation,
    Vec2.mulLeft_eq, Vec2.add_eq, List.map_cons, List.map_nil]
  simp [mul_zero, hx, hy]

/-- A translation adds its vector to a point. -/
theorem transformPoint_translation_agree (hp : Components.isFinite p = true) :
    Agree ((translation v).transformPoint p) (p + v) := by
  obtain ⟨hx, hy⟩ := (Vec2.isFinite_iff p).mp hp
  rw [agree_iff_amounts]
  simp only [Components.toList, transformPoint, translation, Vec2.mulLeft_eq, Vec2.add_eq,
    List.map_cons, List.map_nil]
  simp [mul_zero, hx, hy]

/-- A translation by a vector without undefined components has none. -/
theorem isNaN_translation (h : Components.isNaN v = false) :
    Components.isNaN (translation v) = false := by
  simpa only [Components.isNaN, Components.toList, translation, List.any_cons, isNaN_zero,
    isNaN_one, Bool.false_or] using h

/-- All that is said of translations holds in the plane. -/
theorem exactTranslations :
    ExactTranslations (translation : Vec2 Float32 → Affine2 Float32) invert transformPoint :=
  .of_agree (fun _ _ => rfl) (fun _ => rfl) isNaN_translation exists_inverse_translation
    (fun hu _ => translation_mul_agree hu) transformPoint_translation_agree

end Affine2

/-! ## Space -/

namespace Matrix4

variable {u v p : Vec3 Float32}

/-- The rows of a translation. -/
theorem translation_eq (v : Vec3 Float32) :
    translation v = ⟨⟨1, 0, 0, 0⟩, ⟨0, 1, 0, 0⟩, ⟨0, 0, 1, 0⟩, ⟨v.x, v.y, v.z, 1⟩⟩ := rfl

/-- A translation by a vector without undefined components has none. -/
theorem isNaN_translation (h : Components.isNaN v = false) :
    Components.isNaN (translation v) = false := by
  simpa only [Components.isNaN, Components.toList, translation_eq, List.any_cons, isNaN_zero,
    isNaN_one, Bool.false_or] using h

/-- The terms with a component of the vector have a zero among their factors. -/
theorem determinant_translation (hv : Components.isFinite v = true) :
    (translation v).determinant = 1 := by
  obtain ⟨hx, hy, hz⟩ := (Vec3.isFinite_iff v).mp hv
  have hamount : amount (translation v).determinant = amount 1 := by
    rw [determinant_eq, translation_eq]
    simp [mul_zero, zero_mul, hx, hy, hz]
  exact (Binary32.amount_eq_iff.mp hamount).eq_of_not_isZero Binary32.not_isZero_one

/-- A translation is inverted to the opposite one. -/
theorem exists_inverse_translation (hv : Components.isFinite v = true) :
    ∃ inverse, (translation v).invert = .ok inverse ∧ Agree inverse (translation (-v)) := by
  obtain ⟨hx, hy, hz⟩ := (Vec3.isFinite_iff v).mp hv
  have hdet := determinant_translation hv
  have hnonzero : ((translation v).determinant == 0) = false := by
    rw [hdet]
    exact one_beq_zero
  have hok : (translation v).invert = .ok ((translation v).adjugate * (1 : Float32)) := by
    rw [invert_of_nonzero hnonzero, hdet, one_div_one]
  refine ⟨_, hok, ?_⟩
  rw [agree_iff_amounts]
  simp only [Components.toList, translation_eq, adjugate, mulRight_rows, Vec4.mulRight_eq,
    Vec3.neg_eq, List.map_cons, List.map_nil]
  simp [mul_zero, zero_mul, hx, hy, hz]

/-- The product of two translations is that of the sum. -/
theorem translation_mul_agree (hu : Components.isFinite u = true)
    (hv : Components.isFinite v = true) :
    Agree (translation u * translation v) (translation (u + v)) := by
  obtain ⟨hx, hy, hz⟩ := (Vec3.isFinite_iff u).mp hu
  obtain ⟨hvx, hvy, hvz⟩ := (Vec3.isFinite_iff v).mp hv
  rw [agree_iff_amounts]
  simp only [Components.toList, mul_rows, transform_eq, translation_eq, Vec3.add_eq,
    List.map_cons, List.map_nil]
  simp [mul_zero, zero_mul, hx, hy, hz, hvx, hvy, hvz]

/-- A translation adds its vector to a point. -/
theorem transformPoint_translation_agree (hp : Components.isFinite p = true) :
    Agree ((translation v).transformPoint p) (p + v) := by
  obtain ⟨hx, hy, hz⟩ := (Vec3.isFinite_iff p).mp hp
  rw [agree_iff_amounts]
  simp only [Components.toList, transformPoint, translation_eq, Vec4.xyz, Vec3.mulLeft_eq,
    Vec3.add_eq, List.map_cons, List.map_nil]
  simp [mul_zero, hx, hy, hz]

/-- All that is said of translations holds in space. -/
theorem exactTranslations :
    ExactTranslations (translation : Vec3 Float32 → Matrix4 Float32) invert transformPoint :=
  .of_agree (fun _ _ => rfl) (fun _ => rfl) isNaN_translation exists_inverse_translation
    translation_mul_agree transformPoint_translation_agree

end Matrix4

/-- **Translations in binary32.**  In the plane and in space the translation by a finite vector has
an inverse, which is the translation by the opposite vector.  The translation by one finite vector
and then by another is the translation by their sum, of which components may be infinite, and the
image of a finite point is its sum with the vector. -/
theorem translations_are_exact :
    ExactTranslations (Affine2.translation : Vec2 Float32 → Affine2 Float32) Affine2.invert
        Affine2.transformPoint ∧
      ExactTranslations (Matrix4.translation : Vec3 Float32 → Matrix4 Float32) Matrix4.invert
        Matrix4.transformPoint :=
  ⟨Affine2.exactTranslations, Matrix4.exactTranslations⟩

/-- Moved twice by the largest number a point is infinitely far, and one move is undone by the
inverse. -/
theorem largest_translation_doubled :
    let v : Vec3 Float32 := ⟨.ofBits 0x7f7fffff, .ofBits 0x00000001, .ofBits 0x80000000⟩
    let w : Vec3 Float32 := ⟨.ofBits 0x7f800000, .ofBits 0x00000002, .ofBits 0x80000000⟩
    Components.isFinite v = true ∧
      (Matrix4.translation v * Matrix4.translation v == Matrix4.translation w) = true ∧
      ∃ inverse, (Matrix4.translation v).invert = .ok inverse ∧
        (inverse == Matrix4.translation (-v)) = true := by
  intro v w
  have hv : Components.isFinite v = true := by decide +kernel
  have hsum : v + v = w := by decide +kernel
  obtain ⟨-, hspace⟩ := translations_are_exact
  have hproduct := hspace.product v v hv hv
  rw [hsum] at hproduct
  exact ⟨hv, hproduct, hspace.inverse v hv⟩

end Spatial
