import Mathlib
import Spatial.Proofs.Inverse
import Spatial.Proofs.Promotion

/-!
# The plane in space

A map of the plane is also a map of space that keeps the third component, and its
matrix has the two dimensions side by side.  Points and directions of the plane have
the same image under either, bit for bit: the formulas for the plane never read what
the embedding adds.

The product of two embedded matrices does read it.  It sums four terms for each of
sixteen elements where the product in the plane sums two or three for each of six, and
the terms in excess are multiples of the zeros and ones of the embedding.

1.  Exactly, the embedding is multiplicative and keeps the determinant, so it takes an
    inverse to the inverse, and a failure to invert to the same failure.
2.  In binary32 the terms in excess are zeros as long as the elements are finite, even
    where a sum or a product of them is not, so the two products agree.
-/

namespace Spatial

namespace Matrix4

section Rows

variable {α : Type} [Scalar α]

/-! Images under an embedded map and a product of two, in any scalars. -/

/-- The embedded map acts on points as the map does, operation by operation. -/
theorem ofAffine2_transformPoint2 (m : Affine2 α) (v : Vec2 α) :
    (ofAffine2 m).transformPoint2 v = m.transformPoint v := rfl

/-- The same of directions. -/
theorem ofAffine2_transformDirection2 (m : Affine2 α) (v : Vec2 α) :
    (ofAffine2 m).transformDirection2 v = m.transformDirection v := rfl

/-- An embedded map has the images of two directions, of the third axis and of a point
as its rows. -/
theorem ofAffine2_mul_rows (a b : Affine2 α) :
    ofAffine2 a * ofAffine2 b =
      ⟨(ofAffine2 b).transformExtended2 a.r1 0 0, (ofAffine2 b).transformExtended2 a.r2 0 0,
        (ofAffine2 b).transform Vec4.unitZ, (ofAffine2 b).transformHomogeneous2 a.r3⟩ := rfl

end Rows

section Exact

variable {K : Type} [ExactScalar K]

/-- A direction with two zeros keeps them. -/
theorem ofAffine2_transformExtended2 (m : Affine2 K) (v : Vec2 K) :
    (ofAffine2 m).transformExtended2 v 0 0 = (m.transformDirection v).extend2 0 0 := by
  simp only [transformExtended2, transform_eq, ofAffine2, Vec2.extend2,
    Affine2.transformDirection, Vec2.mulLeft_eq, Vec2.add_eq]
  ext <;> ring

/-- A point in the plane stays in it. -/
theorem ofAffine2_transformHomogeneous2 (m : Affine2 K) (v : Vec2 K) :
    (ofAffine2 m).transformHomogeneous2 v = (m.transformPoint v).extend2 0 1 := by
  simp only [transformHomogeneous2, transformExtended2, transform_eq, ofAffine2, Vec2.extend2,
    Affine2.transformPoint, Vec2.mulLeft_eq, Vec2.add_eq]
  ext <;> ring

/-- The third axis is left alone. -/
theorem ofAffine2_transform_unitZ (m : Affine2 K) :
    (ofAffine2 m).transform Vec4.unitZ = Vec4.unitZ := by
  simp only [transform_eq, ofAffine2, Vec2.extend2, Vec4.unitZ]
  ext <;> ring

/-- The embedding is multiplicative. -/
theorem ofAffine2_mul (a b : Affine2 K) : ofAffine2 (a * b) = ofAffine2 a * ofAffine2 b := by
  rw [ofAffine2_mul_rows, ofAffine2_transformExtended2, ofAffine2_transformExtended2,
    ofAffine2_transform_unitZ, ofAffine2_transformHomogeneous2]
  rfl

/-- The embedding keeps the determinant. -/
theorem determinant_ofAffine2 (m : Affine2 K) : (ofAffine2 m).determinant = m.determinant := by
  simp only [determinant_eq, ofAffine2, Vec2.extend2, Affine2.determinant]
  ring

/-- Inversion passes through the embedding, whether it succeeds or fails. -/
theorem invert_ofAffine2 (m : Affine2 K) : (ofAffine2 m).invert = m.invert.map ofAffine2 := by
  by_cases h : m.determinant = 0
  · have hdet : (ofAffine2 m).determinant = 0 := (determinant_ofAffine2 m).trans h
    rw [invert_eq_error hdet, Affine2.invert_eq_error h, determinant_ofAffine2]
    rfl
  · have hdet : (ofAffine2 m).determinant ≠ 0 := by
      rw [determinant_ofAffine2]
      exact h
    obtain ⟨inverse, hok⟩ := m.invert_ok_iff.mpr h
    obtain ⟨inverse₄, hok₄⟩ := (ofAffine2 m).invert_ok_iff.mpr hdet
    -- The embedded inverse is a right inverse, and a matrix has one only.
    have hproduct : ofAffine2 m * ofAffine2 inverse = identity := by
      rw [← ofAffine2_mul, (Affine2.mul_eq_identity_of_invert hok).1]
      rfl
    have hinverse : (ofAffine2 m).inverse = inverse₄ := by
      simp only [Matrix4.inverse, invertInto, hok₄]
    rw [hok, hok₄, ← hinverse, inverse_eq_of_mul hproduct]
    rfl

end Exact

end Matrix4

namespace Affine2

variable {K : Type} [ExactScalar K]

/-- The determinant of maps of the plane is multiplicative, since it is in space. -/
theorem determinant_mul (a b : Affine2 K) :
    (a * b).determinant = a.determinant * b.determinant := by
  rw [← Matrix4.determinant_ofAffine2, Matrix4.ofAffine2_mul, Matrix4.determinant_mul,
    Matrix4.determinant_ofAffine2, Matrix4.determinant_ofAffine2]

end Affine2

/-- **Determinants.**  Of four by four matrices the determinant is multiplicative, and
transposing keeps it; of maps of the plane it is multiplicative too.  Embedded in space,
a map of the plane keeps its determinant.  Its inverse there is its inverse in the plane,
embedded, and where it has none in the plane it fails in space with the same failure. -/
theorem determinants_multiply_and_embed {K : Type} [ExactScalar K] :
    (∀ a b : Matrix4 K, (a * b).determinant = a.determinant * b.determinant) ∧
    (∀ a : Matrix4 K, a.transpose.determinant = a.determinant) ∧
    (∀ a b : Affine2 K, (a * b).determinant = a.determinant * b.determinant) ∧
    ∀ m : Affine2 K,
      (Matrix4.ofAffine2 m).determinant = m.determinant ∧
      (Matrix4.ofAffine2 m).invert = m.invert.map Matrix4.ofAffine2 := by
  refine ⟨Matrix4.determinant_mul, Matrix4.determinant_transpose, Affine2.determinant_mul, ?_⟩
  intro m
  exact ⟨Matrix4.determinant_ofAffine2 m, Matrix4.invert_ofAffine2 m⟩

/-! In binary32 the zeros and ones of the embedding leave their terms without effect. -/

open Components (isFinite_of_mem)

theorem Vec4.isFinite_unitZ : Components.isFinite (unitZ : Vec4 Float32) = true := by
  decide +kernel

namespace Matrix4

open Binary32 (agree_add_zero agree_zero_add isFinite_one isFinite_zero isZero_mul_zero
  isZero_zero isZero_zero_mul)

/-- The embedding of a finite map is finite. -/
theorem isFinite_ofAffine2 {m : Affine2 Float32} (hm : Components.isFinite m = true) :
    Components.isFinite (ofAffine2 m) = true := by
  obtain ⟨h₁, h₂, h₃⟩ := (Affine2.isFinite_iff m).mp hm
  refine (isFinite_iff _).mpr ⟨?_, ?_, Vec4.isFinite_unitZ, ?_⟩
  · exact (Vec2.isFinite_extend2 m.r1 0 0).mpr ⟨h₁, isFinite_zero, isFinite_zero⟩
  · exact (Vec2.isFinite_extend2 m.r2 0 0).mpr ⟨h₂, isFinite_zero, isFinite_zero⟩
  · exact (Vec2.isFinite_extend2 m.r3 0 1).mpr ⟨h₃, isFinite_zero, isFinite_one⟩

/-- The third and the fourth column of an embedded map are those of the identity, so a
finite row keeps its last two components. -/
theorem agree_ofAffine2_transform (m : Affine2 Float32) {v : Vec4 Float32}
    (hv : Components.isFinite v = true) :
    Binary32.Agree v.z ((ofAffine2 m).transform v).z ∧
      Binary32.Agree v.w ((ofAffine2 m).transform v).w := by
  have hzero {x : Float32} (hx : x ∈ Components.toList v) : Binary32.IsZero (x * 0) :=
    isZero_mul_zero (isFinite_of_mem hv hx)
  have hx : Binary32.IsZero (v.x * 0) := hzero (by simp [Components.toList])
  have hy : Binary32.IsZero (v.y * 0) := hzero (by simp [Components.toList])
  have hz : Binary32.IsZero (v.z * 0) := hzero (by simp [Components.toList])
  have hw : Binary32.IsZero (v.w * 0) := hzero (by simp [Components.toList])
  -- The one term that is not a zero stands third in the one sum and last in the other.
  constructor
  · show Binary32.Agree v.z (v.x * 0 + v.y * 0 + v.z * 1 + v.w * 0)
    rw [Binary32.mul_one]
    exact ((agree_add_zero _ hw).trans (agree_zero_add _ (hx.add hy))).symm
  · show Binary32.Agree v.w (v.x * 0 + v.y * 0 + v.z * 0 + v.w * 1)
    rw [Binary32.mul_one]
    exact (agree_zero_add _ ((hx.add hy).add hz)).symm

variable {m : Affine2 Float32}

/-- The image of a direction under an embedded map is the embedded image. -/
theorem agree_ofAffine2_transformExtended2 (hm : Components.isFinite m = true)
    {v : Vec2 Float32} (hv : Components.isFinite v = true) :
    Components.Agree ((m.transformDirection v).extend2 0 0)
      ((ofAffine2 m).transformExtended2 v 0 0) := by
  have hrow := (Vec2.isFinite_extend2 v 0 0).mpr ⟨hv, isFinite_zero, isFinite_zero⟩
  have hplane := agree_transformExtended2 (isFinite_ofAffine2 hm) v
  have hrest := agree_ofAffine2_transform m hrow
  exact (Vec4.agree_iff _ _).mpr ⟨hplane.symm, hrest⟩

/-- The image of a point under an embedded map is the embedded image. -/
theorem agree_ofAffine2_transformHomogeneous2 (hm : Components.isFinite m = true)
    {v : Vec2 Float32} (hv : Components.isFinite v = true) :
    Components.Agree ((m.transformPoint v).extend2 0 1)
      ((ofAffine2 m).transformHomogeneous2 v) := by
  have hrow := (Vec2.isFinite_extend2 v 0 1).mpr ⟨hv, isFinite_zero, isFinite_one⟩
  have hplane := agree_transformPoint2 (isFinite_ofAffine2 hm) v
  rw [← transformHomogeneous2_xy] at hplane
  have hrest := agree_ofAffine2_transform m hrow
  exact (Vec4.agree_iff _ _).mpr ⟨hplane, hrest⟩

/-- An embedded map keeps the third axis. -/
theorem agree_ofAffine2_transform_unitZ (hm : Components.isFinite m = true) :
    Components.Agree Vec4.unitZ ((ofAffine2 m).transform Vec4.unitZ) := by
  have hzero {y : Float32} (hy : y ∈ Components.toList m) : Binary32.IsZero (0 * y) :=
    isZero_zero_mul (isFinite_of_mem hm hy)
  have hsum {p q r : Float32} (hp : p ∈ Components.toList m) (hq : q ∈ Components.toList m)
      (hr : r ∈ Components.toList m) : Binary32.IsZero (0 * p + 0 * q + 1 * 0 + 0 * r) :=
    (((hzero hp).add (hzero hq)).add (isZero_mul_zero isFinite_one)).add (hzero hr)
  have hplane : Components.Agree (⟨0, 0⟩ : Vec2 Float32)
      ((ofAffine2 m).transform Vec4.unitZ).xy := by
    refine (Vec2.agree_iff _ _).mpr ⟨isZero_zero.agree ?_, isZero_zero.agree ?_⟩
    · show Binary32.IsZero (0 * m.r1.x + 0 * m.r2.x + 1 * 0 + 0 * m.r3.x)
      apply hsum <;> simp [Components.toList]
    · show Binary32.IsZero (0 * m.r1.y + 0 * m.r2.y + 1 * 0 + 0 * m.r3.y)
      apply hsum <;> simp [Components.toList]
  exact (Vec4.agree_iff _ _).mpr ⟨hplane, agree_ofAffine2_transform m Vec4.isFinite_unitZ⟩

/-- The embedding of a product agrees with the product of the embedded maps. -/
theorem agree_ofAffine2_mul {a b : Affine2 Float32} (ha : Components.isFinite a = true)
    (hb : Components.isFinite b = true) :
    Components.Agree (ofAffine2 (a * b)) (ofAffine2 a * ofAffine2 b) := by
  obtain ⟨h₁, h₂, h₃⟩ := (Affine2.isFinite_iff a).mp ha
  rw [ofAffine2_mul_rows, agree_iff]
  refine ⟨?_, ?_, ?_, ?_⟩
  · exact agree_ofAffine2_transformExtended2 hb h₁
  · exact agree_ofAffine2_transformExtended2 hb h₂
  · exact agree_ofAffine2_transform_unitZ hb
  · exact agree_ofAffine2_transformHomogeneous2 hb h₃

/-- **The embedding respects composition.**  In binary32 the product of two finite maps
of the plane, embedded in space, agrees with the product of the embedded maps in all
sixteen elements.  Under any map of the plane a point and a direction have the image,
bit for bit, that they have under the embedded map. -/
theorem embedding_agrees_with_composition :
    (∀ a b : Affine2 Float32, Components.isFinite a = true → Components.isFinite b = true →
      Components.Agree (ofAffine2 (a * b)) (ofAffine2 a * ofAffine2 b)) ∧
    ∀ (m : Affine2 Float32) (v : Vec2 Float32),
      m.transformPoint v = (ofAffine2 m).transformPoint2 v ∧
      m.transformDirection v = (ofAffine2 m).transformDirection2 v := by
  refine ⟨?_, ?_⟩
  · intro a b ha hb
    exact agree_ofAffine2_mul ha hb
  · intro m v
    exact ⟨(ofAffine2_transformPoint2 m v).symm, (ofAffine2_transformDirection2 m v).symm⟩

/-- Two maps whose product overflows: its first element is a difference of infinite
numbers, and an infinite number stands in its translation.  A zero of its second row has
another sign than in space. -/
theorem embedding_agrees_on_overflow :
    let a : Affine2 Float32 := ⟨⟨1e30, 1e30⟩, ⟨-1, -1⟩, ⟨1e30, 1⟩⟩
    let b : Affine2 Float32 := ⟨⟨1e30, 0⟩, ⟨-1e30, 0⟩, ⟨2, 3⟩⟩
    (Components.isFinite a = true ∧ Components.isFinite b = true) ∧
      Components.Agree (ofAffine2 (a * b)) (ofAffine2 a * ofAffine2 b) ∧
      (a * b).r1.x.isNaN = true ∧ (a * b).r3.x = 1 / 0 ∧
      (ofAffine2 (a * b)).r2.y = -0 ∧ (ofAffine2 a * ofAffine2 b).r2.y = 0 := by
  intro a b
  have ha : Components.isFinite a = true := by
    decide +kernel
  have hb : Components.isFinite b = true := by
    decide +kernel
  refine ⟨⟨ha, hb⟩, embedding_agrees_with_composition.1 a b ha hb, ?_⟩
  decide +kernel

end Matrix4

end Spatial
