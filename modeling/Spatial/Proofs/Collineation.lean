import Mathlib
import Spatial.Viewing
import Spatial.Proofs.Conjugation
import Spatial.Proofs.Plane

/-!
# Reflections and shadows

A reflection and a shadow have one form.  Each multiplies a row by a factor and takes a fixed
direction away from it, as often as the row pairs with a plane.  So the points of the plane stay
where they are, and all others move along the direction.

1.  What such a map pairs with the plane is what the row does, times the factor less the pairing of
    the direction.  Two such maps of one plane make a third, and the determinant is a product of
    those two numbers.
2.  A reflection takes twice the unit normal away.  Its two numbers are one and minus one, so it
    exchanges the sides of the plane, and two of them move nothing.
3.  A shadow takes the light away, and the factor is the pairing of the light.  The second number
    is zero: every image lies on the plane, and the matrix has no inverse.

Both are made of the plane that normalising gives.  That is a positive multiple of a plane whatever
the length of its normal, which is all that a shadow needs.  A reflection needs the length to be
one, so the squared length must not be near one without being one.
-/

namespace Spatial

open Components (dot lengthSquared mulRight reflect UnitLength checked)

namespace Plane

/-- The map that multiplies a row by a factor and takes a direction away from it as often as the
row pairs with the plane. -/
def collineation {α : Type} [Scalar α] (p : Plane α) (s : α) (u : Vec3 α) : Matrix4 α :=
  ⟨s * (Vec4.unitX : Vec4 α) - p.normal.x * u.extend 0,
    s * (Vec4.unitY : Vec4 α) - p.normal.y * u.extend 0,
    s * (Vec4.unitZ : Vec4 α) - p.normal.z * u.extend 0,
    s * (Vec4.unitW : Vec4 α) - p.d * u.extend 0⟩

section Exact

variable {K : Type} [ExactScalar K]

/-! Pairings with a combination of rows, of points and of planes. -/

/-- Pairing with a plane is linear in the point. -/
theorem dot_sub_mulLeft (p : Plane K) (s t : K) (v w : Vec4 K) :
    p.dot (s * v - t * w) = s * p.dot v - t * p.dot w := by
  simp only [Plane.dot, toVec4, Vec3.extend, Vec4.dot_eq, Vec4.mulLeft_eq, Vec4.sub_eq]
  ring

/-- The pairing with a direction is that with the direction in homogeneous coordinates. -/
theorem dot_extend_zero (p : Plane K) (u : Vec3 K) : p.dot (u.extend 0) = p.dotNormal u := by
  simp only [Plane.dot, dotNormal, toVec4, Vec3.extend, Vec4.dot_eq, Vec3.dot_eq]
  ring

/-- Moving a point along a direction changes its distance by that of the direction. -/
theorem dotCoordinate_add_mulLeft (p : Plane K) (v u : Vec3 K) (t : K) :
    p.dotCoordinate (v + t * u) = p.dotCoordinate v + t * p.dotNormal u := by
  simp only [dotCoordinate, dotNormal, Vec3.dot_eq, Vec3.mulLeft_eq, Vec3.add_eq]
  ring

/-- The normal and itself make a direction that pairs to twice the squared length. -/
theorem dotNormal_add_self (p : Plane K) :
    p.dotNormal (p.normal + p.normal) = lengthSquared p.normal + lengthSquared p.normal := by
  simp only [dotNormal, lengthSquared, Vec3.dot_eq, Vec3.add_eq]
  ring

/-- A multiple of a plane has the multiple of every distance. -/
theorem dotCoordinate_mulRight (p : Plane K) (k : K) (v : Vec3 K) :
    (mulRight p k).dotCoordinate v = p.dotCoordinate v * k := by
  simp only [mulRight, Components.map, dotCoordinate, Vec3.dot_eq]
  ring

/-- A multiple of a plane has the multiple of every direction's distance. -/
theorem dotNormal_mulRight (p : Plane K) (k : K) (v : Vec3 K) :
    (mulRight p k).dotNormal v = p.dotNormal v * k := by
  simp only [mulRight, Components.map, dotNormal, Vec3.dot_eq]
  ring

/-! What a collineation does. -/

section

variable (p : Plane K) (s : K) (u : Vec3 K)

/-- A collineation moves a point along its direction by the distance from the plane. -/
theorem collineation_transform (v : Vec4 K) :
    (p.collineation s u).transform v = s * v - p.dot v * u.extend 0 := by
  simp only [collineation, Matrix4.transform_eq, Plane.dot, toVec4, Vec3.extend, Vec4.dot_eq,
    Vec4.unitX, Vec4.unitY, Vec4.unitZ, Vec4.unitW, Vec4.mulLeft_eq, Vec4.sub_eq]
  ext <;> ring

/-- The same of points without a fourth component. -/
theorem collineation_transformPoint (v : Vec3 K) :
    (p.collineation s u).transformPoint v = s * v - p.dotCoordinate v * u := by
  simp only [collineation, Matrix4.transformPoint, dotCoordinate, Vec3.dot_eq, Vec3.extend,
    Vec4.xyz, Vec4.unitX, Vec4.unitY, Vec4.unitZ, Vec4.unitW, Vec4.mulLeft_eq, Vec4.sub_eq,
    Vec3.mulLeft_eq, Vec3.add_eq, Vec3.sub_eq]
  ext <;> ring

/-- The same of directions. -/
theorem collineation_transformDirection (v : Vec3 K) :
    (p.collineation s u).transformDirection v = s * v - p.dotNormal v * u := by
  simp only [collineation, Matrix4.transformDirection, dotNormal, Vec3.dot_eq, Vec3.extend,
    Vec4.xyz, Vec4.unitX, Vec4.unitY, Vec4.unitZ, Vec4.mulLeft_eq, Vec4.sub_eq, Vec3.mulLeft_eq,
    Vec3.add_eq, Vec3.sub_eq]
  ext <;> ring

/-- The image of a row pairs with the plane as the row does, times a number. -/
theorem dot_collineation (v : Vec4 K) :
    p.dot ((p.collineation s u).transform v) = (s - p.dotNormal u) * p.dot v := by
  rw [collineation_transform, dot_sub_mulLeft, dot_extend_zero]
  ring

/-- Two maps of one plane make a third. -/
theorem collineation_mul (t : K) (w : Vec3 K) :
    p.collineation s u * p.collineation t w =
      p.collineation (s * t) (t * u + (s - p.dotNormal u) * w) := by
  apply Matrix4.eq_of_transform
  intro v
  rw [Matrix4.transform_mul, collineation_transform _ t, dot_collineation,
    collineation_transform, collineation_transform]
  simp only [Vec4.mulLeft_eq, Vec4.sub_eq, Vec3.mulLeft_eq, Vec3.add_eq, Vec3.extend]
  ext <;> ring

/-- Without a direction and with factor one, a collineation is the identity. -/
theorem collineation_one_zero : p.collineation 1 Vec3.zero = Matrix4.identity := by
  apply Matrix4.eq_of_transform
  intro v
  rw [collineation_transform, Matrix4.transform_identity]
  simp only [Vec4.mulLeft_eq, Vec4.sub_eq, Vec3.extend, Vec3.zero, Components.splat, one_mul,
    mul_zero, sub_zero]

/-- Rows on the plane are multiplied by the factor, and the direction by the other number. -/
theorem determinant_collineation :
    (p.collineation s u).determinant = s * s * s * (s - p.dotNormal u) := by
  simp only [collineation, Matrix4.determinant_eq, dotNormal, Vec3.dot_eq, Vec3.extend,
    Vec4.unitX, Vec4.unitY, Vec4.unitZ, Vec4.unitW, Vec4.mulLeft_eq, Vec4.sub_eq]
  ring

end

end Exact

/-! ## Normalising -/

section Normalising

variable {p : Plane ℝ}

/-- A plane whose normal has nearly unit length is kept. -/
theorem normalize_of_near (h : |lengthSquared p.normal - 1| < Scalar.epsilon) :
    p.normalize = p := if_pos h

/-- Any other plane is divided by the length of its normal. -/
theorem normalize_of_not_near (h : ¬|lengthSquared p.normal - 1| < Scalar.epsilon) :
    p.normalize = mulRight p (1 / Real.sqrt (lengthSquared p.normal)) := if_neg h

/-- A normal that is not zero has a squared length above zero. -/
theorem lengthSquared_normal_pos (h : lengthSquared p.normal ≠ 0) : 0 < lengthSquared p.normal :=
  lt_of_le_of_ne (Vec3.lengthSquared_nonneg p.normal) h.symm

/-- Normalising gives a positive multiple of a plane, whether or not its normal is near a unit. -/
theorem normalize_eq_mulRight (h : lengthSquared p.normal ≠ 0) :
    ∃ k : ℝ, 0 < k ∧ p.normalize = mulRight p k := by
  by_cases hnear : |lengthSquared p.normal - 1| < Scalar.epsilon
  · refine ⟨1, one_pos, ?_⟩
    rw [normalize_of_near hnear]
    simp only [mulRight, Components.map, mul_one]
  · exact ⟨_, one_div_pos.mpr (Real.sqrt_pos.mpr (lengthSquared_normal_pos h)),
      normalize_of_not_near hnear⟩

/-- Normalising keeps the points of a plane. -/
theorem dotCoordinate_normalize_eq_zero_iff (h : lengthSquared p.normal ≠ 0) (v : Vec3 ℝ) :
    p.normalize.dotCoordinate v = 0 ↔ p.dotCoordinate v = 0 := by
  obtain ⟨k, hk, hscaled⟩ := normalize_eq_mulRight h
  rw [hscaled, dotCoordinate_mulRight, mul_eq_zero, or_iff_left hk.ne']

/-- Normalising keeps the directions along a plane. -/
theorem dotNormal_normalize_eq_zero_iff (h : lengthSquared p.normal ≠ 0) (v : Vec3 ℝ) :
    p.normalize.dotNormal v = 0 ↔ p.dotNormal v = 0 := by
  obtain ⟨k, hk, hscaled⟩ := normalize_eq_mulRight h
  rw [hscaled, dotNormal_mulRight, mul_eq_zero, or_iff_left hk.ne']

/-- A length that is not taken for one is divided out. -/
theorem lengthSquared_normalize_of_not_near (h : ¬|lengthSquared p.normal - 1| < Scalar.epsilon) :
    lengthSquared p.normalize.normal = lengthSquared p.normal * (1 / lengthSquared p.normal) := by
  rw [normalize_of_not_near h]
  calc lengthSquared (p.normal * (1 / Real.sqrt (lengthSquared p.normal)))
      = lengthSquared p.normal *
          (1 / (Real.sqrt (lengthSquared p.normal) * Real.sqrt (lengthSquared p.normal))) := by
        rw [← one_div_mul_one_div]
        simp only [lengthSquared, Vec3.dot_eq, Vec3.mulRight_eq]
        ring
    _ = lengthSquared p.normal * (1 / lengthSquared p.normal) := by
        rw [Real.mul_self_sqrt (Vec3.lengthSquared_nonneg p.normal)]

/-- Normalising gives a unit normal exactly if the normal is one already, or has a length that is
not taken for one. -/
theorem unitLength_normalize_iff (p : Plane ℝ) :
    UnitLength p.normalize.normal ↔
      lengthSquared p.normal = 1 ∨
        lengthSquared p.normal ≠ 0 ∧ Scalar.epsilon ≤ |lengthSquared p.normal - 1| := by
  by_cases hnear : |lengthSquared p.normal - 1| < Scalar.epsilon
  · rw [normalize_of_near hnear]
    exact (or_iff_left fun hfar => absurd hnear (not_lt.mpr hfar.2)).symm
  · rw [UnitLength, lengthSquared_normalize_of_not_near hnear]
    constructor
    · intro hunit
      refine .inr ⟨fun hzero => ?_, not_lt.mp hnear⟩
      rw [hzero, zero_mul] at hunit
      exact zero_ne_one hunit
    · rintro (hone | ⟨hne, -⟩)
      · rw [hone, one_div_one, one_mul]
      · exact mul_one_div_cancel hne

/-- Normalising a plane divides by no zero, unless its normal is zero. -/
theorem normalize_checked (h : lengthSquared p.normal ≠ 0) :
    (checked p).normalize = checked p.normalize := by
  have hroot : Scalar.sqrt (Checked.value (lengthSquared p.normal)) =
      .value (Real.sqrt (lengthSquared p.normal)) :=
    Checked.sqrt_value (Vec3.lengthSquared_nonneg p.normal)
  have hfactor : (1 : Checked) / .value (Real.sqrt (lengthSquared p.normal)) =
      .value (1 / Real.sqrt (lengthSquared p.normal)) :=
    Checked.value_div_value (Real.sqrt_pos.mpr (lengthSquared_normal_pos h)).ne'
  have hepsilon : (Scalar.epsilon : Checked) = .value Scalar.epsilon :=
    Checked.value_div_value (by norm_num)
  have hsquared : lengthSquared (checked p).normal = .value (lengthSquared p.normal) := rfl
  have hnear : Scalar.abs (lengthSquared (checked p).normal - 1) < (Scalar.epsilon : Checked) ↔
      |lengthSquared p.normal - 1| < Scalar.epsilon := by
    rw [hepsilon]
    rfl
  by_cases hclose : |lengthSquared p.normal - 1| < Scalar.epsilon
  · rw [normalize_of_near hclose]
    exact if_pos (hnear.mpr hclose)
  · rw [normalize_of_not_near hclose]
    refine (if_neg (mt hnear.mp hclose)).trans ?_
    rw [hsquared, hroot, hfactor]
    rfl

end Normalising

end Plane

namespace Matrix4

open Plane (collineation_mul collineation_one_zero collineation_transform
  collineation_transformDirection collineation_transformPoint determinant_collineation
  dotCoordinate_add_mulLeft dotCoordinate_normalize_eq_zero_iff dotNormal_add_self
  dotNormal_normalize_eq_zero_iff normalize_checked unitLength_normalize_iff)

/-! ## Reflections -/

section Reflection

variable {K : Type} [ExactScalar K]

/-- A reflection takes twice the normal away as often as a point is away from the plane. -/
theorem reflection_eq (plane : Plane K) :
    reflection plane =
      plane.normalize.collineation 1 (plane.normalize.normal + plane.normalize.normal) := by
  simp only [reflection, Plane.collineation, Vec3.extend, Vec4.unitX, Vec4.unitY, Vec4.unitZ,
    Vec4.unitW, Vec4.mulLeft_eq, Vec4.sub_eq, Vec3.add_eq, ExactScalar.two_eq]
  ext <;> ring

/-- The formula for directions is the one for vectors. -/
theorem reflection_transformDirection (plane : Plane K) (v : Vec3 K) :
    (reflection plane).transformDirection v = reflect v plane.normalize.normal := by
  have hreflect (n : Vec3 K) : reflect v n = v - n * (2 * dot v n) := rfl
  rw [reflection_eq, collineation_transformDirection, hreflect]
  simp only [Plane.dotNormal, Vec3.dot_eq, Vec3.mulLeft_eq, Vec3.mulRight_eq, Vec3.sub_eq,
    Vec3.add_eq, ExactScalar.two_eq]
  ext <;> ring

/-- A point is moved along the normal, by twice what it pairs with the plane. -/
theorem reflection_transformPoint (plane : Plane K) (v : Vec3 K) :
    (reflection plane).transformPoint v =
      v + -plane.normalize.dotCoordinate v *
        (plane.normalize.normal + plane.normalize.normal) := by
  rw [reflection_eq, collineation_transformPoint]
  simp only [Vec3.mulLeft_eq, Vec3.sub_eq, Vec3.add_eq, one_mul, neg_mul, sub_eq_add_neg]

/-- The determinant of a reflection, for a normal of any length. -/
theorem determinant_reflection (plane : Plane K) :
    (reflection plane).determinant =
      1 - (lengthSquared plane.normalize.normal + lengthSquared plane.normalize.normal) := by
  rw [reflection_eq, determinant_collineation, dotNormal_add_self]
  ring

variable {plane : Plane K} (h : UnitLength plane.normalize.normal)
include h

/-- Two reflections in one plane move nothing. -/
theorem reflection_mul_self : reflection plane * reflection plane = identity := by
  rw [reflection_eq, collineation_mul, dotNormal_add_self, h,
    ← collineation_one_zero plane.normalize]
  congr 1
  · exact one_mul 1
  · simp only [Vec3.mulLeft_eq, Vec3.add_eq, Vec3.zero, Components.splat]
    ext <;> ring

/-- A reflection exchanges the sides of the plane. -/
theorem dotCoordinate_reflection (v : Vec3 K) :
    plane.normalize.dotCoordinate ((reflection plane).transformPoint v) =
      -plane.normalize.dotCoordinate v := by
  rw [reflection_transformPoint, dotCoordinate_add_mulLeft, dotNormal_add_self, h]
  ring

end Reflection

/-- A reflection turns space over exactly if normalising gives a unit normal. -/
theorem determinant_reflection_eq_iff (plane : Plane ℝ) :
    (reflection plane).determinant = -1 ↔
      lengthSquared plane.normal = 1 ∨
        lengthSquared plane.normal ≠ 0 ∧ Scalar.epsilon ≤ |lengthSquared plane.normal - 1| := by
  rw [← unitLength_normalize_iff, determinant_reflection, UnitLength]
  constructor <;> intro h <;> linarith

/-- The points that a reflection leaves where they are. -/
theorem reflection_transformPoint_eq_self_iff {plane : Plane ℝ}
    (h : UnitLength plane.normalize.normal) (v : Vec3 ℝ) :
    (reflection plane).transformPoint v = v ↔ plane.normalize.dotCoordinate v = 0 := by
  constructor
  · intro hfixed
    have hpairing := dotCoordinate_reflection h v
    rw [hfixed] at hpairing
    linarith
  · intro hzero
    rw [reflection_transformPoint, hzero]
    simp only [Vec3.mulLeft_eq, Vec3.add_eq, neg_zero, zero_mul, add_zero]

/-- **Reflections.**  Let the normal of a plane have a squared length that is one, or that is
neither zero nor so near one that it is taken for one.  Then the reflection in the plane undoes
itself and turns space over, it exchanges the sides of the plane and moves no other point than
those off the plane, and it moves directions as vectors are reflected at the unit normal.
Normalising divides by no zero. -/
theorem reflections_exchange_sides {plane : Plane ℝ}
    (h : lengthSquared plane.normal = 1 ∨
      lengthSquared plane.normal ≠ 0 ∧ Scalar.epsilon ≤ |lengthSquared plane.normal - 1|) :
    let p := plane.normalize
    let m := reflection plane
    UnitLength p.normal ∧ m * m = identity ∧ m.determinant = -1 ∧
    (∀ v : Vec3 ℝ, p.dotCoordinate (m.transformPoint v) = -p.dotCoordinate v) ∧
    (∀ v : Vec3 ℝ, m.transformPoint v = v ↔ plane.dotCoordinate v = 0) ∧
    (∀ v : Vec3 ℝ, m.transformDirection v = reflect v p.normal) ∧
    reflection (checked plane) = checked m := by
  intro p m
  have hunit : UnitLength p.normal := (unitLength_normalize_iff plane).mpr h
  have hnormal : lengthSquared plane.normal ≠ 0 := by
    rcases h with hone | hfar
    · rw [hone]
      exact one_ne_zero
    · exact hfar.1
  refine ⟨hunit, reflection_mul_self hunit, (determinant_reflection_eq_iff plane).mpr h,
    dotCoordinate_reflection hunit, ?_, reflection_transformDirection plane, ?_⟩
  · intro v
    rw [reflection_transformPoint_eq_self_iff hunit,
      dotCoordinate_normalize_eq_zero_iff hnormal]
  · unfold reflection
    rw [normalize_checked hnormal]
    rfl

/-- The reflection in an oblique plane that is not through the origin, with a normal of length
three. -/
theorem reflection_in_oblique_plane :
    let plane : Plane ℝ := ⟨⟨2, -1, 2⟩, 6⟩
    let m := reflection plane
    (lengthSquared plane.normal = 1 ∨
      lengthSquared plane.normal ≠ 0 ∧ Scalar.epsilon ≤ |lengthSquared plane.normal - 1|) ∧
    m * m = identity ∧ m.determinant = -1 ∧
    m.transformPoint ⟨-3, 0, 0⟩ = ⟨-3, 0, 0⟩ := by
  intro plane m
  have hsquared : lengthSquared plane.normal = 9 := by
    norm_num [plane, lengthSquared, Vec3.dot_eq]
  have hepsilon : (Scalar.epsilon : ℝ) = 1 / 8388608.0 := rfl
  have h : lengthSquared plane.normal = 1 ∨
      lengthSquared plane.normal ≠ 0 ∧ Scalar.epsilon ≤ |lengthSquared plane.normal - 1| := by
    right
    rw [hsquared, hepsilon]
    norm_num
  have honPlane : plane.dotCoordinate ⟨-3, 0, 0⟩ = 0 := by
    norm_num [plane, Plane.dotCoordinate, Vec3.dot_eq]
  obtain ⟨-, hself, hdet, -, hfixed, -⟩ := reflections_exchange_sides h
  exact ⟨h, hself, hdet, (hfixed _).mpr honPlane⟩

/-! ## Shadows -/

/-- A point is the shadow of another: it lies on the plane, and the light goes from the one to the
other. -/
structure IsShadow {K : Type} [ExactScalar K] (plane : Plane K) (light v q : Vec3 K) : Prop where
  on_plane : plane.dotCoordinate q = 0
  along : ∃ t : K, q = v + t * light

section Shadow

variable {K : Type} [ExactScalar K]

/-- A shadow takes the light away as often as a row pairs with the plane. -/
theorem shadow_eq (light : Vec3 K) (plane : Plane K) :
    shadow light plane =
      plane.normalize.collineation (plane.normalize.dotNormal light) light := by
  simp only [shadow, Plane.collineation, Plane.dotNormal, Vec3.extend, Vec4.unitX, Vec4.unitY,
    Vec4.unitZ, Vec4.unitW, Vec4.mulLeft_eq, Vec4.sub_eq]
  ext <;> ring

/-- The matrix of a shadow is singular, even where the light is parallel to the plane. -/
theorem determinant_shadow (light : Vec3 K) (plane : Plane K) :
    (shadow light plane).determinant = 0 := by
  rw [shadow_eq, determinant_collineation, sub_self, mul_zero]

/-- A shadow is a point moved towards the light until it lies in the plane. -/
theorem shadow_transform (light : Vec3 K) (plane : Plane K) (v : Vec3 K) :
    (shadow light plane).transform (v.extend 1) =
      (plane.normalize.dotNormal light * v - plane.normalize.dotCoordinate v * light).extend
        (plane.normalize.dotNormal light) := by
  rw [shadow_eq, collineation_transform, Plane.dot_homogeneous]
  simp only [Vec3.extend, Vec4.mulLeft_eq, Vec4.sub_eq, Vec3.mulLeft_eq, Vec3.sub_eq, mul_one,
    mul_zero, sub_zero]

variable {p : Plane K} {light : Vec3 K} (h : p.dotNormal light ≠ 0)
include h

/-- A light that is not parallel to the plane casts one shadow of a point. -/
theorem isShadow_iff (v q : Vec3 K) :
    IsShadow p light v q ↔
      q = (p.dotNormal light * v - p.dotCoordinate v * light) / p.dotNormal light := by
  have hquotient : (p.dotNormal light * v - p.dotCoordinate v * light) / p.dotNormal light =
      v + -(p.dotCoordinate v / p.dotNormal light) * light := by
    simp only [Vec3.divRight_eq, Vec3.sub_eq, Vec3.mulLeft_eq, Vec3.add_eq]
    ext <;> field_simp <;> ring
  rw [hquotient]
  constructor
  · rintro ⟨hplane, t, rfl⟩
    rw [dotCoordinate_add_mulLeft] at hplane
    have ht : t = -(p.dotCoordinate v / p.dotNormal light) := by
      field_simp
      linear_combination hplane
    rw [ht]
  · rintro rfl
    refine ⟨?_, _, rfl⟩
    rw [dotCoordinate_add_mulLeft]
    field_simp
    ring

end Shadow

section RealShadow

variable {plane : Plane ℝ} {light : Vec3 ℝ}

/-- A plane with a light that is not parallel to it has a normal. -/
theorem lengthSquared_normal_ne_zero (h : plane.dotNormal light ≠ 0) :
    lengthSquared plane.normal ≠ 0 := by
  intro hzero
  apply h
  rw [Plane.dotNormal, (Vec3.lengthSquared_eq_zero_iff _).mp hzero]
  simp only [Vec3.dot_eq, Vec3.zero, Components.splat, zero_mul, add_zero]

/-- A plane and the plane that normalising gives have the same shadows. -/
theorem isShadow_normalize_iff (h : lengthSquared plane.normal ≠ 0) (v q : Vec3 ℝ) :
    IsShadow plane.normalize light v q ↔ IsShadow plane light v q := by
  have hplane := dotCoordinate_normalize_eq_zero_iff h q
  exact ⟨fun hq => ⟨hplane.mp hq.on_plane, hq.along⟩, fun hq => ⟨hplane.mpr hq.on_plane, hq.along⟩⟩

/-- A point of the plane is its own shadow. -/
theorem isShadow_self {v : Vec3 ℝ} (h : plane.dotCoordinate v = 0) : IsShadow plane light v v := by
  refine ⟨h, 0, ?_⟩
  simp only [Vec3.mulLeft_eq, Vec3.add_eq, zero_mul, add_zero]

end RealShadow

/-- **Shadows.**  If the light is not parallel to the plane, the image of a point has the pairing
of the light for its last component.  Divided by that it is the one point of the plane on the line
along the light, so a point of the plane stays where it is.  For every light the matrix is
singular, and inversion refuses it.  Normalising divides by no zero. -/
theorem shadows_fall_on_plane (light : Vec3 ℝ) (plane : Plane ℝ) :
    let p := plane.normalize
    let m := shadow light plane
    (plane.dotNormal light ≠ 0 → ∀ v : Vec3 ℝ,
      let r := m.transform (v.extend 1)
      r.w = dot p.normal light ∧ r.w ≠ 0 ∧
      (∀ q : Vec3 ℝ, IsShadow plane light v q ↔ q = r.xyz / r.w) ∧
      (plane.dotCoordinate v = 0 → r.xyz / r.w = v)) ∧
    (m.determinant = 0 ∧ m.invert = .error (.singularMatrix 0)) ∧
    (lengthSquared plane.normal ≠ 0 → shadow (checked light) (checked plane) = checked m) := by
  intro p m
  refine ⟨?_, ⟨determinant_shadow light plane, ?_⟩, ?_⟩
  · intro hlight v r
    have hnormal : lengthSquared plane.normal ≠ 0 := lengthSquared_normal_ne_zero hlight
    have hfactor : p.dotNormal light ≠ 0 :=
      mt (dotNormal_normalize_eq_zero_iff hnormal light).mp hlight
    have hr : r = (p.dotNormal light * v - p.dotCoordinate v * light).extend
        (p.dotNormal light) := shadow_transform light plane v
    have hshadow (q : Vec3 ℝ) : IsShadow plane light v q ↔ q = r.xyz / r.w := by
      rw [hr, ← isShadow_normalize_iff hnormal]
      exact isShadow_iff hfactor v q
    refine ⟨congrArg Vec4.w hr, ?_, hshadow, ?_⟩
    · rw [hr]
      exact hfactor
    · intro hzero
      exact ((hshadow v).mp (isShadow_self hzero)).symm
  · have herror := invert_eq_error (determinant_shadow light plane)
    rw [determinant_shadow] at herror
    exact herror
  · intro hnormal
    unfold m shadow
    rw [normalize_checked hnormal]
    rfl

/-- The shadows of two points on an oblique plane, one of which lies on it, under light that comes
in at a slant. -/
theorem shadow_on_oblique_plane :
    let plane : Plane ℝ := ⟨⟨2, -1, 2⟩, 6⟩
    let light : Vec3 ℝ := ⟨1, 1, -2⟩
    let m := shadow light plane
    let r := m.transform ⟨1, 1, 1, 1⟩
    let r' := m.transform ⟨-3, 0, 0, 1⟩
    plane.dotNormal light ≠ 0 ∧ lengthSquared plane.normal ≠ 0 ∧
      plane.dotCoordinate ⟨-3, 0, 0⟩ = 0 ∧
      r.xyz / r.w = ⟨4, 4, -5⟩ ∧ r'.xyz / r'.w = ⟨-3, 0, 0⟩ ∧
      shadow (checked light) (checked plane) = checked m := by
  intro plane light m r r'
  have hlight : plane.dotNormal light ≠ 0 := by
    norm_num [plane, light, Plane.dotNormal, Vec3.dot_eq]
  have hnormal : lengthSquared plane.normal ≠ 0 := by
    norm_num [plane, lengthSquared, Vec3.dot_eq]
  have honPlane : plane.dotCoordinate ⟨-3, 0, 0⟩ = 0 := by
    norm_num [plane, Plane.dotCoordinate, Vec3.dot_eq]
  have hcast : IsShadow plane light ⟨1, 1, 1⟩ ⟨4, 4, -5⟩ := by
    refine ⟨?_, 3, ?_⟩
    · norm_num [plane, Plane.dotCoordinate, Vec3.dot_eq]
    · norm_num [light, Vec3.mulLeft_eq, Vec3.add_eq]
  obtain ⟨hpoint, -, hchecked⟩ := shadows_fall_on_plane light plane
  obtain ⟨-, -, hshadow, -⟩ := hpoint hlight ⟨1, 1, 1⟩
  obtain ⟨-, -, -, hfixed⟩ := hpoint hlight ⟨-3, 0, 0⟩
  exact ⟨hlight, hnormal, honPlane, ((hshadow _).mp hcast).symm, hfixed honPlane,
    hchecked hnormal⟩

end Matrix4

end Spatial
