import Mathlib
import Spatial.Proofs.Collineation
import Spatial.Proofs.Composition

/-!
# Planes through three points

The sides that leave one of three points have a vector product, the winding of the points.  It is
zero exactly if the points lie on a line.  From each of the points it comes out the same, and the
opposite when two of them are exchanged.

A plane is known by its normal and any of its points.  The winding is at a right angle to every
side, so each of the three points is on the plane through the first with the winding for its
normal.  The offset may therefore be taken from any of them, and the plane has the symmetries of
its normal.

An affine map moves directions by its upper rows and normals by the inverse of these transposed,
which keeps the pairing of the two.  The vector product of two directions moves as a normal does,
but for the determinant.  So the winding of the images is the image of the winding times the
determinant: divided by its length, it keeps the sign of the determinant and nothing else.
-/

namespace Spatial

open Components (dot length lengthSquared normalize mulLeft divRight neg UnitLength checked)

/-! ## Windings -/

namespace Vec3

/-- A point is on the line through an origin along a direction. -/
def OnLine {K : Type} [ExactScalar K] (origin direction p : Vec3 K) : Prop :=
  ∃ t : K, p = origin + t * direction

/-- Three points are on one line. -/
def Collinear {K : Type} [ExactScalar K] (p₁ p₂ p₃ : Vec3 K) : Prop :=
  ∃ origin direction : Vec3 K,
    OnLine origin direction p₁ ∧ OnLine origin direction p₂ ∧ OnLine origin direction p₃

/-- The vector product of the sides that leave the first of three points. -/
def winding {α : Type} [Scalar α] (p₁ p₂ p₃ : Vec3 α) : Vec3 α := (p₂ - p₁).cross (p₃ - p₁)

section Products

variable {K : Type} [ExactScalar K]

/-- Starting at the next vertex keeps the winding. -/
theorem winding_rotate (p₁ p₂ p₃ : Vec3 K) : winding p₂ p₃ p₁ = winding p₁ p₂ p₃ := by
  simp only [winding, cross, sub_eq]
  ext <;> ring

/-- Exchanging two vertices turns the winding round. -/
theorem winding_swap (p₁ p₂ p₃ : Vec3 K) : winding p₂ p₁ p₃ = -winding p₁ p₂ p₃ := by
  simp only [winding, cross, sub_eq, neg_eq]
  ext <;> ring

theorem dot_sub_right (u v w : Vec3 K) : dot u (v - w) = dot u v - dot u w := by
  simp only [dot_eq, sub_eq]
  ring

/-- Three points of a line have no winding. -/
theorem winding_of_line (origin direction : Vec3 K) (t₁ t₂ t₃ : K) :
    winding (origin + t₁ * direction) (origin + t₂ * direction) (origin + t₃ * direction) =
      zero := by
  simp only [winding, cross, sub_eq, add_eq, mulLeft_eq, zero, Components.splat]
  ext <;> ring

/-- A line goes through its origin. -/
theorem onLine_origin (origin direction : Vec3 K) : OnLine origin direction origin := by
  refine ⟨0, ?_⟩
  simp only [add_eq, mulLeft_eq, zero_mul, add_zero]

/-- A line through two points. -/
theorem onLine_sub (origin p : Vec3 K) : OnLine origin (p - origin) p := by
  refine ⟨1, ?_⟩
  simp only [add_eq, mulLeft_eq, sub_eq, one_mul, add_sub_cancel]

theorem onLine_of_sub_eq {origin direction p : Vec3 K} {t : K}
    (h : p - origin = t * direction) : OnLine origin direction p := by
  refine ⟨t, ?_⟩
  rw [← h]
  simp only [add_eq, sub_eq, add_sub_cancel]

end Products

/-- Points without a winding are those of a line. -/
theorem collinear_iff (p₁ p₂ p₃ : Vec3 ℝ) : Collinear p₁ p₂ p₃ ↔ winding p₁ p₂ p₃ = zero := by
  constructor
  · rintro ⟨origin, direction, ⟨t₁, rfl⟩, ⟨t₂, rfl⟩, ⟨t₃, rfl⟩⟩
    exact winding_of_line origin direction t₁ t₂ t₃
  · intro hzero
    by_cases hlast : p₃ = p₁
    · rw [hlast]
      exact ⟨p₁, p₂ - p₁, onLine_origin _ _, onLine_sub _ _, onLine_origin _ _⟩
    · -- The first side is a multiple of the other, which spans the line.
      have hmultiple := eq_mulLeft_of_cross (sub_ne_zero hlast) hzero
      exact ⟨p₁, p₃ - p₁, onLine_origin _ _, onLine_of_sub_eq hmultiple, onLine_sub _ _⟩

/-- The direction of a multiple keeps the sign of the factor. -/
theorem normalize_mulLeft {s : ℝ} (hs : s ≠ 0) (v : Vec3 ℝ) :
    normalize (s * v) = (SignType.sign s : ℝ) * normalize v := by
  have hsign : s / |s| = SignType.sign s := by
    rw [div_eq_iff (abs_ne_zero.mpr hs), sign_mul_abs]
  rw [normalize_eq, normalize_eq, length_mulLeft_abs, ← hsign]
  simp only [mulLeft_eq, divRight_eq, div_mul_div_comm]

theorem normalize_neg (v : Vec3 ℝ) : normalize (-v) = -normalize v := by
  have hlength : length (-v) = length v := by
    refine congrArg Real.sqrt ?_
    simp only [lengthSquared, dot_eq, neg_eq, neg_mul_neg]
  rw [normalize_eq, normalize_eq, hlength]
  simp only [neg_eq, divRight_eq, neg_div]

/-- A multiple of a vector is not zero unless one of both is. -/
theorem mulLeft_ne_zero {s : ℝ} (hs : s ≠ 0) {v : Vec3 ℝ} (hv : v ≠ zero) : s * v ≠ zero := by
  intro hzero
  obtain ⟨hx, hy, hz⟩ := Vec3.mk.inj hzero
  exact hv (Vec3.ext ((mul_eq_zero_iff_left hs).mp hx) ((mul_eq_zero_iff_left hs).mp hy)
    ((mul_eq_zero_iff_left hs).mp hz))

end Vec3

/-! ## Affine maps -/

namespace Matrix4

section Affine

variable {K : Type} [ExactScalar K]

/-- The image of a normal: that of a direction under the transposed inverse. -/
def transformNormal (m : Matrix4 K) (n : Vec3 K) : Vec3 K :=
  m.inverse.transpose.transformDirection n

/-- A difference of images is the image of the difference as a direction. -/
theorem transformPoint_sub (m : Matrix4 K) (p q : Vec3 K) :
    m.transformPoint q - m.transformPoint p = m.transformDirection (q - p) := by
  simp only [transformPoint, transformDirection, Vec3.add_eq, Vec3.sub_eq, Vec3.mulLeft_eq]
  ext <;> ring

theorem transformNormal_mulLeft (m : Matrix4 K) (s : K) (n : Vec3 K) :
    m.transformNormal (s * n) = s * m.transformNormal n := by
  simp only [transformNormal, transformDirection, Vec3.add_eq, Vec3.mulLeft_eq]
  ext <;> ring

/-- Inversion divides by the determinant once, whatever the direction. -/
theorem determinant_mulLeft_transformNormal {m : Matrix4 K} (hdet : m.determinant ≠ 0)
    (n : Vec3 K) :
    m.determinant * m.transformNormal n = m.adjugate.transpose.transformDirection n := by
  have hinverse : m.inverse = m.adjugate * (1 / m.determinant) := by
    simp only [inverse, invertInto, invert_eq_ok hdet]
  rw [transformNormal, hinverse]
  simp only [transformDirection, transpose, mulRight_rows, Vec4.xyz, Vec4.mulRight_eq,
    Vec3.mulLeft_eq, Vec3.add_eq]
  ext <;> field_simp

variable {m : Matrix4 K} (haffine : m.IsAffine)
include haffine

/-- A point keeps the fourth component of one. -/
theorem IsAffine.transform_extend_one (v : Vec3 K) :
    m.transform (v.extend 1) = (m.transformPoint v).extend 1 := by
  obtain ⟨h₁, h₂, h₃, h₄⟩ := Vec4.mk.inj haffine
  simp only [transform_eq, transformPoint, Vec3.extend, Vec4.xyz, Vec3.add_eq, Vec3.mulLeft_eq,
    h₁, h₂, h₃, h₄, mul_zero, add_zero, zero_add, one_mul]

/-- A direction keeps the fourth component of zero. -/
theorem IsAffine.transform_extend_zero (v : Vec3 K) :
    m.transform (v.extend 0) = (m.transformDirection v).extend 0 := by
  obtain ⟨h₁, h₂, h₃, -⟩ := Vec4.mk.inj haffine
  simp only [transform_eq, transformDirection, Vec3.extend, Vec4.xyz, Vec3.add_eq,
    Vec3.mulLeft_eq, h₁, h₂, h₃, mul_zero, add_zero, zero_mul]

variable (hdet : m.determinant ≠ 0)
include hdet

/-- The inverse of an affine map is affine: its transpose undoes that of the map, which leaves the
fourth axis where it is. -/
theorem IsAffine.inverse : m.inverse.IsAffine := by
  have hproduct : m.transpose * m.inverse.transpose = identity := by
    rw [← transpose_mul, (mul_inverse hdet).2]
    rfl
  have hrow : m.inverse.transpose.transform m.transpose.r4 = identity.r4 :=
    congrArg Matrix4.r4 hproduct
  rw [haffine] at hrow
  simp only [transform_eq, zero_mul, one_mul, zero_add] at hrow
  exact hrow

/-- The vector product of two images is the image of the vector product as a normal, times the
determinant. -/
theorem IsAffine.cross_transformDirection (u v : Vec3 K) :
    (m.transformDirection u).cross (m.transformDirection v) =
      m.determinant * m.transformNormal (u.cross v) := by
  rw [determinant_mulLeft_transformNormal hdet]
  obtain ⟨⟨a, b, c, d⟩, ⟨e, f, g, h⟩, ⟨i, j, k, l⟩, ⟨x, y, z, w⟩⟩ := m
  obtain ⟨rfl, rfl, rfl, rfl⟩ := Vec4.mk.inj haffine
  simp only [transformDirection, adjugate, transpose, Vec4.xyz, Vec3.cross, Vec3.mulLeft_eq,
    Vec3.add_eq]
  ext <;> ring

end Affine

end Matrix4

namespace Vec3

/-- An affine map takes the winding to that of the images, by its determinant. -/
theorem winding_transformPoint {K : Type} [ExactScalar K] {m : Matrix4 K} (haffine : m.IsAffine)
    (hdet : m.determinant ≠ 0) (p₁ p₂ p₃ : Vec3 K) :
    winding (m.transformPoint p₁) (m.transformPoint p₂) (m.transformPoint p₃) =
      m.determinant * m.transformNormal (winding p₁ p₂ p₃) := by
  rw [winding, Matrix4.transformPoint_sub, Matrix4.transformPoint_sub,
    haffine.cross_transformDirection hdet]
  rfl

end Vec3

namespace Plane

open Vec3 (Collinear winding)

/-! ## Planes by a point and a normal -/

/-- The plane through a point with a given normal. -/
def through {α : Type} [Scalar α] (normal p : Vec3 α) : Plane α :=
  ⟨normal, -Components.dot normal p⟩

/-- The plane of three points goes through the first, across their winding. -/
theorem ofVertices_eq {α : Type} [Scalar α] (p₁ p₂ p₃ : Vec3 α) :
    ofVertices p₁ p₂ p₃ = through (Components.normalize (winding p₁ p₂ p₃)) p₁ := rfl

section Exact

variable {K : Type} [ExactScalar K]

/-- The distance from a plane through a point is along its normal. -/
theorem dotCoordinate_through (n p v : Vec3 K) :
    (through n p).dotCoordinate v = Components.dot n (v - p) := by
  rw [Vec3.dot_sub_right, sub_eq_add_neg]
  rfl

/-- A plane goes through each of its points. -/
theorem eq_through {plane : Plane K} {v : Vec3 K} (h : plane.dotCoordinate v = 0) :
    plane = through plane.normal v :=
  Plane.ext rfl (eq_neg_of_add_eq_zero_right h)

theorem mulLeft_through (s : K) (n p : Vec3 K) : mulLeft s (through n p) = through (s * n) p := by
  simp only [through, mulLeft, Components.map, Vec3.dot_eq, Vec3.mulLeft_eq, Plane.mk.injEq,
    true_and]
  ring

theorem divRight_through (n p : Vec3 K) (s : K) : divRight (through n p) s = through (n / s) p := by
  simp only [through, divRight, Components.map, Vec3.dot_eq, Vec3.divRight_eq, Plane.mk.injEq,
    true_and]
  ring

theorem neg_through (n p : Vec3 K) : neg (through n p) = through (-n) p := by
  simp only [through, neg, Components.map, Vec3.dot_eq, Vec3.neg_eq, Plane.mk.injEq, true_and]
  ring

/-! ## Planes under affine maps -/

variable {m : Matrix4 K} (haffine : m.IsAffine) (hdet : m.determinant ≠ 0)
include haffine hdet

/-- The image of a point is as far from the image of the plane. -/
theorem dotCoordinate_transform (plane : Plane K) (v : Vec3 K) :
    (plane.transform m).dotCoordinate (m.transformPoint v) = plane.dotCoordinate v := by
  rw [← dot_homogeneous, ← haffine.transform_extend_one, dot_transform _ hdet, dot_homogeneous]

/-- The same of directions. -/
theorem dotNormal_transform (plane : Plane K) (v : Vec3 K) :
    (plane.transform m).dotNormal (m.transformDirection v) = plane.dotNormal v := by
  rw [← dot_extend_zero, ← haffine.transform_extend_zero, dot_transform _ hdet, dot_extend_zero]

/-- The offset has no part in the image of the normal. -/
theorem normal_transform (plane : Plane K) :
    (plane.transform m).normal = m.transformNormal plane.normal := by
  have hrow : m.inverse.transpose.r4 = ⟨0, 0, 0, 1⟩ := haffine.inverse hdet
  have hnormal :
      (plane.transform m).normal = (m.inverse.transpose.transform plane.toVec4).xyz := rfl
  rw [hnormal, Matrix4.transformNormal]
  simp only [Matrix4.transform, Matrix4.transformDirection, hrow, Vec4.xyz, Vec4.mulLeft_eq,
    Vec4.add_eq, Vec3.mulLeft_eq, Vec3.add_eq, toVec4, Vec3.extend, mul_zero, add_zero]

/-- An affine map moves the plane through a point to a plane through the image. -/
theorem through_transform (n p : Vec3 K) :
    (through n p).transform m = through (m.transformNormal n) (m.transformPoint p) := by
  have honPlane : ((through n p).transform m).dotCoordinate (m.transformPoint p) = 0 := by
    rw [dotCoordinate_transform haffine hdet, dotCoordinate_through, Vec3.dot_sub_right, sub_self]
  rw [eq_through honPlane, normal_transform haffine hdet]
  rfl

end Exact

section Normals

/-- The direction of an image does not depend on the length of the normal. -/
theorem normalize_transformNormal (m : Matrix4 ℝ) {n : Vec3 ℝ} (hn : 0 < length n) :
    Components.normalize (m.transformNormal (Components.normalize n)) =
      Components.normalize (m.transformNormal n) := by
  symm
  calc Components.normalize (m.transformNormal n)
      = Components.normalize (length n * m.transformNormal (Components.normalize n)) := by
        rw [← Matrix4.transformNormal_mulLeft, Vec3.length_mulLeft_normalize hn]
    _ = (SignType.sign (length n) : ℝ) *
          Components.normalize (m.transformNormal (Components.normalize n)) :=
        Vec3.normalize_mulLeft hn.ne' _
    _ = Components.normalize (m.transformNormal (Components.normalize n)) := by
        rw [sign_pos hn]
        simp only [SignType.coe_one, Vec3.mulLeft_eq, one_mul]

/-- An invertible map leaves no normal without a direction, since it keeps the pairing of the
normal with itself. -/
theorem transformNormal_ne_zero {m : Matrix4 ℝ} (haffine : m.IsAffine) (hdet : m.determinant ≠ 0)
    {n : Vec3 ℝ} (hn : n ≠ Vec3.zero) : m.transformNormal n ≠ Vec3.zero := by
  intro hzero
  have hpairing := dotNormal_transform haffine hdet ⟨n, 0⟩ n
  have hself : Plane.dotNormal ⟨n, 0⟩ n = lengthSquared n := rfl
  rw [Plane.dotNormal, normal_transform haffine hdet, hzero, hself] at hpairing
  apply hn
  rw [← Vec3.lengthSquared_eq_zero_iff, ← hpairing]
  simp only [Vec3.dot_eq, Vec3.zero, Components.splat, zero_mul, add_zero]

end Normals

/-! ## Planes through three points -/

section Vertices

variable (p₁ p₂ p₃ : Vec3 ℝ)

/-- The winding is at a right angle to the sides, so the plane through one point with that normal
goes through the other two. -/
theorem dotCoordinate_ofVertices :
    (ofVertices p₁ p₂ p₃).dotCoordinate p₁ = 0 ∧ (ofVertices p₁ p₂ p₃).dotCoordinate p₂ = 0 ∧
      (ofVertices p₁ p₂ p₃).dotCoordinate p₃ = 0 := by
  simp only [ofVertices_eq, dotCoordinate_through]
  refine ⟨?_, ?_, ?_⟩
  · rw [Vec3.dot_sub_right, sub_self]
  · rw [Vec3.dot_comm]
    exact Vec3.dot_normalize (Vec3.dot_cross_left _ _)
  · rw [Vec3.dot_comm]
    exact Vec3.dot_normalize (Vec3.dot_cross_right _ _)

/-- The offset may be taken from the second point as well as from the first. -/
theorem ofVertices_eq_second :
    ofVertices p₁ p₂ p₃ = through (Components.normalize (winding p₁ p₂ p₃)) p₂ :=
  eq_through (dotCoordinate_ofVertices p₁ p₂ p₃).2.1

/-- Starting at the next vertex keeps the plane. -/
theorem ofVertices_rotate : ofVertices p₂ p₃ p₁ = ofVertices p₁ p₂ p₃ := by
  rw [ofVertices_eq_second p₁, ofVertices_eq, Vec3.winding_rotate]

/-- Exchanging two vertices turns the plane round. -/
theorem ofVertices_swap : ofVertices p₂ p₁ p₃ = neg (ofVertices p₁ p₂ p₃) := by
  rw [ofVertices_eq_second p₁, ofVertices_eq, Vec3.winding_swap, Vec3.normalize_neg, neg_through]

variable {p₁ p₂ p₃} (h : ¬Collinear p₁ p₂ p₃)
include h

/-- Points that are not on a line have a winding. -/
theorem length_winding_pos : 0 < length (winding p₁ p₂ p₃) :=
  Vec3.length_pos (mt (Vec3.collinear_iff p₁ p₂ p₃).mpr h)

/-- Points that are not on a line have a plane without a division by zero. -/
theorem ofVertices_checked :
    ofVertices (checked p₁) (checked p₂) (checked p₃) = checked (ofVertices p₁ p₂ p₃) := by
  have hwinding : winding (checked p₁) (checked p₂) (checked p₃) = checked (winding p₁ p₂ p₃) := rfl
  rw [ofVertices_eq, hwinding, Vec3.normalize_checked (length_winding_pos h)]
  rfl

variable {m : Matrix4 ℝ} (haffine : m.IsAffine) (hdet : m.determinant ≠ 0)
include haffine hdet

/-- The images of points that are not on a line are not on a line. -/
theorem not_collinear_transformPoint :
    ¬Collinear (m.transformPoint p₁) (m.transformPoint p₂) (m.transformPoint p₃) := by
  rw [Vec3.collinear_iff] at h ⊢
  rw [Vec3.winding_transformPoint haffine hdet]
  exact Vec3.mulLeft_ne_zero hdet (transformNormal_ne_zero haffine hdet h)

/-- The plane through the images is the image of the plane, but for the length of the normal and
the sign of the determinant. -/
theorem ofVertices_transformPoint :
    ofVertices (m.transformPoint p₁) (m.transformPoint p₂) (m.transformPoint p₃) =
      mulLeft (SignType.sign m.determinant : ℝ)
        (divRight ((ofVertices p₁ p₂ p₃).transform m)
          (length ((ofVertices p₁ p₂ p₃).transform m).normal)) := by
  have himage : (ofVertices p₁ p₂ p₃).transform m =
      through (m.transformNormal (Components.normalize (winding p₁ p₂ p₃)))
        (m.transformPoint p₁) := by
    rw [ofVertices_eq, through_transform haffine hdet]
  calc ofVertices (m.transformPoint p₁) (m.transformPoint p₂) (m.transformPoint p₃)
      = through (Components.normalize (m.determinant * m.transformNormal (winding p₁ p₂ p₃)))
          (m.transformPoint p₁) := by
        rw [ofVertices_eq, Vec3.winding_transformPoint haffine hdet]
    _ = mulLeft (SignType.sign m.determinant : ℝ)
          (through (Components.normalize (m.transformNormal (winding p₁ p₂ p₃)))
            (m.transformPoint p₁)) := by
        rw [Vec3.normalize_mulLeft hdet, mulLeft_through]
    _ = _ := by
        rw [himage, divRight_through, ← normalize_transformNormal m (length_winding_pos h)]
        rfl

end Vertices

/-- **Planes through three points.**  Let three points not be on one line.  The plane through them
has a unit normal and contains each of them; it is the same when the points are taken in turn, and
the opposite when two of them are exchanged.  An invertible affine map takes them to points that
are not on one line either, and the plane through these is the image of the plane, divided by the
length of its normal, with the sign of the determinant.  No division is by zero. -/
theorem vertices_determine_plane {p₁ p₂ p₃ : Vec3 ℝ} (h : ¬Collinear p₁ p₂ p₃) :
    let p := ofVertices p₁ p₂ p₃
    UnitLength p.normal ∧
    (p.dotCoordinate p₁ = 0 ∧ p.dotCoordinate p₂ = 0 ∧ p.dotCoordinate p₃ = 0) ∧
    (ofVertices p₂ p₃ p₁ = p ∧ ofVertices p₃ p₁ p₂ = p) ∧
    (ofVertices p₂ p₁ p₃ = neg p ∧ ofVertices p₁ p₃ p₂ = neg p ∧ ofVertices p₃ p₂ p₁ = neg p) ∧
    (∀ m : Matrix4 ℝ, m.IsAffine → m.determinant ≠ 0 →
      let q := p.transform m
      ¬Collinear (m.transformPoint p₁) (m.transformPoint p₂) (m.transformPoint p₃) ∧
      0 < length q.normal ∧
      ofVertices (m.transformPoint p₁) (m.transformPoint p₂) (m.transformPoint p₃) =
        mulLeft (SignType.sign m.determinant : ℝ) (divRight q (length q.normal))) ∧
    ofVertices (checked p₁) (checked p₂) (checked p₃) = checked p := by
  intro p
  have hunit : UnitLength p.normal := Vec3.unitLength_normalize (length_winding_pos h)
  refine ⟨hunit, dotCoordinate_ofVertices p₁ p₂ p₃, ⟨ofVertices_rotate p₁ p₂ p₃, ?_⟩,
    ⟨ofVertices_swap p₁ p₂ p₃, ?_, ?_⟩, ?_, ofVertices_checked h⟩
  · rw [ofVertices_rotate p₂ p₃ p₁, ofVertices_rotate p₁ p₂ p₃]
  · rw [ofVertices_rotate p₂ p₁ p₃]
    exact ofVertices_swap p₁ p₂ p₃
  · rw [← ofVertices_rotate p₃ p₂ p₁]
    exact ofVertices_swap p₁ p₂ p₃
  · intro m haffine hdet q
    refine ⟨not_collinear_transformPoint h haffine hdet, Vec3.length_pos ?_,
      ofVertices_transformPoint h haffine hdet⟩
    rw [normal_transform haffine hdet]
    exact transformNormal_ne_zero haffine hdet (Vec3.ne_zero_of_unitLength hunit)

/-- Three points on an oblique plane, and their images under a map that turns space over, stretches
it differently along the axes and moves it. -/
theorem vertices_turned_over :
    let p₁ : Vec3 ℝ := ⟨1, 1, 1⟩
    let p₂ : Vec3 ℝ := ⟨1, 2, 0⟩
    let p₃ : Vec3 ℝ := ⟨3, 0, 1⟩
    let m : Matrix4 ℝ := ⟨⟨-1, 0, 0, 0⟩, ⟨0, 4, 0, 0⟩, ⟨0, 0, 2, 0⟩, ⟨3, -1, 2, 1⟩⟩
    let p := ofVertices p₁ p₂ p₃
    let q := p.transform m
    ¬Collinear p₁ p₂ p₃ ∧ m.IsAffine ∧ m.determinant = -8 ∧
      p.dotCoordinate ⟨3, 0, 1⟩ = 0 ∧ ofVertices p₃ p₂ p₁ = neg p ∧
      ofVertices ⟨2, 3, 4⟩ ⟨2, 7, 2⟩ ⟨0, -1, 4⟩ = mulLeft (-1) (divRight q (length q.normal)) := by
  intro p₁ p₂ p₃ m p q
  have hwinding : winding p₁ p₂ p₃ = ⟨-1, -2, -2⟩ := by
    norm_num [p₁, p₂, p₃, winding, Vec3.cross, Vec3.sub_eq]
  have h : ¬Collinear p₁ p₂ p₃ := by
    rw [Vec3.collinear_iff, hwinding]
    norm_num [Vec3.zero, Components.splat]
  have haffine : m.IsAffine := rfl
  have hdet : m.determinant = -8 := by norm_num [m, Matrix4.determinant_eq]
  have hsign : (SignType.sign m.determinant : ℝ) = -1 := by
    rw [hdet, sign_neg (by norm_num)]
    rfl
  have himage₁ : m.transformPoint p₁ = ⟨2, 3, 4⟩ := by
    norm_num [m, p₁, Matrix4.transformPoint, Vec4.xyz, Vec3.mulLeft_eq, Vec3.add_eq]
  have himage₂ : m.transformPoint p₂ = ⟨2, 7, 2⟩ := by
    norm_num [m, p₂, Matrix4.transformPoint, Vec4.xyz, Vec3.mulLeft_eq, Vec3.add_eq]
  have himage₃ : m.transformPoint p₃ = ⟨0, -1, 4⟩ := by
    norm_num [m, p₃, Matrix4.transformPoint, Vec4.xyz, Vec3.mulLeft_eq, Vec3.add_eq]
  obtain ⟨-, ⟨-, -, hthird⟩, -, ⟨-, -, hexchanged⟩, hmaps, -⟩ := vertices_determine_plane h
  obtain ⟨-, -, hmoved⟩ := hmaps m haffine (by rw [hdet]; norm_num)
  rw [himage₁, himage₂, himage₃, hsign] at hmoved
  exact ⟨h, haffine, hdet, hthird, hexchanged, hmoved⟩

end Plane

end Spatial
