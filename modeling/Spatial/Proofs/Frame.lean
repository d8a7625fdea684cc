import Mathlib
import Spatial.Decomposition
import Spatial.Proofs.Inverse
import Spatial.Proofs.Length

/-!
# Frames

Three unit vectors at right angles to each other are a frame.  As the rows of a
matrix they are a frame exactly when the transpose is a right inverse of the
matrix; it is then a left inverse too, and the columns are a frame as well.

The determinant of a frame is one or minus one, and a frame of determinant one is
a rotation.  Turning one of the vectors around makes a frame of either kind into
one of the other.  Two unit vectors at a right angle are completed to a rotation by
their vector product.
-/

namespace Spatial

open Components (dot UnitLength)

namespace Vec3

section Along

variable {β : Type}

/-- What is set along an axis is found there. -/
theorem along_setAlong_self (v : Vec3 β) (i : Axis) (a : β) : (v.setAlong i a).along i = a := by
  cases i <;> rfl

/-- Setting one component leaves the others. -/
theorem along_setAlong_of_ne (v : Vec3 β) {i j : Axis} (h : j ≠ i) (a : β) :
    (v.setAlong i a).along j = v.along j := by
  cases i <;> cases j <;> first | rfl | exact absurd rfl h

/-- A function of the components is one of each. -/
theorem along_map {γ : Type} (f : β → γ) (v : Vec3 β) (i : Axis) :
    (Components.map f v).along i = f (v.along i) := by
  cases i <;> rfl

/-- A function of the components goes through setting one. -/
theorem map_setAlong {γ : Type} (f : β → γ) (v : Vec3 β) (i : Axis) (a : β) :
    (Components.map f (v.setAlong i a) : Vec3 γ) =
      (Components.map f v : Vec3 γ).setAlong i (f a) := by
  cases i <;> rfl

/-- Turning one component round commutes with a map that keeps negation. -/
theorem turn_map {γ : Type} [Neg β] [Neg γ] (f : β → γ) (hneg : ∀ b, f (-b) = -f b)
    (v : Vec3 β) (i : Axis) :
    (Components.map f v : Vec3 γ).setAlong i (-(Components.map f v : Vec3 γ).along i) =
      Components.map f (v.setAlong i (-v.along i)) := by
  rw [map_setAlong, along_map, hneg]

end Along

end Vec3

/-- Three unit vectors at right angles to each other. -/
structure IsFrame {K : Type} [ExactScalar K] (rows : Vec3 (Vec3 K)) : Prop where
  unit (i : Axis) : UnitLength (rows.along i)
  orthogonal {i j : Axis} (h : i ≠ j) : dot (rows.along i) (rows.along j) = 0

/-- Three unit vectors at right angles are a frame in whichever order they are
listed. -/
theorem IsFrame.of_cover {K : Type} [ExactScalar K] {rows : Vec3 (Vec3 K)} {a b c : Axis}
    (hcover : ∀ i, i = a ∨ i = b ∨ i = c) (ha : UnitLength (rows.along a))
    (hb : UnitLength (rows.along b)) (hc : UnitLength (rows.along c))
    (hab : dot (rows.along a) (rows.along b) = 0)
    (hac : dot (rows.along a) (rows.along c) = 0)
    (hbc : dot (rows.along b) (rows.along c) = 0) : IsFrame rows := by
  constructor
  · intro i
    rcases hcover i with rfl | rfl | rfl
    · exact ha
    · exact hb
    · exact hc
  · intro i j hij
    rcases hcover i with rfl | rfl | rfl <;> rcases hcover j with rfl | rfl | rfl
    all_goals first
      | exact absurd rfl hij
      | assumption
      | rw [Vec3.dot_comm]; assumption

namespace Matrix4

/-- The three upper rows without their fourth elements. -/
def axes {β : Type} (m : Matrix4 β) : Vec3 (Vec3 β) := ⟨m.r1.xyz, m.r2.xyz, m.r3.xyz⟩

/-- A rotation about the origin: the upper rows are a frame of determinant one,
and the fourth row and column are those of the identity. -/
structure IsRotation {K : Type} [ExactScalar K] (m : Matrix4 K) : Prop where
  frame : IsFrame m.axes
  determinant : m.determinant = 1
  linear : m = ofRows m.axes

section Frames

variable {K : Type} [ExactScalar K]

/-- A matrix of rows times its transpose holds the scalar products of the rows. -/
theorem ofRows_mul_transpose (rows : Vec3 (Vec3 K)) :
    ofRows rows * (ofRows rows).transpose =
      ofRows ⟨⟨dot rows.x rows.x, dot rows.x rows.y, dot rows.x rows.z⟩,
        ⟨dot rows.y rows.x, dot rows.y rows.y, dot rows.y rows.z⟩,
        ⟨dot rows.z rows.x, dot rows.z rows.y, dot rows.z rows.z⟩⟩ := by
  simp only [ofRows, ofBasis, Vec3.extend, mul_rows, transform_eq, transpose, Vec3.dot_eq,
    Vec3.zero, Components.splat]
  ext <;> ring

/-- The rows are a frame exactly when the transpose is a right inverse. -/
theorem isFrame_iff_mul_transpose (rows : Vec3 (Vec3 K)) :
    IsFrame rows ↔ ofRows rows * (ofRows rows).transpose = identity := by
  rw [ofRows_mul_transpose]
  constructor
  · intro h
    have hx : dot rows.x rows.x = 1 := h.unit .x
    have hy : dot rows.y rows.y = 1 := h.unit .y
    have hz : dot rows.z rows.z = 1 := h.unit .z
    have hxy : dot rows.x rows.y = 0 := h.orthogonal (i := .x) (j := .y) (by decide)
    have hxz : dot rows.x rows.z = 0 := h.orthogonal (i := .x) (j := .z) (by decide)
    have hyx : dot rows.y rows.x = 0 := h.orthogonal (i := .y) (j := .x) (by decide)
    have hyz : dot rows.y rows.z = 0 := h.orthogonal (i := .y) (j := .z) (by decide)
    have hzx : dot rows.z rows.x = 0 := h.orthogonal (i := .z) (j := .x) (by decide)
    have hzy : dot rows.z rows.y = 0 := h.orthogonal (i := .z) (j := .y) (by decide)
    rw [hx, hy, hz, hxy, hxz, hyx, hyz, hzx, hzy]
    rfl
  · intro h
    simp only [ofRows, ofBasis, Vec3.extend, identity, Matrix4.mk.injEq, Vec4.mk.injEq] at h
    obtain ⟨⟨hx, hxy, hxz, -⟩, ⟨hyx, hy, hyz, -⟩, ⟨hzx, hzy, hz, -⟩, -⟩ := h
    constructor
    · intro i
      cases i with
      | x => exact hx
      | y => exact hy
      | z => exact hz
    · intro i j hij
      cases i <;> cases j
      case x.y => exact hxy
      case x.z => exact hxz
      case y.x => exact hyx
      case y.z => exact hyz
      case z.x => exact hzx
      case z.y => exact hzy
      all_goals exact absurd rfl hij

variable {m : Matrix4 K}

/-- The transpose of a rotation is its inverse on the right. -/
theorem IsRotation.mul_transpose (h : m.IsRotation) : m * m.transpose = identity := by
  rw [h.linear]
  exact (isFrame_iff_mul_transpose m.axes).mp h.frame

/-- The inverse of a rotation is its transpose. -/
theorem IsRotation.inverse_eq (h : m.IsRotation) : m.inverse = m.transpose :=
  inverse_eq_of_mul h.mul_transpose

/-- The columns of a rotation are a frame as well. -/
theorem IsRotation.transpose_mul (h : m.IsRotation) : m.transpose * m = identity := by
  rw [← h.inverse_eq]
  exact (mul_inverse (by rw [h.determinant]; exact one_ne_zero)).2

/-- Each element of a rotation is its own cofactor. -/
theorem IsRotation.adjugate_eq (h : m.IsRotation) : m.adjugate = m.transpose := by
  rw [← h.inverse_eq]
  refine (inverse_eq_of_mul ?_).symm
  rw [mul_adjugate, h.determinant, mulLeft_rows]
  simp only [identity, Vec4.mulLeft_eq]
  ext <;> ring

/-- The inverse of a rotation is a rotation. -/
theorem IsRotation.transpose (h : m.IsRotation) : m.transpose.IsRotation := by
  have hlinear : m.transpose = ofRows m.transpose.axes := by
    rw [h.linear]
    rfl
  refine ⟨?_, ?_, hlinear⟩
  · rw [isFrame_iff_mul_transpose, ← hlinear]
    exact h.transpose_mul
  · rw [determinant_transpose, h.determinant]

/-- The axes of a rotation are right-handed. -/
theorem IsRotation.determinant_axes (h : m.IsRotation) :
    (ofRows m.axes).determinant = 1 := by
  rw [← h.linear]
  exact h.determinant

/-! A frame is right-handed or left-handed, and turning an axis around makes the
one into the other. -/

/-- A frame is right-handed or left-handed. -/
theorem determinant_frame {rows : Vec3 (Vec3 K)} (h : IsFrame rows) :
    (ofRows rows).determinant = 1 ∨ (ofRows rows).determinant = -1 := by
  apply mul_self_eq_one_iff.mp
  calc (ofRows rows).determinant * (ofRows rows).determinant
      = (ofRows rows * (ofRows rows).transpose).determinant := by
        rw [determinant_mul, determinant_transpose]
    _ = 1 := by rw [(isFrame_iff_mul_transpose rows).mp h, determinant_identity]

/-- Turning one direction round changes the hand. -/
theorem determinant_turn (rows : Vec3 (Vec3 K)) (i : Axis) :
    (ofRows (rows.setAlong i (-rows.along i))).determinant = -(ofRows rows).determinant := by
  cases i <;>
    simp only [Vec3.setAlong, Vec3.along, Vec3.neg_eq, ofRows, ofBasis, Vec3.extend,
      determinant_eq] <;>
    ring

/-- Turning one direction round keeps a frame. -/
theorem isFrame_turn {rows : Vec3 (Vec3 K)} (h : IsFrame rows) (i : Axis) :
    IsFrame (rows.setAlong i (-rows.along i)) := by
  have hneg (u v : Vec3 K) : dot (-u) v = -dot u v := by
    simp only [Vec3.neg_eq, Vec3.dot_eq]
    ring
  have hself : (rows.setAlong i (-rows.along i)).along i = -rows.along i :=
    Vec3.along_setAlong_self _ _ _
  have hother {j : Axis} (hj : j ≠ i) :
      (rows.setAlong i (-rows.along i)).along j = rows.along j :=
    Vec3.along_setAlong_of_ne _ hj _
  constructor
  · intro j
    by_cases hj : j = i
    · subst hj
      rw [hself]
      calc dot (-rows.along j) (-rows.along j)
          = dot (rows.along j) (rows.along j) := by
            rw [hneg, Vec3.dot_comm, hneg, neg_neg]
        _ = 1 := h.unit j
    · rw [hother hj]
      exact h.unit j
  · intro j k hjk
    by_cases hj : j = i
    · subst hj
      rw [hself, hother hjk.symm, hneg, h.orthogonal hjk, neg_zero]
    · by_cases hk : k = i
      · subst hk
        rw [hself, hother hj, Vec3.dot_comm, hneg, h.orthogonal hjk.symm, neg_zero]
      · rw [hother hj, hother hk]
        exact h.orthogonal hjk

/-- A right-handed frame makes a rotation. -/
theorem isRotation_ofRows {frame : Vec3 (Vec3 K)} (h : IsFrame frame)
    (hdet : (ofRows frame).determinant = 1) : (ofRows frame).IsRotation :=
  ⟨h, hdet, rfl⟩

/-- The determinant of three rows is a triple product. -/
theorem determinant_ofRows (rows : Vec3 (Vec3 K)) :
    (ofRows rows).determinant = dot rows.y (rows.z.cross rows.x) := by
  simp only [ofRows, ofBasis, Vec3.extend, Vec3.zero, Components.splat, determinant_eq,
    Vec3.dot_eq, Vec3.cross]
  ring

/-- Two unit vectors at a right angle and their vector product are the rows of a
rotation. -/
theorem isRotation_of_cross {x z : Vec3 K} (hx : UnitLength x) (hz : UnitLength z)
    (hxz : dot z x = 0) : (ofRows ⟨x, z.cross x, z⟩).IsRotation := by
  have hy : UnitLength (z.cross x) := by
    rw [UnitLength, Vec3.lengthSquared_cross, hx, hz, hxz]
    ring
  refine isRotation_ofRows ?_ ?_
  · refine IsFrame.of_cover (a := .z) (b := .x) (c := .y) ?_ hz hx hy hxz
      (Vec3.dot_cross_left z x) (Vec3.dot_cross_right z x)
    intro i
    cases i <;> decide
  · rw [determinant_ofRows]
    exact hy

end Frames

end Matrix4

end Spatial
