import Mathlib
import Spatial.Number.Binary
import Spatial.Projection
import Spatial.Proofs.Decomposition

/-!
# What a decomposition accepts

A decomposition is refused for one number: the residual of the directions of the
three upper rows, which measures how far they are from a frame.  The fourth elements
of the rows take no part in it, so a matrix with a projection is treated as the affine
map with the same other elements.

What is put together from a scaling, a rotation and a translation is affine.  A
matrix with a projection that is accepted is therefore never the one that comes
back, and the perspective projections themselves are accepted.
-/

namespace Spatial

namespace Matrix4

section Residual

variable {α : Type} [Scalar α]

/-- The squared difference from one of the determinant of the directions of the upper
rows, turned to a right-handed frame. -/
def residual (m : Matrix4 α) : α :=
  let det := (ofRows (unitRows m.axes (Components.map Components.length m.axes))).determinant
  let det := if det < 0 then -det else det
  (det - 1) * (det - 1)

/-- A matrix whose residual is above the tolerance is refused with that residual. -/
theorem decompose_of_residual {m : Matrix4 α} (h : m.residual > degenerate) :
    m.decompose = .error (.notDecomposable m.residual) := by
  have hparts : m.decomposeParts.2.1 = .error m.residual := if_pos h
  rw [decompose]
  split
  next hok => rw [hok] at hparts; cases hparts
  next herror => rw [herror] at hparts; cases hparts; rfl

/-- Any other matrix is accepted. -/
theorem decompose_of_not_residual {m : Matrix4 α} (h : ¬m.residual > degenerate) :
    ∃ d, m.decompose = .ok d := by
  have hparts : ∃ rotation, m.decomposeParts.2.1 = .ok rotation := ⟨_, if_neg h⟩
  obtain ⟨rotation, hparts⟩ := hparts
  rw [decompose]
  split
  next => exact ⟨_, rfl⟩
  next herror => rw [herror] at hparts; cases hparts

/-- A decomposition is refused exactly for a residual above the bound, and with it. -/
theorem decompose_eq_error_iff (m : Matrix4 α) (failure : Failure α) :
    m.decompose = .error failure ↔
      m.residual > degenerate ∧ failure = .notDecomposable m.residual := by
  by_cases h : m.residual > degenerate
  · rw [decompose_of_residual h]
    simp [h, eq_comm]
  · obtain ⟨d, hd⟩ := decompose_of_not_residual h
    simp [h, hd]

/-- The same matrix with another fourth column. -/
def withFourthColumn {β : Type} (m : Matrix4 β) (c : Vec4 β) : Matrix4 β :=
  ⟨m.r1.xyz.extend c.x, m.r2.xyz.extend c.y, m.r3.xyz.extend c.z, m.r4.xyz.extend c.w⟩

/-- The fourth column takes no part in a decomposition. -/
theorem decompose_withFourthColumn (m : Matrix4 α) (c : Vec4 α) :
    (m.withFourthColumn c).decompose = m.decompose := rfl

end Residual

end Matrix4

namespace Decomposition

/-- A scaling, a rotation and a translation make an affine map. -/
theorem recompose_isAffine {K : Type} [ExactScalar K] (d : Decomposition K) :
    d.recompose.IsAffine := by
  simp only [Matrix4.IsAffine, recompose, Matrix4.transpose, Matrix4.mul_rows,
    Matrix4.transform_eq, Matrix4.scale, Matrix4.scaleAbout, Matrix4.ofQuaternion,
    Matrix4.translation, Matrix4.ofBasis, Vec3.extend]
  ext <;> ring

/-- A matrix with a projection is not put together again. -/
theorem recompose_ne {K : Type} [ExactScalar K] {m : Matrix4 K} (hm : ¬m.IsAffine)
    (d : Decomposition K) : d.recompose ≠ m := by
  rintro rfl
  exact hm d.recompose_isAffine

end Decomposition

namespace Matrix4

/-- **A projection goes unnoticed.**  A matrix is refused exactly if the residual of its
upper rows is above the bound, and accepted otherwise, whatever its fourth column is. -/
theorem decompose_disregards_projection (m : Matrix4 Float32) :
    (m.decompose = .error (.notDecomposable m.residual) ↔ m.residual > degenerate) ∧
    ((∃ d, m.decompose = .ok d) ↔ ¬m.residual > degenerate) ∧
    ∀ c : Vec4 Float32, (m.withFourthColumn c).residual = m.residual ∧
      (m.withFourthColumn c).decompose = m.decompose := by
  refine ⟨?_, ⟨?_, decompose_of_not_residual⟩, ?_⟩
  · rw [decompose_eq_error_iff]
    exact and_iff_left rfl
  · rintro ⟨d, hok⟩ hresidual
    rw [decompose_of_residual hresidual] at hok
    cases hok
  · intro c
    exact ⟨rfl, decompose_withFourthColumn m c⟩

/-- A perspective projection is decomposed, with no sign of its projection. -/
theorem perspective_accepted :
    (perspective 2 2 1 2 : Except (Failure Float32) (Matrix4 Float32)) =
        .ok ⟨⟨1, 0, 0, 0⟩, ⟨0, 1, 0, 0⟩, ⟨0, 0, -2, -1⟩, ⟨0, 0, -2, 0⟩⟩ ∧
      (⟨⟨1, 0, 0, 0⟩, ⟨0, 1, 0, 0⟩, ⟨0, 0, -2, -1⟩, ⟨0, 0, -2, 0⟩⟩ : Matrix4 Float32).transpose.r4 ≠
        ⟨0, 0, 0, 1⟩ ∧
      (⟨⟨1, 0, 0, 0⟩, ⟨0, 1, 0, 0⟩, ⟨0, 0, -2, -1⟩, ⟨0, 0, -2, 0⟩⟩ : Matrix4 Float32).decompose =
        .ok ⟨⟨1, 1, -2⟩, ⟨0, -0, 0, 1⟩, ⟨0, 0, -2⟩⟩ := by
  decide +kernel

end Matrix4

end Spatial
