import Mathlib
import Spatial.Proofs.Acceptance
import Spatial.Proofs.Directions
import Spatial.Proofs.Binary.Undefined

/-!
# Undefined elements in a decomposition

A computation without a result gives what is no number, and every further operation
hands it on.  A comparison does not: it is false, and the branch for it is taken.

So nothing stops a decomposition of rows that are not finite.  The length of such a row
is infinite or no number, which is not too short.  Its direction then has an undefined
component, the determinant of the directions is undefined, and so is the residual: it is
not above the bound, and the matrix is accepted.  The rotation that comes back has an
undefined component.
-/

namespace Spatial

open Binary32 (IsUnbounded)
open Components (length normalize)
open Scalar (undefined)

theorem Binary32.IsUnbounded.not_lt_degenerate {x : Float32} (h : IsUnbounded x) :
    ¬x < Matrix4.degenerate := by
  intro hlt
  obtain ⟨hx, hbound, hrank⟩ := Binary32.lt_iff_rank.mp hlt
  exact h.not_le_of_isFinite (by decide +kernel) (Binary32.le_iff_rank.mpr ⟨hx, hbound, hrank.le⟩)

/-! Rows that are not finite. -/

namespace Vec3

/-- A vector that is not finite has a component that is not. -/
theorem exists_along_not_finite {v : Vec3 Float32} (h : Components.isFinite v = false) :
    ∃ i, (v.along i).isFinite = false := by
  by_contra hall
  have hfinite (i : Axis) : (v.along i).isFinite = true := by
    simpa using fun hi => hall ⟨i, hi⟩
  have hall' : Components.isFinite v = true := by
    simpa [Components.isFinite, Components.toList] using
      ⟨hfinite .x, hfinite .y, hfinite .z⟩
  exact absurd hall' (by simp [h])

/-- The length of a vector with a component that is not finite is without bound. -/
theorem isUnbounded_length {v : Vec3 Float32} {i : Axis} (h : (v.along i).isFinite = false) :
    IsUnbounded (length v) := by
  have hsquare := Binary32.isUnbounded_mul_self h
  apply IsUnbounded.sqrt
  show IsUnbounded (v.x * v.x + v.y * v.y + v.z * v.z)
  cases i with
  | x => exact .add (.inl (.add (.inl hsquare)))
  | y => exact .add (.inl (.add (.inr hsquare)))
  | z => exact .add (.inr hsquare)

/-- A direction has an undefined component for every one of the row that is not finite. -/
theorem normalize_along_undefined {v : Vec3 Float32} {i : Axis}
    (h : (v.along i).isFinite = false) : (normalize v).along i = undefined := by
  have hdiv : (normalize v).along i = v.along i / length v := along_map (· / length v) v i
  rw [hdiv]
  exact IsUnbounded.div h (isUnbounded_length h)

end Vec3

namespace Axis

/-- The axes come out each once. -/
theorem byLength_distinct {α : Type} [Scalar α] (lengths : Vec3 α) :
    ∃ a b c, byLength lengths = (a, b, c) ∧ a ≠ b ∧ a ≠ c ∧ b ≠ c := by
  refine ⟨(byLength lengths).1, (byLength lengths).2.1, (byLength lengths).2.2, rfl, ?_⟩
  unfold byLength
  split_ifs <;> decide

end Axis

namespace Matrix4

/-- A row that is not too short keeps its direction. -/
theorem unitRows_along {α : Type} [Scalar α] {rows : Vec3 (Vec3 α)} {lengths : Vec3 α} {i : Axis}
    (h : ¬lengths.along i < degenerate) :
    (unitRows rows lengths).along i = normalize (rows.along i) := by
  obtain ⟨a, b, c, hsort, hab, hac, hbc⟩ := Axis.byLength_distinct lengths
  rw [unitRows_eq rows lengths hsort]
  obtain rfl | rfl | rfl : i = a ∨ i = b ∨ i = c := by
    cases i <;> grind [Axis]
  · rw [Vec3.along_setAlong_of_ne _ hac, Vec3.along_setAlong_of_ne _ hab,
      Vec3.along_setAlong_self, firstDirection, firstRow, if_neg h]
  · rw [Vec3.along_setAlong_of_ne _ hbc, Vec3.along_setAlong_self, secondDirection, secondRow,
      if_neg h]
  · rw [Vec3.along_setAlong_self, thirdDirection, thirdRow, if_neg h]

/-- The directions of the upper rows have an undefined component if a row is not finite. -/
theorem exists_unitRows_undefined {m : Matrix4 Float32} {i : Axis}
    (h : Components.isFinite (m.axes.along i) = false) :
    ∃ j, ((unitRows m.axes (Components.map length m.axes)).along i).along j =
      Scalar.undefined := by
  obtain ⟨j, hj⟩ := Vec3.exists_along_not_finite h
  have hlong : ¬(Components.map length m.axes : Vec3 Float32).along i < degenerate := by
    rw [Vec3.along_map]
    exact (Vec3.isUnbounded_length hj).not_lt_degenerate
  rw [unitRows_along hlong]
  exact ⟨j, Vec3.normalize_along_undefined hj⟩

section Rows

open Binary32

variable {rows : Vec3 (Vec3 Float32)} {i j : Axis}

/-- Every element of the rows takes part in their determinant. -/
theorem determinant_ofRows_undefined (h : (rows.along i).along j = Scalar.undefined) :
    (ofRows rows).determinant = Scalar.undefined := by
  cases i <;> cases j <;> simp only [Vec3.along] at h
  all_goals
    simp only [ofRows, ofBasis, Vec3.extend, determinant, h, mul_undefined, undefined_mul,
      add_undefined, undefined_add, sub_undefined, undefined_sub]

/-- Every element of the rows takes part in the quaternion. -/
theorem isNaN_ofRotationMatrix_undefined (h : (rows.along i).along j = Scalar.undefined) :
    Components.isNaN (Quaternion.ofRotationMatrix (ofRows rows)) = true := by
  have hany (q : Quaternion Float32)
      (hq : q.x = Scalar.undefined ∨ q.y = Scalar.undefined ∨ q.z = Scalar.undefined ∨
        q.w = Scalar.undefined) : Components.isNaN q = true := by
    simpa [Components.isNaN, Components.toList, eq_undefined_iff] using hq
  apply hany
  unfold Quaternion.ofRotationMatrix
  dsimp only
  split_ifs
  all_goals
    cases i <;> cases j <;> simp only [Vec3.along] at h
    all_goals
      simp_all only [ofRows, ofBasis, Vec3.extend, mul_undefined, undefined_mul, add_undefined,
        undefined_add, sub_undefined, undefined_sub, sqrt_undefined, div_undefined,
        not_undefined_lt, gt_iff_lt, ge_iff_le, not_le_undefined, not_undefined_le, and_false,
        false_and, true_or, or_true, not_lt_undefined]

end Rows

/-- The two ways of asking for a decomposition agree on whether there is one and on what it is. -/
theorem decomposeInto_eq_iff {α : Type} [Scalar α] (m : Matrix4 α) (d : Decomposition α) :
    m.decomposeInto = (true, d) ↔ m.decompose = .ok d := by
  rw [decomposeInto, decompose]
  split <;> simp

/-- A decomposition in place says whether there is one. -/
theorem decomposeInto_fst_iff {α : Type} [Scalar α] (m : Matrix4 α) :
    m.decomposeInto.1 = true ↔ ∃ d, m.decompose = .ok d := by
  constructor
  · intro h
    exact ⟨m.decomposeInto.2, (decomposeInto_eq_iff m _).mp (Prod.ext h rfl)⟩
  · rintro ⟨d, hd⟩
    rw [(decomposeInto_eq_iff m d).mpr hd]

/-- A residual is not above the bound if it is no number. -/
theorem accepted_iff (m : Matrix4 Float32) :
    (∃ d, m.decompose = .ok d) ↔ m.residual ≤ degenerate ∨ m.residual.isNaN = true := by
  have hbound : (degenerate : Float32).isNaN = false := by decide +kernel
  have hnot : ¬m.residual > degenerate ↔ m.residual ≤ degenerate ∨ m.residual.isNaN = true := by
    rw [gt_iff_lt, Binary32.not_lt_iff, hbound]
    simp only [Bool.false_eq_true, or_false]
  rw [← hnot]
  constructor
  · rintro ⟨d, hok⟩ hresidual
    rw [decompose_of_residual hresidual] at hok
    cases hok
  · exact decompose_of_not_residual

/-- A matrix with an upper row that is not finite has an undefined residual and is accepted. -/
theorem accepted_of_not_finite {m : Matrix4 Float32} {i : Axis}
    (h : Components.isFinite (m.axes.along i) = false) :
    m.residual.isNaN = true ∧
      ∃ d, m.decompose = .ok d ∧ Components.isNaN d.rotation = true := by
  obtain ⟨j, hj⟩ := exists_unitRows_undefined h
  have hdet := determinant_ofRows_undefined hj
  have hright : ¬(ofRows (unitRows m.axes (Components.map length m.axes))).determinant < 0 := by
    rw [hdet]
    exact Binary32.not_undefined_lt 0
  have hundefined : (Scalar.undefined - 1) * (Scalar.undefined - 1) =
      (Scalar.undefined : Float32) := by
    rw [Binary32.undefined_sub, Binary32.undefined_mul]
  constructor
  · rw [residual, if_neg hright, hdet, hundefined]
    exact Binary32.isNaN_undefined
  · refine ⟨_, decompose_of_right m rfl rfl hright ?_, isNaN_ofRotationMatrix_undefined hj⟩
    rw [hdet, hundefined]
    exact Binary32.not_lt_undefined _

/-- **What is undefined is accepted.**  A matrix is accepted exactly if its residual is at most
the bound or is no number.  Any element of the upper rows that is not finite makes the residual no
number, so that the matrix is accepted, by both ways of asking, with a rotation that has an
undefined component. -/
theorem decompose_accepts_undefined (m : Matrix4 Float32) :
    ((∃ d, m.decompose = .ok d) ↔ m.residual ≤ degenerate ∨ m.residual.isNaN = true) ∧
    (m.decomposeInto.1 = true ↔ m.residual ≤ degenerate ∨ m.residual.isNaN = true) ∧
    ∀ i, Components.isFinite (m.axes.along i) = false →
      m.residual.isNaN = true ∧ ∃ d, m.decompose = .ok d ∧ m.decomposeInto = (true, d) ∧
        Components.isNaN d.rotation = true := by
  refine ⟨accepted_iff m, (decomposeInto_fst_iff m).trans (accepted_iff m), fun i hi => ?_⟩
  obtain ⟨hresidual, d, hd, hnan⟩ := accepted_of_not_finite hi
  exact ⟨hresidual, d, hd, (decomposeInto_eq_iff m d).mpr hd, hnan⟩

/-- An infinite element in the second row. -/
theorem infinite_row_accepted :
    let m : Matrix4 Float32 := ⟨⟨1, 0, 0, 0⟩, ⟨0, 1, 1 / 0, 0⟩, ⟨0, 0, 1, 0⟩, ⟨0, 0, 0, 1⟩⟩
    m.residual.isNaN = true ∧ ∃ d, m.decompose = .ok d ∧ m.decomposeInto = (true, d) ∧
      Components.isNaN d.rotation = true :=
  (decompose_accepts_undefined _).2.2 .y (by decide +kernel)

/-- The identity with an undefined first element is accepted, and no component of its rotation is a
number. -/
theorem undefined_element_accepted :
    (⟨⟨0 / 0, 0, 0, 0⟩, ⟨0, 1, 0, 0⟩, ⟨0, 0, 1, 0⟩, ⟨0, 0, 0, 1⟩⟩ : Matrix4 Float32).residual.isNaN =
        true ∧
      (⟨⟨0 / 0, 0, 0, 0⟩, ⟨0, 1, 0, 0⟩, ⟨0, 0, 1, 0⟩, ⟨0, 0, 0, 1⟩⟩ : Matrix4 Float32).decompose =
        .ok ⟨⟨0 / 0, 1, 1⟩, ⟨0 / 0, 0 / 0, 0 / 0, 0 / 0⟩, ⟨0, 0, 0⟩⟩ := by
  decide +kernel

end Matrix4

end Spatial
