import Mathlib
import Spatial.Proofs.Directions
import Spatial.Proofs.Rotation

/-!
# Taking an affine map apart and putting it together

An affine map whose upper rows are at right angles has a length and a direction
for each row, and the directions are a frame.  A right-handed frame is the
rotation.  A left-handed one becomes a rotation when the axis of the longest row
is turned around, and the factor of that axis with it: the product of factor and
axis stays as it was.  Either way the determinant is one, so the residual is zero
and the decomposition is given.

A rotation comes back from its quaternion.  Putting the parts together therefore
gives each length times its direction.  That is the row, if the row was long
enough to be divided by its length, and else a row of the same length along the
substitute.

Over the checked numbers every comparison goes the same way and every operation
has a value, so the same decomposition comes out.
-/

namespace Spatial

open Components (dot length lengthSquared UnitLength)

/-- The numbers of a real decomposition in the checked reading. -/
def Decomposition.checked (d : Decomposition ℝ) : Decomposition Checked :=
  ⟨Components.checked d.scale, Components.checked d.rotation, Components.checked d.translation⟩

namespace Vec3

/-- The lengths of rows are defined. -/
theorem map_length_checked (rows : Vec3 (Vec3 ℝ)) :
    Components.map length (Components.map Components.checked rows : Vec3 (Vec3 Checked)) =
      (Components.checked (Components.map length rows) : Vec3 Checked) := by
  calc Components.map length (Components.map Components.checked rows : Vec3 (Vec3 Checked))
      = (⟨length (Components.checked rows.x), length (Components.checked rows.y),
          length (Components.checked rows.z)⟩ : Vec3 Checked) := rfl
    _ = ⟨.value (length rows.x), .value (length rows.y), .value (length rows.z)⟩ := by
        rw [length_checked, length_checked, length_checked]

end Vec3

namespace Matrix4

/-- The axes of a matrix are taken without an operation. -/
theorem axes_checked (m : Matrix4 ℝ) :
    (Components.checked m).axes = Components.map Components.checked m.axes := rfl

theorem ofRows_checked (rows : Vec3 (Vec3 ℝ)) :
    ofRows (Components.map Components.checked rows : Vec3 (Vec3 Checked)) =
      Components.checked (ofRows rows) := rfl

/-- A determinant is defined. -/
theorem determinant_checked (m : Matrix4 ℝ) :
    (Components.checked m).determinant = .value m.determinant := rfl

/-- What a decomposition must satisfy for rows of given lengths and a frame of
their directions. -/
structure Splits (rows : Vec3 (Vec3 ℝ)) (lengths : Vec3 ℝ) (scale : Vec3 ℝ)
    (frame : Vec3 (Vec3 ℝ)) : Prop where
  /-- The frame is a rotation. -/
  rotation : (ofRows frame).IsRotation
  /-- Scaling the frame gives each direction its length. -/
  scaled (i : Axis) :
    scale.along i * frame.along i = lengths.along i * (unitRows rows lengths).along i
  /-- Only a longest axis has a factor below zero. -/
  longest (i j : Axis) : scale.along i < 0 → lengths.along j ≤ lengths.along i
  /-- Only one axis has a factor below zero. -/
  once (i j : Axis) : scale.along i < 0 → scale.along j < 0 → i = j

/-- A right-handed frame splits off with the lengths as they are. -/
theorem Splits.right {rows : Vec3 (Vec3 ℝ)} {lengths : Vec3 ℝ}
    (hnonneg : ∀ i, 0 ≤ lengths.along i) (hframe : IsFrame (unitRows rows lengths))
    (hdet : (ofRows (unitRows rows lengths)).determinant = 1) :
    Splits rows lengths lengths (unitRows rows lengths) where
  rotation := isRotation_ofRows hframe hdet
  scaled _ := rfl
  longest i _ hi := absurd (hnonneg i) (not_le.mpr hi)
  once i _ hi := absurd (hnonneg i) (not_le.mpr hi)

/-- A left-handed frame splits off with its longest axis turned around. -/
theorem Splits.left {rows : Vec3 (Vec3 ℝ)} {lengths : Vec3 ℝ} {a b c : Axis}
    (hdesc : Axis.Descending lengths a b c) (hnonneg : ∀ i, 0 ≤ lengths.along i)
    (hframe : IsFrame (unitRows rows lengths))
    (hdet : (ofRows (unitRows rows lengths)).determinant = -1) :
    Splits rows lengths (lengths.setAlong a (-lengths.along a))
      ((unitRows rows lengths).setAlong a (-(unitRows rows lengths).along a)) := by
  -- A factor below zero can only be the one of the axis that was turned around.
  have hturned {i : Axis} (hi : (lengths.setAlong a (-lengths.along a)).along i < 0) : i = a := by
    by_contra hia
    rw [Vec3.along_setAlong_of_ne _ hia] at hi
    exact absurd (hnonneg i) (not_le.mpr hi)
  constructor
  · exact isRotation_ofRows (isFrame_turn hframe a) (by rw [determinant_turn, hdet, neg_neg])
  · intro i
    by_cases hia : i = a
    · subst hia
      rw [Vec3.along_setAlong_self, Vec3.along_setAlong_self]
      simp only [Vec3.mulLeft_eq, Vec3.neg_eq, neg_mul_neg]
    · rw [Vec3.along_setAlong_of_ne _ hia, Vec3.along_setAlong_of_ne _ hia]
  · intro i j hi
    rw [hturned hi]
    rcases hdesc.cover j with rfl | rfl | rfl
    · exact le_rfl
    · exact hdesc.second_le
    · exact hdesc.third_le.trans hdesc.second_le
  · intro i j hi hj
    rw [hturned hi, hturned hj]

section Handed

variable {α : Type} [Scalar α] (m : Matrix4 α) {lengths : Vec3 α} {basis : Vec3 (Vec3 α)}
  (hl : Components.map length m.axes = lengths) (hb : unitRows m.axes lengths = basis)
include hl hb

/-- A right-handed frame is the rotation. -/
theorem decompose_of_right (hdet : ¬(ofRows basis).determinant < 0)
    (hres : ¬((ofRows basis).determinant - 1) * ((ofRows basis).determinant - 1) > degenerate) :
    m.decompose =
      .ok ⟨lengths, Quaternion.ofRotationMatrix (ofRows basis), m.translationPart⟩ := by
  subst hl hb
  have hparts : m.decomposeParts = (Components.map length m.axes,
      .ok (Quaternion.ofRotationMatrix
        (ofRows (unitRows m.axes (Components.map length m.axes)))), m.translationPart) := by
    unfold decomposeParts
    simp only [axes] at hdet hres ⊢
    rw [if_neg hdet, if_neg hdet, if_neg hdet, if_neg hres]
  rw [decompose, hparts]

/-- A left-handed frame is the rotation once the longest axis is turned around. -/
theorem decompose_of_left {a b c : Axis} (hsort : Axis.byLength lengths = (a, b, c))
    (hdet : (ofRows basis).determinant < 0)
    (hres : ¬(-(ofRows basis).determinant - 1) * (-(ofRows basis).determinant - 1) >
      degenerate) :
    m.decompose =
      .ok ⟨lengths.setAlong a (-lengths.along a),
        Quaternion.ofRotationMatrix (ofRows (basis.setAlong a (-basis.along a))),
        m.translationPart⟩ := by
  subst hl hb
  have hparts : m.decomposeParts =
      ((Components.map length m.axes : Vec3 α).setAlong a
          (-(Components.map length m.axes : Vec3 α).along a),
        .ok (Quaternion.ofRotationMatrix (ofRows
          ((unitRows m.axes (Components.map length m.axes)).setAlong a
            (-(unitRows m.axes (Components.map length m.axes)).along a)))),
        m.translationPart) := by
    unfold decomposeParts
    simp only [axes] at hsort hdet hres ⊢
    rw [hsort, if_pos hdet, if_pos hdet, if_pos hdet, if_neg hres]
  rw [decompose, hparts]

end Handed

section Readings

variable (m : Matrix4 ℝ) {lengths : Vec3 ℝ} {basis : Vec3 (Vec3 ℝ)}
  (hl : (Components.map length m.axes : Vec3 ℝ) = lengths)
  (hb : unitRows m.axes lengths = basis)
  (horth : ∀ i j, i ≠ j → dot (m.axes.along i) (m.axes.along j) = 0)

/-- A determinant of one leaves no residual. -/
theorem not_degenerate_lt_residual : ¬((1 : ℝ) - 1) * (1 - 1) > degenerate := by
  rw [sub_self, zero_mul]
  exact not_lt.mpr degenerate_pos.le

/-- The determinant of rows is defined. -/
theorem determinant_map_checked (rows : Vec3 (Vec3 ℝ)) :
    (ofRows (Components.map Components.checked rows : Vec3 (Vec3 Checked))).determinant =
      .value (ofRows rows).determinant := by
  rw [ofRows_checked, determinant_checked]

include hl in
/-- The lengths of the axes of a matrix are defined. -/
theorem map_length_axes_checked :
    Components.map length (Components.checked m).axes =
      (Components.checked lengths : Vec3 Checked) := by
  rw [← hl]
  exact Vec3.map_length_checked m.axes

include hl hb horth in
/-- The directions that are made of the axes are defined. -/
theorem unitRows_axes_checked :
    unitRows (Components.checked m).axes (Components.checked lengths) =
      Components.map Components.checked basis := by
  have hlengths (i : Axis) : lengths.along i = length (m.axes.along i) := by
    rw [← hl, Vec3.along_map]
  rw [axes_checked, unitRows_checked hlengths horth, hb]

include hl hb horth

/-- Both readings of a right-handed frame. -/
theorem decompose_readings_of_right (hdet : (ofRows basis).determinant = 1) :
    let d : Decomposition ℝ :=
      ⟨lengths, Quaternion.ofRotationMatrix (ofRows basis), m.translationPart⟩
    m.decompose = .ok d ∧ (Components.checked m).decompose = .ok d.checked := by
  have hright : ¬(1 : ℝ) < 0 := not_lt.mpr zero_le_one
  constructor
  · apply decompose_of_right m hl hb
    · rw [hdet]
      exact hright
    · rw [hdet]
      exact not_degenerate_lt_residual
  · rw [decompose_of_right (Components.checked m) (map_length_axes_checked m hl)
        (unitRows_axes_checked m hl hb horth),
      ofRows_checked, Quaternion.ofRotationMatrix_checked]
    · rfl
    · rw [determinant_map_checked, hdet]
      exact hright
    · rw [determinant_map_checked, hdet]
      exact not_degenerate_lt_residual

/-- Both readings of a left-handed frame. -/
theorem decompose_readings_of_left {a b c : Axis} (hsort : Axis.byLength lengths = (a, b, c))
    (hdet : (ofRows basis).determinant = -1) :
    let d : Decomposition ℝ :=
      ⟨lengths.setAlong a (-lengths.along a),
        Quaternion.ofRotationMatrix (ofRows (basis.setAlong a (-basis.along a))),
        m.translationPart⟩
    m.decompose = .ok d ∧ (Components.checked m).decompose = .ok d.checked := by
  have hleft : (-1 : ℝ) < 0 := neg_one_lt_zero
  have hresidual : ¬(-(-1 : ℝ) - 1) * (-(-1) - 1) > degenerate := by
    rw [neg_neg]
    exact not_degenerate_lt_residual
  constructor
  · apply decompose_of_left m hl hb hsort
    · rw [hdet]
      exact hleft
    · rw [hdet]
      exact hresidual
  · have hsortChecked : Axis.byLength (Components.checked lengths) = (a, b, c) := by
      rw [Axis.byLength_checked, hsort]
    have hfactors :
        (Components.checked lengths).setAlong a (-(Components.checked lengths).along a) =
          Components.checked (lengths.setAlong a (-lengths.along a)) :=
      Vec3.turn_map Checked.value (fun _ => rfl) lengths a
    have haxes : (Components.map Components.checked basis : Vec3 (Vec3 Checked)).setAlong a
          (-(Components.map Components.checked basis : Vec3 (Vec3 Checked)).along a) =
        Components.map Components.checked (basis.setAlong a (-basis.along a)) :=
      Vec3.turn_map Components.checked (fun _ => rfl) basis a
    rw [decompose_of_left (Components.checked m) (map_length_axes_checked m hl)
        (unitRows_axes_checked m hl hb horth) hsortChecked,
      hfactors, haxes, ofRows_checked, Quaternion.ofRotationMatrix_checked]
    · rfl
    · rw [determinant_map_checked, hdet]
      exact hleft
    · rw [determinant_map_checked, hdet]
      exact hresidual

end Readings

/-- The decomposition of a map with its rows at right angles, and in the checked
reading the same numbers. -/
theorem decompose_eq (m : Matrix4 ℝ)
    (horth : ∀ i j, i ≠ j → dot (m.axes.along i) (m.axes.along j) = 0) :
    ∃ scale frame, Splits m.axes (Components.map length m.axes) scale frame ∧
      m.decompose =
        .ok ⟨scale, Quaternion.ofRotationMatrix (ofRows frame), m.translationPart⟩ ∧
      (Components.checked m).decompose =
        .ok (Decomposition.checked
          ⟨scale, Quaternion.ofRotationMatrix (ofRows frame), m.translationPart⟩) := by
  obtain ⟨lengths, hl⟩ : ∃ lengths, (Components.map length m.axes : Vec3 ℝ) = lengths :=
    ⟨_, rfl⟩
  have hlengths (i : Axis) : lengths.along i = length (m.axes.along i) := by
    rw [← hl, Vec3.along_map]
  have hnonneg (i : Axis) : 0 ≤ lengths.along i := by
    rw [hlengths]
    exact Vec3.length_nonneg _
  have hframe : IsFrame (unitRows m.axes lengths) := (unitRows_isFrame hlengths horth).1
  obtain ⟨a, b, c, hsort, hdesc⟩ := Axis.byLength_descending lengths
  rw [hl]
  rcases determinant_frame hframe with hdet | hdet
  · exact ⟨_, _, Splits.right hnonneg hframe hdet,
      decompose_readings_of_right m hl rfl horth hdet⟩
  · exact ⟨_, _, Splits.left hdesc hnonneg hframe hdet,
      decompose_readings_of_left m hl rfl horth hsort hdet⟩

/-- Affine maps have the fourth column of the identity. -/
def IsAffine {K : Type} [ExactScalar K] (m : Matrix4 K) : Prop :=
  m.transpose.r4 = ⟨0, 0, 0, 1⟩

/-- One of the three upper rows. -/
def upperRow {β : Type} (m : Matrix4 β) : Axis → Vec4 β
  | .x => m.r1
  | .y => m.r2
  | .z => m.r3

/-- The rows of an affine matrix end in zeros. -/
theorem IsAffine.upperRow_eq {K : Type} [ExactScalar K] {m : Matrix4 K} (h : m.IsAffine)
    (i : Axis) : m.upperRow i = (m.axes.along i).extend 0 := by
  obtain ⟨h₁, h₂, h₃, -⟩ := Vec4.mk.inj h
  cases i with
  | x =>
      rw [← h₁]
      rfl
  | y =>
      rw [← h₂]
      rfl
  | z =>
      rw [← h₃]
      rfl

end Matrix4

namespace Decomposition

/-- The scaling, the rotation and the translation one after the other. -/
def recompose {α : Type} [Scalar α] (d : Decomposition α) : Matrix4 α :=
  Matrix4.scale d.scale * Matrix4.ofQuaternion d.rotation * Matrix4.translation d.translation

/-- The product of the parts, from the frame of its rotation. -/
theorem recompose_eq {K : Type} [ExactScalar K] (d : Decomposition K) {frame : Vec3 (Vec3 K)}
    (h : Matrix4.ofQuaternion d.rotation = Matrix4.ofRows frame) :
    d.recompose = Matrix4.ofBasis (d.scale.x * frame.x) (d.scale.y * frame.y)
      (d.scale.z * frame.z) d.translation := by
  rw [recompose, h]
  simp only [Matrix4.scale, Matrix4.scaleAbout, Matrix4.translation, Matrix4.ofRows,
    Matrix4.ofBasis, Matrix4.mul_rows, Matrix4.transform_eq, Vec3.extend, Vec3.unitX, Vec3.unitY,
    Vec3.unitZ, Vec3.zero, Components.splat, Vec3.mulLeft_eq, Vec3.mul_eq, Vec3.sub_eq]
  ext <;> ring

/-- Each row of the product is one direction of the frame with its length. -/
theorem recompose_upperRow {K : Type} [ExactScalar K] (d : Decomposition K)
    {frame : Vec3 (Vec3 K)} (h : Matrix4.ofQuaternion d.rotation = Matrix4.ofRows frame)
    (i : Axis) : d.recompose.upperRow i = (d.scale.along i * frame.along i).extend 0 := by
  rw [d.recompose_eq h]
  cases i <;> rfl

end Decomposition

namespace Matrix4

/-- **An affine map with its rows at right angles is a scaling, a rotation and a
translation.**  The map has a decomposition, which no operation without a value
takes part in.  Its rotation is a unit quaternion, its translation is that of the
map, and putting it together again gives the rows of the map, where a row that is
too short to have a direction keeps its length only.  At most one factor is below
zero, and then it is that of a longest row. -/
theorem decompose_recomposes (m : Matrix4 ℝ) (haffine : m.IsAffine)
    (horth : ∀ i j, i ≠ j → dot (m.upperRow i) (m.upperRow j) = 0) :
    ∃ d, m.decompose = .ok d ∧ (Components.checked m).decompose = .ok d.checked ∧
      UnitLength d.rotation ∧ d.translation = m.r4.xyz ∧ d.recompose.r4 = m.r4 ∧
      (∀ i, 1e-4 ≤ length (m.upperRow i) → d.recompose.upperRow i = m.upperRow i) ∧
      (∀ i, length (d.recompose.upperRow i) = length (m.upperRow i)) ∧
      (∀ i j, d.scale.along i < 0 → d.scale.along j < 0 → i = j) ∧
      ∀ i, d.scale.along i < 0 → ∀ j, length (m.upperRow j) ≤ length (m.upperRow i) := by
  have horthAxes (i j : Axis) (hij : i ≠ j) : dot (m.axes.along i) (m.axes.along j) = 0 := by
    rw [← Vec3.dot_extend_zero, ← haffine.upperRow_eq, ← haffine.upperRow_eq]
    exact horth i j hij
  have hlengths (i : Axis) :
      (Components.map length m.axes : Vec3 ℝ).along i = length (m.axes.along i) :=
    Vec3.along_map _ _ _
  have hupper (i : Axis) : length (m.upperRow i) = length (m.axes.along i) := by
    rw [haffine.upperRow_eq, Vec3.length_extend_zero]
  obtain ⟨hframe, hkept⟩ := unitRows_isFrame hlengths horthAxes
  obtain ⟨scale, frame, hsplits, hreal, hchecked⟩ := m.decompose_eq horthAxes
  obtain ⟨hunit, hmatrix⟩ := Quaternion.ofQuaternion_ofRotationMatrix hsplits.rotation
  have hrow (i : Axis) := Decomposition.recompose_upperRow
    ⟨scale, Quaternion.ofRotationMatrix (ofRows frame), m.translationPart⟩ hmatrix i
  refine ⟨_, hreal, hchecked, hunit, rfl, ?_, ?_, ?_, hsplits.once, ?_⟩
  · rw [Decomposition.recompose_eq _ hmatrix]
    obtain ⟨-, -, -, hcorner⟩ := Vec4.mk.inj haffine
    show m.r4.xyz.extend 1 = m.r4
    rw [← hcorner]
    rfl
  · intro i hi
    rw [hupper] at hi
    rw [hrow, hsplits.scaled, hkept i (by rw [hlengths]; exact hi), hlengths,
      Vec3.length_mulLeft_normalize (degenerate_pos.trans_le hi), haffine.upperRow_eq]
  · intro i
    rw [hrow, hsplits.scaled, Vec3.length_extend_zero, hlengths, hupper,
      Vec3.length_mulLeft (Vec3.length_nonneg _), Vec3.length_of_unitLength (hframe.unit i),
      mul_one]
  · intro i hi j
    have hle := hsplits.longest i j hi
    rw [hlengths, hlengths] at hle
    rw [hupper, hupper]
    exact hle

/-- The exchange of two axes, with the third made flat. -/
theorem decompose_flat_exchange :
    let m : Matrix4 ℝ := ⟨⟨0, 3, 0, 0⟩, ⟨4, 0, 0, 0⟩, ⟨0, 0, 0, 0⟩, ⟨7, 8, 9, 1⟩⟩
    m.IsAffine ∧ (∀ i j, i ≠ j → dot (m.upperRow i) (m.upperRow j) = 0) ∧
      ∃ d, m.decompose = .ok d ∧ (Components.checked m).decompose = .ok d.checked ∧
        UnitLength d.rotation ∧ d.translation = ⟨7, 8, 9⟩ ∧
        d.recompose.upperRow .x = ⟨0, 3, 0, 0⟩ ∧ d.recompose.upperRow .y = ⟨4, 0, 0, 0⟩ ∧
        length (d.recompose.upperRow .z) = 0 := by
  intro m
  have haffine : m.IsAffine := rfl
  have horth : ∀ i j, i ≠ j → dot (m.upperRow i) (m.upperRow j) = 0 := by
    intro i j hij
    cases i <;> cases j <;> first
      | exact absurd rfl hij
      | simp [m, upperRow, Vec4.dot_eq]
  have hx : length (m.upperRow .x) = 3 := by
    apply Components.length_of_lengthSquared (by norm_num)
    norm_num [m, upperRow, lengthSquared, Vec4.dot_eq]
  have hy : length (m.upperRow .y) = 4 := by
    apply Components.length_of_lengthSquared (by norm_num)
    norm_num [m, upperRow, lengthSquared, Vec4.dot_eq]
  have hz : length (m.upperRow .z) = 0 := by
    apply Components.length_of_lengthSquared le_rfl
    norm_num [m, upperRow, lengthSquared, Vec4.dot_eq]
  obtain ⟨d, hreal, hchecked, hunit, ht, -, hrows, hlengths, -, -⟩ :=
    decompose_recomposes m haffine horth
  refine ⟨haffine, horth, d, hreal, hchecked, hunit, ht, ?_, ?_, (hlengths .z).trans hz⟩
  · exact hrows .x (by rw [hx]; norm_num)
  · exact hrows .y (by rw [hy]; norm_num)

end Matrix4

end Spatial
