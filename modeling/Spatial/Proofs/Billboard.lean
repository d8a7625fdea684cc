import Mathlib
import Spatial.Proofs.AxisAngle
import Spatial.Proofs.QuarterTurn
import Spatial.Proofs.Viewing

/-!
# Billboards

A billboard faces along the line from the camera, or against the camera's view where that
line is too short.  Either way the direction has length one.

1.  A free billboard has that direction for its third axis.  The first is at a right angle
    to it and to the camera's upward vector, so there is one where the upward vector is no
    multiple of the direction.
2.  A billboard on a fixed axis has the axis for its second one.  The third is what is left
    of a direction when its part along the axis is taken off, so the direction must not lie
    along the axis.
3.  The direction is chosen so that it does not.  The facing one is tried, then the object's
    own, and one is taken if it makes more than a tenth of a degree with the axis.  If the
    axis is near both, a direction of coordinates is taken: the first where the axis is
    nearly the third, and the third otherwise.
4.  So every direction that is normalised has a length, in each of these cases, and the axes
    are the rows of a rotation.
-/

namespace Spatial

open Components (dot length lengthSquared normalize UnitLength checked)

/-- Angles are reduced with no more digits than they have. -/
noncomputable instance : Widening Checked Checked := ⟨id, id⟩

namespace Vec3

section Products

variable {K : Type} [ExactScalar K]

/-- A quotient is taken out of the left side of a vector product. -/
theorem divRight_cross (u v : Vec3 K) (s : K) : (u / s).cross v = u.cross v / s := by
  simp only [cross, divRight_eq]
  ext <;> ring

/-- A vector less its part along a unit vector, as a double vector product. -/
theorem cross_cross_of_unitLength {u : Vec3 K} (hu : UnitLength u) (v : Vec3 K) :
    (u.cross v).cross u = v - dot u v * u := by
  replace hu : u.x * u.x + u.y * u.y + u.z * u.z = 1 := hu
  simp only [cross, dot_eq, mulLeft_eq, sub_eq]
  ext <;> dsimp only
  · linear_combination v.x * hu
  · linear_combination v.y * hu
  · linear_combination v.z * hu

/-- The vector product with a unit vector is as long as what is at a right angle to it. -/
theorem lengthSquared_sub_part {u : Vec3 K} (hu : UnitLength u) (v : Vec3 K) :
    lengthSquared (v - dot u v * u) = lengthSquared (u.cross v) := by
  replace hu : u.x * u.x + u.y * u.y + u.z * u.z = 1 := hu
  simp only [lengthSquared, dot_eq, cross, mulLeft_eq, sub_eq]
  linear_combination
    ((u.x * v.x + u.y * v.y + u.z * v.z) ^ 2 - (v.x ^ 2 + v.y ^ 2 + v.z ^ 2)) * hu

end Products

/-- A vector of length one is its own direction. -/
theorem normalize_of_unitLength {v : Vec3 ℝ} (h : UnitLength v) : normalize v = v := by
  rw [normalize_eq, length_of_unitLength h, divRight_eq]
  simp only [div_one]

/-- The vector product has a length where one vector is no multiple of the other. -/
theorem length_cross_pos {u v : Vec3 ℝ} (hv : v ≠ zero) (hu : ∀ s : ℝ, u ≠ s * v) :
    0 < length (u.cross v) := by
  apply length_pos
  intro hcross
  exact hu _ (eq_mulLeft_of_cross hv hcross)

/-- The vector product of unit vectors has a length where their angle has a cosine between
one and minus one. -/
theorem length_cross_pos_of_dot {u v : Vec3 ℝ} (hu : UnitLength u) (hv : UnitLength v)
    (h : |dot u v| < 1) : 0 < length (u.cross v) := by
  have hsquare : dot u v * dot u v < 1 := by
    rw [← sq, sq_lt_one_iff_abs_lt_one]
    exact h
  apply Real.sqrt_pos.mpr
  rw [lengthSquared_cross, hu, hv]
  linarith

end Vec3

namespace Matrix4

section Axes

variable {α : Type} [Scalar α]

/-- The axes of a frame with a given second one, the third on the side of a direction. -/
def axesAround (axis toward : Vec3 α) : Vec3 (Vec3 α) :=
  let x := normalize (axis.cross toward)
  ⟨x, axis, normalize (x.cross axis)⟩

/-- A billboard is the map from a frame with the direction to the camera. -/
theorem billboard_eq_fromFrame (object camera cameraUp cameraForward : Vec3 α) :
    billboard object camera cameraUp cameraForward =
      fromFrame (axesUnder cameraUp (facing object camera cameraForward)) object := rfl

variable {β : Type} [Scalar β] [Widening α β]

/-- The direction that an object on an axis turns toward: the first that is not along the
axis of the facing one, the object's own and a direction of coordinates. -/
def towardFrom (axis face objectForward : Vec3 α) : Vec3 α :=
  if Scalar.abs (dot axis face) > alignment then
    if Scalar.abs (dot axis objectForward) > alignment then
      if Scalar.abs axis.z > alignment then Vec3.unitX else ⟨0, 0, -1⟩
    else objectForward
  else face

/-- A billboard with an axis is the map from a frame about that axis. -/
theorem constrainedBillboard_eq_fromFrame
    (object camera axis cameraForward objectForward : Vec3 α) :
    constrainedBillboard object camera axis cameraForward objectForward =
      fromFrame (axesAround axis
        (towardFrom axis (facing object camera cameraForward) objectForward)) object := by
  unfold constrainedBillboard towardFrom
  dsimp only
  split_ifs <;> rfl

end Axes

/-! ## The facing direction -/

section Facing

variable {object camera cameraForward : Vec3 ℝ}

/-- The distance below which positions coincide is not zero. -/
theorem coincident_pos : 0 < (coincident : ℝ) := by
  have hvalue : (coincident : ℝ) = 1e-4 := rfl
  rw [hvalue]
  norm_num

/-- Where the object is not at the camera, it faces along the line between them. -/
theorem facing_of_not_coincident (h : ¬lengthSquared (object - camera) < coincident) :
    facing object camera cameraForward =
      (object - camera) * (1 / Real.sqrt (lengthSquared (object - camera))) :=
  if_neg h

/-- A camera at the object is faced against its forward direction. -/
theorem facing_of_coincident (h : lengthSquared (object - camera) < coincident) :
    facing object camera cameraForward = -cameraForward :=
  if_pos h

/-- The direction that is faced has unit length. -/
theorem unitLength_facing (hcamera : UnitLength cameraForward) :
    UnitLength (facing object camera cameraForward) := by
  by_cases h : lengthSquared (object - camera) < coincident
  · rw [facing_of_coincident h, UnitLength, ← hcamera]
    simp only [lengthSquared, Vec3.dot_eq, Vec3.neg_eq, neg_mul_neg]
  · have hsquared : 0 < lengthSquared (object - camera) :=
      coincident_pos.trans_le (not_lt.mp h)
    have hlength : 0 < length (object - camera) := Real.sqrt_pos.mpr hsquared
    have hdirection : facing object camera cameraForward = normalize (object - camera) := by
      rw [facing_of_not_coincident h, Vec3.normalize_eq, Vec3.mulRight_eq, Vec3.divRight_eq]
      simp only [mul_one_div]
      rfl
    rw [hdirection]
    exact Vec3.unitLength_normalize hlength

/-- The line from the camera is divided by its length only where that is not zero. -/
theorem facing_checked :
    facing (checked object) (checked camera) (checked cameraForward) =
      checked (facing object camera cameraForward) := by
  by_cases h : lengthSquared (object - camera) < coincident
  · rw [facing_of_coincident h]
    exact if_pos h
  · have hsquared : 0 < lengthSquared (object - camera) :=
      coincident_pos.trans_le (not_lt.mp h)
    have hroot : Real.sqrt (lengthSquared (object - camera)) ≠ 0 :=
      (Real.sqrt_pos.mpr hsquared).ne'
    have hfactor : 1 / Scalar.sqrt (Checked.value (lengthSquared (object - camera))) =
        Checked.value (1 / Real.sqrt (lengthSquared (object - camera))) := by
      rw [Checked.sqrt_value hsquared.le]
      exact Checked.value_div_value hroot
    calc facing (checked object) (checked camera) (checked cameraForward)
        = checked (object - camera) *
            (1 / Scalar.sqrt (Checked.value (lengthSquared (object - camera)))) := if_neg h
      _ = checked (facing object camera cameraForward) := by
          rw [hfactor, facing_of_not_coincident h]
          rfl

end Facing

/-! ## The direction taken -/

/-- Directions count as aligned within a tenth of a degree. -/
theorem alignment_eq : (alignment : ℝ) = Real.cos (Real.pi / 1800) := by
  have hvalue : (alignment : ℝ) = 1 - (1 - Real.cos (0.1 * (Real.pi / 180.0))) := rfl
  have hangle : 0.1 * (Real.pi / 180.0) = Real.pi / 1800 := by
    norm_num
    ring
  rw [hvalue, hangle, sub_sub_cancel]

/-- A tenth of a degree is an acute angle, and is not none. -/
theorem alignment_bounds : 0 < (alignment : ℝ) ∧ (alignment : ℝ) < 1 := by
  have hpi := Real.pi_pos
  rw [alignment_eq]
  constructor
  · exact Real.cos_pos_of_mem_Ioo ⟨by linarith, by linarith⟩
  · rw [← Real.cos_zero]
    exact Real.cos_lt_cos_of_nonneg_of_le_pi_div_two le_rfl (by linarith) (by linarith)

/-- The bound on the alignment is defined. -/
theorem alignment_checked : (alignment : Checked) = .value alignment := by
  have hdegrees : Checked.value Real.pi / 180.0 = .value (Real.pi / 180.0) :=
    Checked.value_div_value (by norm_num)
  show (1 : Checked) - (1 - Scalar.cos (0.1 * (Checked.value Real.pi / 180.0))) = _
  rw [hdegrees]
  rfl

section Toward

variable {axis face objectForward : Vec3 ℝ}

/-- A direction that is not along the axis is kept. -/
theorem towardFrom_of_le (h : |dot axis face| ≤ alignment) :
    towardFrom axis face objectForward = face :=
  if_neg (not_lt.mpr h)

/-- The direction taken is a unit vector that is not along the axis. -/
theorem towardFrom_not_along (haxis : UnitLength axis) (hface : UnitLength face)
    (hobject : UnitLength objectForward) :
    UnitLength (towardFrom axis face objectForward) ∧
      |dot axis (towardFrom axis face objectForward)| < 1 := by
  obtain ⟨hpos, hless⟩ := alignment_bounds
  have hsquares : axis.x * axis.x + axis.y * axis.y + axis.z * axis.z = 1 := haxis
  unfold towardFrom
  split_ifs with halong hown hthird
  · -- The axis is nearly the third of the coordinates, so it has little of the first.
    have hthird_pos : 0 < |axis.z| := hpos.trans hthird
    have hz : 0 < axis.z * axis.z := by
      rw [← abs_mul_abs_self]
      exact mul_pos hthird_pos hthird_pos
    have hx : axis.x * axis.x < 1 := by linarith [mul_self_nonneg axis.y]
    have hdot : dot axis Vec3.unitX = axis.x := by
      simp only [Vec3.dot_eq, Vec3.unitX, mul_one, mul_zero, add_zero]
    refine ⟨?_, ?_⟩
    · simp only [UnitLength, lengthSquared, Vec3.dot_eq, Vec3.unitX]
      norm_num
    · rw [hdot]
      rw [← sq_lt_one_iff_abs_lt_one, sq]
      exact hx
  · have hdot : dot axis (⟨0, 0, -1⟩ : Vec3 ℝ) = -axis.z := by
      simp only [Vec3.dot_eq, mul_zero, zero_add, mul_neg, mul_one]
    refine ⟨?_, ?_⟩
    · simp only [UnitLength, lengthSquared, Vec3.dot_eq]
      norm_num
    · rw [hdot, abs_neg]
      exact (not_lt.mp hthird).trans_lt hless
  · exact ⟨hobject, (not_lt.mp hown).trans_lt hless⟩
  · exact ⟨hface, (not_lt.mp halong).trans_lt hless⟩

/-- No operation in the choice of the direction is undefined. -/
theorem towardFrom_checked :
    towardFrom (checked axis) (checked face) (checked objectForward) =
      checked (towardFrom axis face objectForward) := by
  unfold towardFrom
  rw [alignment_checked, apply_ite checked, apply_ite checked, apply_ite checked]
  exact if_congr Iff.rfl (if_congr Iff.rfl (if_congr Iff.rfl rfl rfl) rfl) rfl

end Toward

/-! ## The axes around a fixed one -/

section Around

variable {axis toward : Vec3 ℝ} (haxis : UnitLength axis) (htoward : UnitLength toward)
  (halong : |dot axis toward| < 1)
include haxis htoward halong

/-- The first axis of the frame has unit length. -/
theorem unitLength_axesAround_x : UnitLength (axesAround axis toward).x :=
  Vec3.unitLength_normalize (Vec3.length_cross_pos_of_dot haxis htoward halong)

/-- The third axis is at a right angle to two unit vectors that are so to each other. -/
theorem unitLength_axesAround_z : UnitLength ((axesAround axis toward).x.cross axis) := by
  have hright : dot (axesAround axis toward).x axis = 0 := by
    rw [Vec3.dot_comm]
    exact Vec3.dot_normalize (Vec3.dot_cross_left axis toward)
  rw [UnitLength, Vec3.lengthSquared_cross, unitLength_axesAround_x haxis htoward halong, haxis,
    hright]
  norm_num

/-- The axes around a fixed one are the rows of a rotation. -/
theorem isRotation_axesAround : (ofRows (axesAround axis toward)).IsRotation := by
  obtain ⟨x, hx⟩ : ∃ x, (axesAround axis toward).x = x := ⟨_, rfl⟩
  have hx_unit := unitLength_axesAround_x haxis htoward halong
  have hz_unit := unitLength_axesAround_z haxis htoward halong
  have hx_axis : dot x axis = 0 := by
    rw [← hx, Vec3.dot_comm]
    exact Vec3.dot_normalize (Vec3.dot_cross_left axis toward)
  rw [hx] at hx_unit hz_unit
  have hy : (x.cross axis).cross x = axis := by
    rw [Vec3.cross_cross_of_unitLength hx_unit, hx_axis, Vec3.mulLeft_eq, Vec3.sub_eq]
    simp only [zero_mul, sub_zero]
  have hrows : axesAround axis toward = ⟨x, (x.cross axis).cross x, x.cross axis⟩ := by
    calc axesAround axis toward
        = ⟨x, axis, normalize (x.cross axis)⟩ := by rw [← hx]; rfl
      _ = ⟨x, (x.cross axis).cross x, x.cross axis⟩ := by
          rw [hy, Vec3.normalize_of_unitLength hz_unit]
  rw [hrows]
  refine isRotation_of_cross hx_unit hz_unit ?_
  rw [Vec3.dot_comm]
  exact Vec3.dot_cross_left x axis

/-- The third axis is the direction of what the axis leaves of the given direction. -/
theorem axesAround_z :
    (axesAround axis toward).z = normalize (toward - dot axis toward * axis) := by
  have hz_unit := unitLength_axesAround_z haxis htoward halong
  have hlength : length (toward - dot axis toward * axis) = length (axis.cross toward) :=
    congrArg Real.sqrt (Vec3.lengthSquared_sub_part haxis toward)
  calc (axesAround axis toward).z
      = (normalize (axis.cross toward)).cross axis := Vec3.normalize_of_unitLength hz_unit
    _ = (toward - dot axis toward * axis) / length (axis.cross toward) := by
        rw [Vec3.normalize_eq, Vec3.divRight_cross, Vec3.cross_cross_of_unitLength haxis]
    _ = normalize (toward - dot axis toward * axis) := by rw [Vec3.normalize_eq, hlength]

/-- Neither of the two vectors that are normalised is zero. -/
theorem axesAround_checked :
    axesAround (checked axis) (checked toward) =
      Components.map checked (axesAround axis toward) := by
  have hx : normalize ((checked axis).cross (checked toward)) =
      checked (normalize (axis.cross toward)) :=
    Vec3.normalize_checked (Vec3.length_cross_pos_of_dot haxis htoward halong)
  have hz_unit := unitLength_axesAround_z haxis htoward halong
  have hz_pos : 0 < length ((normalize (axis.cross toward)).cross axis) := by
    rw [show length ((normalize (axis.cross toward)).cross axis) = 1 from
      Vec3.length_of_unitLength hz_unit]
    exact one_pos
  have hz : normalize ((checked (normalize (axis.cross toward))).cross (checked axis)) =
      checked (normalize ((normalize (axis.cross toward)).cross axis)) :=
    Vec3.normalize_checked hz_pos
  rw [axesAround, hx, hz]
  rfl

end Around

/-- **Billboards.**  Let the camera's view be along a unit vector, and the facing direction
be the line from the camera, or against the view where that line is too short.

An object on a fixed axis of length one, whose own forward direction has length one, gets a
frame that is orthonormal and right-handed, with that axis for its second and the object's
position for its origin.  If the axis makes more than a tenth of a degree with the facing
direction, the third axis is the direction of what is left of the facing one at a right angle
to the axis.  An object that turns freely gets such a frame with the facing direction for its
third axis, where the camera's upward vector is no multiple of that.  In none of the cases is
a vector of length zero normalised. -/
theorem billboards_are_frames {cameraForward : Vec3 ℝ} (hcamera : UnitLength cameraForward)
    (object camera : Vec3 ℝ) :
    let face := facing object camera cameraForward
    UnitLength face ∧
    (∀ axis objectForward : Vec3 ℝ, UnitLength axis → UnitLength objectForward →
      let m := constrainedBillboard object camera axis cameraForward objectForward
      (IsFrame m.axes ∧ (ofRows m.axes).determinant = 1) ∧
      m.r2 = axis.extend 0 ∧ m.r4 = object.extend 1 ∧
      (|dot axis face| ≤ alignment →
        m.axes.z = normalize (face - dot axis face * axis)) ∧
      constrainedBillboard (checked object) (checked camera) (checked axis)
        (checked cameraForward) (checked objectForward) = checked m) ∧
    ∀ cameraUp : Vec3 ℝ, (∀ s : ℝ, cameraUp ≠ s * face) →
      let m := billboard object camera cameraUp cameraForward
      (IsFrame m.axes ∧ (ofRows m.axes).determinant = 1) ∧
      m.r3 = face.extend 0 ∧ m.r4 = object.extend 1 ∧
      billboard (checked object) (checked camera) (checked cameraUp) (checked cameraForward) =
        checked m := by
  intro face
  have hface : UnitLength face := unitLength_facing hcamera
  refine ⟨hface, ?_, ?_⟩
  · intro axis objectForward haxis hobject m
    obtain ⟨hunit, halong⟩ := towardFrom_not_along haxis hface hobject
    have hrotation := isRotation_axesAround haxis hunit halong
    have hm : m = fromFrame (axesAround axis (towardFrom axis face objectForward)) object :=
      constrainedBillboard_eq_fromFrame object camera axis cameraForward objectForward
    rw [hm]
    refine ⟨⟨hrotation.frame, hrotation.determinant⟩, rfl, rfl, ?_, ?_⟩
    · intro hturned
      rw [towardFrom_of_le hturned] at hunit halong ⊢
      exact axesAround_z haxis hunit halong
    · rw [constrainedBillboard_eq_fromFrame, facing_checked, towardFrom_checked,
        axesAround_checked haxis hunit halong]
      rfl
  · intro cameraUp hup m
    have hm : m = fromFrame (axesUnder cameraUp face) object :=
      billboard_eq_fromFrame object camera cameraUp cameraForward
    have hpos : 0 < length (cameraUp.cross face) :=
      Vec3.length_cross_pos (Vec3.ne_zero_of_unitLength hface) hup
    have hright : dot face (normalize (cameraUp.cross face)) = 0 :=
      Vec3.dot_normalize (Vec3.dot_cross_right cameraUp face)
    have hrotation : (ofRows (axesUnder cameraUp face)).IsRotation :=
      isRotation_of_cross (Vec3.unitLength_normalize hpos) hface hright
    have hx : normalize ((checked cameraUp).cross (checked face)) =
        checked (normalize (cameraUp.cross face)) :=
      Vec3.normalize_checked hpos
    rw [hm]
    refine ⟨⟨hrotation.frame, hrotation.determinant⟩, rfl, rfl, ?_⟩
    rw [billboard_eq_fromFrame, facing_checked, axesUnder, hx]
    rfl

/-- An axis that points at the camera, on an object whose own forward direction is along it
too, and a free billboard at the same place. -/
theorem billboards_along_third_axis :
    let object : Vec3 ℝ := ⟨0, 0, 5⟩
    let camera : Vec3 ℝ := ⟨0, 0, 0⟩
    let forward : Vec3 ℝ := Vec3.unitZ
    let fixed := constrainedBillboard object camera Vec3.unitZ forward forward
    let free := billboard object camera Vec3.unitY forward
    UnitLength forward ∧ (∀ s : ℝ, Vec3.unitY ≠ s * facing object camera forward) ∧
      alignment < |dot Vec3.unitZ (facing object camera forward)| ∧
      alignment < |dot Vec3.unitZ forward| ∧
      (IsFrame fixed.axes ∧ (ofRows fixed.axes).determinant = 1) ∧
      (IsFrame free.axes ∧ (ofRows free.axes).determinant = 1) := by
  intro object camera forward fixed free
  have hforward : UnitLength forward := Vec3.unitLength_unitZ
  have hoffset : object - camera = ⟨0, 0, 5⟩ := by
    simp only [object, camera, Vec3.sub_eq, sub_zero]
  have hsquared : lengthSquared (object - camera) = 5 * 5 := by
    rw [hoffset]
    norm_num [lengthSquared, Vec3.dot_eq]
  have hface : facing object camera forward = Vec3.unitZ := by
    have hcoincident : (coincident : ℝ) = 1e-4 := rfl
    rw [facing_of_not_coincident (by rw [hsquared, hcoincident]; norm_num), hsquared, hoffset,
      Real.sqrt_mul_self (by norm_num), Vec3.mulRight_eq]
    norm_num [Vec3.unitZ]
  have hup : ∀ s : ℝ, Vec3.unitY ≠ s * facing object camera forward := by
    intro s hs
    rw [hface] at hs
    simp only [Vec3.unitY, Vec3.unitZ, Vec3.mulLeft_eq] at hs
    obtain ⟨-, hy, -⟩ := Vec3.mk.inj hs
    linarith
  have halong : alignment < |dot (Vec3.unitZ : Vec3 ℝ) Vec3.unitZ| := by
    have hone : dot (Vec3.unitZ : Vec3 ℝ) Vec3.unitZ = 1 := Vec3.unitLength_unitZ
    rw [hone, abs_one]
    exact alignment_bounds.2
  obtain ⟨-, hfixed, hfree⟩ := billboards_are_frames hforward object camera
  refine ⟨hforward, hup, ?_, halong, (hfixed _ _ Vec3.unitLength_unitZ hforward).1,
    (hfree _ hup).1⟩
  rw [hface]
  exact halong

end Matrix4

end Spatial
