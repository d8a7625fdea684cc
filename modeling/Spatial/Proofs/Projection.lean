import Mathlib
import Spatial.Projection
import Spatial.Proofs.Inverse

/-!
# Clip volumes

A projection takes a box in front of the camera to the clip volume.  Across and up a
coordinate goes to its place between two bounds, from minus one to one; the depth goes
from zero at the near plane to one at the far plane.

1.  A perspective projection has four numbers, a scale and an offset for each of two
    coordinates, and gives a point its distance for a fourth component.  After the
    division by it the offset is the same at every distance and the scale is not: the
    bounds are those at the near plane.  The depth is `far/(far - near)` times
    `1 - near/distance`, which grows with the distance.
2.  The centered projection and the one with a field of view are the one with bounds,
    for bounds of which one is minus the other.
3.  An orthographic projection is affine, and has the same bounds at every distance.
-/

namespace Spatial.Matrix4

/-- The place of a number between two bounds, minus one at the first and one at the
second. -/
noncomputable def place (low high x : ℝ) : ℝ := (2 * x - (low + high)) / (high - low)

/-- The lower bound is taken to minus one. -/
theorem place_low {low high : ℝ} (h : low ≠ high) : place low high low = -1 := by
  have hne : high - low ≠ 0 := sub_ne_zero.mpr h.symm
  rw [place, div_eq_iff hne]
  ring

/-- The upper bound is taken to one. -/
theorem place_high {low high : ℝ} (h : low ≠ high) : place low high high = 1 := by
  have hne : high - low ≠ 0 := sub_ne_zero.mpr h.symm
  rw [place, div_eq_iff hne]
  ring

/-- The image of a point after the division by its fourth component. -/
def project {α : Type} [Scalar α] (m : Matrix4 α) (v : Vec3 α) : Vec3 α :=
  let row := m.transformHomogeneous v
  row.xyz / row.w

/-! Perspective. -/

/-- The depth of a point at a distance from the camera. -/
noncomputable def depth (near far distance : ℝ) : ℝ :=
  far / (far - near) * (1 - near / distance)

section Depth

variable {near far : ℝ} (hnear : 0 < near) (hfar : near < far)
include hnear

/-- The near plane is taken to depth zero. -/
theorem depth_near : depth near far near = 0 := by
  rw [depth, div_self hnear.ne', sub_self, mul_zero]

include hfar

/-- The far plane is taken to depth one. -/
theorem depth_far : depth near far far = 1 := by
  have hpos : 0 < far := hnear.trans hfar
  have hrange : far - near ≠ 0 := (sub_pos.mpr hfar).ne'
  rw [depth]
  field_simp

/-- The depth grows with the distance. -/
theorem depth_lt_depth {d e : ℝ} (hd : 0 < d) (hde : d < e) :
    depth near far d < depth near far e := by
  have hfactor : 0 < far / (far - near) := div_pos (hnear.trans hfar) (sub_pos.mpr hfar)
  have hquotient : near / e < near / d := div_lt_div_of_pos_left hnear hd hde
  exact mul_lt_mul_of_pos_left (sub_lt_sub_left hquotient 1) hfactor

end Depth

/-- The perspective projection with given scales and offsets. -/
noncomputable def viewVolume (scaleX scaleY offsetX offsetY near far : ℝ) : Matrix4 ℝ :=
  ⟨⟨scaleX, 0, 0, 0⟩, ⟨0, scaleY, 0, 0⟩, ⟨offsetX, offsetY, far / (near - far), -1⟩,
    ⟨0, 0, far / (near - far) * near, 0⟩⟩

/-- Clip planes in their order are accepted. -/
theorem checkClipPlanes_ok {near far : ℝ} (hnear : 0 < near) (hfar : near < far) :
    checkClipPlanes near far = .ok () := by
  have hpos : 0 < far := hnear.trans hfar
  unfold checkClipPlanes
  rw [if_neg (not_not_intro hnear), if_neg (not_not_intro hpos), if_neg (not_le.mpr hfar)]

/-- The perspective with given bounds, for clip planes in their order. -/
theorem perspectiveOffCenter_ok (left right bottom top : ℝ) {near far : ℝ} (hnear : 0 < near)
    (hfar : near < far) :
    perspectiveOffCenter left right bottom top near far =
      .ok (viewVolume (2 * near / (right - left)) (2 * near / (top - bottom))
        ((left + right) / (right - left)) ((top + bottom) / (top - bottom)) near far) := by
  unfold perspectiveOffCenter
  rw [checkClipPlanes_ok hnear hfar]
  rfl

/-- The perspective with a given size. -/
theorem perspective_ok (width height : ℝ) {near far : ℝ} (hnear : 0 < near) (hfar : near < far) :
    perspective width height near far =
      .ok (viewVolume (2 * near / width) (2 * near / height) 0 0 near far) := by
  unfold perspective
  rw [checkClipPlanes_ok hnear hfar]
  rfl

/-- The perspective with a given angle. -/
theorem perspectiveFieldOfView_ok {angle : ℝ} (hangle : 0 < angle) (hturn : angle < Real.pi)
    (aspect : ℝ) {near far : ℝ} (hnear : 0 < near) (hfar : near < far) :
    perspectiveFieldOfView angle aspect near far =
      .ok (viewVolume (1 / Real.tan (angle * 0.5) / aspect) (1 / Real.tan (angle * 0.5)) 0 0
        near far) := by
  have hview : checkFieldOfView angle = .ok () := if_pos ⟨hangle, hturn⟩
  unfold perspectiveFieldOfView
  rw [hview, checkClipPlanes_ok hnear hfar]
  rfl

section Image

variable (scaleX scaleY offsetX offsetY near far : ℝ)

/-- The fourth component of the image is the distance from the camera. -/
theorem viewVolume_distance (v : Vec3 ℝ) :
    ((viewVolume scaleX scaleY offsetX offsetY near far).transformHomogeneous v).w = -v.z := by
  simp only [transformHomogeneous, transformExtended, transform_eq, viewVolume, Vec3.extend]
  ring

/-- The image of a point at a distance from the camera. -/
theorem project_viewVolume (x y : ℝ) {d : ℝ} (hd : d ≠ 0) :
    project (viewVolume scaleX scaleY offsetX offsetY near far) ⟨x, y, -d⟩ =
      ⟨scaleX * x / d - offsetX, scaleY * y / d - offsetY, depth near far d⟩ := by
  have hrow : (viewVolume scaleX scaleY offsetX offsetY near far).transformHomogeneous
      ⟨x, y, -d⟩ =
        ⟨scaleX * x - offsetX * d, scaleY * y - offsetY * d, far / (near - far) * (near - d), d⟩ := by
    simp only [transformHomogeneous, transformExtended, transform_eq, viewVolume, Vec3.extend]
    ext <;> ring
  have hrange : far / (near - far) = -(far / (far - near)) := by
    rw [← div_neg, neg_sub]
  rw [project, hrow, hrange, depth]
  simp only [Vec4.xyz, Vec3.divRight_eq]
  ext <;> dsimp only
  · rw [sub_div, mul_div_cancel_right₀ _ hd]
  · rw [sub_div, mul_div_cancel_right₀ _ hd]
  · field_simp
    ring

end Image

/-- A perspective projection takes the view volume with given bounds at the near plane to
the clip volume. -/
structure FillsFromView (m : Matrix4 ℝ) (left right bottom top near far : ℝ) : Prop where
  distance (v : Vec3 ℝ) : (m.transformHomogeneous v).w = -v.z
  left_bottom : project m ⟨left, bottom, -near⟩ = ⟨-1, -1, 0⟩
  right_bottom : project m ⟨right, bottom, -near⟩ = ⟨1, -1, 0⟩
  left_top : project m ⟨left, top, -near⟩ = ⟨-1, 1, 0⟩
  right_top : project m ⟨right, top, -near⟩ = ⟨1, 1, 0⟩
  at_far (x y : ℝ) : (project m ⟨x, y, -far⟩).z = 1
  grows {d e : ℝ} (hd : near ≤ d) (hde : d < e) (he : e ≤ far) (x y x' y' : ℝ) :
    (project m ⟨x, y, -d⟩).z < (project m ⟨x', y', -e⟩).z

section Bounds

variable {left right bottom top near far : ℝ}

/-- At the near plane each coordinate goes to its place between its bounds. -/
theorem project_near (x y : ℝ) (hnear : 0 < near) (far : ℝ) :
    project (viewVolume (2 * near / (right - left)) (2 * near / (top - bottom))
        ((left + right) / (right - left)) ((top + bottom) / (top - bottom)) near far)
        ⟨x, y, -near⟩ =
      ⟨place left right x, place bottom top y, 0⟩ := by
  have hne : near ≠ 0 := hnear.ne'
  rw [project_viewVolume _ _ _ _ _ _ _ _ hne, depth_near hnear, place, place, add_comm top]
  ext <;> dsimp only
  · rw [sub_div]
    field_simp
  · rw [sub_div]
    field_simp

/-- The matrix of the view volume takes its bounds to those of the clip volume. -/
theorem fillsFromView_viewVolume (hnear : 0 < near) (hfar : near < far) (hx : left ≠ right)
    (hy : bottom ≠ top) :
    FillsFromView (viewVolume (2 * near / (right - left)) (2 * near / (top - bottom))
        ((left + right) / (right - left)) ((top + bottom) / (top - bottom)) near far)
      left right bottom top near far where
  distance := viewVolume_distance _ _ _ _ _ _
  left_bottom := by rw [project_near _ _ hnear, place_low hx, place_low hy]
  right_bottom := by rw [project_near _ _ hnear, place_high hx, place_low hy]
  left_top := by rw [project_near _ _ hnear, place_low hx, place_high hy]
  right_top := by rw [project_near _ _ hnear, place_high hx, place_high hy]
  at_far x y := by
    rw [project_viewVolume _ _ _ _ _ _ _ _ (hnear.trans hfar).ne', depth_far hnear hfar]
  grows hd hde _ x y x' y' := by
    have hpos := hnear.trans_le hd
    rw [project_viewVolume _ _ _ _ _ _ _ _ hpos.ne',
      project_viewVolume _ _ _ _ _ _ _ _ (hpos.trans hde).ne']
    exact depth_lt_depth hnear hfar hpos hde

end Bounds

/-! Bounds of which one is minus the other. -/

theorem half_sub_neg_half (a : ℝ) : a / 2 - -a / 2 = a := by
  ring

theorem neg_half_add_half (a : ℝ) : -a / 2 + a / 2 = 0 := by
  ring

/-- The tangent of half an angle of view is positive. -/
theorem tan_half_pos {angle : ℝ} (hangle : 0 < angle) (hturn : angle < Real.pi) :
    0 < Real.tan (angle / 2) :=
  Real.tan_pos_of_pos_of_lt_pi_div_two (by linarith) (by linarith)

section Centered

variable {near far : ℝ} (hnear : 0 < near) (hfar : near < far)
include hnear hfar

/-- The centered projection has half a width and half a height either way for bounds. -/
theorem perspective_eq_offCenter (width height : ℝ) :
    perspective width height near far =
      perspectiveOffCenter (-width / 2) (width / 2) (-height / 2) (height / 2) near far := by
  rw [perspective_ok _ _ hnear hfar, perspectiveOffCenter_ok _ _ _ _ hnear hfar,
    half_sub_neg_half, half_sub_neg_half, neg_half_add_half, add_comm (height / 2),
    neg_half_add_half, zero_div, zero_div]

/-- The projection with a field of view is the centered one with the height that the
field of view has at the near plane. -/
theorem perspectiveFieldOfView_eq_perspective {angle : ℝ} (hangle : 0 < angle)
    (hturn : angle < Real.pi) {aspect : ℝ} (haspect : aspect ≠ 0) :
    perspectiveFieldOfView angle aspect near far =
      perspective (2 * near * Real.tan (angle / 2) * aspect) (2 * near * Real.tan (angle / 2))
        near far := by
  have htan : Real.tan (angle / 2) ≠ 0 := (tan_half_pos hangle hturn).ne'
  have hne : near ≠ 0 := hnear.ne'
  have hy : 1 / Real.tan (angle / 2) = 2 * near / (2 * near * Real.tan (angle / 2)) := by
    field_simp
  have hx : 1 / Real.tan (angle / 2) / aspect =
      2 * near / (2 * near * Real.tan (angle / 2) * aspect) := by
    field_simp
  rw [perspectiveFieldOfView_ok hangle hturn _ hnear hfar, perspective_ok _ _ hnear hfar,
    mul_one_half, ← hx, ← hy]

end Centered

/-! Orthographic. -/

/-- An orthographic projection takes the box with given bounds to the clip volume. -/
structure FillsFromBox (m : Matrix4 ℝ) (left right bottom top near far : ℝ) : Prop where
  at_left (y z : ℝ) : (m.transformPoint ⟨left, y, z⟩).x = -1
  at_right (y z : ℝ) : (m.transformPoint ⟨right, y, z⟩).x = 1
  at_bottom (x z : ℝ) : (m.transformPoint ⟨x, bottom, z⟩).y = -1
  at_top (x z : ℝ) : (m.transformPoint ⟨x, top, z⟩).y = 1
  at_near (x y : ℝ) : (m.transformPoint ⟨x, y, -near⟩).z = 0
  at_far (x y : ℝ) : (m.transformPoint ⟨x, y, -far⟩).z = 1

/-- The elements of the orthographic map. -/
theorem orthographicOffCenter_eq (left right bottom top near far : ℝ) :
    orthographicOffCenter left right bottom top near far =
      ⟨⟨2 / (right - left), 0, 0, 0⟩, ⟨0, 2 / (top - bottom), 0, 0⟩,
        ⟨0, 0, 1 / (near - far), 0⟩,
        ⟨(left + right) / (left - right), (top + bottom) / (bottom - top),
          1 / (near - far) * near, 1⟩⟩ := rfl

/-- Each coordinate goes to its place between its bounds, and the depth to its share of
the way from the near plane to the far one. -/
theorem orthographicOffCenter_transformPoint (left right bottom top near far : ℝ) (v : Vec3 ℝ) :
    (orthographicOffCenter left right bottom top near far).transformPoint v =
      ⟨place left right v.x, place bottom top v.y, (v.z + near) / (near - far)⟩ := by
  have hoffset (a b : ℝ) : (a + b) / (a - b) = -((a + b) / (b - a)) := by
    rw [← div_neg, neg_sub]
  rw [orthographicOffCenter_eq, add_comm top, hoffset, hoffset]
  simp only [transformPoint, Vec4.xyz, Vec3.mulLeft_eq, Vec3.add_eq, place]
  ext <;> ring

/-- The orthographic map takes the bounds of a box to those of the clip volume. -/
theorem fillsFromBox_orthographicOffCenter {left right bottom top near far : ℝ}
    (hx : left ≠ right) (hy : bottom ≠ top) (hz : near ≠ far) :
    FillsFromBox (orthographicOffCenter left right bottom top near far)
      left right bottom top near far where
  at_left y z := by rw [orthographicOffCenter_transformPoint, place_low hx]
  at_right y z := by rw [orthographicOffCenter_transformPoint, place_high hx]
  at_bottom x z := by rw [orthographicOffCenter_transformPoint, place_low hy]
  at_top x z := by rw [orthographicOffCenter_transformPoint, place_high hy]
  at_near x y := by
    rw [orthographicOffCenter_transformPoint, neg_add_cancel, zero_div]
  at_far x y := by
    rw [orthographicOffCenter_transformPoint, neg_add_eq_sub, div_self (sub_ne_zero.mpr hz)]

/-- The centered projection has half a width and half a height either way for bounds. -/
theorem orthographic_eq_offCenter (width height near far : ℝ) :
    orthographic width height near far =
      orthographicOffCenter (-width / 2) (width / 2) (-height / 2) (height / 2) near far := by
  have hcentered : orthographic width height near far =
      ⟨⟨2 / width, 0, 0, 0⟩, ⟨0, 2 / height, 0, 0⟩, ⟨0, 0, 1 / (near - far), 0⟩,
        ⟨0, 0, 1 / (near - far) * near, 1⟩⟩ := rfl
  rw [hcentered, orthographicOffCenter_eq, half_sub_neg_half, half_sub_neg_half,
    neg_half_add_half, add_comm (height / 2), neg_half_add_half, zero_div, zero_div]

/-- **Projections fill the clip volume.**  A perspective projection with bounds is
accepted wherever its clip planes are at positive distances in order.  It takes the
corners of the view volume at the near plane to those of the clip volume and the far
plane to depth one, and between the planes the depth grows with the distance.  The
centered projection is the one with bounds half a width and half a height either way,
and the one with a field of view is the centered one with the height that the field has
at the near plane.  Both orthographic projections take a box whose sides are not zero to
the clip volume. -/
theorem projections_fill_clip_volume :
    (∀ left right bottom top near far : ℝ, 0 < near → near < far → left ≠ right →
      bottom ≠ top → ∃ m, perspectiveOffCenter left right bottom top near far = .ok m ∧
        FillsFromView m left right bottom top near far) ∧
    (∀ width height near far : ℝ, 0 < near → near < far → width ≠ 0 → height ≠ 0 →
      perspective width height near far =
        perspectiveOffCenter (-width / 2) (width / 2) (-height / 2) (height / 2) near far) ∧
    (∀ angle aspect near far : ℝ, 0 < near → near < far → 0 < angle → angle < Real.pi →
      aspect ≠ 0 →
        let height := 2 * near * Real.tan (angle / 2)
        0 < height ∧
          perspectiveFieldOfView angle aspect near far =
            perspective (height * aspect) height near far) ∧
    (∀ left right bottom top near far : ℝ, left ≠ right → bottom ≠ top → near ≠ far →
      FillsFromBox (orthographicOffCenter left right bottom top near far)
        left right bottom top near far) ∧
    (∀ width height near far : ℝ, width ≠ 0 → height ≠ 0 → near ≠ far →
      FillsFromBox (orthographic width height near far)
        (-width / 2) (width / 2) (-height / 2) (height / 2) near far) := by
  have hsides {a : ℝ} (ha : a ≠ 0) : -a / 2 ≠ a / 2 := by
    intro h
    exact ha (by linarith)
  refine ⟨?_, ?_, ?_, ?_, ?_⟩
  · intro left right bottom top near far hnear hfar hx hy
    exact ⟨_, perspectiveOffCenter_ok left right bottom top hnear hfar,
      fillsFromView_viewVolume hnear hfar hx hy⟩
  · intro width height near far hnear hfar _ _
    exact perspective_eq_offCenter hnear hfar width height
  · intro angle aspect near far hnear hfar hangle hturn haspect
    have htan := tan_half_pos hangle hturn
    exact ⟨by positivity, perspectiveFieldOfView_eq_perspective hnear hfar hangle hturn haspect⟩
  · intro left right bottom top near far hx hy hz
    exact fillsFromBox_orthographicOffCenter hx hy hz
  · intro width height near far hwidth hheight hz
    rw [orthographic_eq_offCenter]
    exact fillsFromBox_orthographicOffCenter (hsides hwidth) (hsides hheight) hz

/-- Volumes that lie to one side of the line of sight, a field of view of a quarter turn,
and a box whose far plane is behind the camera. -/
theorem oblique_volumes_fill :
    (∃ m, perspectiveOffCenter (1 : ℝ) 3 (-2) (-1) 1 4 = .ok m ∧
      FillsFromView m 1 3 (-2) (-1) 1 4) ∧
    perspective (6 : ℝ) 2 1 4 = perspectiveOffCenter (-6 / 2) (6 / 2) (-2 / 2) (2 / 2) 1 4 ∧
    perspectiveFieldOfView (Real.pi / 2) 3 1 4 = perspective 6 2 1 4 ∧
    FillsFromBox (orthographicOffCenter 1 3 (-2) (-1) 1 (-4)) 1 3 (-2) (-1) 1 (-4) ∧
    FillsFromBox (orthographic 6 2 1 (-4)) (-6 / 2) (6 / 2) (-2 / 2) (2 / 2) 1 (-4) := by
  obtain ⟨hoffCenter, hcentered, hfield, hboxOffCenter, hbox⟩ := projections_fill_clip_volume
  have hquarter : 2 * 1 * Real.tan (Real.pi / 2 / 2) = 2 := by
    rw [div_div, show (2 : ℝ) * 2 = 4 by norm_num, Real.tan_pi_div_four]
    norm_num
  have hturn : Real.pi / 2 < Real.pi := by linarith [Real.pi_pos]
  have hview := (hfield (Real.pi / 2) 3 1 4 (by norm_num) (by norm_num) (by positivity) hturn
    (by norm_num)).2
  rw [hquarter] at hview
  refine ⟨?_, ?_, ?_, ?_, ?_⟩
  · exact hoffCenter 1 3 (-2) (-1) 1 4 (by norm_num) (by norm_num) (by norm_num) (by norm_num)
  · exact hcentered 6 2 1 4 (by norm_num) (by norm_num) (by norm_num) (by norm_num)
  · rw [hview]
    norm_num
  · exact hboxOffCenter 1 3 (-2) (-1) 1 (-4) (by norm_num) (by norm_num) (by norm_num)
  · exact hbox 6 2 1 (-4) (by norm_num) (by norm_num) (by norm_num)

end Spatial.Matrix4
