import Mathlib
import Spatial.Projection
import Spatial.Proofs.Binary.Error

/-!
# Perspective projections in binary32

1.  A perspective projection has a result exactly if its clip planes stand at positive
    distances in order, and its field of view between zero and half a turn, as numbers.
    Otherwise it blames one of its arguments, and the value of that breaks the rule stated.
2.  Admitted distances differ, so their difference is not rounded to a zero, and the near one
    is finite.  Then every element of the matrix is a number as long as the far distance is
    finite.  An infinite far distance is admitted, and the two elements that hold the ratio
    of the far distance to the difference are undefined: infinity over infinity.
-/

namespace Spatial.Matrix4

open Binary32

variable {ρ σ : Type} {arguments : List (String × Float32)} {near far : Float32}

/-! ## Admission -/

/-- The value breaks the rule that a reason states. -/
inductive Breaks (arguments : List (String × Float32)) (value : Float32) : String → Prop
  | sign (h : ¬0 < value) : Breaks arguments value "must be positive"
  | order {far : Float32} (hfar : ("far_plane_distance", far) ∈ arguments) (h : ¬value < far) :
      Breaks arguments value "must be less than far_plane_distance"
  | range (h : ¬(0 < value ∧ value < Scalar.pi)) : Breaks arguments value "must be in (0, pi)"

/-- The failure names one of the arguments, with its value, and the rule that this breaks. -/
inductive Blames (arguments : List (String × Float32)) : Failure Float32 → Prop
  | argument {name : String} {value : Float32} {reason : String}
      (hargument : (name, value) ∈ arguments) (hreason : Breaks arguments value reason) :
      Blames arguments (.invalidProjection name value reason)

/-- There is a result exactly if the arguments are admissible, and otherwise a failure that
blames one of them. -/
structure Admits (arguments : List (String × Float32)) (admissible : Prop)
    (outcome : Except (Failure Float32) ρ) : Prop where
  ok_iff : (∃ result, outcome = .ok result) ↔ admissible
  blames : ¬admissible → ∃ failure, outcome = .error failure ∧ Blames arguments failure

/-- A result is given where the arguments are admissible. -/
theorem Admits.of_ok {admissible : Prop} (h : admissible) (result : ρ) :
    Admits arguments admissible (.ok result) :=
  ⟨iff_of_true ⟨result, rfl⟩ h, absurd h⟩

/-- A failure that blames an argument is given where they are not. -/
theorem Admits.of_error {admissible : Prop} {failure : Failure Float32} (h : ¬admissible)
    (hblames : Blames arguments failure) :
    Admits arguments admissible (.error failure : Except (Failure Float32) ρ) :=
  ⟨iff_of_false nofun h, fun _ => ⟨failure, rfl, hblames⟩⟩

/-- What is admitted after a check are the arguments that both admit. -/
theorem Admits.bind {first second : Prop} {outcome : Except (Failure Float32) σ}
    {next : σ → Except (Failure Float32) ρ} (h : Admits arguments first outcome)
    (hnext : ∀ x, Admits arguments second (next x)) :
    Admits arguments (first ∧ second) (outcome >>= next) := by
  cases outcome with
  | error failure =>
      have hfirst : ¬first := fun hfirst => by
        obtain ⟨x, hx⟩ := h.ok_iff.mpr hfirst
        cases hx
      obtain ⟨blamed, hblamed, hblames⟩ := h.blames hfirst
      cases hblamed
      exact .of_error (fun hboth => hfirst hboth.1) hblames
  | ok x =>
      have hfirst : first := h.ok_iff.mp ⟨x, rfl⟩
      have hsecond := hnext x
      exact ⟨hsecond.ok_iff.trans (and_iff_right hfirst).symm,
        fun hnot => hsecond.blames fun hs => hnot ⟨hfirst, hs⟩⟩

/-- What goes on after a check was admitted. -/
theorem Admits.of_bind_ok {admissible : Prop} {check : Except (Failure Float32) Unit}
    (h : Admits arguments admissible check) {next : Unit → Except (Failure Float32) ρ}
    {result : ρ} (hok : (check >>= next) = .ok result) : admissible ∧ next () = .ok result := by
  cases check with
  | error failure => cases hok
  | ok _ => exact ⟨h.ok_iff.mp ⟨_, rfl⟩, hok⟩

/-- The check of the clip planes admits them in their order, or blames one of them. -/
theorem admits_checkClipPlanes (hnear : ("near_plane_distance", near) ∈ arguments)
    (hfar : ("far_plane_distance", far) ∈ arguments) :
    Admits arguments (0 < near ∧ near < far) (checkClipPlanes near far) := by
  unfold checkClipPlanes
  split_ifs with hnear_pos hfar_pos horder
  · have hless : ¬near < far := by
      rw [not_lt_iff]
      exact .inl horder
    exact .of_error (fun h => hless h.2) (.argument hnear (.order hfar hless))
  · -- Neither is undefined, so one is below the other.
    obtain ⟨-, hnear_number, -⟩ := lt_iff_rank.mp hnear_pos
    obtain ⟨-, hfar_number, -⟩ := lt_iff_rank.mp hfar_pos
    have hless : near < far := by
      by_contra hnot
      rcases not_lt_iff.mp hnot with hle | hnan | hnan
      · exact horder hle
      · rw [hfar_number] at hnan; cases hnan
      · rw [hnear_number] at hnan; cases hnan
    exact .of_ok ⟨hnear_pos, hless⟩ ()
  · exact .of_error (fun h => hfar_pos (lt_trans h.1 h.2)) (.argument hfar (.sign hfar_pos))
  · exact .of_error (fun h => hnear_pos h.1) (.argument hnear (.sign hnear_pos))

/-- The check of the angle admits one between zero and half a turn, or blames it. -/
theorem admits_checkFieldOfView {fieldOfView : Float32}
    (h : ("field_of_view", fieldOfView) ∈ arguments) :
    Admits arguments (0 < fieldOfView ∧ fieldOfView < Scalar.pi)
      (checkFieldOfView fieldOfView) := by
  unfold checkFieldOfView
  split_ifs with hrange
  · exact .of_ok hrange ()
  · exact .of_error hrange (.argument h (.range hrange))

/-- A check decides whether the result behind it is given. -/
theorem admits_then_ok {admissible : Prop} {check : Except (Failure Float32) Unit}
    (h : Admits arguments admissible check) (result : ρ) :
    Admits arguments admissible (check >>= fun _ => .ok result) := by
  have hboth := h.bind fun _ => Admits.of_ok trivial result
  rwa [and_true] at hboth

/-- **Admission.**  A perspective projection of any arguments has a result exactly if its clip
planes stand at positive distances in order, and its field of view between zero and `pi`.
Otherwise the failure names one of the arguments, with its own value, and a rule that this
breaks. -/
theorem perspectives_admit_or_blame :
    (∀ width height near far : Float32,
      Admits [("width", width), ("height", height), ("near_plane_distance", near),
        ("far_plane_distance", far)]
        (0 < near ∧ near < far) (perspective width height near far)) ∧
    (∀ fieldOfView aspectRatio near far : Float32,
      Admits [("field_of_view", fieldOfView), ("aspect_ratio", aspectRatio),
        ("near_plane_distance", near), ("far_plane_distance", far)]
        ((0 < fieldOfView ∧ fieldOfView < Scalar.pi) ∧ 0 < near ∧ near < far)
        (perspectiveFieldOfView fieldOfView aspectRatio near far)) ∧
    (∀ left right bottom top near far : Float32,
      Admits [("left", left), ("right", right), ("bottom", bottom), ("top", top),
        ("near_plane_distance", near), ("far_plane_distance", far)]
        (0 < near ∧ near < far) (perspectiveOffCenter left right bottom top near far)) := by
  refine ⟨fun width height near far => ?_, fun fieldOfView aspectRatio near far => ?_,
    fun left right bottom top near far => ?_⟩
  · exact admits_then_ok (admits_checkClipPlanes (by simp) (by simp)) _
  · refine (admits_checkFieldOfView (by simp)).bind fun _ => ?_
    exact admits_then_ok (admits_checkClipPlanes (by simp) (by simp)) _
  · exact admits_then_ok (admits_checkClipPlanes (by simp) (by simp)) _

/-- A near distance that is no number is blamed, though it is not below zero. -/
example : perspective 1 1 Scalar.undefined (1 : Float32) =
    .error (.invalidProjection "near_plane_distance" Scalar.undefined "must be positive") := by
  decide +kernel

/-! ## Defined elements -/

/-- The elements of a perspective projection that hold the ratio of the far distance to the
difference of the distances. -/
def depthElements (value : Bool) : Matrix4 Bool :=
  ⟨⟨false, false, false, false⟩, ⟨false, false, false, false⟩, ⟨false, false, value, false⟩,
    ⟨false, false, value, false⟩⟩

/-- Clip planes that a perspective projection admits. -/
structure Admissible (near far : Float32) : Prop where
  near_pos : 0 < near
  near_lt_far : near < far

namespace Admissible

/-- The distance of the near plane can be divided by. -/
theorem near_isDivisor (h : Admissible near far) : IsDivisor near :=
  isDivisor_of_pos h.near_pos (isFinite_of_lt h.near_pos h.near_lt_far)

/-- The distance of the far plane is a number. -/
theorem far_isNaN (h : Admissible near far) : far.isNaN = false :=
  (lt_iff_rank.mp h.near_lt_far).2.1

/-- The ratio is undefined exactly if the far distance is infinite. -/
theorem isNaN_range (h : Admissible near far) : (far / (near - far)).isNaN = far.isInf := by
  have hnear := h.near_isDivisor
  have hfar_pos : 0 < far := lt_trans h.near_pos h.near_lt_far
  cases hinfinite : far.isInf with
  | true =>
      obtain ⟨t, m, e, hm, hvnear⟩ := hnear.exists_value
      obtain ⟨s, hvfar⟩ := exists_infinity hinfinite
      have hdifference : value (near - far) = .infinity (-s) := by
        rw [sub_eq, hvnear, hvfar]
        exact value_ofValue_infinity _
      rw [div_eq, hvfar, hdifference, isNaN_ofValue]
      rfl
  | false =>
      have hfar : far.isFinite = true := isFinite_of_not h.far_isNaN hinfinite
      have hdifference := isRoundedSum_sub hnear.isFinite hfar
      exact (isDivisor_of_pos hfar_pos hfar).isNaN_div hdifference.isNaN

/-- The offset of the depth is undefined exactly if the far plane is at infinity. -/
theorem isNaN_range_mul (h : Admissible near far) :
    (far / (near - far) * near).isNaN = far.isInf := by
  cases hinfinite : far.isInf with
  | true =>
      have hrange : (far / (near - far)).isNaN = true := h.isNaN_range.trans hinfinite
      rw [mul_comm]
      exact isNaN_mul_right near hrange
  | false => exact isNaN_mul (h.isNaN_range.trans hinfinite) h.near_isDivisor

/-- Twice the near distance over the width of the view volume. -/
theorem isNaN_scale (h : Admissible near far) {width : Float32} (hwidth : IsDivisor width) :
    (2 * near / width).isNaN = false :=
  isNaN_div (isNaN_mul (by decide +kernel) h.near_isDivisor) hwidth

/-- A projection with defined scales and offsets. -/
theorem map_isNaN (h : Admissible near far) {scaleX scaleY offsetX offsetY : Float32}
    (hscaleX : scaleX.isNaN = false) (hscaleY : scaleY.isNaN = false)
    (hoffsetX : offsetX.isNaN = false) (hoffsetY : offsetY.isNaN = false) :
    Components.map Float32.isNaN
      (⟨⟨scaleX, 0, 0, 0⟩, ⟨0, scaleY, 0, 0⟩, ⟨offsetX, offsetY, far / (near - far), -1⟩,
        ⟨0, 0, far / (near - far) * near, 0⟩⟩ : Matrix4 Float32) = depthElements far.isInf := by
  have hzero : (0 : Float32).isNaN = false := by decide +kernel
  have hone : (-1 : Float32).isNaN = false := by decide +kernel
  simp only [Components.map, depthElements, hscaleX, hscaleY, hoffsetX, hoffsetY, h.isNaN_range,
    h.isNaN_range_mul, hzero, hone]

end Admissible

/-- Behind the check of the clip planes they are admissible. -/
theorem admissible_of_ok {result : ρ} {next : Unit → Except (Failure Float32) ρ}
    (hok : (checkClipPlanes near far >>= next) = .ok result) :
    Admissible near far ∧ next () = .ok result := by
  have hadmits : Admits [("near_plane_distance", near), ("far_plane_distance", far)]
      (0 < near ∧ near < far) (checkClipPlanes near far) :=
    admits_checkClipPlanes (by simp) (by simp)
  obtain ⟨⟨hpos, hless⟩, hnext⟩ := hadmits.of_bind_ok hok
  exact ⟨⟨hpos, hless⟩, hnext⟩

/-- The projection with a field of view, on a platform. -/
theorem perspectiveFieldOfView_eq (platform : Circular)
    (fieldOfView aspectRatio near far : Float32) :
    @perspectiveFieldOfView Float32 platform.scalar fieldOfView aspectRatio near far =
      checkFieldOfView fieldOfView >>= fun _ => checkClipPlanes near far >>= fun _ =>
        .ok ⟨⟨1 / platform.tan (fieldOfView * 0.5) / aspectRatio, 0, 0, 0⟩,
          ⟨0, 1 / platform.tan (fieldOfView * 0.5), 0, 0⟩, ⟨0, 0, far / (near - far), -1⟩,
          ⟨0, 0, far / (near - far) * near, 0⟩⟩ := rfl

/-- A bound of a view volume, finite and far from the end of the format. -/
structure IsBound (x : Float32) : Prop where
  isFinite : x.isFinite = true
  abs_lt : |exact x| < 10 ^ 18

/-- The width of a view volume whose bounds differ. -/
theorem IsBound.sub_isDivisor {left right : Float32} (hleft : IsBound left)
    (hright : IsBound right) (hne : (left == right) = false) : IsDivisor (right - left) := by
  have hwidth := isRoundedSum_sub hright.isFinite hleft.isFinite
  have hless : |exact right - exact left| ≤ 2 ^ (100 : ℤ) := by
    have hsum := abs_sub (exact right) (exact left)
    have hlimit : (10 : ℚ) ^ 18 + 10 ^ 18 ≤ 2 ^ (100 : ℤ) := by norm_num
    linarith [hleft.abs_lt, hright.abs_lt]
  refine ⟨hwidth.isFinite hless, ?_⟩
  rw [← Bool.not_eq_true, ← isZero_iff]
  exact not_isZero_sub hright.isFinite hleft.isFinite ((beq_comm right left).trans hne)

/-- The offset of a view volume whose bounds differ. -/
theorem IsBound.isNaN_offset {left right : Float32} (hleft : IsBound left)
    (hright : IsBound right) (hne : (left == right) = false) :
    ((left + right) / (right - left)).isNaN = false :=
  isNaN_div (isRoundedSum_add hleft.isFinite hright.isFinite).isNaN
    (hleft.sub_isDivisor hright hne)

/-- **Defined projections.**  In binary32, on a platform whose tangent of a finite number is a
number, the result of a perspective projection of sane arguments has no undefined element,
except that the two elements that hold the ratio of the distances are undefined if the far
one is infinite. -/
theorem perspectives_defined (platform : Circular)
    (htan : ∀ x, x.isFinite = true → (platform.tan x).isNaN = false) :
    (∀ (width height near far : Float32) (m : Matrix4 Float32),
      IsDivisor width → IsDivisor height → perspective width height near far = .ok m →
      Components.map Float32.isNaN m = depthElements far.isInf) ∧
    (∀ (fieldOfView aspectRatio near far : Float32) (m : Matrix4 Float32),
      IsDivisor aspectRatio →
      @perspectiveFieldOfView Float32 platform.scalar fieldOfView aspectRatio near far = .ok m →
      Components.map Float32.isNaN m = depthElements far.isInf) ∧
    (∀ (left right bottom top near far : Float32) (m : Matrix4 Float32),
      IsBound left → IsBound right → IsBound bottom → IsBound top →
      (left == right) = false → (bottom == top) = false →
      perspectiveOffCenter left right bottom top near far = .ok m →
      Components.map Float32.isNaN m = depthElements far.isInf) := by
  have hzero : (0 : Float32).isNaN = false := by decide +kernel
  refine ⟨?_, ?_, ?_⟩
  · intro width height near far m hwidth hheight hok
    obtain ⟨hplanes, hm⟩ := admissible_of_ok hok
    cases hm
    exact hplanes.map_isNaN (hplanes.isNaN_scale hwidth) (hplanes.isNaN_scale hheight) hzero hzero
  · intro fieldOfView aspectRatio near far m haspect hok
    rw [perspectiveFieldOfView_eq] at hok
    have hview : Admits [("field_of_view", fieldOfView)]
        (0 < fieldOfView ∧ fieldOfView < Scalar.pi) (checkFieldOfView fieldOfView) :=
      admits_checkFieldOfView (by simp)
    obtain ⟨⟨hpos, hless⟩, hnext⟩ := hview.of_bind_ok hok
    obtain ⟨hplanes, hm⟩ := admissible_of_ok hnext
    cases hm
    have hhalf := isUnit_half.isFinite_mul (isFinite_of_lt hpos hless)
    have hone : IsDivisor 1 := ⟨by decide +kernel, by decide +kernel⟩
    have hscale := hone.isNaN_div (htan _ hhalf)
    exact hplanes.map_isNaN (isNaN_div hscale haspect) hscale hzero hzero
  · intro left right bottom top near far m hleft hright hbottom htop hx hy hok
    obtain ⟨hplanes, hm⟩ := admissible_of_ok hok
    cases hm
    have hoffset := hbottom.isNaN_offset htop hy
    rw [Binary32.add_comm] at hoffset
    exact hplanes.map_isNaN (hplanes.isNaN_scale (hleft.sub_isDivisor hright hx))
      (hplanes.isNaN_scale (hbottom.sub_isDivisor htop hy)) (hleft.isNaN_offset hright hx) hoffset

/-- The closest planes there are, a view of a quarter turn, and an infinite far distance.  The
tangent is exact for half the view. -/
theorem closest_and_farthest_planes :
    let platform : Circular :=
      { Circular.native with tan := fun x => if x == 0.7853981633974483 then 1 else x }
    let least := Float32.ofBits 0x00000001
    let infinity := Float32.ofBits 0x7f800000
    (∀ x, x.isFinite = true → (platform.tan x).isNaN = false) ∧ IsDivisor 1 ∧ IsBound 0 ∧
      IsBound 1 ∧
      (∃ m, perspective 1 1 least (2 * least) = .ok m ∧
        Components.map Float32.isNaN m = depthElements false) ∧
      (∃ m, @perspectiveFieldOfView Float32 platform.scalar 1.5707963267948966 1 1 2 = .ok m ∧
        Components.map Float32.isNaN m = depthElements false) ∧
      (∃ m, perspectiveOffCenter 0 1 0 1 1 infinity = .ok m ∧
        Components.map Float32.isNaN m = depthElements true) := by
  intro platform least infinity
  have htan (x : Float32) (hx : x.isFinite = true) : (platform.tan x).isNaN = false := by
    show (if x == 0.7853981633974483 then (1 : Float32) else x).isNaN = false
    split_ifs
    · decide +kernel
    · exact isNaN_of_isFinite hx
  have hone : IsDivisor 1 := ⟨by decide +kernel, by decide +kernel⟩
  have hbound_zero : IsBound 0 := by
    refine ⟨isFinite_zero, ?_⟩
    rw [(isZero_iff_exact isFinite_zero).mp isZero_zero]
    norm_num
  have hbound_one : IsBound 1 := by
    refine ⟨isFinite_one, ?_⟩
    rw [exact_of_value value_one]
    norm_num [Float.Model.UnpackedFloat.Sign.apply]
  obtain ⟨hcentered, hview, hoffCenter⟩ := perspectives_defined platform htan
  refine ⟨htan, hone, hbound_zero, hbound_one, ?_, ?_, ?_⟩
  · have hok : perspective 1 1 least (2 * least) =
        .ok ⟨⟨2 * least, 0, 0, 0⟩, ⟨0, 2 * least, 0, 0⟩, ⟨0, 0, -2, -1⟩,
          ⟨0, 0, -(2 * least), 0⟩⟩ := by
      decide +kernel
    have hfar : (2 * least).isInf = false := by decide +kernel
    exact ⟨_, hok, hfar ▸ hcentered _ _ _ _ _ hone hone hok⟩
  · have hok : @perspectiveFieldOfView Float32 platform.scalar 1.5707963267948966 1 1 2 =
        .ok ⟨⟨1, 0, 0, 0⟩, ⟨0, 1, 0, 0⟩, ⟨0, 0, -2, -1⟩, ⟨0, 0, -2, 0⟩⟩ := by
      decide +kernel
    exact ⟨_, hok, hview _ _ _ _ _ hone hok⟩
  · have hok : perspectiveOffCenter 0 1 0 1 1 infinity =
        .ok ⟨⟨2, 0, 0, 0⟩, ⟨0, 2, 0, 0⟩, ⟨1, 1, Scalar.undefined, -1⟩,
          ⟨0, 0, Scalar.undefined, 0⟩⟩ := by
      decide +kernel
    have hfar : infinity.isInf = true := by decide +kernel
    have hne : ((0 : Float32) == 1) = false := by decide +kernel
    exact ⟨_, hok, hfar ▸ hoffCenter _ _ _ _ _ _ _ hbound_zero hbound_one hbound_zero hbound_one
      hne hne hok⟩

/-- An infinite far distance is admitted, and some element is undefined. -/
theorem infinite_far_plane_undefined :
    let infinity := Float32.ofBits 0x7f800000
    IsDivisor 1 ∧ Admissible 1 infinity ∧
      ∃ m, perspective 1 1 1 infinity = .ok m ∧ Components.isNaN m = true := by
  refine ⟨⟨?_, ?_⟩, ⟨?_, ?_⟩, ⟨⟨2, 0, 0, 0⟩, ⟨0, 2, 0, 0⟩, ⟨0, 0, Scalar.undefined, -1⟩,
    ⟨0, 0, Scalar.undefined, 0⟩⟩, ?_, ?_⟩ <;>
    decide +kernel

end Spatial.Matrix4
