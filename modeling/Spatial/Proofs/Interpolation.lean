import Mathlib
import Spatial.Quaternion
import Spatial.Proofs.Length

/-!
# Interpolation between rotations

Two unit quaternions span a plane, in which they are points of a circle, and of the
second and its negation one is at most a quarter of the circle away from the first.
Both interpolations go there, and each gives its two ends exactly.

1.  The chord between the two stays away from the origin: its points, also those beyond
    its ends, have a squared length of at least one half.  So normalising divides by no
    zero.
2.  The arc is taken where the cosine is below the bound, and there its angle has a sine
    other than zero.  `circle` runs around the circle by the angle, and the arc is
    `circle` at a fraction `t` of the whole angle, its two ends included.  The scalar
    product of two points is then the cosine of the angle between them.
3.  Reading from the second end back gives the same points, or their negations where
    the second quaternion was negated.
-/

namespace Spatial

open Components (dot lengthSquared length UnitLength checked)

namespace Quaternion

/-! The parts that both interpolations are made of. -/

section Parts

variable {α : Type} [Scalar α]

/-- Of a quaternion and its negation, the one that is not on the far side of another. -/
def nearer (p q : Quaternion α) : Quaternion α := if dot p q < 0 then -q else q

/-- The cosine of the shorter arc between two unit quaternions, up to their signs. -/
def arcCosine (p q : Quaternion α) : α := if dot p q < 0 then -dot p q else dot p q

/-- An interpolation with its two ends given exactly. -/
def withEnds (p q inner : Quaternion α) (t : α) : Quaternion α :=
  if t == 0 then p else if t == 1 then q else inner

/-- The point a fraction `t` of the way along the chord from `p` to `q`. -/
def chord (p q : Quaternion α) (t : α) : Quaternion α := p * (1 - t) + q * t

/-- The point a fraction `t` of the way along the arc from `p` to `q`, given the cosine
of the arc. -/
def arc (p q : Quaternion α) (cosine t : α) : Quaternion α :=
  let angle := Scalar.acos cosine
  let scale := 1 / Scalar.sin angle
  p * (Scalar.sin ((1 - t) * angle) * scale) + q * (Scalar.sin (t * angle) * scale)

/-- The cosine above which the chord is taken for the arc. -/
def nearParallel : α := 1 - 1e-6

/-- The point of the arc, or the direction of that of the chord where the arc is short. -/
def arcOrChord (p q : Quaternion α) (cosine t : α) : Quaternion α :=
  if cosine > nearParallel then normalize (chord p q t) else arc p q cosine t

/-- Linear interpolation is the chord, normalised, between the ends. -/
theorem lerp_eq (p q : Quaternion α) (t : α) :
    lerp p q t =
      withEnds p (nearer p q) (normalize (p + (nearer p q - p) * t)) t := rfl

/-- Spherical interpolation is the arc or the chord between the ends. -/
theorem slerp_eq (p q : Quaternion α) (t : α) :
    slerp p q t =
      withEnds p (nearer p q) (arcOrChord p (nearer p q) (arcCosine p q) t) t := rfl

end Parts

section Products

variable {K : Type} [ExactScalar K]

/-- The scalar product goes both ways. -/
theorem dot_comm (p q : Quaternion K) : dot p q = dot q p := by
  simp only [dot_eq]
  ring

/-- The opposite of a factor negates a scalar product. -/
theorem dot_neg (p q : Quaternion K) : dot p (-q) = -dot p q := by
  simp only [dot_eq, neg_eq]
  ring

/-- Opposite quaternions have one length. -/
theorem lengthSquared_neg (q : Quaternion K) : lengthSquared (-q) = lengthSquared q := by
  simp only [lengthSquared, dot_eq, neg_eq]
  ring

/-- The squared distance by the law of cosines. -/
theorem lengthSquared_sub (p q : Quaternion K) :
    lengthSquared (p - q) = lengthSquared p - (1 + 1) * dot p q + lengthSquared q := by
  simp only [lengthSquared, dot_eq, sub_eq]
  ring

/-- The scalar product of two points of the plane that two unit quaternions span. -/
theorem dot_combination {p q : Quaternion K} (hp : UnitLength p) (hq : UnitLength q)
    (a b c d : K) :
    dot (p * a + q * b) (p * c + q * d) = a * c + (a * d + b * c) * dot p q + b * d := by
  calc dot (p * a + q * b) (p * c + q * d)
      = a * c * lengthSquared p + (a * d + b * c) * dot p q + b * d * lengthSquared q := by
        simp only [lengthSquared, dot_eq, add_eq, mulRight_eq]
        ring
    _ = a * c + (a * d + b * c) * dot p q + b * d := by
        rw [hp, hq, mul_one, mul_one]

/-- A scalar product is linear in its right factor. -/
theorem dot_combination_right (r p q : Quaternion K) (c d : K) :
    dot r (p * c + q * d) = dot r p * c + dot r q * d := by
  simp only [dot_eq, add_eq, mulRight_eq]
  ring

/-- The point of the chord in the form that the linear interpolation has. -/
theorem add_sub_mulRight (p q : Quaternion K) (t : K) : p + (q - p) * t = chord p q t := by
  simp only [chord, add_eq, sub_eq, mulRight_eq]
  ext <;> ring

/-- A chord from a quaternion to itself stays there. -/
theorem chord_self (p : Quaternion K) (t : K) : chord p p t = p := by
  simp only [chord, add_eq, mulRight_eq]
  ext <;> ring

/-- A chord taken from its other end. -/
theorem chord_reverse (p q : Quaternion K) (t : K) : chord q p (1 - t) = chord p q t := by
  simp only [chord, add_eq, mulRight_eq]
  ext <;> ring

/-- A chord between opposites is the opposite chord. -/
theorem chord_neg (p q : Quaternion K) (t : K) : chord (-p) (-q) t = -chord p q t := by
  simp only [chord, add_eq, mulRight_eq, neg_eq]
  ext <;> ring

/-- The opposite of the opposite. -/
theorem neg_neg_eq (q : Quaternion K) : - -q = q := by
  simp only [neg_eq, neg_neg]

/-- The cosine of the arc is the scalar product with its far end. -/
theorem arcCosine_eq_dot (p q : Quaternion K) : arcCosine p q = dot p (nearer p q) := by
  unfold arcCosine nearer
  split_ifs
  · exact (dot_neg p q).symm
  · rfl

/-- The nearer of two opposites has unit length. -/
theorem unitLength_nearer (p : Quaternion K) {q : Quaternion K} (hq : UnitLength q) :
    UnitLength (nearer p q) := by
  unfold nearer
  split_ifs
  · exact (lengthSquared_neg q).trans hq
  · exact hq

end Products

/-! Normalising. -/

/-- A squared length is not negative. -/
theorem lengthSquared_nonneg (q : Quaternion ℝ) : 0 ≤ lengthSquared q := by
  simp only [lengthSquared, dot_eq]
  linarith [mul_self_nonneg q.x, mul_self_nonneg q.y, mul_self_nonneg q.z, mul_self_nonneg q.w]

/-- Where the squared length is positive, the length is. -/
theorem length_pos {q : Quaternion ℝ} (h : 0 < lengthSquared q) : 0 < length q :=
  Real.sqrt_pos.mpr h

/-- A quaternion of some length times the reciprocal of it is a unit quaternion. -/
theorem unitLength_normalize {q : Quaternion ℝ} (h : 0 < lengthSquared q) :
    UnitLength (normalize q) := by
  have hroot : length q * length q = lengthSquared q := Real.mul_self_sqrt h.le
  have hne : length q ≠ 0 := (length_pos h).ne'
  calc lengthSquared (normalize q)
      = lengthSquared q * (1 / length q * (1 / length q)) := by
        simp only [normalize, lengthSquared, dot_eq, mulRight_eq]
        ring
    _ = 1 := by
        rw [← hroot]
        field_simp

/-- A quaternion of unit length is its own direction. -/
theorem normalize_of_unitLength {q : Quaternion ℝ} (h : UnitLength q) : normalize q = q := by
  have hlength : length q = 1 :=
    Components.length_of_lengthSquared zero_le_one (h.trans (mul_one 1).symm)
  rw [normalize, hlength, div_one, mulRight_eq]
  simp only [mul_one]

/-- Opposite quaternions have opposite directions. -/
theorem normalize_neg (q : Quaternion ℝ) : normalize (-q) = -normalize q := by
  have hlength : length (-q) = length q := congrArg Real.sqrt (lengthSquared_neg q)
  rw [normalize, normalize, hlength]
  simp only [neg_eq, mulRight_eq, neg_mul]

/-- Normalising a quaternion of some length divides by no zero. -/
theorem normalize_checked {q : Quaternion ℝ} (h : 0 < lengthSquared q) :
    normalize (checked q) = checked (normalize q) := by
  have hlength : length (checked q) = .value (length q) := Checked.sqrt_value h.le
  have hscale : (1 : Checked) / length (checked q) = .value (1 / length q) := by
    rw [hlength]
    exact Checked.value_div_value (length_pos h).ne'
  rw [normalize, hscale]
  rfl

/-! The chord. -/

section Chord

variable {p q : Quaternion ℝ} (hp : UnitLength p) (hq : UnitLength q)
include hp hq

/-- A scalar product of quaternions of unit length is at most one. -/
theorem dot_le_one : dot p q ≤ 1 := by
  have hdifference := lengthSquared_nonneg (p - q)
  rw [lengthSquared_sub, hp, hq] at hdifference
  linarith

/-- The chord stays away from the origin.  Between its ends it is nearest in the middle,
and beyond them it is farther than the ends are. -/
theorem half_le_lengthSquared_chord (hpq : 0 ≤ dot p q) (t : ℝ) :
    1 / 2 ≤ lengthSquared (chord p q t) := by
  have hvalue : lengthSquared (chord p q t) =
      (1 - t) * (1 - t) + ((1 - t) * t + t * (1 - t)) * dot p q + t * t :=
    dot_combination hp hq _ _ _ _
  rw [hvalue]
  rcases le_total 0 (t * (1 - t)) with hbetween | hbeyond
  · nlinarith [mul_nonneg hbetween hpq, mul_self_nonneg (2 * t - 1)]
  · have hle := dot_le_one hp hq
    nlinarith [mul_nonneg (neg_nonneg.mpr hbeyond) (sub_nonneg.mpr hle)]

/-- The chord between two ends that are not far apart does not pass through zero. -/
theorem lengthSquared_chord_pos (hpq : 0 ≤ dot p q) (t : ℝ) : 0 < lengthSquared (chord p q t) := by
  linarith [half_le_lengthSquared_chord hp hq hpq t]

end Chord

/-! The arc. -/

/-- The point of a circle at an angle from `p` toward `e`. -/
noncomputable def circle (p e : Quaternion ℝ) (angle : ℝ) : Quaternion ℝ :=
  p * Real.cos angle + e * Real.sin angle

/-- A circle starts where it should. -/
theorem circle_zero (p e : Quaternion ℝ) : circle p e 0 = p := by
  simp only [circle, Real.cos_zero, Real.sin_zero, add_eq, mulRight_eq, mul_one, mul_zero,
    add_zero]

/-- On a circle around the origin a scalar product is the cosine of the angle between. -/
theorem dot_circle {p e : Quaternion ℝ} (hp : UnitLength p) (he : UnitLength e)
    (horth : dot p e = 0) (a b : ℝ) : dot (circle p e a) (circle p e b) = Real.cos (b - a) := by
  rw [circle, circle, dot_combination hp he, horth, Real.cos_sub]
  ring

/-- The quaternion of the plane of `p` and `q` at a right angle to `p`, on the side of
`q`. -/
noncomputable def perpendicular (p q : Quaternion ℝ) : Quaternion ℝ :=
  p * (-dot p q / Real.sin (Real.arccos (dot p q))) + q * (1 / Real.sin (Real.arccos (dot p q)))

/-- The sine of an angle with a cosine below one is positive. -/
theorem sin_arccos_pos {c : ℝ} (hnonneg : 0 ≤ c) (hlt : c < 1) : 0 < Real.sin (Real.arccos c) := by
  refine Real.sin_pos_of_pos_of_lt_pi (Real.arccos_pos.mpr hlt) ?_
  linarith [Real.arccos_le_pi_div_two.mpr hnonneg, Real.pi_pos]

/-- The part across an end is across it. -/
theorem dot_perpendicular {p : Quaternion ℝ} (hp : UnitLength p) (q : Quaternion ℝ) :
    dot p (perpendicular p q) = 0 := by
  have hself : dot p p = 1 := hp
  rw [perpendicular, dot_combination_right, hself]
  ring

section Arc

variable {p q : Quaternion ℝ} (hpq : 0 ≤ dot p q) (hlt : dot p q < 1)
include hpq hlt

/-- The angle between two ends has their scalar product for its cosine. -/
theorem cos_arccos_dot : Real.cos (Real.arccos (dot p q)) = dot p q :=
  Real.cos_arccos (by linarith) hlt.le

/-- The part across an end, normalised, has unit length. -/
theorem unitLength_perpendicular (hp : UnitLength p) (hq : UnitLength q) :
    UnitLength (perpendicular p q) := by
  have hsin := (sin_arccos_pos hpq hlt).ne'
  have hpythagoras := Real.sin_sq_add_cos_sq (Real.arccos (dot p q))
  rw [cos_arccos_dot hpq hlt] at hpythagoras
  have hvalue := dot_combination hp hq (-dot p q / Real.sin (Real.arccos (dot p q)))
    (1 / Real.sin (Real.arccos (dot p q))) (-dot p q / Real.sin (Real.arccos (dot p q)))
    (1 / Real.sin (Real.arccos (dot p q)))
  refine hvalue.trans ?_
  field_simp
  linear_combination -hpythagoras

/-- The arc runs on the circle, by a fraction of its whole angle. -/
theorem arc_eq_circle (t : ℝ) :
    arc p q (dot p q) t = circle p (perpendicular p q) (t * Real.arccos (dot p q)) := by
  obtain ⟨angle, hangle⟩ : ∃ angle, Real.arccos (dot p q) = angle := ⟨_, rfl⟩
  have hcos := cos_arccos_dot hpq hlt
  have hsin := (sin_arccos_pos hpq hlt).ne'
  rw [hangle] at hcos hsin
  -- What is left of the angle has a sine that is a combination of the two of the circle.
  have hfirst : Real.sin ((1 - t) * angle) * (1 / Real.sin angle) =
      Real.cos (t * angle) + -dot p q / Real.sin angle * Real.sin (t * angle) := by
    rw [sub_mul, one_mul, Real.sin_sub, hcos]
    field_simp
    ring
  have harc : arc p q (dot p q) t =
      p * (Real.sin ((1 - t) * angle) * (1 / Real.sin angle)) +
        q * (Real.sin (t * angle) * (1 / Real.sin angle)) := by
    rw [← hangle]
    rfl
  rw [harc, hfirst, circle, perpendicular, hangle]
  simp only [add_eq, mulRight_eq]
  ext <;> ring

/-- At its whole angle the circle is at the second quaternion. -/
theorem circle_arccos : circle p (perpendicular p q) (Real.arccos (dot p q)) = q := by
  have hsin := (sin_arccos_pos hpq hlt).ne'
  rw [circle, cos_arccos_dot hpq hlt, perpendicular]
  simp only [add_eq, mulRight_eq]
  ext <;> field_simp <;> ring

/-- An arc between quaternions of unit length keeps unit length. -/
theorem unitLength_arc (hp : UnitLength p) (hq : UnitLength q) (t : ℝ) :
    UnitLength (arc p q (dot p q) t) := by
  rw [arc_eq_circle hpq hlt]
  refine (dot_circle hp (unitLength_perpendicular hpq hlt hp hq) (dot_perpendicular hp q) _ _).trans
    ?_
  rw [sub_self, Real.cos_zero]

/-- The arc divides by no zero, and its cosine is that of an angle. -/
theorem arc_checked (t : ℝ) :
    arc (checked p) (checked q) (.value (dot p q)) (.value t) = checked (arc p q (dot p q) t) := by
  have hangle : Scalar.acos (.value (dot p q)) = Checked.value (Real.arccos (dot p q)) :=
    Checked.acos_value ⟨by linarith, hlt.le⟩
  have hscale : (1 : Checked) / Scalar.sin (Scalar.acos (.value (dot p q))) =
      .value (1 / Real.sin (Real.arccos (dot p q))) := by
    rw [hangle]
    exact Checked.value_div_value (sin_arccos_pos hpq hlt).ne'
  simp only [arc]
  rw [hscale, hangle]
  rfl

end Arc

/-- The bound beyond which ends count as parallel is below one. -/
theorem nearParallel_lt_one : (nearParallel : ℝ) < 1 := by
  show (1 - 1e-6 : ℝ) < 1
  norm_num

section ArcOrChord

variable {p q : Quaternion ℝ} (hp : UnitLength p) (hq : UnitLength q) (hpq : 0 ≤ dot p q)
include hp hq hpq

/-- Arc or chord, the result has unit length. -/
theorem unitLength_arcOrChord (t : ℝ) : UnitLength (arcOrChord p q (dot p q) t) := by
  unfold arcOrChord
  split_ifs with h
  · exact unitLength_normalize (lengthSquared_chord_pos hp hq hpq t)
  · exact unitLength_arc hpq ((not_lt.mp h).trans_lt nearParallel_lt_one) hp hq t

/-- No operation on the arc or the chord is undefined. -/
theorem arcOrChord_checked (t : ℝ) :
    arcOrChord (checked p) (checked q) (.value (dot p q)) (.value t) =
      checked (arcOrChord p q (dot p q) t) := by
  by_cases h : dot p q > nearParallel
  · have hchord : arcOrChord p q (dot p q) t = normalize (chord p q t) := if_pos h
    rw [hchord, ← normalize_checked (lengthSquared_chord_pos hp hq hpq t)]
    exact if_pos h
  · have harc : arcOrChord p q (dot p q) t = arc p q (dot p q) t := if_neg h
    rw [harc, ← arc_checked hpq ((not_lt.mp h).trans_lt nearParallel_lt_one)]
    exact if_neg h

end ArcOrChord

/-! The two ends. -/

/-- The nearer of two opposites has a scalar product that is not negative. -/
theorem dot_nearer (p q : Quaternion ℝ) : dot p (nearer p q) = |dot p q| := by
  unfold nearer
  split_ifs with h
  · rw [dot_neg, abs_of_neg h]
  · rw [abs_of_nonneg (not_lt.mp h)]

/-- The same as an inequality. -/
theorem dot_nearer_nonneg (p q : Quaternion ℝ) : 0 ≤ dot p (nearer p q) := by
  rw [dot_nearer]
  exact abs_nonneg _

/-- The choice of the nearer end is defined. -/
theorem nearer_checked (p q : Quaternion ℝ) :
    nearer (checked p) (checked q) = checked (nearer p q) := by
  by_cases h : dot p q < 0
  · have hreal : nearer p q = -q := if_pos h
    rw [hreal]
    exact if_pos h
  · have hreal : nearer p q = q := if_neg h
    rw [hreal]
    exact if_neg h

section Ends

variable (p q r : Quaternion ℝ) (t : ℝ)

/-- Taking the ends at zero and one is defined. -/
theorem withEnds_checked :
    withEnds (checked p) (checked q) (checked r) (.value t) = checked (withEnds p q r t) := by
  have hzero : (Checked.value t == 0) = (t == 0) :=
    Bool.eq_iff_iff.mpr ((Checked.value_beq_iff t 0).trans beq_iff_eq.symm)
  have hone : (Checked.value t == 1) = (t == 1) :=
    Bool.eq_iff_iff.mpr ((Checked.value_beq_iff t 1).trans beq_iff_eq.symm)
  rw [withEnds, withEnds, hzero, hone]
  split_ifs <;> rfl

variable {p q r} in
/-- With its ends a curve of unit length keeps it. -/
theorem unitLength_withEnds (hp : UnitLength p) (hq : UnitLength q) (hr : UnitLength r) :
    UnitLength (withEnds p q r t) := by
  unfold withEnds
  split_ifs
  · exact hp
  · exact hq
  · exact hr

variable {p q r t} in
/-- Ends that the curve has by itself change nothing. -/
theorem withEnds_eq (hzero : t = 0 → r = p) (hone : t = 1 → r = q) : withEnds p q r t = r := by
  unfold withEnds
  split_ifs with h₀ h₁
  · exact (hzero (eq_of_beq h₀)).symm
  · exact (hone (eq_of_beq h₁)).symm
  · rfl

/-- A curve with its ends taken from the other end. -/
theorem withEnds_reverse : withEnds q p r (1 - t) = withEnds p q r t := by
  simp only [withEnds, beq_iff_eq, sub_eq_zero, sub_eq_self]
  by_cases h₀ : t = 0
  · subst h₀
    simp
  · by_cases h₁ : t = 1
    · subst h₁
      simp
    · simp [h₀, h₁, Ne.symm h₁]

/-- The opposite of a curve with its ends. -/
theorem withEnds_neg : withEnds (-p) (-q) (-r) t = -withEnds p q r t := by
  unfold withEnds
  split_ifs <;> rfl

end Ends

/-! The two interpolations. -/

/-- The linear interpolation runs along the chord. -/
theorem lerp_eq_chord (p q : Quaternion ℝ) (t : ℝ) :
    lerp p q t = withEnds p (nearer p q) (normalize (chord p (nearer p q) t)) t := by
  rw [lerp_eq, add_sub_mulRight]

/-- The cosine that the spherical interpolation goes by is that of its arc. -/
theorem slerp_eq_arcOrChord (p q : Quaternion ℝ) (t : ℝ) :
    slerp p q t =
      withEnds p (nearer p q) (arcOrChord p (nearer p q) (dot p (nearer p q)) t) t := by
  rw [slerp_eq, arcCosine_eq_dot]

/-- Below the bound the whole spherical interpolation is on a circle, its ends included. -/
theorem slerp_eq_circle {a b : Quaternion ℝ} (h : |dot a b| ≤ nearParallel) (t : ℝ) :
    slerp a b t =
      circle a (perpendicular a (nearer a b)) (t * Real.arccos (dot a (nearer a b))) := by
  have hnonneg := dot_nearer_nonneg a b
  rw [← dot_nearer] at h
  have hlt := h.trans_lt nearParallel_lt_one
  have harc : arcOrChord a (nearer a b) (dot a (nearer a b)) t =
      arc a (nearer a b) (dot a (nearer a b)) t := if_neg (not_lt.mpr h)
  rw [slerp_eq_arcOrChord, harc, arc_eq_circle hnonneg hlt]
  apply withEnds_eq
  · rintro rfl
    rw [zero_mul, circle_zero]
  · rintro rfl
    rw [one_mul, circle_arccos hnonneg hlt]

section Unit

variable {a b : Quaternion ℝ} (ha : UnitLength a) (hb : UnitLength b)
include ha hb

/-- Linear interpolation keeps unit length. -/
theorem unitLength_lerp (t : ℝ) : UnitLength (lerp a b t) := by
  rw [lerp_eq_chord]
  have hnearer := unitLength_nearer a hb
  exact unitLength_withEnds t ha hnearer
    (unitLength_normalize (lengthSquared_chord_pos ha hnearer (dot_nearer_nonneg a b) t))

/-- Spherical interpolation keeps unit length. -/
theorem unitLength_slerp (t : ℝ) : UnitLength (slerp a b t) := by
  rw [slerp_eq_arcOrChord]
  have hnearer := unitLength_nearer a hb
  exact unitLength_withEnds t ha hnearer
    (unitLength_arcOrChord ha hnearer (dot_nearer_nonneg a b) t)

/-- No operation without a value takes part in the linear interpolation. -/
theorem lerp_checked (t : ℝ) : lerp (checked a) (checked b) (.value t) = checked (lerp a b t) := by
  have hpos := lengthSquared_chord_pos ha (unitLength_nearer a hb) (dot_nearer_nonneg a b) t
  have hinner : checked a + (checked (nearer a b) - checked a) * Checked.value t =
      checked (a + (nearer a b - a) * t) := rfl
  rw [lerp_eq, nearer_checked, hinner, add_sub_mulRight, normalize_checked hpos, withEnds_checked,
    lerp_eq_chord]

/-- No operation without a value takes part in the spherical interpolation. -/
theorem slerp_checked (t : ℝ) :
    slerp (checked a) (checked b) (.value t) = checked (slerp a b t) := by
  have hcosine : arcCosine (checked a) (checked b) = .value (dot a (nearer a b)) := by
    rw [← arcCosine_eq_dot]
    by_cases h : dot a b < 0
    · have hreal : arcCosine a b = -dot a b := if_pos h
      rw [hreal]
      exact if_pos h
    · have hreal : arcCosine a b = dot a b := if_neg h
      rw [hreal]
      exact if_neg h
  rw [slerp_eq, nearer_checked, hcosine,
    arcOrChord_checked ha (unitLength_nearer a hb) (dot_nearer_nonneg a b), withEnds_checked,
    slerp_eq_arcOrChord]

/-- **Constant angular speed.**  The angle between two points of the interpolation is the
same fraction of the whole angle as the one between their times. -/
theorem dot_slerp_slerp (h : |dot a b| ≤ nearParallel) (s t : ℝ) :
    dot (slerp a b s) (slerp a b t) = Real.cos ((t - s) * Real.arccos |dot a b|) := by
  have hnonneg := dot_nearer_nonneg a b
  have hlt : dot a (nearer a b) < 1 := by
    rw [dot_nearer]
    exact h.trans_lt nearParallel_lt_one
  rw [slerp_eq_circle h, slerp_eq_circle h,
    dot_circle ha (unitLength_perpendicular hnonneg hlt ha (unitLength_nearer a hb))
      (dot_perpendicular ha _), ← sub_mul, dot_nearer]

end Unit

/-- At zero the first end is given. -/
theorem slerp_zero (a b : Quaternion ℝ) : slerp a b 0 = a := if_pos (beq_self_eq_true 0)

section Same

variable {a : Quaternion ℝ} (ha : UnitLength a)
include ha

/-- A quaternion is nearer to itself than its opposite. -/
theorem nearer_self : nearer a a = a := by
  have hself : dot a a = 1 := ha
  refine if_neg ?_
  rw [hself]
  exact not_lt.mpr zero_le_one

/-- Linear interpolation from a quaternion to itself stays there. -/
theorem lerp_self (t : ℝ) : lerp a a t = a := by
  rw [lerp_eq_chord, nearer_self ha, chord_self, normalize_of_unitLength ha]
  exact withEnds_eq (fun _ => rfl) fun _ => rfl

/-- Spherical interpolation from a quaternion to itself stays there. -/
theorem slerp_self (t : ℝ) : slerp a a t = a := by
  have hself : dot a a = 1 := ha
  have hchord : arcOrChord a a 1 t = normalize (chord a a t) := if_pos nearParallel_lt_one
  rw [slerp_eq_arcOrChord, nearer_self ha, hself, hchord, chord_self, normalize_of_unitLength ha]
  exact withEnds_eq (fun _ => rfl) fun _ => rfl

end Same

/-! Reading an interpolation backward. -/

section Reverse

variable (p q : Quaternion ℝ) (c t : ℝ)

/-- An arc taken from its other end. -/
theorem arc_reverse : arc q p c (1 - t) = arc p q c t := by
  simp only [arc, sub_sub_cancel, add_eq, mulRight_eq]
  ext <;> exact add_comm _ _

/-- An arc between opposites is the opposite arc. -/
theorem arc_neg : arc (-p) (-q) c t = -arc p q c t := by
  simp only [arc, add_eq, mulRight_eq, neg_eq]
  ext <;> ring

/-- Arc or chord, taken from the other end. -/
theorem arcOrChord_reverse : arcOrChord q p c (1 - t) = arcOrChord p q c t := by
  rw [arcOrChord, arcOrChord, chord_reverse, arc_reverse]

/-- Arc or chord between opposites is the opposite. -/
theorem arcOrChord_neg : arcOrChord (-p) (-q) c t = -arcOrChord p q c t := by
  unfold arcOrChord
  split_ifs
  · rw [chord_neg, normalize_neg]
  · exact arc_neg p q c t

end Reverse

/-- A curve that reads the same backward, and is negated with its ends, makes an
interpolation that reads the same backward up to the sign of the far end. -/
theorem withEnds_nearer_reverse (curve : Quaternion ℝ → Quaternion ℝ → ℝ → Quaternion ℝ)
    (hreverse : ∀ p q t, curve q p (1 - t) = curve p q t)
    (hneg : ∀ p q t, curve (-p) (-q) t = -curve p q t) (a b : Quaternion ℝ) (t : ℝ) :
    withEnds b (nearer b a) (curve b (nearer b a) (1 - t)) (1 - t) =
      if dot a b < 0 then -withEnds a (nearer a b) (curve a (nearer a b) t) t
      else withEnds a (nearer a b) (curve a (nearer a b) t) t := by
  rw [hreverse, withEnds_reverse]
  unfold nearer
  rw [dot_comm b a]
  split_ifs
  · calc withEnds (-a) b (curve (-a) b t) t
        = withEnds (-a) (- -b) (curve (-a) (- -b) t) t := by rw [neg_neg_eq]
      _ = -withEnds a (-b) (curve a (-b) t) t := by rw [hneg, withEnds_neg]
  · rfl

/-- Linear interpolation taken from the other end, or its opposite where the ends are on far
sides. -/
theorem lerp_reverse (a b : Quaternion ℝ) (t : ℝ) :
    lerp b a (1 - t) = if dot a b < 0 then -lerp a b t else lerp a b t := by
  have hreverse (p q : Quaternion ℝ) (t : ℝ) :
      normalize (chord q p (1 - t)) = normalize (chord p q t) := by
    rw [chord_reverse]
  have hneg (p q : Quaternion ℝ) (t : ℝ) :
      normalize (chord (-p) (-q) t) = -normalize (chord p q t) := by
    rw [chord_neg, normalize_neg]
  rw [lerp_eq_chord, lerp_eq_chord]
  exact withEnds_nearer_reverse (fun p q t => normalize (chord p q t)) hreverse hneg a b t

/-- Spherical interpolation taken from the other end, or its opposite where the ends are on far
sides. -/
theorem slerp_reverse (a b : Quaternion ℝ) (t : ℝ) :
    slerp b a (1 - t) = if dot a b < 0 then -slerp a b t else slerp a b t := by
  have hcosine : dot b (nearer b a) = dot a (nearer a b) := by
    rw [dot_nearer, dot_nearer, dot_comm]
  rw [slerp_eq_arcOrChord, slerp_eq_arcOrChord, hcosine]
  exact withEnds_nearer_reverse (fun p q t => arcOrChord p q (dot a (nearer a b)) t)
    (fun p q t => arcOrChord_reverse p q _ t) (fun p q t => arcOrChord_neg p q _ t) a b t

/-- **Interpolation.**  Between unit quaternions, and at every time, both interpolations
are unit quaternions, and no operation without a value takes part in them.  Where the
spherical one is not near its chord it moves by a constant angular speed along the
shorter arc.  Between a quaternion and itself neither moves.  Read from the other end
both are the same rotations, and the same quaternions but for the sign of the far end. -/
theorem interpolation_laws {a b : Quaternion ℝ} (ha : UnitLength a) (hb : UnitLength b) (t : ℝ) :
    (UnitLength (lerp a b t) ∧
      lerp (checked a) (checked b) (.value t) = checked (lerp a b t)) ∧
    (UnitLength (slerp a b t) ∧
      slerp (checked a) (checked b) (.value t) = checked (slerp a b t)) ∧
    (|dot a b| ≤ 1 - 1e-6 →
      dot a (slerp a b t) = Real.cos (t * Real.arccos |dot a b|) ∧
      ∀ s, dot (slerp a b s) (slerp a b t) = Real.cos ((t - s) * Real.arccos |dot a b|)) ∧
    (slerp a a t = a ∧ lerp a a t = a) ∧
    slerp b a (1 - t) = (if dot a b < 0 then -slerp a b t else slerp a b t) ∧
    lerp b a (1 - t) = (if dot a b < 0 then -lerp a b t else lerp a b t) := by
  refine ⟨⟨unitLength_lerp ha hb t, lerp_checked ha hb t⟩,
    ⟨unitLength_slerp ha hb t, slerp_checked ha hb t⟩, ?_, ⟨slerp_self ha t, lerp_self ha t⟩,
    slerp_reverse a b t, lerp_reverse a b t⟩
  intro h
  refine ⟨?_, fun s => dot_slerp_slerp ha hb h s t⟩
  have hspeed := dot_slerp_slerp ha hb h 0 t
  rw [slerp_zero, sub_zero] at hspeed
  exact hspeed

/-- A sixth of a turn of the circle, given by the far one of two opposite quaternions.
Three times the way leads to the point opposite the first end. -/
theorem interpolation_far_end :
    let a : Quaternion ℝ := identity
    let b : Quaternion ℝ := ⟨0, 0, Real.sqrt 3 / 2, -1 / 2⟩
    (UnitLength a ∧ UnitLength b) ∧ |dot a b| ≤ 1 - 1e-6 ∧
      dot a (slerp a b 3) = -1 ∧ UnitLength (slerp a b 3) ∧
      slerp b a (1 - 3) = -slerp a b 3 ∧ lerp b a (1 - 3) = -lerp a b 3 := by
  intro a b
  have hroot : Real.sqrt 3 * Real.sqrt 3 = 3 := Real.mul_self_sqrt (by norm_num)
  have ha : UnitLength a := by
    norm_num [a, identity, UnitLength, lengthSquared, dot_eq]
  have hb : UnitLength b := by
    simp only [b, UnitLength, lengthSquared, dot_eq]
    linear_combination hroot / 4
  have hdot : dot a b = -1 / 2 := by
    norm_num [a, b, identity, dot_eq]
  have habs : |dot a b| = 1 / 2 := by
    rw [hdot]
    norm_num [abs_of_neg]
  have hbound : |dot a b| ≤ 1 - 1e-6 := by
    rw [habs]
    norm_num
  have hneg : dot a b < 0 := by
    rw [hdot]
    norm_num
  have hangle : Real.arccos (1 / 2) = Real.pi / 3 := by
    rw [← Real.cos_pi_div_three]
    exact Real.arccos_cos (by positivity) (by linarith [Real.pi_pos])
  obtain ⟨-, ⟨hunit, -⟩, hspeed, -, hslerp, hlerp⟩ := interpolation_laws ha hb 3
  rw [if_pos hneg] at hslerp hlerp
  refine ⟨⟨ha, hb⟩, hbound, ?_, hunit, hslerp, hlerp⟩
  rw [(hspeed hbound).1, habs, hangle, mul_div_cancel₀ _ three_ne_zero, Real.cos_pi]

end Quaternion

end Spatial
