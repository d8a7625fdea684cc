import Mathlib
import Spatial.Proofs.Frame

/-!
# The directions of rows

The rows of a matrix are treated from the longest to the shortest.  A row that is
long enough is divided by its length.  One that is too short is replaced: the
longest by its axis, the next by a vector product of the first direction with the
axis that it is least aligned with, the last by the vector product of the other
two directions.

The order of treatment is what makes this work.  If a row is long enough, so are
the rows before it, and their directions are those of the rows; two rows at a
right angle give two directions at a right angle.  If a row is too short, its
substitute is at a right angle to the directions before it by construction, and
it is not zero: a unit vector is never along the axis that it is least aligned
with.  So the directions are a frame however many rows are too short, and no
direction is divided by a length of zero.
-/

namespace Spatial

open Components (dot length lengthSquared normalize UnitLength)

namespace Vec3

/-- A component along an axis is taken without an operation. -/
theorem along_checked (v : Vec3 ℝ) (i : Axis) :
    (Components.checked v).along i = .value (v.along i) :=
  along_map _ v i

end Vec3

namespace Axis

/-- Three different axes, none longer than the one before. -/
structure Descending (lengths : Vec3 ℝ) (a b c : Axis) : Prop where
  ab : a ≠ b
  ac : a ≠ c
  bc : b ≠ c
  second_le : lengths.along b ≤ lengths.along a
  third_le : lengths.along c ≤ lengths.along b

/-- The axes come out in descending order of length. -/
theorem byLength_descending (lengths : Vec3 ℝ) :
    ∃ a b c, byLength lengths = (a, b, c) ∧ Descending lengths a b c := by
  refine ⟨(byLength lengths).1, (byLength lengths).2.1, (byLength lengths).2.2, rfl, ?_⟩
  unfold byLength
  split_ifs with h₁ h₂ h₃ h₃ h₂
  all_goals
    refine ⟨by decide, by decide, by decide, ?_, ?_⟩ <;> simp only [Vec3.along] <;> linarith

/-- Every axis is one of the three. -/
theorem Descending.cover {lengths : Vec3 ℝ} {a b c : Axis} (h : Descending lengths a b c)
    (i : Axis) : i = a ∨ i = b ∨ i = c := by
  have hab := h.ab
  have hac := h.ac
  have hbc := h.bc
  cases i <;> grind [Axis]

/-- No component of a vector is smaller than the one along the axis that the
vector is least aligned with. -/
theorem abs_along_leastAligned_le (u : Vec3 ℝ) (i : Axis) :
    |u.along (leastAligned u)| ≤ |u.along i| := by
  have hx : (Components.abs u).x = |u.x| := rfl
  have hy : (Components.abs u).y = |u.y| := rfl
  have hz : (Components.abs u).z = |u.z| := rfl
  unfold leastAligned
  dsimp only
  rw [hx, hy, hz]
  split_ifs with h₁ h₂ h₂
  all_goals
    cases i <;> simp only [Vec3.along] <;> grind

/-- The direction of an axis has unit length. -/
theorem unitLength_unit (i : Axis) : UnitLength (i.unit : Vec3 ℝ) := by
  cases i <;>
    norm_num [UnitLength, lengthSquared, Vec3.dot_eq, unit, Vec3.unitX, Vec3.unitY, Vec3.unitZ]

/-- The product with the direction of an axis is the component along it. -/
theorem dot_unit (u : Vec3 ℝ) (i : Axis) : dot u i.unit = u.along i := by
  cases i <;> simp [Vec3.dot_eq, unit, Vec3.unitX, Vec3.unitY, Vec3.unitZ, Vec3.along]

/-- A unit vector is at an angle to the axis that it is least aligned with. -/
theorem length_cross_leastAligned_pos {u : Vec3 ℝ} (h : UnitLength u) :
    0 < length (u.cross (leastAligned u).unit) := by
  have hone : u.x * u.x + u.y * u.y + u.z * u.z = 1 := h
  have hleast (i : Axis) :
      u.along (leastAligned u) * u.along (leastAligned u) ≤ u.along i * u.along i :=
    abs_le_iff_mul_self_le.mp (abs_along_leastAligned_le u i)
  have hx : _ ≤ u.x * u.x := hleast .x
  have hy : _ ≤ u.y * u.y := hleast .y
  have hz : _ ≤ u.z * u.z := hleast .z
  have hsq : 0 < lengthSquared (u.cross (leastAligned u).unit) := by
    rw [Vec3.lengthSquared_cross, dot_unit, h, unitLength_unit]
    linarith
  exact Real.sqrt_pos.mpr hsq

/-- Sorting by length is defined. -/
theorem byLength_checked (lengths : Vec3 ℝ) :
    byLength (Components.checked lengths) = byLength lengths :=
  if_congr Iff.rfl (if_congr Iff.rfl rfl (if_congr Iff.rfl rfl rfl))
    (if_congr Iff.rfl rfl (if_congr Iff.rfl rfl rfl))

/-- The axis that is least aligned is defined. -/
theorem leastAligned_checked (u : Vec3 ℝ) :
    leastAligned (Components.checked u) = leastAligned u :=
  if_congr Iff.rfl (if_congr Iff.rfl rfl rfl) (if_congr Iff.rfl rfl rfl)

/-- The direction of an axis is defined. -/
theorem unit_checked (i : Axis) : (i.unit : Vec3 Checked) = Components.checked i.unit := by
  cases i <;> rfl

end Axis

namespace Matrix4

/-- The length below which a row is degenerate is not zero. -/
theorem degenerate_pos : (0 : ℝ) < degenerate := by
  show (0 : ℝ) < 1e-4
  norm_num

section Directions

variable {α : Type} [Scalar α] (rows : Vec3 (Vec3 α)) (lengths : Vec3 α)

/-- The longest row, or the axis that it belongs to. -/
def firstRow (a : Axis) : Vec3 α :=
  if lengths.along a < degenerate then a.unit else rows.along a

def firstDirection (a : Axis) : Vec3 α := normalize (firstRow rows lengths a)

/-- The second longest row, or one across the first direction. -/
def secondRow (a b : Axis) : Vec3 α :=
  let u := firstDirection rows lengths a
  if lengths.along b < degenerate then u.cross (Axis.leastAligned u).unit else rows.along b

def secondDirection (a b : Axis) : Vec3 α := normalize (secondRow rows lengths a b)

/-- The shortest row, or the one across the other two directions. -/
def thirdRow (a b c : Axis) : Vec3 α :=
  if lengths.along c < degenerate
  then (firstDirection rows lengths a).cross (secondDirection rows lengths a b)
  else rows.along c

def thirdDirection (a b c : Axis) : Vec3 α := normalize (thirdRow rows lengths a b c)

/-- The directions are those of the longest, the second and the shortest row, each in its place. -/
theorem unitRows_eq {a b c : Axis} (h : Axis.byLength lengths = (a, b, c)) :
    unitRows rows lengths =
      ((rows.setAlong a (firstDirection rows lengths a)).setAlong b
        (secondDirection rows lengths a b)).setAlong c (thirdDirection rows lengths a b c) := by
  unfold unitRows
  rw [h]
  rfl

end Directions

section Frame

variable {rows : Vec3 (Vec3 ℝ)} {lengths : Vec3 ℝ} {a b c : Axis}

/-- A longest row that is long enough has its own direction. -/
theorem firstDirection_eq (h : degenerate ≤ lengths.along a) :
    firstDirection rows lengths a = normalize (rows.along a) := by
  rw [firstDirection, firstRow, if_neg (not_lt.mpr h)]

/-- The same of the second row. -/
theorem secondDirection_eq (h : degenerate ≤ lengths.along b) :
    secondDirection rows lengths a b = normalize (rows.along b) := by
  rw [secondDirection, secondRow, if_neg (not_lt.mpr h)]

/-- The same of the shortest row. -/
theorem thirdDirection_eq (h : degenerate ≤ lengths.along c) :
    thirdDirection rows lengths a b c = normalize (rows.along c) := by
  rw [thirdDirection, thirdRow, if_neg (not_lt.mpr h)]

variable (hlengths : ∀ i, lengths.along i = length (rows.along i))
include hlengths

/-- A row that is not degenerate has a length. -/
theorem length_pos_of_not_lt {i : Axis} (h : ¬lengths.along i < degenerate) :
    0 < length (rows.along i) := by
  rw [← hlengths]
  exact degenerate_pos.trans_le (not_lt.mp h)

/-- What stands for the longest row has a length. -/
theorem length_firstRow_pos : 0 < length (firstRow rows lengths a) := by
  unfold firstRow
  split_ifs with h
  · rw [Vec3.length_of_unitLength (Axis.unitLength_unit a)]
    exact one_pos
  · exact length_pos_of_not_lt hlengths h

/-- The first direction has unit length. -/
theorem unitLength_firstDirection : UnitLength (firstDirection rows lengths a) :=
  Vec3.unitLength_normalize (length_firstRow_pos hlengths)

/-- What stands for the second row has a length, as it is across the first direction if it is
made. -/
theorem length_secondRow_pos : 0 < length (secondRow rows lengths a b) := by
  unfold secondRow
  split_ifs with h
  · exact Axis.length_cross_leastAligned_pos (unitLength_firstDirection hlengths)
  · exact length_pos_of_not_lt hlengths h

/-- The second direction has unit length. -/
theorem unitLength_secondDirection : UnitLength (secondDirection rows lengths a b) :=
  Vec3.unitLength_normalize (length_secondRow_pos hlengths)

/-- The first direction is defined. -/
theorem firstDirection_checked :
    firstDirection (Components.map Components.checked rows) (Components.checked lengths) a =
      Components.checked (firstDirection rows lengths a) := by
  have hrow : firstRow (Components.map Components.checked rows) (Components.checked lengths) a =
      Components.checked (firstRow rows lengths a) := by
    unfold firstRow
    rw [Vec3.along_map, Vec3.along_checked, apply_ite Components.checked, Axis.unit_checked]
    exact if_congr Iff.rfl rfl rfl
  rw [firstDirection, hrow]
  exact Vec3.normalize_checked (length_firstRow_pos hlengths)

/-- The second direction is defined. -/
theorem secondDirection_checked :
    secondDirection (Components.map Components.checked rows) (Components.checked lengths) a b =
      Components.checked (secondDirection rows lengths a b) := by
  have hrow :
      secondRow (Components.map Components.checked rows) (Components.checked lengths) a b =
        Components.checked (secondRow rows lengths a b) := by
    unfold secondRow
    dsimp only
    rw [firstDirection_checked hlengths, Axis.leastAligned_checked, Axis.unit_checked,
      Vec3.along_map, Vec3.along_checked, apply_ite Components.checked]
    exact if_congr Iff.rfl rfl rfl
  rw [secondDirection, hrow]
  exact Vec3.normalize_checked (length_secondRow_pos hlengths)

variable (hdesc : Axis.Descending lengths a b c)
  (horth : ∀ i j, i ≠ j → dot (rows.along i) (rows.along j) = 0)
include hdesc horth

omit hlengths in
/-- The first two directions are across each other. -/
theorem dot_first_second :
    dot (firstDirection rows lengths a) (secondDirection rows lengths a b) = 0 := by
  apply Vec3.dot_normalize
  unfold secondRow
  split_ifs with h
  · exact Vec3.dot_cross_left _ _
  · rw [firstDirection_eq ((not_lt.mp h).trans hdesc.second_le), Vec3.dot_comm]
    exact Vec3.dot_normalize (horth b a hdesc.ab.symm)

/-- What stands for the shortest row has a length. -/
theorem length_thirdRow_pos : 0 < length (thirdRow rows lengths a b c) := by
  unfold thirdRow
  split_ifs with h
  · apply Real.sqrt_pos.mpr
    rw [Vec3.lengthSquared_cross, unitLength_firstDirection hlengths,
      unitLength_secondDirection hlengths, dot_first_second hdesc horth]
    norm_num
  · exact length_pos_of_not_lt hlengths h

/-- The third direction has unit length. -/
theorem unitLength_thirdDirection : UnitLength (thirdDirection rows lengths a b c) :=
  Vec3.unitLength_normalize (length_thirdRow_pos hlengths hdesc horth)

/-- The third direction is defined. -/
theorem thirdDirection_checked :
    thirdDirection (Components.map Components.checked rows) (Components.checked lengths) a b c =
      Components.checked (thirdDirection rows lengths a b c) := by
  have hrow :
      thirdRow (Components.map Components.checked rows) (Components.checked lengths) a b c =
        Components.checked (thirdRow rows lengths a b c) := by
    unfold thirdRow
    rw [firstDirection_checked hlengths, secondDirection_checked hlengths, Vec3.along_map,
      Vec3.along_checked, apply_ite Components.checked]
    exact if_congr Iff.rfl rfl rfl
  rw [thirdDirection, hrow]
  exact Vec3.normalize_checked (length_thirdRow_pos hlengths hdesc horth)

omit hlengths in
/-- The first and the third direction are across each other. -/
theorem dot_first_third :
    dot (firstDirection rows lengths a) (thirdDirection rows lengths a b c) = 0 := by
  apply Vec3.dot_normalize
  unfold thirdRow
  split_ifs with h
  · exact Vec3.dot_cross_left _ _
  · rw [firstDirection_eq ((not_lt.mp h).trans (hdesc.third_le.trans hdesc.second_le)),
      Vec3.dot_comm]
    exact Vec3.dot_normalize (horth c a hdesc.ac.symm)

omit hlengths in
/-- The second and the third direction are across each other. -/
theorem dot_second_third :
    dot (secondDirection rows lengths a b) (thirdDirection rows lengths a b c) = 0 := by
  apply Vec3.dot_normalize
  unfold thirdRow
  split_ifs with h
  · exact Vec3.dot_cross_right _ _
  · rw [secondDirection_eq ((not_lt.mp h).trans hdesc.third_le), Vec3.dot_comm]
    exact Vec3.dot_normalize (horth c b hdesc.bc.symm)

end Frame

/-- **The frame of the rows.**  If the rows are at right angles, their directions,
with those of rows that are too short replaced, are a frame; a row that is long
enough keeps its direction. -/
theorem unitRows_isFrame {rows : Vec3 (Vec3 ℝ)} {lengths : Vec3 ℝ}
    (hlengths : ∀ i, lengths.along i = length (rows.along i))
    (horth : ∀ i j, i ≠ j → dot (rows.along i) (rows.along j) = 0) :
    IsFrame (unitRows rows lengths) ∧
      ∀ i, degenerate ≤ lengths.along i →
        (unitRows rows lengths).along i = normalize (rows.along i) := by
  obtain ⟨a, b, c, hsort, hdesc⟩ := Axis.byLength_descending lengths
  have ha : (unitRows rows lengths).along a = firstDirection rows lengths a := by
    rw [unitRows_eq rows lengths hsort, Vec3.along_setAlong_of_ne _ hdesc.ac,
      Vec3.along_setAlong_of_ne _ hdesc.ab, Vec3.along_setAlong_self]
  have hb : (unitRows rows lengths).along b = secondDirection rows lengths a b := by
    rw [unitRows_eq rows lengths hsort, Vec3.along_setAlong_of_ne _ hdesc.bc,
      Vec3.along_setAlong_self]
  have hc : (unitRows rows lengths).along c = thirdDirection rows lengths a b c := by
    rw [unitRows_eq rows lengths hsort, Vec3.along_setAlong_self]
  constructor
  · apply IsFrame.of_cover hdesc.cover
    · rw [ha]; exact unitLength_firstDirection hlengths
    · rw [hb]; exact unitLength_secondDirection hlengths
    · rw [hc]; exact unitLength_thirdDirection hlengths hdesc horth
    · rw [ha, hb]; exact dot_first_second hdesc horth
    · rw [ha, hc]; exact dot_first_third hdesc horth
    · rw [hb, hc]; exact dot_second_third hdesc horth
  · intro i hi
    rcases hdesc.cover i with rfl | rfl | rfl
    · rw [ha, firstDirection_eq hi]
    · rw [hb, secondDirection_eq hi]
    · rw [hc, thirdDirection_eq hi]

/-- No direction is divided by a length of zero. -/
theorem unitRows_checked {rows : Vec3 (Vec3 ℝ)} {lengths : Vec3 ℝ}
    (hlengths : ∀ i, lengths.along i = length (rows.along i))
    (horth : ∀ i j, i ≠ j → dot (rows.along i) (rows.along j) = 0) :
    unitRows (Components.map Components.checked rows) (Components.checked lengths) =
      Components.map Components.checked (unitRows rows lengths) := by
  obtain ⟨a, b, c, hsort, hdesc⟩ := Axis.byLength_descending lengths
  have hchecked : Axis.byLength (Components.checked lengths) = (a, b, c) := by
    rw [Axis.byLength_checked, hsort]
  rw [unitRows_eq _ _ hchecked, unitRows_eq _ _ hsort, firstDirection_checked hlengths,
    secondDirection_checked hlengths, thirdDirection_checked hlengths hdesc horth,
    Vec3.map_setAlong, Vec3.map_setAlong, Vec3.map_setAlong]

end Matrix4

end Spatial
