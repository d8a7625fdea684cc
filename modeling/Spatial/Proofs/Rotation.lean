import Mathlib
import Spatial.Proofs.Frame

/-!
# Rotations as quaternions and as matrices

The matrix of a unit quaternion is a rotation.  Read backwards, the sums of the
elements of a rotation matrix are four times the products of every two
coefficients of the quaternion behind it.  The reading takes one coefficient, the
pivot, finds it as a root, and divides its products with the others by it.  The
four branches of the reading are this one with the four pivots.

1.  The choice of the pivot keeps the number under the root at one or more,
    whatever the matrix.  No branch takes the root of a number below zero or
    divides by zero.
2.  The products read off a rotation matrix form a table of rank one.  So the
    quaternion that is read has all the products of the matrix and not only those
    of the pivot.
3.  The products determine the matrix, and they determine the quaternion up to its
    sign.
-/

namespace Spatial

open Components (dot lengthSquared UnitLength)

namespace Matrix4

section Quaternion

variable {K : Type} [ExactScalar K]

/-- The matrix of a quaternion acts on the first three components of a row as
the quaternion does, and keeps the fourth. -/
theorem ofQuaternion_transform (q : Quaternion K) (v : Vec4 K) :
    (ofQuaternion q).transform v = q.rotate4 v := by
  simp only [transform_eq, ofQuaternion, Quaternion.rotate4, Quaternion.rotate, Vec3.extend,
    Vec4.xyz, ExactScalar.two_eq]
  ext <;> ring

/-- The matrix of a unit quaternion has its transpose for an inverse. -/
theorem ofQuaternion_mul_transpose {q : Quaternion K} (h : UnitLength q) :
    ofQuaternion q * (ofQuaternion q).transpose = identity := by
  replace h : q.x * q.x + q.y * q.y + q.z * q.z + q.w * q.w = 1 := h
  simp only [mul_rows, transform_eq, transpose, ofQuaternion, identity, ExactScalar.two_eq]
  ext <;> dsimp only
  · linear_combination 4 * (q.y * q.y + q.z * q.z) * h
  · linear_combination -4 * (q.x * q.y) * h
  · linear_combination -4 * (q.x * q.z) * h
  · ring
  · linear_combination -4 * (q.x * q.y) * h
  · linear_combination 4 * (q.z * q.z + q.x * q.x) * h
  · linear_combination -4 * (q.y * q.z) * h
  · ring
  · linear_combination -4 * (q.x * q.z) * h
  · linear_combination -4 * (q.y * q.z) * h
  · linear_combination 4 * (q.y * q.y + q.x * q.x) * h
  · ring
  · ring
  · ring
  · ring
  · ring

/-- The matrix of a unit quaternion keeps the hand. -/
theorem determinant_ofQuaternion {q : Quaternion K} (h : UnitLength q) :
    (ofQuaternion q).determinant = 1 := by
  replace h : q.x * q.x + q.y * q.y + q.z * q.z + q.w * q.w = 1 := h
  simp only [determinant_eq, ofQuaternion, ExactScalar.two_eq]
  linear_combination 4 * (q.x * q.x + q.y * q.y + q.z * q.z) * h

/-- A unit quaternion has the matrix of a rotation. -/
theorem isRotation_ofQuaternion {q : Quaternion K} (h : UnitLength q) :
    (ofQuaternion q).IsRotation where
  frame := (isFrame_iff_mul_transpose _).mpr (ofQuaternion_mul_transpose h)
  determinant := determinant_ofQuaternion h
  linear := rfl

end Quaternion

end Matrix4

namespace Quaternion

/-- One of the four coefficients of a quaternion. -/
inductive Part where
  | x
  | y
  | z
  | w
deriving DecidableEq

/-- The coefficient that a part names. -/
def part {β : Type} (q : Quaternion β) : Part → β
  | .x => q.x
  | .y => q.y
  | .z => q.z
  | .w => q.w

section Reading

variable {α : Type} [Scalar α]

/-- What a rotation matrix says of the quaternion behind it: four times the
products of one coefficient with all four. -/
def products (m : Matrix4 α) : Part → Quaternion α
  | .x => ⟨1 + m.r1.x - m.r2.y - m.r3.z, m.r1.y + m.r2.x, m.r1.z + m.r3.x, m.r2.z - m.r3.y⟩
  | .y => ⟨m.r2.x + m.r1.y, 1 + m.r2.y - m.r1.x - m.r3.z, m.r3.y + m.r2.z, m.r3.x - m.r1.z⟩
  | .z => ⟨m.r3.x + m.r1.z, m.r3.y + m.r2.z, 1 + m.r3.z - m.r1.x - m.r2.y, m.r1.y - m.r2.x⟩
  | .w => ⟨m.r2.z - m.r3.y, m.r3.x - m.r1.z, m.r1.y - m.r2.x, m.r1.x + m.r2.y + m.r3.z + 1⟩

/-- The coefficient that is read first, whose square is never small. -/
def pivot (m : Matrix4 α) : Part :=
  if m.r1.x + m.r2.y + m.r3.z > 0 then .w
  else if m.r1.x ≥ m.r2.y ∧ m.r1.x ≥ m.r3.z then .x
  else if m.r2.y > m.r3.z then .y
  else .z

/-- Four times the square of the coefficient that is read first: the number
whose square root is taken. -/
def radicand (m : Matrix4 α) : α := (products m (pivot m)).part (pivot m)

/-- The quaternion of a rotation matrix, read from one of its coefficients. -/
def readFrom (m : Matrix4 α) (p : Part) : Quaternion α :=
  let n := products m p
  let s := Scalar.sqrt (n.part p)
  let k := 0.5 / s
  match p with
  | .x => ⟨0.5 * s, n.y * k, n.z * k, n.w * k⟩
  | .y => ⟨n.x * k, 0.5 * s, n.z * k, n.w * k⟩
  | .z => ⟨n.x * k, n.y * k, 0.5 * s, n.w * k⟩
  | .w => ⟨n.x * k, n.y * k, n.z * k, s * 0.5⟩

/-- The branches differ only in the coefficient they read from. -/
theorem ofRotationMatrix_eq_readFrom (m : Matrix4 α) :
    ofRotationMatrix m = readFrom m (pivot m) := by
  unfold ofRotationMatrix pivot
  dsimp only
  split_ifs <;> rfl

end Reading

/-- Whatever the matrix, the number whose square root is taken is at least one. -/
theorem one_le_radicand (m : Matrix4 ℝ) : 1 ≤ radicand m := by
  unfold radicand pivot
  split_ifs with hw hx hy
  · show 1 ≤ m.r1.x + m.r2.y + m.r3.z + 1
    linarith
  · show 1 ≤ 1 + m.r1.x - m.r2.y - m.r3.z
    linarith [hx.1, hx.2]
  · show 1 ≤ 1 + m.r2.y - m.r1.x - m.r3.z
    rcases not_and_or.mp hx with h | h <;> linarith
  · show 1 ≤ 1 + m.r3.z - m.r1.x - m.r2.y
    rcases not_and_or.mp hx with h | h <;> linarith

/-- The four branches are one: the products of the pivot, divided by twice the
root of its own. -/
theorem ofRotationMatrix_eq (m : Matrix4 ℝ) :
    ofRotationMatrix m = products m (pivot m) * (0.5 / Real.sqrt (radicand m)) := by
  have hroot (a : ℝ) : 0.5 * Real.sqrt a = a * (0.5 / Real.sqrt a) := by
    rw [mul_div_left_comm, Real.div_sqrt]
  rw [ofRotationMatrix_eq_readFrom, radicand]
  cases pivot m with
  | x =>
      have h := hroot (products m .x).x
      simp only [readFrom, mulRight_eq, part, ← h]
      rfl
  | y =>
      have h := hroot (products m .y).y
      simp only [readFrom, mulRight_eq, part, ← h]
      rfl
  | z =>
      have h := hroot (products m .z).z
      simp only [readFrom, mulRight_eq, part, ← h]
      rfl
  | w =>
      have h := hroot (products m .w).w
      simp only [readFrom, mulRight_eq, part, ← h, mul_comm]
      rfl

/-- Whatever the matrix, no branch takes the root of a number below zero or
divides by zero. -/
theorem ofRotationMatrix_checked (m : Matrix4 ℝ) :
    ofRotationMatrix (Components.checked m) = Components.checked (ofRotationMatrix m) := by
  have hpivot : pivot (Components.checked m) = pivot m :=
    if_congr Iff.rfl rfl (if_congr Iff.rfl rfl (if_congr Iff.rfl rfl rfl))
  have hradicand : radicand (Components.checked m) = .value (radicand m) := by
    rw [radicand, hpivot]
    unfold radicand
    cases pivot m <;> rfl
  have hone := one_le_radicand m
  have hroot : Scalar.sqrt (radicand (Components.checked m)) =
      .value (Real.sqrt (radicand m)) := by
    rw [hradicand]
    exact Checked.sqrt_value (by linarith)
  have hhalf : (0.5 : Checked) / Scalar.sqrt (radicand (Components.checked m)) =
      .value (0.5 / Real.sqrt (radicand m)) := by
    rw [hroot]
    exact Checked.value_div_value (Real.sqrt_ne_zero'.mpr (by linarith))
  rw [ofRotationMatrix_eq_readFrom, ofRotationMatrix_eq_readFrom]
  unfold radicand at hroot hhalf
  simp only [readFrom]
  rw [hhalf, hroot, hpivot]
  cases pivot m <;> rfl

/-- **Rank one.**  The products read off a rotation matrix multiply like products
of four numbers: each is determined by the ones with a given coefficient. -/
theorem products_mul_products {m : Matrix4 ℝ} (h : m.IsRotation) (p i j : Part) :
    (products m p).part i * (products m p).part j =
      (products m p).part p * (products m i).part j := by
  -- Both sides are quadratic in the elements.  They differ by a linear combination
  -- of what the rows, the columns and the cofactors say of products of two elements.
  have hrow := h.mul_transpose
  have hcolumn := h.transpose_mul
  have hcofactor := h.adjugate_eq
  rw [h.linear] at hrow hcolumn hcofactor ⊢
  simp only [Matrix4.ofRows, Matrix4.ofBasis, Vec3.extend, Vec3.zero, Components.splat,
    Matrix4.mul_rows, Matrix4.transform_eq, Matrix4.transpose, Matrix4.adjugate,
    Matrix4.identity, Matrix4.mk.injEq, Vec4.mk.injEq] at hrow hcolumn hcofactor
  obtain ⟨⟨r₁, r₂, r₃, -⟩, ⟨-, r₄, r₅, -⟩, ⟨-, -, r₆, -⟩, -⟩ := hrow
  obtain ⟨⟨s₁, s₂, s₃, -⟩, ⟨-, s₄, s₅, -⟩, ⟨-, -, s₆, -⟩, -⟩ := hcolumn
  obtain ⟨⟨t₁, t₂, t₃, -⟩, ⟨t₄, t₅, t₆, -⟩, ⟨t₇, t₈, t₉, -⟩, -⟩ := hcofactor
  cases p <;> cases i <;> cases j <;>
    simp only [products, part, Matrix4.ofRows, Matrix4.ofBasis, Vec3.extend] <;> linarith

/-- The quaternion read off a rotation matrix has the products that the matrix
says. -/
theorem part_mul_part {m : Matrix4 ℝ} (h : m.IsRotation) (i j : Part) :
    4 * ((ofRotationMatrix m).part i * (ofRotationMatrix m).part j) =
      (products m i).part j := by
  have hpos : 0 < radicand m := by linarith [one_le_radicand m]
  have hpart (k : Part) : (ofRotationMatrix m).part k =
      (products m (pivot m)).part k * (0.5 / Real.sqrt (radicand m)) := by
    rw [ofRotationMatrix_eq]
    cases k <;> rfl
  have hsq : (0.5 / Real.sqrt (radicand m)) * (0.5 / Real.sqrt (radicand m)) * 4 =
      1 / radicand m := by
    rw [div_mul_div_comm, Real.mul_self_sqrt hpos.le]
    ring
  calc 4 * ((ofRotationMatrix m).part i * (ofRotationMatrix m).part j)
      = (products m (pivot m)).part i * (products m (pivot m)).part j *
          (0.5 / Real.sqrt (radicand m) * (0.5 / Real.sqrt (radicand m)) * 4) := by
        rw [hpart, hpart]
        ring
    _ = radicand m * (products m i).part j * (1 / radicand m) := by
        rw [products_mul_products h, hsq, radicand]
    _ = (products m i).part j := by
        field_simp

/-- A quaternion with the products that a rotation matrix says is a unit and has
that matrix. -/
theorem eq_of_products {q : Quaternion ℝ} {m : Matrix4 ℝ} (hlin : m = Matrix4.ofRows m.axes)
    (h : ∀ i j, 4 * (q.part i * q.part j) = (products m i).part j) :
    UnitLength q ∧ Matrix4.ofQuaternion q = m := by
  have hxx := h .x .x
  have hyy := h .y .y
  have hzz := h .z .z
  have hww := h .w .w
  have hxy := h .x .y
  have hxz := h .x .z
  have hyz := h .y .z
  have hwx := h .w .x
  have hwy := h .w .y
  have hwz := h .w .z
  simp only [part, products] at hxx hyy hzz hww hxy hxz hyz hwx hwy hwz
  constructor
  · show q.x * q.x + q.y * q.y + q.z * q.z + q.w * q.w = 1
    linarith
  · rw [hlin]
    simp only [Matrix4.ofQuaternion, Matrix4.ofRows, Matrix4.ofBasis, Vec3.extend, Matrix4.axes,
      Vec4.xyz, Vec3.zero, Components.splat]
    ext <;> dsimp only <;> linarith

/-- What the matrix of a unit quaternion says is true of that quaternion. -/
theorem products_ofQuaternion {q : Quaternion ℝ} (h : UnitLength q) (i j : Part) :
    (products (Matrix4.ofQuaternion q) i).part j = 4 * (q.part i * q.part j) := by
  replace h : q.x * q.x + q.y * q.y + q.z * q.z + q.w * q.w = 1 := h
  cases i <;> cases j <;>
    simp only [products, part, Matrix4.ofQuaternion, ExactScalar.two_eq]
  case w.w => linear_combination -4 * h
  all_goals ring

/-- Two unit quaternions with the same products differ at most in sign. -/
theorem eq_or_eq_neg_of_products {q r : Quaternion ℝ} (hq : UnitLength q) (hr : UnitLength r)
    (h : ∀ i j, r.part i * r.part j = q.part i * q.part j) : r = q ∨ r = -q := by
  replace hq : q.x * q.x + q.y * q.y + q.z * q.z + q.w * q.w = 1 := hq
  replace hr : r.x * r.x + r.y * r.y + r.z * r.z + r.w * r.w = 1 := hr
  obtain ⟨c, hc⟩ : ∃ c, c = r.x * q.x + r.y * q.y + r.z * q.z + r.w * q.w := ⟨_, rfl⟩
  have hpart (j : Part) : r.part j = c * q.part j := by
    have hx : r.x * r.part j = q.x * q.part j := h .x j
    have hy : r.y * r.part j = q.y * q.part j := h .y j
    have hz : r.z * r.part j = q.z * q.part j := h .z j
    have hw : r.w * r.part j = q.w * q.part j := h .w j
    rw [hc]
    linear_combination r.x * hx + r.y * hy + r.z * hz + r.w * hw - r.part j * hr
  have hx : r.x = c * q.x := hpart .x
  have hy : r.y = c * q.y := hpart .y
  have hz : r.z = c * q.z := hpart .z
  have hw : r.w = c * q.w := hpart .w
  have hone : c * c = 1 := by
    rw [hx, hy, hz, hw] at hr
    linear_combination hr - c * c * hq
  rcases mul_self_eq_one_iff.mp hone with hc | hc
  · left
    ext
    · rw [hx, hc, one_mul]
    · rw [hy, hc, one_mul]
    · rw [hz, hc, one_mul]
    · rw [hw, hc, one_mul]
  · right
    rw [neg_eq]
    ext
    · rw [hx, hc, neg_one_mul]
    · rw [hy, hc, neg_one_mul]
    · rw [hz, hc, neg_one_mul]
    · rw [hw, hc, neg_one_mul]

/-- Reading the quaternion of a rotation matrix and making its matrix again. -/
theorem ofQuaternion_ofRotationMatrix {m : Matrix4 ℝ} (h : m.IsRotation) :
    UnitLength (ofRotationMatrix m) ∧ Matrix4.ofQuaternion (ofRotationMatrix m) = m :=
  eq_of_products h.linear (part_mul_part h)

/-- Making the matrix of a unit quaternion and reading its quaternion again. -/
theorem ofRotationMatrix_ofQuaternion {q : Quaternion ℝ} (h : UnitLength q) :
    ofRotationMatrix (Matrix4.ofQuaternion q) = q ∨
      ofRotationMatrix (Matrix4.ofQuaternion q) = -q := by
  have hrot := Matrix4.isRotation_ofQuaternion h
  apply eq_or_eq_neg_of_products h (ofQuaternion_ofRotationMatrix hrot).1
  intro i j
  have hr := part_mul_part hrot i j
  rw [products_ofQuaternion h] at hr
  linarith

/-- **Quaternions and rotation matrices.**  A unit quaternion comes back from its
matrix up to sign, and a rotation matrix comes back from its unit quaternion as
it was.  Whatever the matrix, no branch takes the root of a number below zero or
divides by zero. -/
theorem rotation_round_trips :
    (∀ q : Quaternion ℝ, UnitLength q →
      ofRotationMatrix (Matrix4.ofQuaternion q) = q ∨
        ofRotationMatrix (Matrix4.ofQuaternion q) = -q) ∧
    (∀ m : Matrix4 ℝ, m.IsRotation →
      UnitLength (ofRotationMatrix m) ∧ Matrix4.ofQuaternion (ofRotationMatrix m) = m) ∧
    ∀ m : Matrix4 ℝ,
      ofRotationMatrix (Components.checked m) = Components.checked (ofRotationMatrix m) := by
  refine ⟨?_, ?_, ?_⟩
  · intro q hq
    exact ofRotationMatrix_ofQuaternion hq
  · intro m hm
    exact ofQuaternion_ofRotationMatrix hm
  · intro m
    exact ofRotationMatrix_checked m

/-- A half turn about an axis between the first two, and one about the third. -/
theorem half_turns_round_trip :
    UnitLength (⟨3 / 5, 4 / 5, 0, 0⟩ : Quaternion ℝ) ∧
    (ofRotationMatrix (Matrix4.ofQuaternion ⟨3 / 5, 4 / 5, 0, 0⟩) =
        (⟨3 / 5, 4 / 5, 0, 0⟩ : Quaternion ℝ) ∨
      ofRotationMatrix (Matrix4.ofQuaternion ⟨3 / 5, 4 / 5, 0, 0⟩) =
        -(⟨3 / 5, 4 / 5, 0, 0⟩ : Quaternion ℝ)) ∧
    (⟨⟨-1, 0, 0, 0⟩, ⟨0, -1, 0, 0⟩, ⟨0, 0, 1, 0⟩, ⟨0, 0, 0, 1⟩⟩ : Matrix4 ℝ).IsRotation ∧
    Matrix4.ofQuaternion (ofRotationMatrix
        ⟨⟨-1, 0, 0, 0⟩, ⟨0, -1, 0, 0⟩, ⟨0, 0, 1, 0⟩, ⟨0, 0, 0, 1⟩⟩) =
      (⟨⟨-1, 0, 0, 0⟩, ⟨0, -1, 0, 0⟩, ⟨0, 0, 1, 0⟩, ⟨0, 0, 0, 1⟩⟩ : Matrix4 ℝ) := by
  have hq : UnitLength (⟨3 / 5, 4 / 5, 0, 0⟩ : Quaternion ℝ) := by
    norm_num [UnitLength, lengthSquared, dot_eq]
  have hm : (⟨⟨-1, 0, 0, 0⟩, ⟨0, -1, 0, 0⟩, ⟨0, 0, 1, 0⟩, ⟨0, 0, 0, 1⟩⟩ :
      Matrix4 ℝ).IsRotation := by
    refine ⟨(Matrix4.isFrame_iff_mul_transpose _).mpr ?_, ?_, rfl⟩
    · norm_num [Matrix4.ofRows_mul_transpose, Vec3.dot_eq, Matrix4.axes, Vec4.xyz]
      rfl
    · norm_num [Matrix4.determinant_eq]
  exact ⟨hq, rotation_round_trips.1 _ hq, hm, (rotation_round_trips.2.1 _ hm).2⟩

end Quaternion

end Spatial
