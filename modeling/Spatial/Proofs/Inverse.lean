import Mathlib
import Spatial.Matrix4
import Spatial.Proofs.Exact

/-!
# Inverse maps

Inversion divides the transposed cofactors of a matrix, its adjugate, by the
determinant.  Over every field the product of a matrix and its adjugate, in
either order, is the determinant times the identity; so the quotient is the
inverse on both sides, and it is given exactly when the determinant is not zero.

The product of maps is associative and the determinant is multiplicative, hence
a matrix has one inverse only, on whichever side it is found.
-/

namespace Spatial

namespace Matrix4

section Rows

variable {α : Type} [Scalar α]

/-! A product by rows, and multiples of a matrix, in any scalars. -/

/-- A row of a product is the matching row of the left factor times the right
factor. -/
theorem mul_rows (a b : Matrix4 α) :
    a * b = ⟨b.transform a.r1, b.transform a.r2, b.transform a.r3, b.transform a.r4⟩ := rfl

theorem mulRight_rows (m : Matrix4 α) (s : α) :
    m * s = ⟨m.r1 * s, m.r2 * s, m.r3 * s, m.r4 * s⟩ := rfl

theorem mulLeft_rows (s : α) (m : Matrix4 α) :
    s * m = ⟨s * m.r1, s * m.r2, s * m.r3, s * m.r4⟩ := rfl

/-- A transformed vector, component by component. -/
theorem transform_eq (m : Matrix4 α) (v : Vec4 α) :
    m.transform v =
      ⟨v.x * m.r1.x + v.y * m.r2.x + v.z * m.r3.x + v.w * m.r4.x,
        v.x * m.r1.y + v.y * m.r2.y + v.z * m.r3.y + v.w * m.r4.y,
        v.x * m.r1.z + v.y * m.r2.z + v.z * m.r3.z + v.w * m.r4.z,
        v.x * m.r1.w + v.y * m.r2.w + v.z * m.r3.w + v.w * m.r4.w⟩ := rfl

/-- The determinant is the expansion along the first row. -/
theorem determinant_eq (m : Matrix4 α) :
    m.determinant =
      m.r1.x * (m.r2.y * (m.r3.z * m.r4.w - m.r3.w * m.r4.z)
          - m.r2.z * (m.r3.y * m.r4.w - m.r3.w * m.r4.y)
          + m.r2.w * (m.r3.y * m.r4.z - m.r3.z * m.r4.y))
        - m.r1.y * (m.r2.x * (m.r3.z * m.r4.w - m.r3.w * m.r4.z)
          - m.r2.z * (m.r3.x * m.r4.w - m.r3.w * m.r4.x)
          + m.r2.w * (m.r3.x * m.r4.z - m.r3.z * m.r4.x))
        + m.r1.z * (m.r2.x * (m.r3.y * m.r4.w - m.r3.w * m.r4.y)
          - m.r2.y * (m.r3.x * m.r4.w - m.r3.w * m.r4.x)
          + m.r2.w * (m.r3.x * m.r4.y - m.r3.y * m.r4.x))
        - m.r1.w * (m.r2.x * (m.r3.y * m.r4.z - m.r3.z * m.r4.y)
          - m.r2.y * (m.r3.x * m.r4.z - m.r3.z * m.r4.x)
          + m.r2.z * (m.r3.x * m.r4.y - m.r3.y * m.r4.x)) := rfl

/-- The transposed cofactors of a matrix. -/
def adjugate : Matrix4 α → Matrix4 α
  | ⟨⟨a, b, c, d⟩, ⟨e, f, g, h⟩, ⟨i, j, k, l⟩, ⟨m, n, o, p⟩⟩ =>
    let kp_lo := k * p - l * o
    let jp_ln := j * p - l * n
    let jo_kn := j * o - k * n
    let ip_lm := i * p - l * m
    let io_km := i * o - k * m
    let in_jm := i * n - j * m
    let gp_ho := g * p - h * o
    let fp_hn := f * p - h * n
    let fo_gn := f * o - g * n
    let ep_hm := e * p - h * m
    let eo_gm := e * o - g * m
    let en_fm := e * n - f * m
    let gl_hk := g * l - h * k
    let fl_hj := f * l - h * j
    let fk_gj := f * k - g * j
    let el_hi := e * l - h * i
    let ek_gi := e * k - g * i
    let ej_fi := e * j - f * i
    ⟨⟨f * kp_lo - g * jp_ln + h * jo_kn,
      -(b * kp_lo - c * jp_ln + d * jo_kn),
      b * gp_ho - c * fp_hn + d * fo_gn,
      -(b * gl_hk - c * fl_hj + d * fk_gj)⟩,
    ⟨-(e * kp_lo - g * ip_lm + h * io_km),
      a * kp_lo - c * ip_lm + d * io_km,
      -(a * gp_ho - c * ep_hm + d * eo_gm),
      a * gl_hk - c * el_hi + d * ek_gi⟩,
    ⟨e * jp_ln - f * ip_lm + h * in_jm,
      -(a * jp_ln - b * ip_lm + d * in_jm),
      a * fp_hn - b * ep_hm + d * en_fm,
      -(a * fl_hj - b * el_hi + d * ej_fi)⟩,
    ⟨-(e * jo_kn - f * io_km + g * in_jm),
      a * jo_kn - b * io_km + c * in_jm,
      -(a * fo_gn - b * eo_gm + c * en_fm),
      a * fk_gj - b * ek_gi + c * ej_fi⟩⟩

/-- Inversion divides the adjugate by the product of the first row and the
first column of the adjugate. -/
theorem invert_eq_adjugate (m : Matrix4 α) :
    m.invert =
      let det := Components.dot m.r1 m.adjugate.transpose.r1
      if det == 0 then .error (.singularMatrix det) else .ok (m.adjugate * (1 / det)) := rfl

end Rows

variable {K : Type} [ExactScalar K]

/-! A row vector times a product, a transposed matrix and the identity. -/

/-- The first factor acts first. -/
theorem transform_mul (a b : Matrix4 K) (v : Vec4 K) :
    (a * b).transform v = b.transform (a.transform v) := by
  simp only [mul_rows, transform_eq]
  ext <;> ring

/-- The identity leaves vectors alone. -/
theorem transform_identity (v : Vec4 K) : (identity : Matrix4 K).transform v = v := by
  simp only [transform_eq, identity]
  ext <;> ring

/-- A transposed matrix moves from one side of a scalar product to the other. -/
theorem dot_transpose_transform (m : Matrix4 K) (u v : Vec4 K) :
    Components.dot (m.transpose.transform u) v = Components.dot u (m.transform v) := by
  simp only [Vec4.dot_eq, transform_eq, transpose]
  ring

/-- The transpose of a product is the product of the transposes in the other order. -/
theorem transpose_mul (a b : Matrix4 K) : (a * b).transpose = b.transpose * a.transpose := by
  simp only [mul_rows, transform_eq, transpose]
  ext <;> ring

/-- Products of matrices are associative. -/
theorem mul_associative (a b c : Matrix4 K) : a * b * c = a * (b * c) := by
  rw [mul_rows (a * b), mul_rows a (b * c)]
  simp only [transform_mul]
  rfl

/-- The identity is neutral on the right. -/
theorem mul_identity (m : Matrix4 K) : m * (identity : Matrix4 K) = m := by
  rw [mul_rows]
  simp only [transform_identity]

/-- The identity is neutral on the left. -/
theorem identity_mul (m : Matrix4 K) : (identity : Matrix4 K) * m = m := by
  simp only [mul_rows, transform_eq, identity]
  ext <;> ring

/-- A scalar is taken out of the right factor. -/
theorem mul_mulRight (a b : Matrix4 K) (s : K) : a * (b * s) = a * b * s := by
  simp only [mul_rows, mulRight_rows, transform_eq, Vec4.mulRight_eq]
  ext <;> ring

/-- A scalar is taken out of the left factor. -/
theorem mulRight_mul (a b : Matrix4 K) (s : K) : a * s * b = a * b * s := by
  simp only [mul_rows, mulRight_rows, transform_eq, Vec4.mulRight_eq]
  ext <;> ring

/-- A multiple of the identity divided by its factor. -/
theorem mulLeft_identity_div {s : K} (h : s ≠ 0) :
    s * (identity : Matrix4 K) * (1 / s) = identity := by
  simp only [mulLeft_rows, mulRight_rows, Vec4.mulLeft_eq, Vec4.mulRight_eq, identity]
  ext <;> simp [h]

/-- **Cofactor expansion.**  A matrix times its adjugate is its determinant
times the identity. -/
theorem mul_adjugate (m : Matrix4 K) : m * m.adjugate = m.determinant * (identity : Matrix4 K) := by
  simp only [mul_rows, transform_eq, mulLeft_rows, Vec4.mulLeft_eq, adjugate, determinant,
    identity]
  ext <;> ring

/-- Cofactor expansion by columns. -/
theorem adjugate_mul (m : Matrix4 K) : m.adjugate * m = m.determinant * (identity : Matrix4 K) := by
  simp only [mul_rows, transform_eq, mulLeft_rows, Vec4.mulLeft_eq, adjugate, determinant,
    identity]
  ext <;> ring

/-- The sum that inversion divides by is the determinant. -/
theorem dot_adjugate (m : Matrix4 K) :
    Components.dot m.r1 m.adjugate.transpose.r1 = m.determinant := by
  simp only [Vec4.dot_eq, adjugate, transpose, determinant]
  ring

/-- The determinant is multiplicative. -/
theorem determinant_mul (a b : Matrix4 K) :
    (a * b).determinant = a.determinant * b.determinant := by
  simp only [determinant_eq, mul_rows, transform_eq]
  ring

/-- A matrix and its transpose have one determinant. -/
theorem determinant_transpose (m : Matrix4 K) : m.transpose.determinant = m.determinant := by
  simp only [determinant_eq, transpose]
  ring

/-- The determinant of the identity. -/
theorem determinant_identity : (identity : Matrix4 K).determinant = 1 := by
  simp only [determinant_eq, identity]
  ring

/-- A matrix of determinant zero is refused, with that determinant. -/
theorem invert_eq_error {m : Matrix4 K} (h : m.determinant = 0) :
    m.invert = .error (.singularMatrix m.determinant) := by
  rw [invert_eq_adjugate, dot_adjugate]
  simp [h]

/-- Any other matrix has the adjugate divided by the determinant. -/
theorem invert_eq_ok {m : Matrix4 K} (h : m.determinant ≠ 0) :
    m.invert = .ok (m.adjugate * (1 / m.determinant)) := by
  rw [invert_eq_adjugate, dot_adjugate]
  simp [h]

/-- Inversion succeeds exactly on the matrices of determinant other than zero. -/
theorem invert_ok_iff (m : Matrix4 K) :
    (∃ inverse, m.invert = .ok inverse) ↔ m.determinant ≠ 0 := by
  constructor
  · rintro ⟨inverse, hok⟩ hzero
    rw [invert_eq_error hzero] at hok
    cases hok
  · intro h
    exact ⟨_, invert_eq_ok h⟩

/-- What inversion gives is an inverse on both sides. -/
theorem mul_eq_identity_of_invert {m inverse : Matrix4 K} (hok : m.invert = .ok inverse) :
    m * inverse = identity ∧ inverse * m = identity := by
  have h : m.determinant ≠ 0 := (invert_ok_iff m).mp ⟨inverse, hok⟩
  rw [invert_eq_ok h] at hok
  cases hok
  constructor
  · rw [mul_mulRight, mul_adjugate, mulLeft_identity_div h]
  · rw [mulRight_mul, adjugate_mul, mulLeft_identity_div h]

/-- The inverse of a matrix, or what stands for it if there is none. -/
def inverse (m : Matrix4 K) : Matrix4 K := m.invertInto.2

/-- The inverse is one on both sides, where the determinant is not zero. -/
theorem mul_inverse {m : Matrix4 K} (h : m.determinant ≠ 0) :
    m * m.inverse = identity ∧ m.inverse * m = identity := by
  obtain ⟨inverse, hok⟩ := (invert_ok_iff m).mpr h
  have heq : m.inverse = inverse := by simp [Matrix4.inverse, invertInto, hok]
  rw [heq]
  exact mul_eq_identity_of_invert hok

/-- **Uniqueness.**  A right inverse is the inverse. -/
theorem inverse_eq_of_mul {m n : Matrix4 K} (h : m * n = identity) : m.inverse = n := by
  have hdet : m.determinant * n.determinant = 1 := by
    rw [← determinant_mul, h, determinant_identity]
  have hm : m.determinant ≠ 0 := left_ne_zero_of_mul_eq_one hdet
  calc m.inverse
      = m.inverse * (m * n) := by rw [h, mul_identity]
    _ = n := by rw [← mul_associative, (mul_inverse hm).2, identity_mul]

/-- The inverse of a product is the product of the inverses in the other order. -/
theorem inverse_mul {a b : Matrix4 K} (ha : a.determinant ≠ 0) (hb : b.determinant ≠ 0) :
    (a * b).inverse = b.inverse * a.inverse := by
  apply inverse_eq_of_mul
  calc a * b * (b.inverse * a.inverse)
      = a * (b * b.inverse * a.inverse) := by simp only [mul_associative]
    _ = identity := by rw [(mul_inverse hb).1, identity_mul, (mul_inverse ha).1]

end Matrix4

namespace Affine2

/-- A row of a product is the image of the matching row of the left factor: a
direction for the axes, a point for the origin. -/
theorem mul_rows {α : Type} [Scalar α] (a b : Affine2 α) :
    a * b =
      ⟨b.transformDirection a.r1, b.transformDirection a.r2, b.transformPoint a.r3⟩ := rfl

variable {K : Type} [ExactScalar K]

/-- A map of determinant zero is refused, with that determinant. -/
theorem invert_eq_error {m : Affine2 K} (h : m.determinant = 0) :
    m.invert = .error (.singularMatrix m.determinant) := by
  simp [invert, h]

/-- Any other map has the inverse of its linear part, and the translation that
brings the image of the origin back. -/
theorem invert_eq_ok {m : Affine2 K} (h : m.determinant ≠ 0) :
    m.invert =
      let k := 1 / m.determinant
      .ok ⟨⟨m.r2.y * k, -m.r1.y * k⟩, ⟨-m.r2.x * k, m.r1.x * k⟩,
        ⟨(m.r2.x * m.r3.y - m.r3.x * m.r2.y) * k,
          (m.r3.x * m.r1.y - m.r1.x * m.r3.y) * k⟩⟩ := by
  simp [invert, h]

/-- Inversion succeeds exactly on the maps of determinant other than zero. -/
theorem invert_ok_iff (m : Affine2 K) :
    (∃ inverse, m.invert = .ok inverse) ↔ m.determinant ≠ 0 := by
  constructor
  · rintro ⟨inverse, hok⟩ hzero
    rw [invert_eq_error hzero] at hok
    cases hok
  · intro h
    exact ⟨_, invert_eq_ok h⟩

/-- What inversion gives is an inverse on both sides. -/
theorem mul_eq_identity_of_invert {m inverse : Affine2 K} (hok : m.invert = .ok inverse) :
    m * inverse = identity ∧ inverse * m = identity := by
  have h : m.determinant ≠ 0 := (invert_ok_iff m).mp ⟨inverse, hok⟩
  obtain ⟨k, hk⟩ : ∃ k, k = 1 / m.determinant := ⟨_, rfl⟩
  have hone : k * (m.r1.x * m.r2.y - m.r2.x * m.r1.y) = 1 := by
    rw [hk]
    exact one_div_mul_cancel h
  rw [invert_eq_ok h, ← hk] at hok
  cases hok
  simp only [mul_rows, transformDirection, transformPoint, Vec2.mulLeft_eq, Vec2.add_eq,
    identity]
  constructor
  · ext <;> dsimp only
    · linear_combination hone
    · ring
    · ring
    · linear_combination hone
    · ring
    · ring
  · ext <;> dsimp only
    · linear_combination hone
    · ring
    · ring
    · linear_combination hone
    · linear_combination (-m.r3.x) * hone
    · linear_combination (-m.r3.y) * hone

end Affine2

/-- **Inverses.**  A four by four matrix, and a map of the plane, is inverted
exactly when its determinant is not zero, and what inversion gives is then an
inverse on both sides. -/
theorem invert_ok_iff_two_sided {K : Type} [ExactScalar K] (m : Matrix4 K) (n : Affine2 K) :
    (((∃ inverse, m.invert = .ok inverse) ↔ m.determinant ≠ 0) ∧
      ∀ inverse, m.invert = .ok inverse →
        m * inverse = Matrix4.identity ∧ inverse * m = Matrix4.identity) ∧
    (((∃ inverse, n.invert = .ok inverse) ↔ n.determinant ≠ 0) ∧
      ∀ inverse, n.invert = .ok inverse →
        n * inverse = Affine2.identity ∧ inverse * n = Affine2.identity) := by
  refine ⟨⟨m.invert_ok_iff, ?_⟩, ⟨n.invert_ok_iff, ?_⟩⟩
  · intro inverse hok
    exact Matrix4.mul_eq_identity_of_invert hok
  · intro inverse hok
    exact Affine2.mul_eq_identity_of_invert hok

/-- A perspective projection and a skewed map of the plane, with their inverses. -/
theorem invert_perspective_two_sided :
    ((⟨⟨2, 0, 0, 0⟩, ⟨0, 1, 0, 0⟩, ⟨0, 0, 1, -1⟩, ⟨0, 0, 4, 0⟩⟩ : Matrix4 ℝ).invert =
        .ok ⟨⟨1 / 2, 0, 0, 0⟩, ⟨0, 1, 0, 0⟩, ⟨0, 0, 0, 1 / 4⟩, ⟨0, 0, -1, 1 / 4⟩⟩ ∧
      (⟨⟨2, 0, 0, 0⟩, ⟨0, 1, 0, 0⟩, ⟨0, 0, 1, -1⟩, ⟨0, 0, 4, 0⟩⟩ : Matrix4 ℝ) *
        ⟨⟨1 / 2, 0, 0, 0⟩, ⟨0, 1, 0, 0⟩, ⟨0, 0, 0, 1 / 4⟩, ⟨0, 0, -1, 1 / 4⟩⟩ =
          Matrix4.identity) ∧
    (⟨⟨2, 1⟩, ⟨1, 1⟩, ⟨3, 4⟩⟩ : Affine2 ℝ).invert = .ok ⟨⟨1, -1⟩, ⟨-1, 2⟩, ⟨1, -5⟩⟩ ∧
      (⟨⟨1, -1⟩, ⟨-1, 2⟩, ⟨1, -5⟩⟩ : Affine2 ℝ) * ⟨⟨2, 1⟩, ⟨1, 1⟩, ⟨3, 4⟩⟩ =
        Affine2.identity := by
  have hm : (⟨⟨2, 0, 0, 0⟩, ⟨0, 1, 0, 0⟩, ⟨0, 0, 1, -1⟩, ⟨0, 0, 4, 0⟩⟩ : Matrix4 ℝ).invert =
      .ok ⟨⟨1 / 2, 0, 0, 0⟩, ⟨0, 1, 0, 0⟩, ⟨0, 0, 0, 1 / 4⟩, ⟨0, 0, -1, 1 / 4⟩⟩ := by
    have hdet : (⟨⟨2, 0, 0, 0⟩, ⟨0, 1, 0, 0⟩, ⟨0, 0, 1, -1⟩, ⟨0, 0, 4, 0⟩⟩ :
        Matrix4 ℝ).determinant = 8 := by norm_num [Matrix4.determinant_eq]
    rw [Matrix4.invert_eq_ok (by rw [hdet]; norm_num), hdet]
    simp only [Matrix4.adjugate, Matrix4.mulRight_rows, Vec4.mulRight_eq]
    norm_num
  have hn : (⟨⟨2, 1⟩, ⟨1, 1⟩, ⟨3, 4⟩⟩ : Affine2 ℝ).invert =
      .ok ⟨⟨1, -1⟩, ⟨-1, 2⟩, ⟨1, -5⟩⟩ := by
    have hdet : (⟨⟨2, 1⟩, ⟨1, 1⟩, ⟨3, 4⟩⟩ : Affine2 ℝ).determinant = 1 := by
      norm_num [Affine2.determinant]
    rw [Affine2.invert_eq_ok (by rw [hdet]; norm_num), hdet]
    norm_num
  have h := invert_ok_iff_two_sided
    (⟨⟨2, 0, 0, 0⟩, ⟨0, 1, 0, 0⟩, ⟨0, 0, 1, -1⟩, ⟨0, 0, 4, 0⟩⟩ : Matrix4 ℝ)
    (⟨⟨2, 1⟩, ⟨1, 1⟩, ⟨3, 4⟩⟩ : Affine2 ℝ)
  exact ⟨⟨hm, (h.1.2 _ hm).1⟩, hn, (h.2.2 _ hn).2⟩

end Spatial
