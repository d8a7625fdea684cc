import Mathlib
import Spatial.Plane
import Spatial.Proofs.Inverse
import Spatial.Proofs.Binary.Arithmetic

/-!
# Singular matrices in binary32

Inversion finds the determinant in its own way: it adds the products with negated
cofactors where `determinant` subtracts the products.  Over rounded numbers two ways
of writing one sum need not agree, but these two do, bit for bit, since a sign passes
through products and differences exactly.

So inversion is refused exactly where `determinant` gives a zero of either sign, and
the failure carries that zero.  A determinant that is no number is not zero: inversion
then succeeds, and every element of what it gives is no number either.

A place that an inverse is stored in never keeps its content.  It holds the inverse
afterwards, or nothing but undefined elements, and a plane that is transformed by a
singular matrix takes its components from these.
-/

namespace Spatial

open Binary32 (isNaN_add_right isNaN_mul_right isNaN_div_right isNaN_undefined)

namespace Components

/-- No component is a number. -/
def AllNaN {F : Type → Type} [Components F] (u : F Float32) : Prop :=
  ∀ x ∈ toList u, x.isNaN = true

/-- A place holds the result of an operation afterwards, and the answer is that it
succeeded, or it holds no number at all, and the answer is that it failed. -/
def Stored {F : Type → Type} [Components F] {ε : Type} (outcome : Except ε (F Float32))
    (answer : Bool) (content : F Float32) : Prop :=
  (answer = true ∧ outcome = .ok content) ∨
    (answer = false ∧ AllNaN content ∧ ∃ failure, outcome = .error failure)

/-- Whatever a place holds, the outcome of an operation is stored in it. -/
theorem stored_store {F : Type → Type} [Components F]
    (hsplat : AllNaN (splat Scalar.undefined : F Float32)) {ε : Type}
    (outcome : Except ε (F Float32)) (previous : F Float32) :
    Stored outcome ((store outcome).run previous).1 ((store outcome).run previous).2 := by
  cases outcome with
  | ok result => exact .inl ⟨rfl, rfl⟩
  | error failure => exact .inr ⟨rfl, hsplat, failure, rfl⟩

end Components

open Components (AllNaN)

namespace Matrix4

theorem allNaN_undefined : AllNaN (undefined : Matrix4 Float32) := by
  intro x hx
  simp only [undefined, Components.splat, Components.toList, List.mem_cons, List.not_mem_nil,
    or_false, or_self] at hx
  rw [hx]
  exact isNaN_undefined

/-- A matrix times what is no number. -/
theorem allNaN_mulRight (m : Matrix4 Float32) {s : Float32} (hs : s.isNaN = true) :
    AllNaN (m * s) := by
  intro x hx
  obtain ⟨y, -, rfl⟩ : ∃ y ∈ Components.toList m, y * s = x := List.mem_map.mp hx
  exact isNaN_mul_right y hs

/-- The two ways of finding the determinant agree. -/
theorem dot_adjugate_binary32 (m : Matrix4 Float32) :
    Components.dot m.r1 m.adjugate.transpose.r1 = m.determinant := by
  simp only [Vec4.dot_eq, adjugate, transpose, determinant, Binary32.mul_neg,
    Binary32.sub_eq_add_neg]

/-- A determinant of zero of either sign is refused. -/
theorem invert_of_zero {m : Matrix4 Float32} (h : (m.determinant == 0) = true) :
    m.invert = .error (.singularMatrix m.determinant) := by
  rw [invert_eq_adjugate, dot_adjugate_binary32]
  exact if_pos h

/-- Any other determinant, also an undefined one, is divided by. -/
theorem invert_of_nonzero {m : Matrix4 Float32} (h : (m.determinant == 0) = false) :
    m.invert = .ok (m.adjugate * (1 / m.determinant)) := by
  rw [invert_eq_adjugate, dot_adjugate_binary32]
  exact if_neg (ne_true_of_eq_false h)

/-- Inversion fails exactly on a zero determinant, and with that determinant. -/
theorem invert_eq_error_iff (m : Matrix4 Float32) (failure : Failure Float32) :
    m.invert = .error failure ↔
      (m.determinant == 0) = true ∧ failure = .singularMatrix m.determinant := by
  cases h : m.determinant == 0 with
  | true => rw [invert_of_zero h]; simp [eq_comm]
  | false => rw [invert_of_nonzero h]; simp

/-- A determinant that is no number gives an inverse without any. -/
theorem invert_of_isNaN {m : Matrix4 Float32} (h : m.determinant.isNaN = true) :
    ∃ inverse, m.invert = .ok inverse ∧ AllNaN inverse :=
  ⟨_, invert_of_nonzero (Binary32.beq_eq_false_of_isNaN h 0),
    allNaN_mulRight _ (isNaN_div_right 1 h)⟩

/-- A row vector times the transpose of what holds no number. -/
theorem allNaN_transform_transpose {m : Matrix4 Float32} (h : AllNaN m) (v : Vec4 Float32) :
    AllNaN (m.transpose.transform v) := by
  have hlast (y : Float32) (hy : y ∈ Components.toList m) (sum : Float32) :
      (sum + v.w * y).isNaN = true :=
    isNaN_add_right sum (isNaN_mul_right v.w (h y hy))
  intro x hx
  simp only [Components.toList, List.mem_cons, List.not_mem_nil, or_false] at hx
  rcases hx with rfl | rfl | rfl | rfl
  · exact hlast m.r1.w (by simp [Components.toList]) _
  · exact hlast m.r2.w (by simp [Components.toList]) _
  · exact hlast m.r3.w (by simp [Components.toList]) _
  · exact hlast m.r4.w (by simp [Components.toList]) _

/-- Inversion into a place, whatever it holds, gives what inversion with a stand-in
gives. -/
theorem invertAt_run (m previous : Matrix4 Float32) :
    m.invertAt.run previous = m.invertInto := by
  unfold invertAt invertInto
  cases m.invert <;> rfl

end Matrix4

namespace Affine2

theorem allNaN_undefined : AllNaN (undefined : Affine2 Float32) := by
  intro x hx
  simp only [undefined, Components.splat, Components.toList, List.mem_cons, List.not_mem_nil,
    or_false, or_self] at hx
  rw [hx]
  exact isNaN_undefined

end Affine2

namespace Plane

/-- The inverse that a plane is transformed by may be stored in any place. -/
theorem transform_through (p : Plane Float32) (m previous : Matrix4 Float32) :
    p.transform m = ofVec4 ((m.invertAt.run previous).2.transpose.transform p.toVec4) := by
  rw [Matrix4.invertAt_run]
  rfl

/-- The image of a plane under a singular matrix. -/
theorem allNaN_transform_of_zero {m : Matrix4 Float32} (h : (m.determinant == 0) = true)
    (p : Plane Float32) : AllNaN (p.transform m) := by
  rw [transform_through p m Matrix4.identity, Matrix4.invertAt, Matrix4.invert_of_zero h]
  exact Matrix4.allNaN_transform_transpose Matrix4.allNaN_undefined p.toVec4

end Plane

/-- **Singular matrices in binary32.**  Inversion of a four by four matrix fails exactly
if `determinant` gives a zero, and with that zero; a determinant that is no number gives
sixteen elements that are none.  An inverse is stored in a place of either matrix type
whatever the place holds.  A singular matrix takes every plane to one without a number. -/
theorem invert_fails_iff_zero_determinant :
    (∀ m : Matrix4 Float32,
      ((∃ failure, m.invert = .error failure) ↔ (m.determinant == 0) = true) ∧
      (∀ failure, m.invert = .error failure → failure = .singularMatrix m.determinant) ∧
      (m.determinant.isNaN = true → ∃ inverse, m.invert = .ok inverse ∧ AllNaN inverse)) ∧
    (∀ m previous : Matrix4 Float32,
      Components.Stored m.invert (m.invertAt.run previous).1 (m.invertAt.run previous).2) ∧
    (∀ m previous : Affine2 Float32,
      Components.Stored m.invert (m.invertAt.run previous).1 (m.invertAt.run previous).2) ∧
    ∀ (m : Matrix4 Float32) (p : Plane Float32),
      (m.determinant == 0) = true → AllNaN (p.transform m) := by
  refine ⟨fun m => ⟨?_, ?_, Matrix4.invert_of_isNaN⟩, ?_, ?_, ?_⟩
  · simp only [Matrix4.invert_eq_error_iff, exists_and_left, exists_eq, and_true]
  · intro failure herror
    exact ((m.invert_eq_error_iff failure).mp herror).2
  · intro m previous
    exact Components.stored_store Matrix4.allNaN_undefined m.invert previous
  · intro m previous
    exact Components.stored_store Affine2.allNaN_undefined m.invert previous
  · intro m p hzero
    exact Plane.allNaN_transform_of_zero hzero p

/-- A small uniform scaling is singular, since its determinant is too small for the
format; a scaling that is infinite along one axis and zero along another is not. -/
theorem invert_fails_on_underflow :
    ((Matrix4.uniformScale 1e-20 : Matrix4 Float32).invert = .error (.singularMatrix 0) ∧
      AllNaN ((⟨⟨0, 0, 1⟩, -2⟩ : Plane Float32).transform (Matrix4.uniformScale 1e-20))) ∧
    ∃ inverse, (Matrix4.scale ⟨1 / 0, 0, 1⟩ : Matrix4 Float32).invert = .ok inverse ∧
      AllNaN inverse := by
  obtain ⟨hinvert, -, -, hplane⟩ := invert_fails_iff_zero_determinant
  have hdeterminant : (Matrix4.uniformScale 1e-20 : Matrix4 Float32).determinant = 0 := by
    decide +kernel
  have hzero : ((Matrix4.uniformScale 1e-20 : Matrix4 Float32).determinant == 0) = true := by
    rw [hdeterminant]
    rfl
  have hnan : (Matrix4.scale ⟨1 / 0, 0, 1⟩ : Matrix4 Float32).determinant.isNaN = true := by
    decide +kernel
  obtain ⟨failure, herror⟩ := (hinvert _).1.mpr hzero
  refine ⟨⟨?_, hplane _ _ hzero⟩, (hinvert _).2.2 hnan⟩
  rw [herror, (hinvert _).2.1 failure herror, hdeterminant]

end Spatial
