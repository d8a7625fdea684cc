import Mathlib
import Spatial.Proofs.QuarterTurn
import Spatial.Proofs.Binary.Amount

/-!
# Quarter turns in binary32

The rotation by an angle that is taken for a quarter turn has no elements but zeros and
ones, of either sign.  Each coordinate of an image is then one product with a one, which is
exact, and two terms that are zeros, which change no more than the sign of a zero.  So
nothing is rounded, however large or small the coordinates are.

The determinant is one, so the inverse has the elements of the opposite turn and what is
shown of turns holds of it as well.
-/

namespace Spatial

open Scalar Widening
open Binary32 (IsZero value)

/-! ## The elements of a turn -/

namespace Binary32

theorem not_isZero_neg_one : ¬IsZero (-1) := by
  intro h
  exact not_isZero_one (neg_neg 1 ▸ h.neg)

/-- A number times minus one is its negation, bit for bit. -/
theorem mul_neg_one (x : Float32) : x * -1 = -x := by
  rw [mul_neg, mul_one]

variable {x y a b c u z : Float32}

/-- Of three terms only the first is not a zero. -/
theorem agree_first_term (hy : y.isFinite = true) (ha : Agree a u) (hu : ¬IsZero u)
    (hproduct : x * u = z) (hb : Agree b 0) (hc : Agree c 0) : Agree (x * a + y * b + c) z := by
  have hyb : IsZero (y * b) := by
    rw [mul_comm]
    exact (hb.isZero isZero_zero).mul hy
  rw [ha.eq_of_not_isZero hu, hproduct]
  exact (agree_add_zero _ (hc.isZero isZero_zero)).trans (agree_add_zero _ hyb)

/-- Of three terms only the second is not a zero. -/
theorem agree_second_term (hx : x.isFinite = true) (ha : Agree a 0) (hb : Agree b u)
    (hu : ¬IsZero u) (hproduct : y * u = z) (hc : Agree c 0) : Agree (x * a + y * b + c) z := by
  have hxa : IsZero (x * a) := by
    rw [mul_comm]
    exact (ha.isZero isZero_zero).mul hx
  rw [hb.eq_of_not_isZero hu, hproduct]
  exact (agree_add_zero _ (hc.isZero isZero_zero)).trans (agree_zero_add _ hxa)

end Binary32

namespace QuarterTurn

/-- What the turn makes of a vector. -/
def apply {α : Type} [Neg α] : QuarterTurn → Vec2 α → Vec2 α
  | ahead, v => v
  | left, v => ⟨-v.y, v.x⟩
  | back, v => ⟨-v.x, -v.y⟩
  | right, v => ⟨v.y, -v.x⟩

/-- The turn the other way. -/
def inverse : QuarterTurn → QuarterTurn
  | ahead => ahead
  | left => right
  | back => back
  | right => left

variable (turn : QuarterTurn) {v w : Vec2 Float32}

/-- The inverse turn undoes a turn. -/
theorem apply_inverse (v : Vec2 Float32) : turn.inverse.apply (turn.apply v) = v := by
  cases turn <;> simp only [apply, inverse, Binary32.neg_neg]

/-- A turn keeps agreement. -/
theorem apply_agree (h : Components.Agree v w) :
    Components.Agree (turn.apply v) (turn.apply w) := by
  rw [Vec2.agree_iff] at h ⊢
  cases turn with
  | ahead => exact h
  | left => exact ⟨h.2.neg, h.1⟩
  | back => exact ⟨h.1.neg, h.2.neg⟩
  | right => exact ⟨h.2, h.1.neg⟩

open Binary32 (agree_first_term agree_second_term not_isZero_one not_isZero_neg_one mul_one
  mul_neg_one) in
/-- A map whose elements are those of a turn acts as the turn. -/
theorem transformPoint_agree {m : Affine2 Float32} (hm : (m == turn.map) = true)
    (hv : Components.isFinite v = true) :
    Components.Agree (m.transformPoint v) (turn.apply v) := by
  have hx : v.x.isFinite = true := Components.isFinite_of_mem hv (by simp [Components.toList])
  have hy : v.y.isFinite = true := Components.isFinite_of_mem hv (by simp [Components.toList])
  have helements := (Affine2.agree_iff _ _).mp (Components.agree_of_beq hm)
  simp only [Vec2.agree_iff] at helements
  obtain ⟨⟨h₁₁, h₁₂⟩, ⟨h₂₁, h₂₂⟩, h₃₁, h₃₂⟩ := helements
  rw [Vec2.agree_iff]
  cases turn with
  | ahead =>
      constructor
      · exact agree_first_term hy h₁₁ not_isZero_one (mul_one _) h₂₁ h₃₁
      · exact agree_second_term hx h₁₂ h₂₂ not_isZero_one (mul_one _) h₃₂
  | left =>
      constructor
      · exact agree_second_term hx h₁₁ h₂₁ not_isZero_neg_one (mul_neg_one _) h₃₁
      · exact agree_first_term hy h₁₂ not_isZero_one (mul_one _) h₂₂ h₃₂
  | back =>
      constructor
      · exact agree_first_term hy h₁₁ not_isZero_neg_one (mul_neg_one _) h₂₁ h₃₁
      · exact agree_second_term hx h₁₂ h₂₂ not_isZero_neg_one (mul_neg_one _) h₃₂
  | right =>
      constructor
      · exact agree_second_term hx h₁₁ h₂₁ not_isZero_one (mul_one _) h₃₁
      · exact agree_first_term hy h₁₂ not_isZero_neg_one (mul_neg_one _) h₂₂ h₃₂

/-- A turn of a finite vector is finite. -/
theorem isFinite_apply (hv : Components.isFinite v = true) :
    Components.isFinite (turn.apply v) = true := by
  simp only [Components.isFinite, Components.toList, List.all_cons, List.all_nil, Bool.and_true,
    Bool.and_eq_true] at hv
  cases turn <;>
    simp only [apply, Components.isFinite, Components.toList, List.all_cons, List.all_nil,
      Bool.and_true, Binary32.isFinite_neg, hv]

/-! ## The rotation by a turn -/

/-- The rotation with the sine and cosine of the turn. -/
def rotation {α : Type} [Scalar α] : Affine2 α := .ofSinCos turn.sinCos

/-- The map of a quarter turn has its exact elements. -/
theorem rotation_beq_map : (turn.rotation == (turn.map : Affine2 Float32)) = true := by
  cases turn <;> decide +kernel

/-- The inverse of the map is the map of the inverse turn. -/
theorem exists_inverse_rotation :
    ∃ inverse, (turn.rotation : Affine2 Float32).invert = .ok inverse ∧
      (inverse == turn.inverse.map) = true := by
  have hinverse :
      turn.rotation.invert.toOption.any (· == (turn.inverse.map : Affine2 Float32)) := by
    cases turn <;> decide +kernel
  cases hinvert : (turn.rotation : Affine2 Float32).invert with
  | error failure =>
      rw [hinvert] at hinverse
      cases hinverse
  | ok inverse =>
      rw [hinvert] at hinverse
      exact ⟨inverse, rfl, hinverse⟩

/-- Four times the same turn is the identity. -/
theorem rotation_four_times :
    (turn.rotation * turn.rotation * turn.rotation * turn.rotation ==
      (Affine2.identity : Affine2 Float32)) = true := by
  cases turn <;> decide +kernel

/-- An angle near a quarter turn has the exact sine, cosine and map of that turn. -/
theorem rotation_eq {radians : Float32} (h : near? (wrapAngle radians : Float) = some turn) :
    snappedSinCos radians = (turn.sinCos : Float32 × Float32) ∧
      Affine2.rotation radians = turn.rotation := by
  have hsinCos : snappedSinCos radians = (turn.sinCos : Float32 × Float32) := by
    rw [snappedSinCos_eq, h]
  rw [Affine2.rotation_eq, hsinCos]
  exact ⟨rfl, rfl⟩

end QuarterTurn

/-- **Quarter turns in binary32.**  The rotation by an angle that is taken for a quarter turn
takes every finite vector to what the turn makes of it, with no rounding.  It has an inverse,
which takes the image back, and four of it in a row are the identity. -/
theorem quarter_turns_exact (radians : Float32) (turn : QuarterTurn)
    (h : QuarterTurn.near? (wrapAngle radians : Float) = some turn) :
    let m : Affine2 Float32 := Affine2.rotation radians
    snappedSinCos radians = (turn.sinCos : Float32 × Float32) ∧
    (∀ v, Components.isFinite v = true → (m.transformPoint v == turn.apply v) = true) ∧
    (∃ inverse, m.invert = .ok inverse ∧ ∀ v, Components.isFinite v = true →
      (inverse.transformPoint (m.transformPoint v) == v) = true) ∧
    (m * m * m * m == Affine2.identity) = true := by
  obtain ⟨hsinCos, hrotation⟩ := turn.rotation_eq h
  obtain ⟨inverse, hinvert, hinverse⟩ := turn.exists_inverse_rotation
  rw [hrotation]
  refine ⟨hsinCos, fun v hv => ?_, ⟨inverse, hinvert, fun v hv => ?_⟩, turn.rotation_four_times⟩
  · have himage := turn.transformPoint_agree turn.rotation_beq_map hv
    exact himage.beq (turn.isFinite_apply hv)
  · have himage := turn.transformPoint_agree turn.rotation_beq_map hv
    have hback := turn.inverse.transformPoint_agree hinverse
      (himage.isFinite (turn.isFinite_apply hv))
    have hturned := turn.inverse.apply_agree himage
    rw [turn.apply_inverse] at hturned
    exact (hback.trans hturned).beq hv

/-- An angle near the end of binary32 is taken for half a turn, though it is reduced to one far
beyond the range.  The largest and the smallest coordinate are negated exactly. -/
theorem largest_and_smallest_turned :
    let radians := Float32.ofBits 0x7f68d32d
    let v : Vec2 Float32 := ⟨.ofBits 0x7f7fffff, .ofBits 0x00000001⟩
    QuarterTurn.near? (wrapAngle radians : Float) = some .back ∧ Components.isFinite v = true ∧
      ((Affine2.rotation radians).transformPoint v ==
        ⟨.ofBits 0xff7fffff, .ofBits 0x80000001⟩) = true := by
  have hnear : QuarterTurn.near? (wrapAngle (Float32.ofBits 0x7f68d32d) : Float) = some .back := by
    decide +kernel
  have hfinite : Components.isFinite
      (⟨.ofBits 0x7f7fffff, .ofBits 0x00000001⟩ : Vec2 Float32) = true := by
    decide +kernel
  exact ⟨hnear, hfinite, (quarter_turns_exact _ _ hnear).2.1 _ hfinite⟩

end Spatial
