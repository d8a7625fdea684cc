import Mathlib
import Spatial.Vector
import Spatial.Proofs.Binary.Order

/-!
# Clamping in binary32

To clamp a value is to take the smaller of it and the upper bound, and then the larger of that and
the lower bound.  Each of the two keeps its second operand unless the first is strictly on the
other side, so whatever is compared with what is no number is kept.

1.  A bound that is no number is therefore never taken, and the other one works as it does alone.
    A value that is no number is never replaced.
2.  The result is the lower bound, or it is beyond neither bound.  Both are left as they are when
    they are clamped again, and this needs no more of the order than that nothing is below itself.
3.  If the bounds cross, a value above the upper one is brought below the lower one, so the lower
    one is taken whatever the value.
4.  The smaller of a bound and a value grows with the value, and so does the larger.
-/

namespace Spatial

namespace Scalar

section Laws

variable {α : Type} [Scalar α] (value lo hi : α)

/-- A number is first held below its upper bound, then above its lower one. -/
theorem clamp_eq : clamp value lo hi = max lo (min hi value) := rfl

variable {value lo hi}

theorem min_of_lt (h : hi < value) : min hi value = hi := if_pos h

theorem min_of_not_lt (h : ¬hi < value) : min hi value = value := if_neg h

theorem max_of_lt (h : value < lo) : max lo value = lo := if_pos h

theorem max_of_not_lt (h : ¬value < lo) : max lo value = value := if_neg h

/-- What is beyond neither bound is kept. -/
theorem clamp_of_not_lt (hlo : ¬value < lo) (hhi : ¬hi < value) : clamp value lo hi = value := by
  rw [clamp_eq, min_of_not_lt hhi, max_of_not_lt hlo]

variable (hself : ∀ a : α, ¬a < a)
include hself

/-- The lower bound is kept, even where it is beyond the upper one. -/
theorem clamp_lower (lo hi : α) : clamp lo lo hi = lo := by
  by_cases hcross : hi < lo
  · rw [clamp_eq, min_of_lt hcross, max_of_lt hcross]
  · exact clamp_of_not_lt (hself lo) hcross

/-- The result is the lower bound or is beyond neither bound. -/
theorem clamp_cases (value lo hi : α) :
    clamp value lo hi = lo ∨ ¬clamp value lo hi < lo ∧ ¬hi < clamp value lo hi := by
  have hupper : ¬hi < min hi value := by
    by_cases hbeyond : hi < value
    · rw [min_of_lt hbeyond]
      exact hself hi
    · rw [min_of_not_lt hbeyond]
      exact hbeyond
  by_cases hbelow : min hi value < lo
  · exact .inl (max_of_lt hbelow)
  · rw [clamp_eq, max_of_not_lt hbelow]
    exact .inr ⟨hbelow, hupper⟩

/-- What has been clamped is not changed again. -/
theorem clamp_clamp (value lo hi : α) : clamp (clamp value lo hi) lo hi = clamp value lo hi := by
  rcases clamp_cases hself value lo hi with hlower | ⟨hlo, hhi⟩
  · rw [hlower, clamp_lower hself]
  · exact clamp_of_not_lt hlo hhi

end Laws

end Scalar

namespace Binary32

open Scalar (clamp clamp_cases clamp_eq max_of_lt max_of_not_lt min_of_lt min_of_not_lt)

variable {value value' lo hi bound : Float32}

/-! ## One bound -/

/-- An undefined upper bound holds nothing back. -/
theorem min_of_isNaN (h : bound.isNaN = true) (value : Float32) : Scalar.min bound value = value :=
  min_of_not_lt (not_lt_of_isNaN (.inr h))

/-- An undefined lower bound holds nothing back. -/
theorem max_of_isNaN (h : bound.isNaN = true) (value : Float32) : Scalar.max bound value = value :=
  max_of_not_lt (not_lt_of_isNaN (.inl h))

/-- Holding a number below a bound keeps whether it is undefined. -/
theorem isNaN_min (bound value : Float32) : (Scalar.min bound value).isNaN = value.isNaN := by
  by_cases h : bound < value
  · obtain ⟨hbound, hvalue, -⟩ := lt_iff_rank.mp h
    rw [min_of_lt h, hbound, hvalue]
  · rw [min_of_not_lt h]

/-- Holding a number above a bound keeps whether it is undefined. -/
theorem isNaN_max (bound value : Float32) : (Scalar.max bound value).isNaN = value.isNaN := by
  by_cases h : value < bound
  · obtain ⟨hvalue, hbound, -⟩ := lt_iff_rank.mp h
    rw [max_of_lt h, hbound, hvalue]
  · rw [max_of_not_lt h]

/-- The smaller of a bound and a value grows with the value, whatever the bound is. -/
theorem min_mono (bound : Float32) (h : value ≤ value') :
    Scalar.min bound value ≤ Scalar.min bound value' := by
  obtain ⟨hvalue, hvalue', -⟩ := le_iff_rank.mp h
  by_cases hbeyond' : bound < value'
  · have hbound := (lt_iff_rank.mp hbeyond').1
    rw [min_of_lt hbeyond']
    by_cases hbeyond : bound < value
    · rw [min_of_lt hbeyond]
      exact le_self hbound
    · rw [min_of_not_lt hbeyond]
      exact Binary32.le_of_not_lt hbeyond hvalue hbound
  · have hbeyond : ¬bound < value := fun hbeyond => hbeyond' (Binary32.lt_of_lt_of_le hbeyond h)
    rw [min_of_not_lt hbeyond, min_of_not_lt hbeyond']
    exact h

/-- So does the larger. -/
theorem max_mono (bound : Float32) (h : value ≤ value') :
    Scalar.max bound value ≤ Scalar.max bound value' := by
  obtain ⟨hvalue, hvalue', -⟩ := le_iff_rank.mp h
  by_cases hbelow : value < bound
  · have hbound := (lt_iff_rank.mp hbelow).2.1
    rw [max_of_lt hbelow]
    by_cases hbelow' : value' < bound
    · rw [max_of_lt hbelow']
      exact le_self hbound
    · rw [max_of_not_lt hbelow']
      exact Binary32.le_of_not_lt hbelow' hbound hvalue'
  · have hbelow' : ¬value' < bound := fun hbelow' => hbelow (Binary32.lt_of_le_of_lt h hbelow')
    rw [max_of_not_lt hbelow, max_of_not_lt hbelow']
    exact h

/-! ## Two bounds -/

/-- Holding a number between bounds keeps whether it is undefined. -/
theorem isNaN_clamp (value lo hi : Float32) : (clamp value lo hi).isNaN = value.isNaN := by
  rw [clamp_eq, isNaN_max, isNaN_min]

/-- Where the bounds cross, a value that is a number is brought to the lower one. -/
theorem clamp_of_crossed (hvalue : value.isNaN = false) (hcross : hi < lo) :
    clamp value lo hi = lo := by
  have hhi := (lt_iff_rank.mp hcross).1
  have hbelow : Scalar.min hi value < lo := by
    by_cases hbeyond : hi < value
    · rw [min_of_lt hbeyond]
      exact hcross
    · rw [min_of_not_lt hbeyond]
      exact Binary32.lt_of_le_of_lt (Binary32.le_of_not_lt hbeyond hvalue hhi) hcross
  rw [clamp_eq, max_of_lt hbelow]

/-- A number is held between bounds that are in order. -/
theorem clamp_between (hvalue : value.isNaN = false) (horder : lo ≤ hi) :
    lo ≤ clamp value lo hi ∧ clamp value lo hi ≤ hi := by
  obtain ⟨hlo, hhi, -⟩ := le_iff_rank.mp horder
  have hresult : (clamp value lo hi).isNaN = false := (isNaN_clamp value lo hi).trans hvalue
  rcases clamp_cases not_lt_self value lo hi with hlower | ⟨hbelow, hbeyond⟩
  · rw [hlower]
    exact ⟨le_self hlo, horder⟩
  · exact ⟨Binary32.le_of_not_lt hbelow hlo hresult, Binary32.le_of_not_lt hbeyond hresult hhi⟩

/-- Holding numbers between bounds keeps their order. -/
theorem clamp_mono (lo hi : Float32) (h : value ≤ value') :
    clamp value lo hi ≤ clamp value' lo hi :=
  max_mono lo (min_mono hi h)

end Binary32

/-- Values are held between bounds, as far as one of their lanes shows. -/
structure Clamps {V : Type} (clamp : V → V → V → V) (lane : V → Float32) : Prop where
  /-- What has been clamped is not changed again, not in one bit. -/
  again (value lo hi : V) :
    lane (clamp (clamp value lo hi) lo hi) = lane (clamp value lo hi)
  /-- The result is no number exactly if the value is none. -/
  undefined (value lo hi : V) : (lane (clamp value lo hi)).isNaN = (lane value).isNaN
  /-- Where the bounds cross, the lower one is taken. -/
  crossed {value lo hi : V} (hvalue : (lane value).isNaN = false) (hcross : lane hi < lane lo) :
    lane (clamp value lo hi) = lane lo
  /-- Where they do not cross, the result is between them. -/
  between {value lo hi : V} (hvalue : (lane value).isNaN = false) (horder : lane lo ≤ lane hi) :
    lane lo ≤ lane (clamp value lo hi) ∧ lane (clamp value lo hi) ≤ lane hi
  /-- What is between the bounds is kept. -/
  kept {value lo hi : V} (hlo : lane lo ≤ lane value) (hhi : lane value ≤ lane hi) :
    lane (clamp value lo hi) = lane value
  /-- The result grows with the value. -/
  monotone {value value' : V} (lo hi : V) (h : lane value ≤ lane value') :
    lane (clamp value lo hi) ≤ lane (clamp value' lo hi)
  /-- Without an upper bound, the larger of the lower bound and the value is left. -/
  without_upper (value lo : V) {hi : V} (h : (lane hi).isNaN = true) :
    lane (clamp value lo hi) = Scalar.max (lane lo) (lane value)
  /-- Without a lower bound, the smaller of the upper bound and the value is left. -/
  without_lower (value : V) {lo : V} (hi : V) (h : (lane lo).isNaN = true) :
    lane (clamp value lo hi) = Scalar.min (lane hi) (lane value)
  /-- Without bounds the value is left. -/
  without_bounds (value : V) {lo hi : V} (hlo : (lane lo).isNaN = true)
    (hhi : (lane hi).isNaN = true) : lane (clamp value lo hi) = lane value

namespace Clamps

open Binary32

/-- A lane in which scalars are clamped. -/
theorem of_lane {V : Type} {clamp : V → V → V → V} {lane : V → Float32}
    (h : ∀ value lo hi, lane (clamp value lo hi) =
      Scalar.clamp (lane value) (lane lo) (lane hi)) : Clamps clamp lane where
  again value lo hi := by
    rw [h, h, Scalar.clamp_clamp not_lt_self]
  undefined value lo hi := by
    rw [h, isNaN_clamp]
  crossed hvalue hcross := by
    rw [h, clamp_of_crossed hvalue hcross]
  between hvalue horder := by
    rw [h]
    exact clamp_between hvalue horder
  kept hlo hhi := by
    rw [h, Scalar.clamp_of_not_lt (Binary32.not_lt_of_le hlo) (Binary32.not_lt_of_le hhi)]
  monotone lo hi hle := by
    rw [h, h]
    exact clamp_mono _ _ hle
  without_upper value lo hi hnan := by
    rw [h, Scalar.clamp_eq, min_of_isNaN hnan]
  without_lower value lo hi hnan := by
    rw [h, Scalar.clamp_eq, max_of_isNaN hnan]
  without_bounds value lo hi hlo hhi := by
    rw [h, Scalar.clamp_eq, min_of_isNaN hhi, max_of_isNaN hlo]

end Clamps

/-- **Clamping.**  Numbers of binary32, and the vectors of each dimension lane by lane, are held
between bounds.  Clamping again changes nothing; what is no number stays so, and is made of no
number; where the bounds cross the lower one is taken, and else the result is between them, and is
the value if that was; the result grows with the value; and a bound that is no number is as if it
were absent. -/
theorem values_held_between_bounds :
    Clamps Scalar.clamp (id : Float32 → Float32) ∧
      (∀ lane ∈ [Vec2.x, Vec2.y], Clamps (Components.clamp : Vec2 Float32 → _ → _ → _) lane) ∧
      (∀ lane ∈ [Vec3.x, Vec3.y, Vec3.z],
        Clamps (Components.clamp : Vec3 Float32 → _ → _ → _) lane) ∧
      ∀ lane ∈ [Vec4.x, Vec4.y, Vec4.z, Vec4.w],
        Clamps (Components.clamp : Vec4 Float32 → _ → _ → _) lane := by
  refine ⟨.of_lane fun _ _ _ => rfl, ?_, ?_, ?_⟩
  all_goals
    simp only [List.forall_mem_cons, List.not_mem_nil, false_imp_iff, implies_true, and_true]
  · exact ⟨.of_lane fun _ _ _ => rfl, .of_lane fun _ _ _ => rfl⟩
  · exact ⟨.of_lane fun _ _ _ => rfl, .of_lane fun _ _ _ => rfl, .of_lane fun _ _ _ => rfl⟩
  · exact ⟨.of_lane fun _ _ _ => rfl, .of_lane fun _ _ _ => rfl, .of_lane fun _ _ _ => rfl,
      .of_lane fun _ _ _ => rfl⟩

/-- A negative zero between zeros, no number between bounds, bounds that cross, and one bound that
is absent, side by side in four lanes. -/
theorem mixed_lanes_held :
    let value : Vec4 Float32 := ⟨-0, 0 / 0, 2, 5⟩
    let lo : Vec4 Float32 := ⟨0, 1, 3, 0 / 0⟩
    let hi : Vec4 Float32 := ⟨0, 2, 1, 4⟩
    let held := Components.clamp value lo hi
    (lo.x ≤ value.x ∧ value.x ≤ hi.x ∧ held.x = value.x) ∧ held.y.isNaN = true ∧
      (hi.z < lo.z ∧ held.z = lo.z) ∧ lo.w.isNaN = true ∧ held.w = Scalar.min hi.w value.w ∧
      (Components.clamp held lo hi).z = held.z := by
  intro value lo hi held
  have hlower : lo.x ≤ value.x := by decide +kernel
  have hupper : value.x ≤ hi.x := by decide +kernel
  have hundefined : value.y.isNaN = true := by decide +kernel
  have hnumber : value.z.isNaN = false := by decide +kernel
  have hcross : hi.z < lo.z := by decide +kernel
  have habsent : lo.w.isNaN = true := by decide +kernel
  obtain ⟨-, -, -, hlanes⟩ := values_held_between_bounds
  refine ⟨⟨hlower, hupper, ?_⟩, ?_, ⟨hcross, ?_⟩, habsent, ?_, ?_⟩
  · exact (hlanes Vec4.x (by simp)).kept hlower hupper
  · exact ((hlanes Vec4.y (by simp)).undefined value lo hi).trans hundefined
  · exact (hlanes Vec4.z (by simp)).crossed hnumber hcross
  · exact (hlanes Vec4.w (by simp)).without_lower value hi habsent
  · exact (hlanes Vec4.z (by simp)).again value lo hi

end Spatial
