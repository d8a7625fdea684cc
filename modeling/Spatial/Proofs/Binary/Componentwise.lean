import Mathlib
import Spatial.Plane
import Spatial.Proofs.Binary.Agreement

/-!
# Agreement and finiteness by components

Two values agree if their components do, each with its match, and a value is finite if
its components are.  Both are conditions on the list of components; for a vector they
are conditions on its components one by one, and for a matrix on its rows.
-/

namespace Spatial

namespace Components

/-- A kind of value whose components are combined each with its match. -/
class Pointwise (F : Type → Type) [Components F] : Prop where
  toList_zipWith {α β γ : Type} (f : α → β → γ) (u : F α) (v : F β) :
    toList (zipWith f u v) = List.zipWith f (toList u) (toList v)

instance : Pointwise Vec2 := ⟨fun _ _ _ => rfl⟩

instance : Pointwise Vec3 := ⟨fun _ _ _ => rfl⟩

instance : Pointwise Vec4 := ⟨fun _ _ _ => rfl⟩

instance : Pointwise Quaternion := ⟨fun _ _ _ => rfl⟩

instance : Pointwise Affine2 := ⟨fun _ _ _ => rfl⟩

instance : Pointwise Matrix4 := ⟨fun _ _ _ => rfl⟩

variable {F : Type → Type} [Components F]

/-- The components of two values agree, each with its match. -/
def Agree (u v : F Float32) : Prop := List.Forall₂ Binary32.Agree (toList u) (toList v)

/-- Every value agrees with itself. -/
theorem Agree.refl (u : F Float32) : Agree u u :=
  List.forall₂_same.mpr fun x _ => Binary32.Agree.refl x

/-- Agreement of values goes both ways. -/
theorem Agree.symm {u v : F Float32} (h : Agree u v) : Agree v u :=
  h.flip.imp fun _ _ hab => Binary32.Agree.symm hab

/-- Agreement of values goes through a third one. -/
theorem Agree.trans {u v w : F Float32} (huv : Agree u v) (hvw : Agree v w) : Agree u w := by
  refine List.forall₂_iff_get.mpr ⟨huv.length_eq.trans hvw.length_eq, fun i hi hw => ?_⟩
  have hi' : i < (toList v).length := huv.length_eq ▸ hi
  exact (huv.get hi hi').trans (hvw.get hi' hw)

/-- Every component of a finite value is finite. -/
theorem isFinite_of_mem {u : F Float32} (hu : isFinite u = true) {x : Float32}
    (hx : x ∈ toList u) : x.isFinite = true :=
  List.all_eq_true.mp hu x hx

/-- A value that agrees with a finite one is finite. -/
theorem Agree.isFinite {u v : F Float32} (h : Agree u v) (hv : Components.isFinite v = true) :
    Components.isFinite u = true := by
  refine List.all_eq_true.mpr fun x hx => ?_
  obtain ⟨i, rfl⟩ := List.mem_iff_get.mp hx
  have hi : i.val < (toList v).length := h.length_eq ▸ i.isLt
  exact (h.get i.isLt hi).isFinite (isFinite_of_mem hv (List.get_mem _ _))

/-- A term that is zero times an element of a finite value may be left out of a sum. -/
theorem agree_add_zero_mul {u : F Float32} (hu : isFinite u = true) {y : Float32}
    (hy : y ∈ toList u) (x : Float32) : Binary32.Agree (x + 0 * y) x :=
  Binary32.agree_add_zero x (Binary32.isZero_zero_mul (isFinite_of_mem hu hy))

end Components

/-- Vectors agree where their components do. -/
theorem Vec2.agree_iff (u v : Vec2 Float32) :
    Components.Agree u v ↔ Binary32.Agree u.x v.x ∧ Binary32.Agree u.y v.y := by
  simp [Components.Agree, Components.toList]

/-- The same with three components. -/
theorem Vec3.agree_iff (u v : Vec3 Float32) :
    Components.Agree u v ↔
      Binary32.Agree u.x v.x ∧ Binary32.Agree u.y v.y ∧ Binary32.Agree u.z v.z := by
  simp [Components.Agree, Components.toList]

/-- A vector is finite where its components are. -/
theorem Vec2.isFinite_iff (v : Vec2 Float32) :
    Components.isFinite v = true ↔ v.x.isFinite = true ∧ v.y.isFinite = true := by
  simp [Components.isFinite, Components.toList]

/-- The same with three components. -/
theorem Vec3.isFinite_iff (v : Vec3 Float32) :
    Components.isFinite v = true ↔
      v.x.isFinite = true ∧ v.y.isFinite = true ∧ v.z.isFinite = true := by
  simp [Components.isFinite, Components.toList]

/-- The same with four components. -/
theorem Vec4.isFinite_iff (v : Vec4 Float32) :
    Components.isFinite v = true ↔
      v.x.isFinite = true ∧ v.y.isFinite = true ∧ v.z.isFinite = true ∧ v.w.isFinite = true := by
  simp [Components.isFinite, Components.toList]

/-- A quaternion is finite where its components are. -/
theorem Quaternion.isFinite_iff (q : Quaternion Float32) :
    Components.isFinite q = true ↔
      q.x.isFinite = true ∧ q.y.isFinite = true ∧ q.z.isFinite = true ∧ q.w.isFinite = true := by
  simp [Components.isFinite, Components.toList]

/-- A plane is finite where its normal and its offset are. -/
theorem Plane.isFinite_iff (p : Plane Float32) :
    Components.isFinite p = true ↔
      Components.isFinite p.normal = true ∧ p.d.isFinite = true := by
  simp [Components.isFinite, Components.toList, and_assoc]

/-- A vector with two components added is finite where the vector and both are. -/
theorem Vec2.isFinite_extend2 (v : Vec2 Float32) (z w : Float32) :
    Components.isFinite (v.extend2 z w) = true ↔
      Components.isFinite v = true ∧ z.isFinite = true ∧ w.isFinite = true := by
  simp [Components.isFinite, Components.toList, extend2, and_assoc]

/-- Vectors of four components agree where their first two and the others do. -/
theorem Vec4.agree_iff (u v : Vec4 Float32) :
    Components.Agree u v ↔
      Components.Agree u.xy v.xy ∧ Binary32.Agree u.z v.z ∧ Binary32.Agree u.w v.w := by
  simp [Components.Agree, Components.toList, xy, and_assoc]

/-- Maps agree where their rows do. -/
theorem Affine2.agree_iff (m n : Affine2 Float32) :
    Components.Agree m n ↔
      Components.Agree m.r1 n.r1 ∧ Components.Agree m.r2 n.r2 ∧ Components.Agree m.r3 n.r3 := by
  simp [Components.Agree, Components.toList, and_assoc]

/-- A map is finite where its rows are. -/
theorem Affine2.isFinite_iff (m : Affine2 Float32) :
    Components.isFinite m = true ↔
      Components.isFinite m.r1 = true ∧ Components.isFinite m.r2 = true ∧
        Components.isFinite m.r3 = true := by
  simp [Components.isFinite, Components.toList, and_assoc]

/-- Matrices agree where their rows do. -/
theorem Matrix4.agree_iff (m n : Matrix4 Float32) :
    Components.Agree m n ↔
      Components.Agree m.r1 n.r1 ∧ Components.Agree m.r2 n.r2 ∧
        Components.Agree m.r3 n.r3 ∧ Components.Agree m.r4 n.r4 := by
  simp [Components.Agree, Components.toList, and_assoc]

/-- A matrix is finite where its rows are. -/
theorem Matrix4.isFinite_iff (m : Matrix4 Float32) :
    Components.isFinite m = true ↔
      Components.isFinite m.r1 = true ∧ Components.isFinite m.r2 = true ∧
        Components.isFinite m.r3 = true ∧ Components.isFinite m.r4 = true := by
  simp [Components.isFinite, Components.toList, and_assoc]

end Spatial
