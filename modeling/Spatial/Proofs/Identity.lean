import Mathlib
import Spatial.Proofs.Conjugation
import Spatial.Proofs.Binary.Amount

/-!
# Identities in binary32

A product with an identity adds, for each component, the component times one and other components
times zero.  The amounts of these terms are the component and zeros, since every component is
finite, and a sum with zeros is not rounded: so the product is what it was, but for the signs of
zeros.

A plane goes through the inverse of a matrix, transposed.  For the identity the inverse has zeros
of either sign beside its ones, so that it agrees with the identity and is not the same matrix.
-/

namespace Spatial

open Binary32 (amount)
open Binary32.Amount (amount_add amount_mul mul_zero zero_mul)
open Components (Agree agree_iff_amounts)

namespace Components

variable {F : Type → Type} [Components F] [BEq (F Float32)]

/-- A map gives back every finite value, but for the signs of zeros. -/
def Keeps (f : F Float32 → F Float32) : Prop :=
  ∀ v, Components.isFinite v = true → (f v == v) = true

/-- What agrees with every finite value keeps finite values, up to the sign of zero. -/
theorem keeps_of_agree [Tolerance.Fieldwise F] {f : F Float32 → F Float32}
    (h : ∀ v, Components.isFinite v = true → Agree (f v) v) : Keeps f :=
  fun v hv => (h v hv).beq hv

/-- A value is neutral among finite values, on either side of a product. -/
structure Neutral [Mul (F Float32)] (e : F Float32) : Prop where
  left : Keeps (e * ·)
  right : Keeps (· * e)

end Components

/-! ## Maps of the plane -/

namespace Affine2

variable {m : Affine2 Float32} {v : Vec2 Float32}

/-- The identity of the plane keeps points. -/
theorem transformPoint_identity_agree (hv : Components.isFinite v = true) :
    Agree (identity.transformPoint v) v := by
  obtain ⟨hx, hy⟩ := (Vec2.isFinite_iff v).mp hv
  rw [agree_iff_amounts]
  simp only [Components.toList, transformPoint, identity, Vec2.mulLeft_eq, Vec2.add_eq,
    List.map_cons, List.map_nil]
  simp [mul_zero, hx, hy]

/-- The identity of the plane keeps directions. -/
theorem transformDirection_identity_agree (hv : Components.isFinite v = true) :
    Agree (identity.transformDirection v) v := by
  obtain ⟨hx, hy⟩ := (Vec2.isFinite_iff v).mp hv
  rw [agree_iff_amounts]
  simp only [Components.toList, transformDirection, identity, Vec2.mulLeft_eq, Vec2.add_eq,
    List.map_cons, List.map_nil]
  simp [mul_zero, hx, hy]

/-- The identity of the plane is neutral on the right. -/
theorem mul_identity_agree (hm : Components.isFinite m = true) : Agree (m * identity) m := by
  obtain ⟨h₁, h₂, h₃⟩ := (isFinite_iff m).mp hm
  rw [agree_iff, mul_rows]
  exact ⟨transformDirection_identity_agree h₁, transformDirection_identity_agree h₂,
    transformPoint_identity_agree h₃⟩

/-- The identity of the plane is neutral on the left. -/
theorem identity_mul_agree (hm : Components.isFinite m = true) : Agree (identity * m) m := by
  simp only [isFinite_iff, Vec2.isFinite_iff] at hm
  rw [agree_iff_amounts, mul_rows]
  simp only [Components.toList, transformDirection, transformPoint, identity, Vec2.mulLeft_eq,
    Vec2.add_eq, List.map_cons, List.map_nil]
  simp [zero_mul, hm]

end Affine2

/-! ## Maps of space -/

namespace Matrix4

variable {m : Matrix4 Float32}

/-- The identity keeps vectors of four components. -/
theorem transform_identity_agree {v : Vec4 Float32} (hv : Components.isFinite v = true) :
    Agree (identity.transform v) v := by
  obtain ⟨hx, hy, hz, hw⟩ := (Vec4.isFinite_iff v).mp hv
  rw [agree_iff_amounts, transform_eq]
  simp only [Components.toList, identity, List.map_cons, List.map_nil]
  simp [mul_zero, hx, hy, hz, hw]

/-- A matrix acts as any other that agrees with it. -/
theorem transform_agree {n : Matrix4 Float32} (h : Agree m n) (v : Vec4 Float32) :
    Agree (m.transform v) (n.transform v) := by
  rw [agree_iff_amounts] at h ⊢
  simp only [Components.toList, List.map_cons, List.map_nil, List.cons.injEq, and_true] at h
  rw [transform_eq, transform_eq]
  simp only [Components.toList, List.map_cons, List.map_nil, amount_add, amount_mul, h]

/-- The identity is neutral on the right. -/
theorem mul_identity_agree (hm : Components.isFinite m = true) : Agree (m * identity) m := by
  obtain ⟨h₁, h₂, h₃, h₄⟩ := (isFinite_iff m).mp hm
  rw [agree_iff, mul_rows]
  exact ⟨transform_identity_agree h₁, transform_identity_agree h₂, transform_identity_agree h₃,
    transform_identity_agree h₄⟩

/-- The identity is neutral on the left. -/
theorem identity_mul_agree (hm : Components.isFinite m = true) : Agree (identity * m) m := by
  simp only [isFinite_iff, Vec4.isFinite_iff] at hm
  rw [agree_iff_amounts, mul_rows]
  simp only [Components.toList, transform_eq, identity, List.map_cons, List.map_nil]
  simp [zero_mul, hm]

/-- The identity keeps points. -/
theorem transformPoint_identity_agree {v : Vec3 Float32} (hv : Components.isFinite v = true) :
    Agree (identity.transformPoint v) v := by
  obtain ⟨hx, hy, hz⟩ := (Vec3.isFinite_iff v).mp hv
  rw [agree_iff_amounts]
  simp only [Components.toList, transformPoint, identity, Vec4.xyz, Vec3.mulLeft_eq, Vec3.add_eq,
    List.map_cons, List.map_nil]
  simp [mul_zero, hx, hy, hz]

/-- The inverse of the identity has the elements of the identity, a few zeros negated. -/
theorem transpose_invertInto_identity_agree :
    Agree (identity : Matrix4 Float32).invertInto.2.transpose identity :=
  Components.agree_of_beq (by decide +kernel)

end Matrix4

/-! ## Quaternions -/

namespace Quaternion

variable {q : Quaternion Float32}

/-- The identity quaternion is neutral on the right. -/
theorem mul_identity_agree (hq : Components.isFinite q = true) : Agree (q * identity) q := by
  obtain ⟨hx, hy, hz, hw⟩ := (isFinite_iff q).mp hq
  rw [agree_iff_amounts, mul_eq]
  simp only [Components.toList, identity, List.map_cons, List.map_nil]
  simp [mul_zero, zero_mul, hx, hy, hz, hw]

/-- The identity quaternion is neutral on the left. -/
theorem identity_mul_agree (hq : Components.isFinite q = true) : Agree (identity * q) q := by
  obtain ⟨hx, hy, hz, hw⟩ := (isFinite_iff q).mp hq
  rw [agree_iff_amounts, mul_eq]
  simp only [Components.toList, identity, List.map_cons, List.map_nil]
  simp [zero_mul, hx, hy, hz, hw]

/-- The identity quaternion keeps vectors. -/
theorem rotate_identity_agree {v : Vec3 Float32} (hv : Components.isFinite v = true) :
    Agree (identity.rotate v) v := by
  obtain ⟨hx, hy, hz⟩ := (Vec3.isFinite_iff v).mp hv
  rw [agree_iff_amounts]
  simp only [Components.toList, rotate, identity, List.map_cons, List.map_nil]
  simp [mul_zero, hx, hy, hz]

/-- The identity quaternion keeps vectors in the plane. -/
theorem rotate2_identity_agree {v : Vec2 Float32} (hv : Components.isFinite v = true) :
    Agree (identity.rotate2 v) v := by
  obtain ⟨hx, hy⟩ := (Vec2.isFinite_iff v).mp hv
  rw [agree_iff_amounts]
  simp only [Components.toList, rotate2, identity, List.map_cons, List.map_nil]
  simp [mul_zero, hx, hy]

/-- The identity quaternion keeps vectors of four components. -/
theorem rotate4_identity_agree {v : Vec4 Float32} (hv : Components.isFinite v = true) :
    Agree (identity.rotate4 v) v := by
  obtain ⟨hx, hy, hz, hw⟩ := (Vec4.isFinite_iff v).mp hv
  have hpoint : Agree (identity.rotate v.xyz) v.xyz :=
    rotate_identity_agree ((Vec3.isFinite_iff v.xyz).mpr ⟨hx, hy, hz⟩)
  exact List.rel_append hpoint (.cons (.refl v.w) .nil)

end Quaternion

namespace Plane

variable {p : Plane Float32}

/-- The identity keeps planes. -/
theorem transform_identity_agree (hp : Components.isFinite p = true) :
    Agree (p.transform .identity) p := by
  obtain ⟨hnormal, hd⟩ := (isFinite_iff p).mp hp
  have hrow : Components.isFinite p.toVec4 = true := hp
  have hinverse : Agree (Matrix4.identity.invertInto.2.transpose.transform p.toVec4)
      (Matrix4.identity.transform p.toVec4) :=
    Matrix4.transform_agree Matrix4.transpose_invertInto_identity_agree p.toVec4
  exact hinverse.trans (Matrix4.transform_identity_agree hrow)

/-- The identity quaternion keeps planes. -/
theorem rotate_identity_agree (hp : Components.isFinite p = true) :
    Agree (p.rotate .identity) p := by
  obtain ⟨hnormal, -⟩ := (isFinite_iff p).mp hp
  exact List.rel_append (Quaternion.rotate_identity_agree hnormal) (.cons (.refl p.d) .nil)

end Plane

/-- **Identities in binary32.**  The identity of either matrix type and of quaternions is neutral
among finite values.  Points, row vectors and planes of finite components stay as they are under
the identity, given as a matrix or as a quaternion.  No component is rounded: only zeros may
change their signs, which equality does not see. -/
theorem identities_are_neutral :
    Components.Neutral (Affine2.identity : Affine2 Float32) ∧
    Components.Neutral (Matrix4.identity : Matrix4 Float32) ∧
    Components.Neutral (Quaternion.identity : Quaternion Float32) ∧
    Components.Keeps Affine2.identity.transformPoint ∧
    Components.Keeps Matrix4.identity.transformPoint2 ∧
    Components.Keeps Matrix4.identity.transformPoint ∧
    Components.Keeps Matrix4.identity.transform ∧
    Components.Keeps Quaternion.identity.rotate2 ∧
    Components.Keeps Quaternion.identity.rotate ∧
    Components.Keeps Quaternion.identity.rotate4 ∧
    (Components.Keeps fun p : Plane Float32 => p.transform .identity) ∧
    (Components.Keeps fun p : Plane Float32 => p.rotate .identity) ∧
    ∀ p : Plane Float32, Components.isFinite p = true →
      (p.transform .identity == p.rotate .identity) = true := by
  refine ⟨⟨?_, ?_⟩, ⟨?_, ?_⟩, ⟨?_, ?_⟩, ?_, ?_, ?_, ?_, ?_, ?_, ?_, ?_, ?_, ?_⟩
  · exact Components.keeps_of_agree fun m => Affine2.identity_mul_agree
  · exact Components.keeps_of_agree fun m => Affine2.mul_identity_agree
  · exact Components.keeps_of_agree fun m => Matrix4.identity_mul_agree
  · exact Components.keeps_of_agree fun m => Matrix4.mul_identity_agree
  · exact Components.keeps_of_agree fun q => Quaternion.identity_mul_agree
  · exact Components.keeps_of_agree fun q => Quaternion.mul_identity_agree
  · exact Components.keeps_of_agree fun v => Affine2.transformPoint_identity_agree
  · exact Components.keeps_of_agree fun v => Affine2.transformPoint_identity_agree
  · exact Components.keeps_of_agree fun v => Matrix4.transformPoint_identity_agree
  · exact Components.keeps_of_agree fun v => Matrix4.transform_identity_agree
  · exact Components.keeps_of_agree fun v => Quaternion.rotate2_identity_agree
  · exact Components.keeps_of_agree fun v => Quaternion.rotate_identity_agree
  · exact Components.keeps_of_agree fun v => Quaternion.rotate4_identity_agree
  · exact Components.keeps_of_agree fun p => Plane.transform_identity_agree
  · exact Components.keeps_of_agree fun p => Plane.rotate_identity_agree
  · intro p hp
    have hrotate := Plane.rotate_identity_agree hp
    have hboth := (Plane.transform_identity_agree hp).trans hrotate.symm
    exact hboth.beq (hrotate.isFinite hp)

/-- The largest and the least numbers, and a negative zero, in a plane under the identity. -/
theorem extreme_plane_kept :
    let p : Plane Float32 :=
      ⟨⟨.ofBits 0x7f7fffff, .ofBits 0x80000001, .ofBits 0x80000000⟩, .ofBits 0xff7fffff⟩
    Components.isFinite p = true ∧ (p.transform .identity == p) = true ∧
      (p.rotate .identity == p) = true := by
  intro p
  have hp : Components.isFinite p = true := by decide +kernel
  obtain ⟨-, -, -, -, -, -, -, -, -, -, htransform, hrotate, -⟩ := identities_are_neutral
  exact ⟨hp, htransform p hp, hrotate p hp⟩

end Spatial
