import Mathlib
import Spatial.Plane
import Spatial.Proofs.Binary.Componentwise
import Spatial.Proofs.Binary.Relative

/-!
# Unit normals in binary32

A plane is normalised by a factor that is one divided by the root of the squared length of its
normal, unless that squared length is one to the last digit.

1.  The squared length, the root, the factor and each product are rounded.  Together they leave the
    squared length of the new normal within twelve and a half parts in `2²⁴` of one, and the
    squared length that is computed of it within sixteen.
2.  So a normalised plane is normalised again only if its computed squared length is one of the
    twenty-five numbers nearest to one, and it stays what it is for three of these: for one and
    the number below the plane is kept, and for the number above the factor is one.
3.  For the others the factor is not one, and a component of at least a half does not survive it.
-/

namespace Spatial

open Binary32 (IsNormal Within abs_add_sub_le abs_exact_le_largest abs_mul_self_sub_le
  abs_sub_sub_le abs_sum_of_three_sub_le exact exact_mul_self_nonneg exact_one exists_magnitude_abs
  isDivisor_of_exact isFinite_mul_of_sq_le isFinite_of_add isFinite_one isNaN_mul isRoundedSum_add
  isRoundedSum_sub isRounded_mul lt_iff_rank magnitude_epsilon reciprocal_sqrt value ofValue
  ofValue_value exact_of_value bounds_of_value exists_value_of_pos isNaN_of_isFinite Magnitude
  canonical_value le_iff_rank agree_iff)

/-! ## Squared lengths -/

namespace Vec3

/-- The squared length of a vector, not rounded. -/
def exactSquared (v : Vec3 Float32) : ℚ := exact v.x ^ 2 + exact v.y ^ 2 + exact v.z ^ 2

variable {v : Vec3 Float32}

/-- The computed squared length is within three roundings of the exact one, and within three times
half the least positive number where that matters. -/
theorem abs_lengthSquared_sub_le (hv : Components.isFinite v = true)
    (hs : (Components.lengthSquared v).isFinite = true) :
    0 ≤ exact (Components.lengthSquared v) ∧
      |exact (Components.lengthSquared v) - v.exactSquared| ≤
        49 / 2 ^ 28 * (v.exactSquared + 2 ^ (-126 : ℤ)) := by
  obtain ⟨hx, hy, hz⟩ := (isFinite_iff v).mp hv
  have hvalue : Components.lengthSquared v = v.x * v.x + v.y * v.y + v.z * v.z := rfl
  rw [hvalue] at hs ⊢
  obtain ⟨hxy, hzz⟩ := isFinite_of_add hs
  obtain ⟨hxx, hyy⟩ := isFinite_of_add hxy
  have hx_nonneg := exact_mul_self_nonneg hx hxx
  have hy_nonneg := exact_mul_self_nonneg hy hyy
  have hz_nonneg := exact_mul_self_nonneg hz hzz
  have hxy_nonneg := (isRoundedSum_add hxx hyy).isRounded.nonneg hxy (by linarith)
  have hs_nonneg := (isRoundedSum_add hxy hzz).isRounded.nonneg hs (by linarith)
  have hxy_close := abs_add_sub_le hxx hyy hxy
  have hs_close := abs_add_sub_le hxy hzz hs
  rw [abs_of_nonneg (by linarith : 0 ≤ exact (v.x * v.x) + exact (v.y * v.y))] at hxy_close
  rw [abs_of_nonneg (by linarith :
    0 ≤ exact (v.x * v.x + v.y * v.y) + exact (v.z * v.z))] at hs_close
  exact ⟨hs_nonneg, abs_sum_of_three_sub_le (sq_nonneg _) (sq_nonneg _) (sq_nonneg _)
    (abs_mul_self_sub_le hx hxx) (abs_mul_self_sub_le hy hyy) (abs_mul_self_sub_le hz hzz)
    hxy_close hs_close⟩

/-- The exact squared length is near the computed one, if that has all its digits. -/
theorem exactSquared_within (hv : Components.isFinite v = true)
    (hs : IsNormal (Components.lengthSquared v)) :
    Within (99 / 2 ^ 28) v.exactSquared (exact (Components.lengthSquared v)) := by
  obtain ⟨hnonneg, hclose⟩ := abs_lengthSquared_sub_le hv hs.isFinite
  have hleast := hs.least_le
  rw [abs_of_nonneg hnonneg] at hleast
  obtain ⟨hlow, hhigh⟩ := abs_le.mp hclose
  generalize (2 : ℚ) ^ (-126 : ℤ) = least at *
  constructor <;> linarith

/-- The computed squared length of a short vector is finite. -/
theorem isFinite_lengthSquared (hv : Components.isFinite v = true) (h : v.exactSquared ≤ 2) :
    (Components.lengthSquared v).isFinite = true := by
  obtain ⟨hx, hy, hz⟩ := (isFinite_iff v).mp hv
  rw [exactSquared] at h
  have hx_sq := sq_nonneg (exact v.x)
  have hy_sq := sq_nonneg (exact v.y)
  have hz_sq := sq_nonneg (exact v.z)
  have hsquare {x : Float32} (hx : x.isFinite = true) (hle : exact x ^ 2 ≤ 2) :
      (x * x).isFinite = true ∧ |exact (x * x)| ≤ 3 := by
    have hfinite : (x * x).isFinite = true := by
      refine (isRounded_mul hx hx).isFinite ?_
      rw [← pow_two, abs_of_nonneg (sq_nonneg _)]
      exact hle.trans_lt (by norm_num)
    have hclose := (abs_le.mp (abs_mul_self_sub_le hx hfinite)).2
    rw [abs_of_nonneg (exact_mul_self_nonneg hx hfinite)]
    norm_num at hclose
    exact ⟨hfinite, by linarith⟩
  obtain ⟨hxx, hxx_le⟩ := hsquare hx (by linarith)
  obtain ⟨hyy, hyy_le⟩ := hsquare hy (by linarith)
  obtain ⟨hzz, hzz_le⟩ := hsquare hz (by linarith)
  have hsum := (abs_add_le _ _).trans (add_le_add hxx_le hyy_le)
  have hxy : (v.x * v.x + v.y * v.y).isFinite = true :=
    (isRoundedSum_add hxx hyy).isRounded.isFinite (hsum.trans_lt (by norm_num))
  have hxy_le : |exact (v.x * v.x + v.y * v.y)| ≤ 7 := by
    have hclose := abs_add_sub_le hxx hyy hxy
    have htriangle := abs_sub_abs_le_abs_sub (exact (v.x * v.x + v.y * v.y))
      (exact (v.x * v.x) + exact (v.y * v.y))
    linarith
  have htotal := (abs_add_le _ _).trans (add_le_add hxy_le hzz_le)
  exact (isRoundedSum_add hxy hzz).isRounded.isFinite (htotal.trans_lt (by norm_num))

end Vec3

namespace Vec3

variable {v : Vec3 Float32} {k : Float32}

/-- A vector times a factor that nearly makes its length one. -/
theorem mulRight_near_unit (hv : Components.isFinite v = true) (hk : k.isFinite = true)
    (h : Within (165 / 2 ^ 28) (exact k ^ 2 * v.exactSquared) 1) :
    Components.isFinite (v * k) = true ∧ |(v * k).exactSquared - 1| ≤ 25 / 2 ^ 25 := by
  obtain ⟨hx, hy, hz⟩ := (isFinite_iff v).mp hv
  have hsum : exact k ^ 2 * v.exactSquared =
      (exact v.x * exact k) ^ 2 + (exact v.y * exact k) ^ 2 + (exact v.z * exact k) ^ 2 := by
    rw [exactSquared]
    ring
  obtain ⟨hlow, hhigh⟩ := h
  rw [hsum] at hlow hhigh
  have hx_sq := sq_nonneg (exact v.x * exact k)
  have hy_sq := sq_nonneg (exact v.y * exact k)
  have hz_sq := sq_nonneg (exact v.z * exact k)
  obtain ⟨hxk, hx_close⟩ := isFinite_mul_of_sq_le hx hk (by linarith)
  obtain ⟨hyk, hy_close⟩ := isFinite_mul_of_sq_le hy hk (by linarith)
  obtain ⟨hzk, hz_close⟩ := isFinite_mul_of_sq_le hz hk (by linarith)
  rw [isFinite_iff, mulRight_eq]
  refine ⟨⟨hxk, hyk, hzk⟩, ?_⟩
  have hsmall : (2 : ℚ) ^ (-140 : ℤ) ≤ 1 / 2 ^ 40 := by norm_num
  rw [exactSquared, abs_le]
  generalize (2 : ℚ) ^ (-140 : ℤ) = η at *
  rw [abs_le] at hx_close hy_close hz_close
  obtain ⟨hx_low, hx_high⟩ := hx_close
  obtain ⟨hy_low, hy_high⟩ := hy_close
  obtain ⟨hz_low, hz_high⟩ := hz_close
  constructor <;> linarith

end Vec3

/-! ## Normalised planes -/

namespace Plane

/-- The normal is finite, its computed squared length has all its digits, and the offset is a
number. -/
structure IsNormalizable (p : Plane Float32) : Prop where
  normal_finite : Components.isFinite p.normal = true
  squared_isNormal : IsNormal (Components.lengthSquared p.normal)
  offset : p.d.isNaN = false

/-- The normal has length one, but for roundings. -/
structure HasUnitNormal (p : Plane Float32) : Prop where
  normal_finite : Components.isFinite p.normal = true
  near_one : |p.normal.exactSquared - 1| ≤ 25 / 2 ^ 25
  offset : p.d.isNaN = false

/-- The squared length is taken for one. -/
def IsKept (squared : Float32) : Prop := Scalar.abs (squared - 1) < (Scalar.epsilon : Float32)

instance (squared : Float32) : Decidable (IsKept squared) := by
  unfold IsKept
  infer_instance

variable {p q : Plane Float32}

/-- A plane whose normal has nearly unit length is kept. -/
theorem normalize_of_kept (h : IsKept (Components.lengthSquared p.normal)) : p.normalize = p :=
  if_pos h

/-- Any other plane is multiplied with the reciprocal of the length of its normal. -/
theorem normalize_of_not_kept (h : ¬IsKept (Components.lengthSquared p.normal)) :
    p.normalize = ⟨p.normal * (1 / Float32.sqrt (Components.lengthSquared p.normal)),
      p.d * (1 / Float32.sqrt (Components.lengthSquared p.normal))⟩ :=
  if_neg h

/-- A squared length that is taken for one is within `33 / 2²⁸` of it. -/
theorem abs_sub_one_le_of_kept {s : Float32} (hs : s.isFinite = true) (h : IsKept s) :
    |exact s - 1| ≤ 33 / 2 ^ 28 := by
  have hrounded := (isRoundedSum_sub hs isFinite_one).isRounded
  have hfinite : (s - 1).isFinite = true := by
    refine hrounded.isFinite ?_
    rw [exact_one]
    calc |exact s - 1| ≤ |exact s| + |1| := abs_sub _ _
      _ ≤ 2 ^ (128 : ℤ) - 2 ^ (104 : ℤ) + |1| := by linarith [abs_exact_le_largest s]
      _ < 2 ^ (128 : ℤ) - 2 ^ (103 : ℤ) := by norm_num
  have hclose := abs_sub_sub_le hs isFinite_one hfinite
  obtain ⟨r, hr⟩ := exists_magnitude_abs hfinite
  have hle := hr.le_of_rank_le magnitude_epsilon (lt_iff_rank.mp h).2.2.le
  rw [hr.eq_abs_exact] at hle
  rw [exact_one] at hclose
  have htriangle := abs_sub_abs_le_abs_sub (exact s - 1) (exact (s - 1))
  rw [abs_sub_comm (exact s - 1)] at htriangle
  norm_num at hle
  linarith

/-- The computed squared length of a unit normal. -/
theorem HasUnitNormal.squared_near_one (h : HasUnitNormal p) :
    (Components.lengthSquared p.normal).isFinite = true ∧
      |exact (Components.lengthSquared p.normal) - 1| ≤ 1 / 2 ^ 20 := by
  obtain ⟨hlow, hhigh⟩ := abs_le.mp h.near_one
  have hfinite := Vec3.isFinite_lengthSquared h.normal_finite (by linarith)
  obtain ⟨-, hclose⟩ := Vec3.abs_lengthSquared_sub_le h.normal_finite hfinite
  refine ⟨hfinite, ?_⟩
  have hleast : (2 : ℚ) ^ (-126 : ℤ) ≤ 1 / 2 ^ 40 := by norm_num
  generalize (2 : ℚ) ^ (-126 : ℤ) = least at *
  rw [abs_le] at hclose ⊢
  obtain ⟨hlow', hhigh'⟩ := hclose
  constructor <;> linarith

/-- A plane with a normal of nearly unit length can be normalised. -/
theorem HasUnitNormal.isNormalizable (h : HasUnitNormal p) : IsNormalizable p := by
  obtain ⟨hfinite, hclose⟩ := h.squared_near_one
  refine ⟨h.normal_finite, ⟨hfinite, ?_⟩, h.offset⟩
  have hlow := (abs_le.mp hclose).1
  calc (2 : ℚ) ^ (-126 : ℤ) ≤ 1 - 1 / 2 ^ 20 := by norm_num
    _ ≤ exact (Components.lengthSquared p.normal) := by linarith
    _ ≤ |exact (Components.lengthSquared p.normal)| := le_abs_self _

/-- **One step.**  Normalising makes the normal one of length one. -/
theorem IsNormalizable.hasUnitNormal_normalize (h : IsNormalizable p) :
    HasUnitNormal p.normalize := by
  have hfinite := h.squared_isNormal.isFinite
  have hnonneg := (Vec3.abs_lengthSquared_sub_le h.normal_finite hfinite).1
  have hwithin := Vec3.exactSquared_within h.normal_finite h.squared_isNormal
  by_cases hkept : IsKept (Components.lengthSquared p.normal)
  · rw [normalize_of_kept hkept]
    refine ⟨h.normal_finite, ?_, h.offset⟩
    have hone : Within (33 / 2 ^ 28) (exact (Components.lengthSquared p.normal)) 1 :=
      .of_abs ((abs_sub_one_le_of_kept hfinite hkept).trans_eq (by norm_num))
    have htotal := hwithin.trans (γ := 133 / 2 ^ 28) hone (by norm_num) (by norm_num)
      (by norm_num) zero_le_one (by norm_num)
    exact htotal.abs_sub_le.trans (by norm_num)
  · obtain ⟨hk, hk_pos, hk_within⟩ := reciprocal_sqrt (h.squared_isNormal.exact_pos hnonneg)
    rw [normalize_of_not_kept hkept]
    have hscaled := (hwithin.mul_left (sq_nonneg (exact _))).trans (γ := 165 / 2 ^ 28) hk_within
      (by norm_num) (by norm_num) (by norm_num) zero_le_one (by norm_num)
    obtain ⟨hnormal, hunit⟩ := Vec3.mulRight_near_unit h.normal_finite hk hscaled
    exact ⟨hnormal, hunit, isNaN_mul h.offset (isDivisor_of_exact hk hk_pos.ne')⟩

/-- **Runs.**  However often a plane is normalised, its normal remains one of length one. -/
theorem IsNormalizable.hasUnitNormal_iterate (h : IsNormalizable p) (n : ℕ) :
    HasUnitNormal (Plane.normalize^[n + 1] p) := by
  induction n with
  | zero => exact h.hasUnitNormal_normalize
  | succ n ih =>
      rw [Function.iterate_succ_apply']
      exact ih.isNormalizable.hasUnitNormal_normalize

/-! ## Planes that are settled -/

/-- The squared length is one or next to it. -/
def IsSettled (squared : Float32) : Prop :=
  squared = 1 - Scalar.epsilon / 2 ∨ squared = 1 ∨ squared = 1 + Scalar.epsilon

instance (squared : Float32) : Decidable (IsSettled squared) := by
  unfold IsSettled
  infer_instance

/-- The factor is no nearer to one than its neighbours. -/
def IsApartFromOne (k : Float32) : Prop := k ≤ 1 - Scalar.epsilon / 2 ∨ 1 + Scalar.epsilon ≤ k

instance (k : Float32) : Decidable (IsApartFromOne k) := by
  unfold IsApartFromOne
  infer_instance

/-- What becomes of a plane by its squared length: it is kept or multiplied by one if it is
settled, and else it is multiplied by something else. -/
def IsSorted (squared : Float32) : Prop :=
  if IsSettled squared then IsKept squared ∨ 1 / Float32.sqrt squared = 1
  else ¬IsKept squared ∧ IsApartFromOne (1 / Float32.sqrt squared)

instance (squared : Float32) : Decidable (IsSorted squared) := by
  unfold IsSorted
  infer_instance

/-- The numbers next below one are sorted by the test. -/
theorem isSorted_below_one (i : Fin 16) :
    IsSorted (ofValue (.finite .positive (2 ^ 24 - 1 - i) (-24) (by omega))) := by
  decide +kernel +revert

/-- One and the numbers next above it are sorted by the test. -/
theorem isSorted_from_one (i : Fin 9) :
    IsSorted (ofValue (.finite .positive (2 ^ 23 + i) (-23) (by omega))) := by
  decide +kernel +revert

/-- A number within sixteen parts in `2²⁴` of one has all its digits, the last of them one of
two. -/
theorem digits_of_near_one {s : Float32} {m : ℕ} {e : ℤ} {hm : 0 < m}
    (hvalue : value s = .finite .positive m e hm) (h : |(m : ℚ) * 2 ^ e - 1| ≤ 1 / 2 ^ 20) :
    2 ^ 23 ≤ m ∧ (e = -24 ∨ e = -23) := by
  obtain ⟨hlow, hhigh⟩ := abs_le.mp h
  obtain ⟨hm_lt, he, -, hcanonical⟩ := bounds_of_value hvalue
  have hform : max ((m.log2 : ℤ) + 1 + e - 24) (-149) = e := hcanonical
  have hm_le : (m : ℚ) ≤ 2 ^ (24 : ℤ) := by exact_mod_cast hm_lt.le
  have hlast : -24 ≤ e := by
    by_contra hless
    have hsmall : (m : ℚ) * 2 ^ e ≤ 2 ^ (24 : ℤ) * 2 ^ (-25 : ℤ) :=
      mul_le_mul hm_le (zpow_le_zpow_right₀ one_le_two (by omega)) (by positivity) (by positivity)
    norm_num at hsmall
    linarith
  have hfull : (2 : ℕ) ^ 23 ≤ m := by
    have hlog : m.log2 = 23 := by omega
    exact hlog ▸ Nat.log2_self_le hm.ne'
  have hfull' : (2 : ℚ) ^ (23 : ℤ) ≤ m := by exact_mod_cast hfull
  have hlast' : e ≤ -23 := by
    by_contra hmore
    have hlarge : (2 : ℚ) ^ (23 : ℤ) * 2 ^ (-22 : ℤ) ≤ m * 2 ^ e :=
      mul_le_mul hfull' (zpow_le_zpow_right₀ one_le_two (by omega)) (by positivity) (by positivity)
    norm_num at hlarge
    linarith
  exact ⟨hfull, by omega⟩

/-- The numbers within sixteen parts in `2²⁴` of one are sixteen below it and nine from it on. -/
theorem isSorted_of_near_one {s : Float32} (h : |exact s - 1| ≤ 1 / 2 ^ 20) : IsSorted s := by
  obtain ⟨m, e, hm, hvalue⟩ := exists_value_of_pos (s := s) (by linarith [(abs_le.mp h).1])
  have hm_lt := (bounds_of_value hvalue).1
  have hself : ofValue (value s) = s := ofValue_value s
  rw [exact_of_value hvalue, Binary.apply_positive] at h
  obtain ⟨hlow, hhigh⟩ := abs_le.mp h
  obtain ⟨hfull, rfl | rfl⟩ := digits_of_near_one hvalue h
  · have hm_ge : 2 ^ 24 ≤ m + 16 := by
      have hdigit : (2 : ℚ) ^ (-24 : ℤ) = 1 / 2 ^ 24 := by norm_num
      have hm_ge' : (2 ^ 24 : ℚ) ≤ m + 16 := by
        rw [hdigit] at hlow
        linarith
      exact_mod_cast hm_ge'
    obtain ⟨i, hi, rfl⟩ : ∃ i, i < 16 ∧ m = 2 ^ 24 - 1 - i :=
      ⟨2 ^ 24 - 1 - m, by omega, by omega⟩
    rw [← hself, hvalue]
    exact isSorted_below_one ⟨i, hi⟩
  · have hm_le : m ≤ 2 ^ 23 + 8 := by
      have hdigit : (2 : ℚ) ^ (-23 : ℤ) = 1 / 2 ^ 23 := by norm_num
      have hm_le' : (m : ℚ) ≤ 2 ^ 23 + 8 := by
        rw [hdigit] at hhigh
        linarith
      exact_mod_cast hm_le'
    obtain ⟨i, hi, rfl⟩ : ∃ i, i < 9 ∧ m = 2 ^ 23 + i := ⟨m - 2 ^ 23, by omega, by omega⟩
    rw [← hself, hvalue]
    exact isSorted_from_one ⟨i, hi⟩

/-! Planes that stay what they are. -/

/-- Planes are equal where their components are. -/
theorem beq_iff (p q : Plane Float32) :
    (p == q) = true ↔ (p.normal.x == q.normal.x) = true ∧ (p.normal.y == q.normal.y) = true ∧
      (p.normal.z == q.normal.z) = true ∧ (p.d == q.d) = true := by
  show ((p.normal.x == q.normal.x && (p.normal.y == q.normal.y && p.normal.z == q.normal.z)) &&
    p.d == q.d) = true ↔ _
  simp only [Bool.and_eq_true, and_assoc]

/-- A plane with finite components equals itself. -/
theorem beq_self (h : Components.isFinite q.normal = true) (hd : q.d.isNaN = false) :
    (q == q) = true := by
  obtain ⟨hx, hy, hz⟩ := (Vec3.isFinite_iff q.normal).mp h
  have hrefl {x : Float32} (hx : x.isNaN = false) : (x == x) = true :=
    (Binary32.agree_iff x x).mpr (.inl rfl) |>.resolve_right fun hnan => by
      rw [hx] at hnan
      exact absurd hnan.1 nofun
  exact (beq_iff q q).mpr ⟨hrefl (isNaN_of_isFinite hx), hrefl (isNaN_of_isFinite hy),
    hrefl (isNaN_of_isFinite hz), hrefl hd⟩

/-- A plane with a settled squared length is not moved. -/
theorem normalize_of_settled (hsorted : IsSorted (Components.lengthSquared q.normal))
    (h : IsSettled (Components.lengthSquared q.normal)) : q.normalize = q := by
  rw [IsSorted, if_pos h] at hsorted
  by_cases hkept : IsKept (Components.lengthSquared q.normal)
  · exact normalize_of_kept hkept
  · rw [normalize_of_not_kept hkept, hsorted.resolve_left hkept, Vec3.mulRight_eq]
    simp only [Binary32.mul_one]

/-! Planes that change. -/

/-- A number with a positive exact value is its own magnitude. -/
theorem magnitude_of_pos {x : Float32} (h : 0 < exact x) : Magnitude (exact x) (value x) := by
  have hcanonical := canonical_value x
  obtain ⟨m, e, hm, hvalue⟩ := exists_value_of_pos h
  rw [hvalue] at hcanonical
  rw [exact_of_value hvalue, hvalue, Binary.apply_positive]
  exact .finite hm hcanonical

/-- A number that is apart from one is so by half a last digit below it, by a last digit above. -/
theorem IsApartFromOne.le_or_le {k : Float32} (h : IsApartFromOne k) (hk : 0 < exact k) :
    exact k ≤ 1 - 1 / 2 ^ 24 ∨ 1 + 1 / 2 ^ 23 ≤ exact k := by
  have hbelow : Magnitude ((2 ^ 24 - 1 : ℕ) * 2 ^ (-24 : ℤ))
      (value (1 - Scalar.epsilon / 2)) := .finite (by decide) (by decide)
  have habove : Magnitude ((2 ^ 23 + 1 : ℕ) * 2 ^ (-23 : ℤ))
      (value (1 + Scalar.epsilon)) := .finite (by decide) (by decide)
  rcases h with h | h
  · have hle := (magnitude_of_pos hk).le_of_rank_le hbelow (le_iff_rank.mp h).2.2
    left
    norm_num at hle ⊢
    linarith
  · have hle := habove.le_of_rank_le (magnitude_of_pos hk) (le_iff_rank.mp h).2.2
    right
    norm_num at hle ⊢
    linarith

/-- Equal numbers have one exact value. -/
theorem exact_eq_of_beq {x y : Float32} (h : (x == y) = true) : exact x = exact y := by
  rcases (agree_iff x y).mp (.inl h) with rfl | ⟨⟨s, hs⟩, t, ht⟩
  · rfl
  · rw [exact, exact, hs, ht, Binary.rational_zero, Binary.rational_zero]

/-- A number that is not small does not survive a factor that is apart from one. -/
theorem beq_mul_eq_false {c k : Float32} (hc : c.isFinite = true) (hk : k.isFinite = true)
    (hc_large : 1 / 4 < exact c ^ 2) (hk_within : Within (162 / 2 ^ 28) (exact k) 1)
    (hapart : IsApartFromOne k) : (c * k == c) = false := by
  obtain ⟨hk_low, hk_high⟩ := hk_within
  have hk_pos : 0 < exact k := by linarith
  have hc_half : 1 / 2 < |exact c| := by
    refine lt_of_pow_lt_pow_left₀ 2 (abs_nonneg _) ?_
    rw [sq_abs]
    linarith
  rw [← Bool.not_eq_true]
  intro hbeq
  have hfinite : (c * k).isFinite = true := Binary32.Agree.isFinite (.inl hbeq) hc
  have hmagnitude : |exact c * exact k| = |exact c| * exact k := by
    rw [abs_mul, abs_of_pos hk_pos]
  have hclose := (isRounded_mul hc hk).abs_sub_le_of_le hfinite (by
    rw [hmagnitude]
    calc (2 : ℚ) ^ (-126 : ℤ) ≤ 1 / 2 * (1 / 2) := by norm_num
      _ ≤ |exact c| * exact k := mul_le_mul hc_half.le (by linarith) (by norm_num) (abs_nonneg _))
  have hdistance : |exact c - exact c * exact k| = |exact c| * |1 - exact k| := by
    rw [← abs_mul]
    ring_nf
  rw [exact_eq_of_beq hbeq, hdistance, hmagnitude, mul_div_assoc] at hclose
  have hfactor : |1 - exact k| ≤ exact k / 2 ^ 24 :=
    le_of_mul_le_mul_left hclose (by linarith)
  rw [abs_le] at hfactor
  rcases hapart.le_or_le hk_pos with hless | hmore <;> linarith

/-- The factor of a plane whose normal has length one already. -/
theorem HasUnitNormal.factor_within (h : HasUnitNormal q) :
    (1 / Float32.sqrt (Components.lengthSquared q.normal)).isFinite = true ∧
      Within (162 / 2 ^ 28)
        (exact (1 / Float32.sqrt (Components.lengthSquared q.normal))) 1 := by
  obtain ⟨hfinite, hclose⟩ := h.squared_near_one
  have hsquared : Within (256 / 2 ^ 28) (exact (Components.lengthSquared q.normal)) 1 :=
    .of_abs (hclose.trans (by norm_num))
  have hnonneg : 0 ≤ exact (Components.lengthSquared q.normal) := by linarith [hsquared.lower]
  obtain ⟨hk, hk_pos, hk_within⟩ :=
    reciprocal_sqrt (h.isNormalizable.squared_isNormal.exact_pos hnonneg)
  refine ⟨hk, ?_⟩
  generalize 1 / Float32.sqrt (Components.lengthSquared q.normal) = k at *
  have hback : Within (257 / 2 ^ 28) 1 (exact (Components.lengthSquared q.normal)) :=
    hsquared.symm (by norm_num) zero_le_one (by norm_num) (by norm_num) (by norm_num)
  have hscaled := hback.mul_left (sq_nonneg (exact k))
  rw [mul_one] at hscaled
  have hsq : Within (323 / 2 ^ 28) (exact k ^ 2) 1 :=
    hscaled.trans hk_within (by norm_num) (by norm_num) (by norm_num) zero_le_one (by norm_num)
  exact hsq.of_sq hk_pos.le (by norm_num) (by norm_num)

/-- Some component of a unit normal is more than a half. -/
theorem HasUnitNormal.exists_large (h : HasUnitNormal q) :
    1 / 4 < exact q.normal.x ^ 2 ∨ 1 / 4 < exact q.normal.y ^ 2 ∨
      1 / 4 < exact q.normal.z ^ 2 := by
  have hlow := (abs_le.mp h.near_one).1
  rw [Vec3.exactSquared] at hlow
  by_contra hsmall
  simp only [not_or, not_lt] at hsmall
  linarith [hsmall.1, hsmall.2.1, hsmall.2.2]

/-- **Settled planes.**  A plane with a unit normal stays what it is if the squared length that is
computed of it is one or next to one, and only then. -/
theorem HasUnitNormal.normalize_beq_iff (h : HasUnitNormal q) :
    (q.normalize == q) = true ↔ IsSettled (Components.lengthSquared q.normal) := by
  have hsorted := isSorted_of_near_one h.squared_near_one.2
  constructor
  · intro hbeq
    by_contra hsettled
    rw [IsSorted, if_neg hsettled] at hsorted
    obtain ⟨hkept, hapart⟩ := hsorted
    obtain ⟨hk, hk_within⟩ := h.factor_within
    obtain ⟨hx, hy, hz⟩ := (Vec3.isFinite_iff q.normal).mp h.normal_finite
    rw [normalize_of_not_kept hkept, beq_iff, Vec3.mulRight_eq] at hbeq
    obtain ⟨hx_beq, hy_beq, hz_beq, -⟩ := hbeq
    rcases h.exists_large with hlarge | hlarge | hlarge
    · rw [beq_mul_eq_false hx hk hlarge hk_within hapart] at hx_beq
      cases hx_beq
    · rw [beq_mul_eq_false hy hk hlarge hk_within hapart] at hy_beq
      cases hy_beq
    · rw [beq_mul_eq_false hz hk hlarge hk_within hapart] at hz_beq
      cases hz_beq
  · intro hsettled
    rw [normalize_of_settled hsorted hsettled]
    exact beq_self h.normal_finite h.offset

/-- A finite number times a factor within ten roundings of one. -/
theorem abs_mul_sub_le {c k : Float32} (hc : c.isFinite = true) (hk : k.isFinite = true)
    (hk_within : Within (162 / 2 ^ 28) (exact k) 1) (hck : (c * k).isFinite = true) :
    |exact (c * k) - exact c| ≤ 12 / 2 ^ 24 * |exact c| + 2 ^ (-150 : ℤ) := by
  have hclose : |exact (c * k) - exact c * exact k| ≤
      |exact c * exact k| / 2 ^ 24 + 2 ^ (-150 : ℤ) :=
    ((isRounded_mul hc hk).abs_sub_le hck).trans
      (max_le_add_of_nonneg (by positivity) (by positivity))
  have hfactor := hk_within.abs_sub_le
  have hscaled : |exact c * exact k - exact c| ≤ 162 / 2 ^ 28 * |exact c| := by
    calc |exact c * exact k - exact c| = |exact c| * |exact k - 1| := by
          rw [← abs_mul]
          ring_nf
      _ ≤ |exact c| * (162 / 2 ^ 28 * 1) := mul_le_mul_of_nonneg_left hfactor (abs_nonneg _)
      _ = 162 / 2 ^ 28 * |exact c| := by ring
  have hproduct : |exact c * exact k| ≤ |exact c| + |exact c * exact k - exact c| := by
    calc |exact c * exact k| = |exact c + (exact c * exact k - exact c)| := by
          rw [add_sub_cancel]
      _ ≤ |exact c| + |exact c * exact k - exact c| := abs_add_le _ _
  have hc_nonneg := abs_nonneg (exact c)
  calc |exact (c * k) - exact c|
      ≤ |exact (c * k) - exact c * exact k| + |exact c * exact k - exact c| := abs_sub_le _ _ _
    _ ≤ 12 / 2 ^ 24 * |exact c| + 2 ^ (-150 : ℤ) := by linarith

/-- A component is moved by no more than twelve parts in `2²⁴`, if it is finite before and
after. -/
def MovesLittle (c c' : Float32) : Prop :=
  c.isFinite = true → c'.isFinite = true →
    |exact c' - exact c| ≤ 12 / 2 ^ 24 * |exact c| + 2 ^ (-150 : ℤ)

/-- Normalising a plane with a normal of nearly unit length moves every component little. -/
theorem HasUnitNormal.movesLittle (h : HasUnitNormal q) :
    List.Forall₂ MovesLittle (Components.toList q) (Components.toList q.normalize) := by
  by_cases hkept : IsKept (Components.lengthSquared q.normal)
  · rw [normalize_of_kept hkept, List.forall₂_same]
    intro c _ _ _
    rw [sub_self, abs_zero]
    positivity
  · obtain ⟨hk, hk_within⟩ := h.factor_within
    have hscaled (c : Float32) : MovesLittle c
        (c * (1 / Float32.sqrt (Components.lengthSquared q.normal))) :=
      fun hc hck => abs_mul_sub_le hc hk hk_within hck
    rw [normalize_of_not_kept hkept, Vec3.mulRight_eq]
    simp only [Components.toList, List.forall₂_cons, hscaled, true_and]
    exact .nil

/-- **Normalised planes.**  A plane with a normal squared length, normalised once or more often, has
a normal whose squared length is within twelve and a half parts in `2²⁴` of one.  To normalise it
again moves each component by twelve parts in `2²⁴` at most, and changes nothing if its computed
squared length is one or next to one, and only then. -/
theorem normalize_nearly_idempotent {p : Plane Float32} (hp : IsNormalizable p) (n : ℕ) :
    let q := Plane.normalize^[n + 1] p
    |q.normal.exactSquared - 1| ≤ 25 / 2 ^ 25 ∧
      List.Forall₂ MovesLittle (Components.toList q) (Components.toList q.normalize) ∧
      ((q.normalize == q) = true ↔ IsSettled (Components.lengthSquared q.normal)) := by
  have hunit := hp.hasUnitNormal_iterate n
  exact ⟨hunit.near_one, hunit.movesLittle, hunit.normalize_beq_iff⟩

/-- A plane whose normal is two parts of the second axis to seven of the third, normalised once and
twice: its squared length is two numbers below one, so it is moved the second time and only
then. -/
theorem normalize_two_to_seven :
    let p : Plane Float32 := ⟨⟨0, 2, 7⟩, 1⟩
    |p.normalize.normal.exactSquared - 1| ≤ 25 / 2 ^ 25 ∧
      (p.normalize.normalize == p.normalize) = false ∧
      (p.normalize.normalize.normalize == p.normalize.normalize) = true := by
  have hp : IsNormalizable (⟨⟨0, 2, 7⟩, 1⟩ : Plane Float32) :=
    ⟨by decide +kernel, Binary32.isNormal_of_le (by decide +kernel) (by decide +kernel),
      by decide +kernel⟩
  obtain ⟨hclose, -, honce⟩ := normalize_nearly_idempotent hp 0
  obtain ⟨-, -, htwice⟩ := normalize_nearly_idempotent hp 1
  refine ⟨hclose, ?_, htwice.mpr (by decide +kernel)⟩
  exact Bool.eq_false_iff.mpr fun hbeq => absurd (honce.mp hbeq) (by decide +kernel)

/-- The second time the same plane is normalised it is moved by one digit in its normal and in its
offset. -/
theorem normalized_plane_moved :
    let p : Plane Float32 := ⟨⟨0, 2, 7⟩, 1⟩
    let q : Plane Float32 :=
      ⟨⟨0, .ofBits 0x3e8ca83f, .ofBits 0x3f76266e⟩, .ofBits 0x3e0ca83f⟩
    Components.isFinite p = true ∧ Components.lengthSquared p.normal = 53 ∧
      p.normalize = q ∧ (q.normalize == q) = false := by
  decide +kernel

end Plane

end Spatial
