import Mathlib
import Spatial.Affine2
import Spatial.Matrix4
import Spatial.Number.Tolerance
import Spatial.Plane
import Spatial.Proofs.Binary.Monotone
import Spatial.Proofs.Binary.Undefined

/-!
# Coherence of the tolerant comparisons

The three comparisons of numbers have a test each for being near, and tests before it that
deal with what is infinite or no number.

1.  They are symmetric: the two differences of two numbers are negations of one another or
    both zeros, so they have one magnitude, and the larger of two magnitudes is one number.
2.  A larger tolerance accepts what a smaller one does.  For the relative comparison this
    asks that rounded products keep the order.
3.  A difference within a finite tolerance is one of finite numbers, so the relative and the
    stepwise comparison accept it too.
4.  Equal numbers are the same number or two zeros.  The former are no step apart, and the
    difference of the latter is a zero.
5.  What is no number is near nothing.

A comparison of values asks each pair of components, so that all this carries over.
-/

namespace Spatial

open Binary (rank)
open Binary32 (value IsUnbounded)
open Float.Model (UnpackedFloat)
open Float.Model.UnpackedFloat (Sign)

namespace Tolerance

/-- Tolerances that mean something: not below zero, and the difference finite. -/
structure Tolerances where
  /-- The greatest difference that is accepted. -/
  epsilon : Float32
  /-- The greatest difference that is accepted, as a fraction of the larger magnitude. -/
  maxRelative : Float32
  /-- The greatest number of steps that is accepted. -/
  maxUlps : ℕ
  epsilon_finite : epsilon.isFinite = true
  epsilon_nonneg : 0 ≤ epsilon
  maxRelative_nonneg : 0 ≤ maxRelative

/-- No tolerance at all. -/
def Tolerances.strict : Tolerances :=
  ⟨0, 0, 0, by decide +kernel, by decide +kernel, by decide +kernel⟩

/-- No tolerance is larger than its match. -/
structure Tolerances.Within (t t' : Tolerances) : Prop where
  epsilon : t.epsilon ≤ t'.epsilon
  maxRelative : t.maxRelative ≤ t'.maxRelative
  maxUlps : t.maxUlps ≤ t'.maxUlps

variable {t t' : Tolerances} {a b : Float32}

/-! ## Numbers -/

/-- The first test bounds the distance. -/
theorem absDiffEq_iff (ε : Float32) : absDiffEq ε a b = true ↔ (a - b).abs ≤ ε :=
  decide_eq_true_iff

/-- The larger of two magnitudes. -/
def largest (a b : Float32) : Float32 := if b.abs > a.abs then b.abs else a.abs

/-- The second test: equal, or not infinite and near by the distance or by the larger magnitude. -/
theorem relativeEq_iff (ε ρ : Float32) :
    relativeEq ε ρ a b = true ↔
      (a == b) = true ∨ (a.isInf || b.isInf) = false ∧
        ((a - b).abs ≤ ε ∨ (a - b).abs ≤ largest a b * ρ) := by
  unfold relativeEq
  dsimp only
  rw [← largest]
  split_ifs with hequal hinfinite hnear
  · simp [hequal]
  · rw [hinfinite]
    simp [hequal]
  · rw [Bool.not_eq_true] at hinfinite
    simp [hinfinite, hnear]
  · rw [Bool.not_eq_true] at hequal hinfinite
    simp [hequal, hinfinite, hnear]

/-- The third test: near by the distance, or of one sign and few numbers apart. -/
theorem ulpsEq_iff (ε : Float32) (n : ℕ) :
    ulpsEq ε n a b = true ↔
      (a - b).abs ≤ ε ∨ sameSign a b = true ∧ ulpDistance a b ≤ n := by
  unfold ulpsEq
  split_ifs with hnear hsign
  · simp [(absDiffEq_iff ε).mp hnear]
  · rw [absDiffEq_iff] at hnear
    simp [hnear, hsign]
  · rw [absDiffEq_iff] at hnear
    simp [hnear, hsign]

/-! Symmetry. -/

/-- The first test goes both ways. -/
theorem absDiffEq_comm (ε a b : Float32) : absDiffEq ε a b = absDiffEq ε b a := by
  rw [absDiffEq, absDiffEq, Binary32.abs_sub_comm]

/-- Of two numbers neither of which is none, one magnitude is the largest, in whichever order
they are asked for. -/
theorem largest_comm (ha : a.isNaN = false) (hb : b.isNaN = false) : largest a b = largest b a := by
  unfold largest
  split_ifs with hba hab hab
  · exact absurd (Binary32.lt_asymm hba hab) id
  · rfl
  · rfl
  · exact Binary32.abs_eq_of_not_lt ha hb hab hba

/-- Where a distance is a number, both numbers are. -/
theorem isNaN_of_sub_isNaN (h : (a - b).abs.isNaN = false) : a.isNaN = false ∧ b.isNaN = false := by
  rw [Binary32.isNaN_abs] at h
  constructor
  · cases ha : a.isNaN with
    | false => rfl
    | true =>
        rw [Binary32.eq_undefined_iff.mpr ha, Binary32.undefined_sub, Binary32.isNaN_undefined] at h
        cases h
  · cases hb : b.isNaN with
    | false => rfl
    | true =>
        rw [Binary32.eq_undefined_iff.mpr hb, Binary32.sub_undefined, Binary32.isNaN_undefined] at h
        cases h

/-- The second test goes both ways. -/
theorem relativeEq_comm (ε ρ a b : Float32) : relativeEq ε ρ a b = relativeEq ε ρ b a := by
  have hlargest : (a - b).abs ≤ largest a b * ρ ↔ (b - a).abs ≤ largest b a * ρ := by
    rw [Binary32.abs_sub_comm b a]
    constructor
    · intro h
      obtain ⟨ha, hb⟩ := isNaN_of_sub_isNaN (Binary32.le_iff_rank.mp h).1
      rwa [largest_comm hb ha]
    · intro h
      obtain ⟨ha, hb⟩ := isNaN_of_sub_isNaN (Binary32.le_iff_rank.mp h).1
      rwa [largest_comm ha hb]
  rw [Bool.eq_iff_iff, relativeEq_iff, relativeEq_iff, hlargest, Binary32.beq_comm,
    Binary32.abs_sub_comm, Bool.or_comm]

/-- The third test goes both ways. -/
theorem ulpsEq_comm (ε : Float32) (n : ℕ) (a b : Float32) : ulpsEq ε n a b = ulpsEq ε n b a := by
  have hsign : sameSign a b = sameSign b a := by
    unfold sameSign
    rw [Bool.and_comm (!a.isNaN), BEq.comm (a := a.toBits >>> 31)]
  have hdistance : ulpDistance a b = ulpDistance b a := Nat.add_comm _ _
  rw [Bool.eq_iff_iff, ulpsEq_iff, ulpsEq_iff, hsign, hdistance, Binary32.abs_sub_comm]

/-! Larger tolerances. -/

/-- A wider tolerance accepts what the first test does. -/
theorem absDiffEq_mono (h : t.Within t') (hab : absDiffEq t.epsilon a b = true) :
    absDiffEq t'.epsilon a b = true := by
  rw [absDiffEq_iff] at hab ⊢
  exact Binary32.le_trans hab h.epsilon

/-- The larger magnitude of two finite numbers is a magnitude. -/
theorem exists_magnitude_largest (ha : a.isNaN = false) (hb : b.isNaN = false)
    (h : (a.isInf || b.isInf) = false) : ∃ r, Binary32.Magnitude r (value (largest a b)) := by
  rw [Bool.or_eq_false_iff] at h
  unfold largest
  split_ifs
  · exact Binary32.exists_magnitude_abs (Binary32.isFinite_of_not hb h.2)
  · exact Binary32.exists_magnitude_abs (Binary32.isFinite_of_not ha h.1)

/-- A number whose magnitude is not above zero is a zero. -/
theorem rank_eq_of_abs_le (h : rank (value a.abs) ≤ rank (.zero .positive)) :
    rank (value a) = rank (.zero .positive) := by
  rw [Binary32.value_abs] at h
  cases hv : value a with
  | notANumber | zero => rfl
  | infinity =>
      rw [hv] at h
      exact absurd h (Prod.Lex.toLex_lt_toLex.mpr (.inl two_pos)).not_ge
  | finite =>
      rw [hv] at h
      exact absurd h (Prod.Lex.toLex_lt_toLex.mpr (.inl one_pos)).not_ge

/-- Numbers of which the larger magnitude is a zero are equal. -/
theorem beq_of_isZero_largest (ha : a.isNaN = false) (hb : b.isNaN = false) {s : Sign}
    (h : value (largest a b) = .zero s) : (a == b) = true := by
  have hmagnitudes : rank (value a.abs) ≤ rank (.zero .positive) ∧
      rank (value b.abs) ≤ rank (.zero .positive) := by
    unfold largest at h
    split_ifs at h with hless
    · have hrank := (Binary32.lt_iff_rank.mp hless).2.2
      rw [h] at hrank ⊢
      exact ⟨hrank.le, le_rfl⟩
    · have hle := Binary32.not_lt_iff.mp hless
      rw [Binary32.isNaN_abs, Binary32.isNaN_abs, ha, hb] at hle
      have hrank := (Binary32.le_iff_rank.mp (hle.resolve_right nofun)).2.2
      rw [h] at hrank ⊢
      exact ⟨le_rfl, hrank⟩
  refine Binary32.beq_iff_rank.mpr ⟨ha, hb, ?_⟩
  exact (rank_eq_of_abs_le hmagnitudes.1).trans (rank_eq_of_abs_le hmagnitudes.2).symm

/-- A larger fraction of the larger magnitude accepts what a smaller one does. -/
theorem fraction_mono (hle : t.maxRelative ≤ t'.maxRelative)
    (hinfinite : (a.isInf || b.isInf) = false) (hequal : ¬(a == b) = true)
    (h : (a - b).abs ≤ largest a b * t.maxRelative) :
    (a - b).abs ≤ largest a b * t'.maxRelative := by
  obtain ⟨ha, hb⟩ := isNaN_of_sub_isNaN (Binary32.le_iff_rank.mp h).1
  obtain ⟨r, hr⟩ := exists_magnitude_largest ha hb hinfinite
  rcases Binary32.magnitude_or_infinity t'.maxRelative_nonneg with ⟨u', hu'⟩ | htop
  · rcases Binary32.magnitude_or_infinity t.maxRelative_nonneg with ⟨u, hu⟩ | htop
    · exact Binary32.le_trans h (Binary32.mul_le_mul_left hr hu hu' hle)
    · exact absurd hle (IsUnbounded.not_le_of_isFinite (.inl htop) hu'.isFinite)
  · -- An infinite fraction of a positive magnitude is infinite.
    refine Binary32.le_of_infinity (Binary32.le_iff_rank.mp h).1 ?_
    generalize hlargest : value (largest a b) = v at hr
    cases hr with
    | zero s => exact absurd (beq_of_isZero_largest ha hb hlargest) hequal
    | finite => exact Binary32.value_mul_infinity hlargest htop

/-- A wider tolerance accepts what the second test does. -/
theorem relativeEq_mono (h : t.Within t')
    (hab : relativeEq t.epsilon t.maxRelative a b = true) :
    relativeEq t'.epsilon t'.maxRelative a b = true := by
  rw [relativeEq_iff] at hab ⊢
  by_cases hequal : (a == b) = true
  · exact .inl hequal
  · obtain ⟨hinfinite, hnear⟩ := hab.resolve_left hequal
    refine .inr ⟨hinfinite, ?_⟩
    rcases hnear with hnear | hnear
    · exact .inl (Binary32.le_trans hnear h.epsilon)
    · exact .inr (fraction_mono h.maxRelative hinfinite hequal hnear)

/-- A wider tolerance accepts what the third test does. -/
theorem ulpsEq_mono (h : t.Within t') (hab : ulpsEq t.epsilon t.maxUlps a b = true) :
    ulpsEq t'.epsilon t'.maxUlps a b = true := by
  rw [ulpsEq_iff] at hab ⊢
  rcases hab with hnear | ⟨hsign, hsteps⟩
  · exact .inl (Binary32.le_trans hnear h.epsilon)
  · exact .inr ⟨hsign, hsteps.trans h.maxUlps⟩

/-! From one comparison to another. -/

/-- The difference of an infinite number and any other is infinite or no number. -/
theorem isUnbounded_abs_sub_of_isInf (h : a.isInf = true) : IsUnbounded (a - b).abs := by
  have ha : (value a).isInf = true := h
  have hsub : (∃ s, UnpackedFloat.sub .binary32 (value a) (value b) = .infinity s) ∨
      UnpackedFloat.sub .binary32 (value a) (value b) = .notANumber := by
    cases hv : value a with
    | notANumber | zero | finite => rw [hv] at ha; cases ha
    | infinity s =>
        cases value b with
        | notANumber => exact .inr rfl
        | zero | finite => exact .inl ⟨s, rfl⟩
        | infinity u =>
            unfold UnpackedFloat.sub
            dsimp only
            split_ifs
            · exact .inl ⟨s, rfl⟩
            · exact .inr rfl
  rw [IsUnbounded, Binary32.value_abs, Binary32.sub_eq]
  rcases hsub with ⟨s, hsub⟩ | hsub <;> rw [hsub]
  · rw [Binary32.value_ofValue_infinity]
    exact .inl rfl
  · rw [Binary32.ofValue_notANumber, Binary32.value_undefined]
    exact .inr rfl

/-- The distance from an infinity is without bound. -/
theorem isUnbounded_abs_sub (h : (a.isInf || b.isInf) = true) : IsUnbounded (a - b).abs := by
  rcases Bool.or_eq_true_iff.mp h with ha | hb
  · exact isUnbounded_abs_sub_of_isInf ha
  · rw [Binary32.abs_sub_comm]
    exact isUnbounded_abs_sub_of_isInf hb

/-- The second test accepts what the first does. -/
theorem relativeEq_of_absDiffEq (h : absDiffEq t.epsilon a b = true) :
    relativeEq t.epsilon t.maxRelative a b = true := by
  rw [absDiffEq_iff] at h
  rw [relativeEq_iff]
  refine .inr ⟨?_, .inl h⟩
  cases hinfinite : a.isInf || b.isInf with
  | false => rfl
  | true =>
      exact absurd h ((isUnbounded_abs_sub hinfinite).not_le_of_isFinite t.epsilon_finite)

/-- The third test accepts what the first does. -/
theorem ulpsEq_of_absDiffEq (h : absDiffEq t.epsilon a b = true) :
    ulpsEq t.epsilon t.maxUlps a b = true := by
  rw [absDiffEq_iff] at h
  rw [ulpsEq_iff]
  exact .inl h

/-- The second test accepts equal numbers. -/
theorem relativeEq_of_beq (h : (a == b) = true) :
    relativeEq t.epsilon t.maxRelative a b = true := by
  rw [relativeEq_iff]
  exact .inl h

/-- The third test accepts equal numbers, zeros of both signs too. -/
theorem ulpsEq_of_beq (h : (a == b) = true) : ulpsEq t.epsilon t.maxUlps a b = true := by
  rw [ulpsEq_iff]
  obtain ⟨ha, -, -⟩ := Binary32.beq_iff_rank.mp h
  rcases (Binary32.agree_iff a b).mp (.inl h) with rfl | ⟨⟨s, hs⟩, u, hu⟩
  · refine .inr ⟨?_, ?_⟩
    · simp only [sameSign, ha, Bool.not_false, Bool.true_and, beq_self_eq_true]
    · simp [ulpDistance]
  · left
    have hzero : (a - b).abs = 0 := by
      apply Binary32.value_injective
      obtain ⟨w, hw⟩ := Binary32.IsZero.sub ⟨s, hs⟩ ⟨u, hu⟩
      rw [Binary32.value_abs, hw, Binary32.value_zero]
      rfl
    rw [hzero]
    exact t.epsilon_nonneg

/-! What is no number. -/

/-- An undefined number has the sign of no other. -/
theorem not_sameSign_of_isNaN (h : a.isNaN = true ∨ b.isNaN = true) : sameSign a b = false := by
  unfold sameSign
  rcases h with h | h <;> rw [h]
  · rfl
  · rw [Bool.not_true, Bool.and_false, Bool.false_and]

theorem not_beq_of_isNaN (h : a.isNaN = true ∨ b.isNaN = true) : ¬(a == b) = true := by
  intro hbeq
  obtain ⟨ha, hb, -⟩ := Binary32.beq_iff_rank.mp hbeq
  exact h.elim (fun h => absurd (ha.symm.trans h) nofun) fun h => absurd (hb.symm.trans h) nofun

/-- The distance from an undefined number is below no tolerance. -/
theorem not_abs_sub_le_of_isNaN (h : a.isNaN = true ∨ b.isNaN = true) (ε : Float32) :
    ¬(a - b).abs ≤ ε := by
  intro hle
  obtain ⟨ha, hb⟩ := isNaN_of_sub_isNaN (Binary32.le_iff_rank.mp hle).1
  exact h.elim (fun h => absurd (ha.symm.trans h) nofun) fun h => absurd (hb.symm.trans h) nofun

theorem absDiffEq_of_isNaN (h : a.isNaN = true ∨ b.isNaN = true) :
    absDiffEq t.epsilon a b = false :=
  decide_eq_false (not_abs_sub_le_of_isNaN h _)

theorem relativeEq_of_isNaN (h : a.isNaN = true ∨ b.isNaN = true) :
    relativeEq t.epsilon t.maxRelative a b = false := by
  rw [Bool.eq_false_iff, Ne, relativeEq_iff]
  rintro (hequal | ⟨-, hnear | hnear⟩)
  · exact not_beq_of_isNaN h hequal
  · exact not_abs_sub_le_of_isNaN h _ hnear
  · exact not_abs_sub_le_of_isNaN h _ hnear

theorem ulpsEq_of_isNaN (h : a.isNaN = true ∨ b.isNaN = true) :
    ulpsEq t.epsilon t.maxUlps a b = false := by
  rw [Bool.eq_false_iff, Ne, ulpsEq_iff]
  rintro (hnear | ⟨hsign, -⟩)
  · exact not_abs_sub_le_of_isNaN h _ hnear
  · exact absurd (not_sameSign_of_isNaN h) (by rw [hsign]; nofun)

/-! ## Values -/

open Components (toList zipWith)

/-- A kind of value that is combined and compared component by component. -/
class Fieldwise (F : Type → Type) [Components F] [BEq (F Float32)] : Prop where
  toList_zipWith (near : Float32 → Float32 → Bool) (u v : F Float32) :
    toList (zipWith near u v) = List.zipWith near (toList u) (toList v)
  length_toList (u v : F Float32) : (toList u).length = (toList v).length
  beq_eq (u v : F Float32) : (u == v) = everyPair (· == ·) u v

instance : Fieldwise Vec2 where
  toList_zipWith _ _ _ := rfl
  length_toList _ _ := rfl
  beq_eq u v := by
    show (u.x == v.x && u.y == v.y) = _
    simp [everyPair, toList, zipWith]

instance : Fieldwise Vec3 where
  toList_zipWith _ _ _ := rfl
  length_toList _ _ := rfl
  beq_eq u v := by
    show (u.x == v.x && (u.y == v.y && u.z == v.z)) = _
    simp [everyPair, toList, zipWith]

instance : Fieldwise Vec4 where
  toList_zipWith _ _ _ := rfl
  length_toList _ _ := rfl
  beq_eq u v := by
    show (u.x == v.x && (u.y == v.y && (u.z == v.z && u.w == v.w))) = _
    simp [everyPair, toList, zipWith]

instance : Fieldwise Quaternion where
  toList_zipWith _ _ _ := rfl
  length_toList _ _ := rfl
  beq_eq u v := by
    show (u.x == v.x && (u.y == v.y && (u.z == v.z && u.w == v.w))) = _
    simp [everyPair, toList, zipWith]

instance : Fieldwise Plane where
  toList_zipWith _ _ _ := rfl
  length_toList _ _ := rfl
  beq_eq u v := by
    show (u.normal == v.normal && u.d == v.d) = _
    rw [Fieldwise.beq_eq]
    simp [everyPair, toList, zipWith, Bool.and_assoc]

instance : Fieldwise Affine2 where
  toList_zipWith _ _ _ := rfl
  length_toList _ _ := rfl
  beq_eq u v := by
    show (u.r1 == v.r1 && (u.r2 == v.r2 && u.r3 == v.r3)) = _
    simp only [Fieldwise.beq_eq]
    simp [everyPair, toList, zipWith, Bool.and_assoc]

instance : Fieldwise Matrix4 where
  toList_zipWith _ _ _ := rfl
  length_toList _ _ := rfl
  beq_eq u v := by
    show (u.r1 == v.r1 && (u.r2 == v.r2 && (u.r3 == v.r3 && u.r4 == v.r4))) = _
    simp only [Fieldwise.beq_eq]
    simp [everyPair, toList, zipWith, Bool.and_assoc]

section

variable {F : Type → Type} [Components F] [BEq (F Float32)] [Fieldwise F]
variable {near near' : Float32 → Float32 → Bool} {u v : F Float32}

/-- A comparison of values asks each component and its match. -/
theorem everyPair_iff :
    everyPair near u v = true ↔
      List.Forall₂ (fun a b => near a b = true) (toList u) (toList v) := by
  rw [everyPair, Fieldwise.toList_zipWith, List.forall₂_iff_zip,
    and_iff_right (Fieldwise.length_toList u v), List.all_eq_true,
    ← List.map_uncurry_zip_eq_zipWith]
  simp

/-- A test of all pairs goes both ways where the test does. -/
theorem everyPair_comm (h : ∀ a b, near a b = near b a) :
    everyPair near u v = everyPair near v u := by
  rw [Bool.eq_iff_iff, everyPair_iff, everyPair_iff]
  constructor
  · exact fun huv => huv.flip.imp fun a b hab => h a b ▸ hab
  · exact fun huv => huv.flip.imp fun a b hab => h a b ▸ hab

/-- A weaker test accepts what a test of all pairs does. -/
theorem everyPair_imp (h : ∀ {a b}, near a b = true → near' a b = true)
    (huv : everyPair near u v = true) : everyPair near' u v = true :=
  everyPair_iff.mpr ((everyPair_iff.mp huv).imp fun _ _ => h)

/-- A test that accepts equal numbers accepts equal values. -/
theorem everyPair_of_beq (h : ∀ {a b : Float32}, (a == b) = true → near a b = true)
    (huv : (u == v) = true) : everyPair near u v = true := by
  rw [Fieldwise.beq_eq] at huv
  exact everyPair_imp h huv

/-- A test that refuses undefined numbers leaves none among the pairs it accepts. -/
theorem isNaN_false_of_forall₂
    (h : ∀ {a b : Float32}, a.isNaN = true ∨ b.isNaN = true → near a b = false)
    {as bs : List Float32} (hall : List.Forall₂ (fun a b => near a b = true) as bs) :
    as.any Float32.isNaN = false ∧ bs.any Float32.isNaN = false := by
  induction hall with
  | nil => exact ⟨rfl, rfl⟩
  | @cons a b as bs hab _ ih =>
      have hnumbers : ¬(a.isNaN = true ∨ b.isNaN = true) := fun hnan =>
        absurd (h hnan) (by rw [hab]; nofun)
      rw [not_or, Bool.not_eq_true, Bool.not_eq_true] at hnumbers
      rw [List.any_cons, List.any_cons, hnumbers.1, hnumbers.2]
      exact ih

/-- One undefined component spoils the comparison. -/
theorem everyPair_of_isNaN
    (h : ∀ {a b : Float32}, a.isNaN = true ∨ b.isNaN = true → near a b = false)
    (huv : Components.isNaN u = true ∨ Components.isNaN v = true) : everyPair near u v = false := by
  rw [Bool.eq_false_iff, Ne, everyPair_iff]
  intro hall
  obtain ⟨hu, hv⟩ := isNaN_false_of_forall₂ h hall
  rcases huv with huv | huv
  · exact absurd (hu.symm.trans huv) nofun
  · exact absurd (hv.symm.trans huv) nofun

end

variable (F : Type → Type) [Components F] [BEq (F Float32)]

/-- The three tolerant comparisons of a kind of value fit together. -/
structure Coherent : Prop where
  /-- They are symmetric. -/
  symmetric (t : Tolerances) (u v : F Float32) :
    everyPair (absDiffEq t.epsilon) u v = everyPair (absDiffEq t.epsilon) v u ∧
    everyPair (relativeEq t.epsilon t.maxRelative) u v =
      everyPair (relativeEq t.epsilon t.maxRelative) v u ∧
    everyPair (ulpsEq t.epsilon t.maxUlps) u v = everyPair (ulpsEq t.epsilon t.maxUlps) v u
  /-- What is near remains so when tolerances are raised. -/
  raised {t t' : Tolerances} (h : t.Within t') (u v : F Float32) :
    (everyPair (absDiffEq t.epsilon) u v = true → everyPair (absDiffEq t'.epsilon) u v = true) ∧
    (everyPair (relativeEq t.epsilon t.maxRelative) u v = true →
      everyPair (relativeEq t'.epsilon t'.maxRelative) u v = true) ∧
    (everyPair (ulpsEq t.epsilon t.maxUlps) u v = true →
      everyPair (ulpsEq t'.epsilon t'.maxUlps) u v = true)
  /-- A difference that the first accepts is accepted by the other two. -/
  implied (t : Tolerances) {u v : F Float32} (h : everyPair (absDiffEq t.epsilon) u v = true) :
    everyPair (relativeEq t.epsilon t.maxRelative) u v = true ∧
    everyPair (ulpsEq t.epsilon t.maxUlps) u v = true
  /-- Equal values are near by the latter two, whatever the tolerances. -/
  equal (t : Tolerances) {u v : F Float32} (h : (u == v) = true) :
    everyPair (relativeEq t.epsilon t.maxRelative) u v = true ∧
    everyPair (ulpsEq t.epsilon t.maxUlps) u v = true
  /-- A value with a component that is not a number is near none. -/
  undefined (t : Tolerances) {u v : F Float32}
    (h : Components.isNaN u = true ∨ Components.isNaN v = true) :
    everyPair (absDiffEq t.epsilon) u v = false ∧
    everyPair (relativeEq t.epsilon t.maxRelative) u v = false ∧
    everyPair (ulpsEq t.epsilon t.maxUlps) u v = false

/-- What is said of the comparisons holds of every kind that is compared field by field. -/
theorem Coherent.of_fieldwise [Fieldwise F] : Coherent F where
  symmetric _ _ _ := ⟨everyPair_comm (absDiffEq_comm _), everyPair_comm (relativeEq_comm _ _),
    everyPair_comm (ulpsEq_comm _ _)⟩
  raised h _ _ := ⟨everyPair_imp (absDiffEq_mono h), everyPair_imp (relativeEq_mono h),
    everyPair_imp (ulpsEq_mono h)⟩
  implied _ _ _ h := ⟨everyPair_imp relativeEq_of_absDiffEq h, everyPair_imp ulpsEq_of_absDiffEq h⟩
  equal _ _ _ h := ⟨everyPair_of_beq relativeEq_of_beq h, everyPair_of_beq ulpsEq_of_beq h⟩
  undefined _ _ _ h := ⟨everyPair_of_isNaN absDiffEq_of_isNaN h,
    everyPair_of_isNaN relativeEq_of_isNaN h, everyPair_of_isNaN ulpsEq_of_isNaN h⟩

/-- **Coherent comparisons.**  For each of the seven kinds of value, and whatever the
tolerances, the three tolerant comparisons are symmetric, keep what they accept when a
tolerance is raised, and reject what has an undefined component; what the first accepts the
other two accept, and so they do with equal values. -/
theorem comparisons_coherent :
    Coherent Vec2 ∧ Coherent Vec3 ∧ Coherent Vec4 ∧ Coherent Quaternion ∧ Coherent Plane ∧
      Coherent Affine2 ∧ Coherent Matrix4 :=
  ⟨.of_fieldwise _, .of_fieldwise _, .of_fieldwise _, .of_fieldwise _, .of_fieldwise _,
    .of_fieldwise _, .of_fieldwise _⟩

/-- An infinite number is near itself, and zero is near its negation, without any tolerance.
Only the first comparison rejects the infinite numbers, whose difference is none. -/
theorem infinities_and_zeros_near :
    let t := Tolerances.strict
    let u : Vec2 Float32 := ⟨1 / 0, 0⟩
    let v : Vec2 Float32 := ⟨1 / 0, -0⟩
    everyPair (absDiffEq t.epsilon) u v = false ∧
      everyPair (relativeEq t.epsilon t.maxRelative) u v = true ∧
      everyPair (ulpsEq t.epsilon t.maxUlps) u v = true :=
  ⟨by decide +kernel, comparisons_coherent.1.equal _ (by decide +kernel)⟩

end Tolerance

end Spatial
