import Mathlib
import Spatial.Number.Binary

/-!
# Packed and unpacked numbers

A binary floating-point number is a string of bits: a sign, a biased exponent and
the digits of the significand below the leading one.  Arithmetic unpacks it into
an infinity, a zero, a finite number `± m · 2ᵉ` or no number at all, and packs the
result.

1.  Packing undoes unpacking.  The one string of bits that could be lost, a second
    way of saying that there is no number, is not valid.
2.  An unpacked number is in canonical form: its exponent is the one that the
    format asks for, given where its leading digit stands.
3.  Packing and unpacking treat the sign apart from everything else, so both
    commute with negation, whatever is packed.
-/

namespace Spatial.Binary

open Float.Model (Format totalExponent UnpackedFloat)
open Float.Model.UnpackedFloat

variable {S : Format}

/-! The fields of a packed number. -/

/-- A sign is read from the bit that it is written as. -/
theorem ofBitVec_toBitVec (s : Sign) : Sign.ofBitVec s.toBitVec = s := by
  cases s <;> rfl

/-- The bit of a sign is the bit that it was read from. -/
theorem toBitVec_ofBitVec (b : BitVec 1) : (Sign.ofBitVec b).toBitVec = b := by
  revert b
  decide

/-- The sign of packed fields is the sign that was packed. -/
theorem unpackSign_packComponents (s : Sign) (e : BitVec S.exponentBits)
    (m : BitVec S.mantissaBitsWithoutImplicit) :
    unpackSign (packComponents S s e m) = s.toBitVec := by
  ext i hi
  have hzero : i = 0 := by omega
  subst hzero
  simp [unpackSign, packComponents, BitVec.getLsbD_append, BitVec.getElem_append]

/-- The three fields make up the whole number. -/
theorem packComponents_fields (b : BitVec S.numBits) :
    packComponents S (Sign.ofBitVec (unpackSign b)) (unpackExponent b) (unpackMantissa b) = b := by
  have hm := S.hm
  have he := S.he
  rw [packComponents, toBitVec_ofBitVec]
  apply BitVec.eq_of_getLsbD_eq
  intro i hi
  simp only [BitVec.getLsbD_append, unpackMantissa, unpackExponent, unpackSign,
    BitVec.getLsbD_cast, BitVec.getLsbD_extractLsb]
  by_cases hlow : i < S.mantissaBitsWithoutImplicit
  · simp [hlow]
    omega
  · by_cases hmiddle : i - S.mantissaBitsWithoutImplicit < S.exponentBits
    · have hindex : S.mantissaBitsWithoutImplicit + (i - S.mantissaBitsWithoutImplicit) = i := by
        omega
      simp [hlow, hmiddle, hindex]
      omega
    · have hbits : S.numBits = 1 + S.exponentBits + S.mantissaBitsWithoutImplicit := rfl
      have hindex : i = S.mantissaBitsWithoutImplicit + S.exponentBits := by omega
      subst hindex
      simp

/-- Bits that make zero are all zero. -/
theorem toNat_eq_zero_iff {n : ℕ} (b : BitVec n) : b.toNat = 0 ↔ b = 0#_ := by
  rw [← BitVec.toNat_inj]
  simp

/-- Bits that make the greatest number are all one. -/
theorem toNat_eq_max_iff {n : ℕ} (b : BitVec n) : b.toNat = 2 ^ n - 1 ↔ b = -1#_ := by
  rw [← BitVec.toNat_inj, BitVec.neg_one_eq_allOnes, BitVec.toNat_allOnes]

/-- The exponents of zero and of infinity differ. -/
theorem zero_ne_max (S : Format) : (0#S.exponentBits) ≠ -1#_ := by
  rw [ne_eq, ← toNat_eq_max_iff]
  have : 2 ≤ 2 ^ S.exponentBits := Nat.pow_le_pow_right two_pos S.he
  simp only [BitVec.toNat_zero]
  omega

/-- A leading one adds a power of two. -/
theorem toNat_one_append {n : ℕ} (b : BitVec n) : (1#1 ++ b).toNat = 2 ^ n + b.toNat := by
  rw [BitVec.toNat_append, ← Nat.shiftLeft_add_eq_or_of_lt b.isLt, Nat.shiftLeft_eq]
  simp

/-- The least exponent is the one that a biased exponent of one stands for. -/
theorem minExponent_eq (S : Format) :
    S.minExponent = 1 - (S.exponentBias + S.mantissaBitsWithoutImplicit) := by
  have hpos : 1 ≤ 2 ^ (S.exponentBits - 1) := Nat.one_le_two_pow
  rw [Format.minExponent, Format.mantissaBits, Format.exponentBias]
  push_cast [hpos]
  ring

/-- What a string of bits stands for. -/
inductive Unpacks (S : Format) (b : BitVec S.numBits) : UnpackedFloat → Prop
  | infinity (he : unpackExponent b = -1#_) (hm : unpackMantissa b = 0#_) :
      Unpacks S b (.infinity (Sign.ofBitVec (unpackSign b)))
  | notANumber (he : unpackExponent b = -1#_) (hm : unpackMantissa b ≠ 0#_) :
      Unpacks S b .notANumber
  | zero (he : unpackExponent b = 0#_) (hm : unpackMantissa b = 0#_) :
      Unpacks S b (.zero (Sign.ofBitVec (unpackSign b)))
  | subnormal (he : unpackExponent b = 0#_) (hm : 0 < (unpackMantissa b).toNat) :
      Unpacks S b (.finite (Sign.ofBitVec (unpackSign b)) (unpackMantissa b).toNat
        S.minExponent hm)
  | normal (hpos : 0 < (unpackExponent b).toNat)
      (hmax : (unpackExponent b).toNat < 2 ^ S.exponentBits - 1)
      (hm : 0 < 2 ^ S.mantissaBitsWithoutImplicit + (unpackMantissa b).toNat) :
      Unpacks S b (.finite (Sign.ofBitVec (unpackSign b))
        (2 ^ S.mantissaBitsWithoutImplicit + (unpackMantissa b).toNat)
        ((unpackExponent b).toNat - (S.exponentBias + S.mantissaBitsWithoutImplicit)) hm)

/-- What bits unpack to is one of the classes of numbers. -/
theorem unpacks_unpack (b : BitVec S.numBits) : Unpacks S b (unpack S b) := by
  unfold unpack
  dsimp only
  split_ifs with hmax hm hzero hm
  · exact .infinity hmax hm
  · exact .notANumber hmax hm
  · exact .zero hzero hm
  · have hpos : 0 < (unpackMantissa b).toNat :=
      Nat.pos_of_ne_zero (mt (toNat_eq_zero_iff _).mp hm)
    have hexponent : ((unpackExponent b).toNat : ℤ) -
        (S.exponentBias + S.mantissaBitsWithoutImplicit) + 1 = S.minExponent := by
      rw [(toNat_eq_zero_iff _).mpr hzero, minExponent_eq]
      push_cast
      ring
    simp only [hexponent]
    exact .subnormal hzero hpos
  · have hpos := mt (toNat_eq_zero_iff _).mp hzero
    have hlt := mt (toNat_eq_max_iff _).mp hmax
    have hbound := (unpackExponent b).isLt
    simp only [toNat_one_append]
    exact .normal (by omega) (by omega) _

/-! Canonical form. -/

/-- An unpacked number whose exponent is the one that its format asks for. -/
def Canonical (S : Format) : UnpackedFloat → Prop
  | .finite _ m e _ => S.targetExponent (totalExponent m e) = e
  | _ => True

/-- A significand with its leading one has all the digits of the format. -/
theorem log2_leading_one {n : ℕ} (h : n < 2 ^ S.mantissaBitsWithoutImplicit) :
    (2 ^ S.mantissaBitsWithoutImplicit + n).log2 = S.mantissaBitsWithoutImplicit := by
  rw [Nat.log2_eq_iff (by positivity), pow_succ]
  omega

/-- What bits stand for is in canonical form. -/
theorem Unpacks.canonical {b : BitVec S.numBits} {u : UnpackedFloat} (h : Unpacks S b u) :
    Canonical S u := by
  have hbound := (unpackMantissa b).isLt
  cases h with
  | infinity | notANumber | zero => trivial
  | subnormal he hm =>
      have hlog : (unpackMantissa b).toNat.log2 < S.mantissaBitsWithoutImplicit :=
        (Nat.log2_lt hm.ne').mpr hbound
      simp only [Canonical, Format.targetExponent, totalExponent, Format.mantissaBits]
      omega
  | normal hpos hmax hm =>
      have hmin := minExponent_eq S
      simp only [Canonical, Format.targetExponent, totalExponent, Format.mantissaBits,
        log2_leading_one hbound]
      omega

/-- The exponent of a number that was unpacked is one that the format has. -/
theorem Unpacks.exponent_lt (hS : 1 < S.exponentBits) {b : BitVec S.numBits} {s : Sign} {m : ℕ}
    {e : ℤ} {hm : 0 < m} (h : Unpacks S b (.finite s m e hm)) :
    e + S.exponentBias + S.mantissaBitsWithoutImplicit + 1 < 2 ^ S.exponentBits := by
  have hmin := minExponent_eq S
  have hfour : (4 : ℤ) ≤ 2 ^ S.exponentBits := by
    exact_mod_cast le_trans (by norm_num) (Nat.pow_le_pow_right two_pos hS)
  cases h with
  | subnormal => omega
  | normal _ hmax =>
      have hmax' : ((unpackExponent b).toNat : ℤ) < 2 ^ S.exponentBits - 1 := by
        have := Nat.lt_sub_iff_add_lt.mp hmax
        have : ((unpackExponent b).toNat + 1 : ℤ) < (2 : ℕ) ^ S.exponentBits := by
          exact_mod_cast this
        push_cast at this
        omega
      omega

/-! Packing what was unpacked. -/

/-- Packing undoes unpacking, in a format that has other exponents than the two
reserved ones. -/
theorem Unpacks.pack_eq (hS : 1 < S.exponentBits) {b : BitVec S.numBits} {u : UnpackedFloat}
    (hvalid : S.Valid b) (h : Unpacks S b u) : pack S u = b := by
  have hbound := (unpackMantissa b).isLt
  have hfields := packComponents_fields b
  have hmin := minExponent_eq S
  have hfour : 4 ≤ 2 ^ S.exponentBits :=
    le_trans (by norm_num) (Nat.pow_le_pow_right two_pos hS)
  cases h with
  | infinity he hm =>
      rw [he, hm] at hfields
      exact hfields
  | notANumber he hm => exact (hvalid.eq_packedNaN he hm).symm
  | zero he hm =>
      rw [he, hm] at hfields
      exact hfields
  | subnormal he hm =>
      have hlog : (unpackMantissa b).toNat.log2 < S.mantissaBitsWithoutImplicit :=
        (Nat.log2_lt hm.ne').mpr hbound
      -- The packed exponent is zero, but a number packs by the least exponent, whose
      -- biased form is one; its missing leading digit tells it from a normal number.
      have hbiased :
          (S.minExponent + S.exponentBias + S.mantissaBitsWithoutImplicit).toNat = 1 := by
        omega
      simp only [pack, hbiased]
      rw [if_neg (by omega), if_neg (by rw [Format.mantissaBits]; omega), BitVec.ofNat_toNat,
        BitVec.setWidth_eq, ← he]
      exact hfields
  | normal hpos hmax hm =>
      have hbiased : (((unpackExponent b).toNat : ℤ) -
          (S.exponentBias + S.mantissaBitsWithoutImplicit) + S.exponentBias +
            S.mantissaBitsWithoutImplicit).toNat = (unpackExponent b).toNat := by
        omega
      have hmantissa : BitVec.ofNat S.mantissaBitsWithoutImplicit
          (2 ^ S.mantissaBitsWithoutImplicit + (unpackMantissa b).toNat) = unpackMantissa b := by
        rw [← BitVec.toNat_inj, BitVec.toNat_ofNat, Nat.add_mod_left, Nat.mod_eq_of_lt hbound]
      simp only [pack, hbiased, log2_leading_one hbound, hmantissa]
      rw [if_neg (by omega), if_pos (by rw [Format.mantissaBits, add_comm]), BitVec.ofNat_toNat,
        BitVec.setWidth_eq]
      exact hfields

/-! Unpacking what was packed. -/

/-- A significand with its leading digit, which is dropped and comes back. -/
theorem unpack_packComponents_normal (s : Sign) {m b : ℕ} (hm : 0 < m)
    (hlow : 2 ^ S.mantissaBitsWithoutImplicit ≤ m)
    (hhigh : m < 2 ^ (S.mantissaBitsWithoutImplicit + 1)) (hpos : 0 < b)
    (hmax : b + 1 < 2 ^ S.exponentBits) :
    unpack S (packComponents S s (.ofNat S.exponentBits b)
        (.ofNat S.mantissaBitsWithoutImplicit m)) =
      .finite s m (b - (S.exponentBias + S.mantissaBitsWithoutImplicit)) hm := by
  have hbiased : (BitVec.ofNat S.exponentBits b).toNat = b := by
    rw [BitVec.toNat_ofNat, Nat.mod_eq_of_lt (by omega)]
  have hnonzero : BitVec.ofNat S.exponentBits b ≠ 0#_ := by
    rw [ne_eq, ← toNat_eq_zero_iff, hbiased]
    omega
  have hnot_max : BitVec.ofNat S.exponentBits b ≠ -1#_ := by
    rw [ne_eq, ← toNat_eq_max_iff, hbiased]
    omega
  have hmantissa :
      2 ^ S.mantissaBitsWithoutImplicit + m % 2 ^ S.mantissaBitsWithoutImplicit = m := by
    rw [pow_succ] at hhigh
    rw [Nat.mod_eq_sub_mod hlow, Nat.mod_eq_of_lt (by omega)]
    omega
  simp only [unpack, unpackExponent_packComponents, unpackMantissa_packComponents,
    unpackSign_packComponents, ofBitVec_toBitVec, if_neg hnot_max, if_neg hnonzero,
    toNat_one_append, BitVec.toNat_ofNat, hmantissa]
  congr 1
  rw [← BitVec.toNat_ofNat, hbiased]

/-- A significand without a leading digit, which has the least exponent. -/
theorem unpack_packComponents_subnormal (s : Sign) {m : ℕ} (hm : 0 < m)
    (hlt : m < 2 ^ S.mantissaBitsWithoutImplicit) :
    unpack S (packComponents S s 0#_ (.ofNat S.mantissaBitsWithoutImplicit m)) =
      .finite s m S.minExponent hm := by
  have hnot_max := zero_ne_max S
  have hmin := minExponent_eq S
  have hdigits : (BitVec.ofNat S.mantissaBitsWithoutImplicit m).toNat = m := by
    rw [BitVec.toNat_ofNat, Nat.mod_eq_of_lt hlt]
  have hmantissa : BitVec.ofNat S.mantissaBitsWithoutImplicit m ≠ 0#_ := by
    rw [ne_eq, ← toNat_eq_zero_iff, hdigits]
    omega
  simp only [unpack, unpackExponent_packComponents, unpackMantissa_packComponents,
    unpackSign_packComponents, ofBitVec_toBitVec, if_neg hnot_max, if_true, dif_neg hmantissa,
    hdigits, BitVec.toNat_zero]
  congr 1
  push_cast
  omega

/-- A number whose exponent is too large for the format is packed as infinity. -/
theorem pack_of_large (s : Sign) {m : ℕ} {e : ℤ} (hm : 0 < m)
    (hlimit : 2 ^ S.exponentBits ≤
      (e + S.exponentBias + S.mantissaBitsWithoutImplicit).toNat + 1) :
    pack S (.finite s m e hm) = pack S (.infinity s) := by
  simp only [pack, if_pos hlimit]

/-- Unpacking undoes packing, for a number in canonical form whose exponent the format has. -/
theorem unpack_pack_finite (s : Sign) {m : ℕ} {e : ℤ} (hm : 0 < m)
    (hcanonical : S.targetExponent (totalExponent m e) = e)
    (hmax : e + S.exponentBias + S.mantissaBitsWithoutImplicit + 1 < 2 ^ S.exponentBits) :
    unpack S (pack S (.finite s m e hm)) = .finite s m e hm := by
  have hmin := minExponent_eq S
  have hfirst : S.minExponent ≤ e := by
    rw [← hcanonical]
    exact le_max_right _ _
  have he := S.he
  rw [Format.targetExponent, totalExponent, Format.mantissaBits] at hcanonical
  push_cast at hcanonical
  obtain ⟨b, hb⟩ : ∃ b : ℕ, e + S.exponentBias + S.mantissaBitsWithoutImplicit = b :=
    ⟨(e + S.exponentBias + S.mantissaBitsWithoutImplicit).toNat, by omega⟩
  have hb_lt : b + 1 < 2 ^ S.exponentBits := by
    rw [hb] at hmax
    exact_mod_cast hmax
  simp only [pack, hb, Int.toNat_natCast]
  rw [if_neg (by omega)]
  split_ifs with hfull
  · rw [Format.mantissaBits] at hfull
    have hlow := Nat.log2_self_le hm.ne'
    have hhigh := @Nat.lt_log2_self m
    rw [show m.log2 = S.mantissaBitsWithoutImplicit by omega] at hlow hhigh
    rw [unpack_packComponents_normal s hm hlow hhigh (by omega) hb_lt]
    congr 1
    omega
  · rw [Format.mantissaBits] at hfull
    have hlt : m < 2 ^ S.mantissaBitsWithoutImplicit := (Nat.log2_lt hm.ne').mp (by omega)
    rw [unpack_packComponents_subnormal s hm hlt]
    congr 1
    omega

/-! Negation. -/

/-- Packed with the other sign, fields unpack to the negation. -/
theorem unpack_packComponents_neg (s : Sign) (e : BitVec S.exponentBits)
    (m : BitVec S.mantissaBitsWithoutImplicit) :
    unpack S (packComponents S (-s) e m) = (unpack S (packComponents S s e m)).neg := by
  simp only [unpack, unpackSign_packComponents, unpackExponent_packComponents,
    unpackMantissa_packComponents, ofBitVec_toBitVec]
  split_ifs <;> rfl

/-- The bits of the undefined number unpack to it. -/
theorem unpack_packedNaN (S : Format) : unpack S (packedNaN S) = .notANumber := by
  have hm := S.hm
  have hmantissa :
      1#S.mantissaBitsWithoutImplicit <<< (S.mantissaBitsWithoutImplicit - 1) ≠ 0#_ := by
    intro h
    have hbit := congrArg (fun b => b.getLsbD (S.mantissaBitsWithoutImplicit - 1)) h
    simp [hm] at hbit
  simp [unpack, packedNaN, hmantissa]

/-- Whatever is packed, its negation is packed as the negation. -/
theorem unpack_pack_neg (u : UnpackedFloat) :
    unpack S (pack S u.neg) = (unpack S (pack S u)).neg := by
  cases u with
  | infinity s => exact unpack_packComponents_neg s _ _
  | notANumber =>
      show unpack S (packedNaN S) = (unpack S (packedNaN S)).neg
      rw [unpack_packedNaN]
      rfl
  | zero s => exact unpack_packComponents_neg s _ _
  | finite s m e hm =>
      simp only [UnpackedFloat.neg, pack]
      split_ifs
      · exact unpack_packComponents_neg s _ _
      · exact unpack_packComponents_neg s _ _
      · exact unpack_packComponents_neg s _ _

/-! What is no number. -/

/-- Fields are those of a number unless the exponent is full and the digits are not zero. -/
theorem isNaN_unpack_packComponents (s : Sign) {e : BitVec S.exponentBits}
    {m : BitVec S.mantissaBitsWithoutImplicit} (h : e ≠ -1#_ ∨ m = 0#_) :
    (unpack S (packComponents S s e m)).isNaN = false := by
  simp only [unpack, unpackExponent_packComponents, unpackMantissa_packComponents]
  split_ifs with he hm
  · rfl
  · exact absurd (h.resolve_left (not_not_intro he)) hm
  all_goals rfl

/-- Packing makes no number into none. -/
theorem isNaN_unpack_pack (u : UnpackedFloat) : (unpack S (pack S u)).isNaN = u.isNaN := by
  cases u with
  | notANumber =>
      show (unpack S (packedNaN S)).isNaN = true
      rw [unpack_packedNaN]
      rfl
  | infinity s => exact isNaN_unpack_packComponents s (.inr rfl)
  | zero s => exact isNaN_unpack_packComponents s (.inr rfl)
  | finite s m e hm =>
      simp only [pack]
      split_ifs with hmax hfull
      · exact isNaN_unpack_packComponents s (.inr rfl)
      · refine isNaN_unpack_packComponents s (.inl ?_)
        rw [ne_eq, ← toNat_eq_max_iff, BitVec.toNat_ofNat, Nat.mod_eq_of_lt (by omega)]
        omega
      · exact isNaN_unpack_packComponents s (.inl (zero_ne_max S))

end Spatial.Binary
