import Mathlib
import Spatial.Proofs.Decimal.Gap
import Spatial.Proofs.Json.Computed
import Spatial.Proofs.Json.Library

/-!
# Written numerals

The characters that a finite number is written with are a number of the grammar.

1.  Every numeral has a fraction or an exponent, so that it is computed as a decimal and not
    converted as an integer.
2.  Its digits make the decimal that was written, except that an integer takes a zero after
    the point into its digits.
3.  It has fifteen digits at most, and a small exponent.  Neither would overflow on the way.
-/

namespace Spatial.Json

/-! ## Digits -/

variable {ds : List Char} {n : ℕ}

/-- The number of a run of digits, as the library of naturals reads it. -/
theorem digitsValue_eq (ds : List Char) : digitsValue ds = Nat.ofDigitChars 10 ds 0 := by
  rw [Nat.ofDigitChars_eq_foldl]
  rfl

/-- The number of two runs of digits in sequence. -/
theorem digitsValue_append (ds es : List Char) :
    digitsValue (ds ++ es) = 10 ^ es.length * digitsValue ds + digitsValue es := by
  simp only [digitsValue_eq]
  rw [Nat.ofDigitChars_append, Nat.ofDigitChars_eq_ofDigitChars_zero]

/-- Zeros stand for zero. -/
theorem digitsValue_zeros (k : ℕ) : digitsValue (List.replicate k '0') = 0 := by
  rw [digitsValue_eq, Nat.ofDigitChars_replicate_zero, Nat.mul_zero]

/-- The digits of a number stand for it. -/
theorem digitsValue_toDigits (n : ℕ) : digitsValue (Nat.toDigits 10 n) = n := by
  rw [digitsValue_eq, Nat.ofDigitChars_ten_toDigits]

/-- A digit is below ten. -/
theorem digitValue_lt {c : Char} (h : c.isDigit = true) : digitValue c < 10 := by
  have hc : c.toNat ≤ '9'.toNat := (Char.isDigit_iff_toNat.mp h).2
  have hnine : '9'.toNat = '0'.toNat + 9 := rfl
  rw [digitValue]
  omega

/-- Digits make a number below the power of ten of their count. -/
theorem digitsValue_lt (h : ∀ c ∈ ds, c.isDigit = true) : digitsValue ds < 10 ^ ds.length := by
  induction ds with
  | nil => exact Nat.one_pos
  | cons c ds ih =>
      obtain ⟨hc, hds⟩ := List.forall_mem_cons.mp h
      have hvalue : digitsValue (c :: ds) = 10 ^ ds.length * digitValue c + digitsValue ds := by
        have happend := digitsValue_append [c] ds
        rwa [List.singleton_append, show digitsValue [c] = digitValue c from Nat.zero_add _]
          at happend
      have hfirst : digitValue c + 1 ≤ 10 := digitValue_lt hc
      calc digitsValue (c :: ds) < 10 ^ ds.length * (digitValue c + 1) := by
            rw [hvalue, Nat.mul_succ]
            exact Nat.add_lt_add_left (ih hds) _
        _ ≤ 10 ^ ds.length * 10 := Nat.mul_le_mul_left _ hfirst
        _ = 10 ^ (c :: ds).length := by rw [List.length_cons, pow_succ]

/-- The digits of a number are digits. -/
theorem isDigits_toDigits (n : ℕ) : IsDigits (Nat.toDigits 10 n) :=
  ⟨Nat.toDigits_ne_nil, fun _ hc => Nat.isDigit_of_mem_toDigits (by norm_num) le_rfl hc⟩

/-- Zeros are digits. -/
theorem isDigits_zeros {k : ℕ} (hk : 0 < k) : IsDigits (List.replicate k '0') := by
  refine ⟨by simp [hk.ne'], fun c hc => ?_⟩
  rw [List.eq_of_mem_replicate hc]
  rfl

/-- The first digit of a positive number is not zero. -/
theorem exists_toDigits (hn : 0 < n) : ∃ c ds, Nat.toDigits 10 n = c :: ds ∧ c ≠ '0' := by
  induction n using Nat.strong_induction_on with
  | _ n ih =>
      by_cases hlt : n < 10
      · refine ⟨n.digitChar, [], Nat.toDigits_of_lt_base hlt, fun h => ?_⟩
        have hvalue := congrArg Char.toNat h
        rw [Nat.toNat_digitChar_of_lt_ten hlt] at hvalue
        have hzero : '0'.toNat = 48 := rfl
        omega
      · obtain ⟨c, ds, hds, hc⟩ := ih (n / 10) (by omega) (by omega)
        refine ⟨c, ds ++ [(n % 10).digitChar], ?_, hc⟩
        rw [Nat.toDigits_of_base_le (by norm_num) (not_lt.mp hlt), hds, List.cons_append]

/-- Before the point there are digits only. -/
theorem IsWhole.all_digits (h : IsWhole ds) : ∀ c ∈ ds, c.isDigit = true := by
  cases h with
  | zero => exact List.forall_mem_singleton.mpr rfl
  | digits _ h => exact h.all_digits

/-- After the point there are digits only. -/
theorem IsFraction.all_digits {fraction : Option (List Char)} (h : IsFraction ds fraction) :
    ∀ c ∈ fraction.getD [], c.isDigit = true := by
  cases h with
  | none => exact fun _ hc => absurd hc List.not_mem_nil
  | some h => exact h.all_digits

/-! ## Literals -/

namespace Literal

variable {l : Literal} {d : Decimal}

/-- A short literal has no more than 53 binary digits. -/
theorem Short.digits_lt (h : l.Short) : l.exact.digits < 2 ^ 53 :=
  calc digitsValue l.digits < 10 ^ l.digits.length := Json.digitsValue_lt h.all_digits
    _ ≤ 10 ^ 15 := Nat.pow_le_pow_right (by norm_num) h.length
    _ < 2 ^ 53 := by norm_num

/-- A short literal has an exponent that is not large. -/
theorem Short.exponent_le (h : l.Short) : l.exact.exponent ≤ 46 := by
  have hexponent := h.exponent
  show l.exponent.getD 0 - ((l.fraction.getD []).length : ℤ) ≤ 46
  omega

/-- Digits that fit 64 bits are all appended. -/
theorem appendDigits_eq {n : ℕ} {ds : List Char} (h : Nat.ofDigitChars 10 ds n < wordLimit) :
    appendDigits n ds = (Nat.ofDigitChars 10 ds n, []) := by
  induction ds generalizing n with
  | nil => rfl
  | cons c ds ih =>
      rw [Nat.ofDigitChars_cons] at h ⊢
      have hgrow : 10 * n + digitValue c ≤ Nat.ofDigitChars 10 ds (10 * n + digitValue c) := by
        rw [Nat.ofDigitChars_eq_ofDigitChars_zero]
        exact (Nat.le_mul_of_pos_left _ (by positivity)).trans (Nat.le_add_right _ _)
      rw [appendDigits, if_pos (lt_of_le_of_lt hgrow h)]
      exact ih h

/-- No digit comes too late where all of them make an integer of 64 bits. -/
theorem decimal_eq (h : l.exact.digits < wordLimit) : l.decimal = l.exact := by
  have hvalue : digitsValue l.digits =
      Nat.ofDigitChars 10 (l.fraction.getD []) (digitsValue l.whole) := by
    rw [Literal.digits, digitsValue_eq, Nat.ofDigitChars_append, ← digitsValue_eq]
  have hgrow : digitsValue l.whole ≤ digitsValue l.digits := by
    rw [Literal.digits, digitsValue_append]
    exact (Nat.le_mul_of_pos_left _ (by positivity)).trans (Nat.le_add_right _ _)
  have hwhole : appendDigits 0 l.whole = (digitsValue l.whole, []) := by
    rw [appendDigits_eq, digitsValue_eq]
    rw [← digitsValue_eq]
    exact lt_of_le_of_lt hgrow h
  have hfraction : appendDigits (digitsValue l.whole) (l.fraction.getD []) =
      (digitsValue l.digits, []) := by
    rw [appendDigits_eq, hvalue]
    rwa [← hvalue]
  simp only [decimal, hwhole, hfraction, List.length_nil, exact]
  push_cast
  rw [add_zero, sub_zero]

/-- A short literal is read as some number. -/
theorem Short.isSome_toFloat32? (h : l.Short) : l.toFloat32?.isSome = true := by
  rw [toFloat32?]
  split
  · rfl
  · rw [Option.isSome_map, decimal_eq (h.digits_lt.trans (by decide))]
    exact isSome_computed? h.digits_lt h.exponent_le

/-- A number with a fraction or an exponent is no integer. -/
theorem Marked.word?_eq (h : l.Marked) : l.word? = none := by
  rw [word?]
  refine if_neg fun hnone => ?_
  rw [Option.isNone_iff_eq_none, Option.isNone_iff_eq_none] at hnone
  rcases h with hmark | hmark
  · rw [hnone.1] at hmark
    cases hmark
  · rw [hnone.2.1] at hmark
    cases hmark

/-- A number with a fraction or an exponent is read as what is computed of its digits. -/
theorem Marked.toFloat32?_eq (h : l.Marked) (hlt : l.exact.digits < wordLimit) :
    l.toFloat32? = (computed? l.exact).map fun x => Binary.narrow (l.signed x) := by
  rw [toFloat32?, h.word?_eq, decimal_eq hlt]
  rfl

/-- An integer with a zero after its point is the same number. -/
theorem Shows.toRat_eq (h : l.Shows d) : l.exact.toRat = d.toRat := by
  rcases h.exact with heq | ⟨hexponent, heq⟩
  · rw [heq]
  · have hsplit : d.exponent = (d.exponent.toNat + 1 : ℕ) + -1 := by omega
    rw [heq]
    conv_rhs => rw [Decimal.toRat, hsplit, zpow_add₀ (by norm_num), zpow_natCast]
    rw [Decimal.toRat]
    push_cast
    ring

/-- The exponent of what is shown, or the place of the zero after the point. -/
theorem Shows.exponent_cases (h : l.Shows d) :
    l.exact.exponent = d.exponent ∨ l.exact.exponent = -1 := by
  rcases h.exact with heq | ⟨-, heq⟩ <;> rw [heq]
  · exact .inl rfl
  · exact .inr rfl

/-- What shows a decimal is zero where the decimal is. -/
theorem Shows.digits_eq_zero_iff (h : l.Shows d) : l.exact.digits = 0 ↔ d.digits = 0 := by
  rcases h.exact with heq | ⟨-, heq⟩ <;> rw [heq]
  simp

end Literal

/-! ## Numerals -/

/-- The exponent that the first digit of a decimal counts. -/
def firstExponent (d : Decimal) : ℤ := d.exponent + (Nat.toDigits 10 d.digits).length - 1

/-- The characters, with a minus sign or without, are a short number that has the digits of a
decimal and is no integer. -/
def IsNumeral (t : List Char) (d : Decimal) : Prop :=
  ∀ negative : Bool, ∃ l, IsNumber ((if negative then ['-'] else []) ++ t) l ∧
    l.negative = negative ∧ l.Marked ∧ l.exact = d ∧ l.Short

section

variable {whole fractionText exponentText : List Char} {fraction : Option (List Char)}
  {exponent : Option ℤ} {d : Decimal}

/-- The parts of a number make a numeral of the decimal that they show. -/
theorem IsNumeral.of_parts (hwhole : IsWhole whole) (hfraction : IsFraction fractionText fraction)
    (hexponent : IsExponent exponentText exponent)
    (hmarked : fraction.isSome = true ∨ exponent.isSome = true)
    (hdigits : digitsValue (whole ++ fraction.getD []) = d.digits)
    (hvalue : exponent.getD 0 - (fraction.getD []).length = d.exponent)
    (hlength : (whole ++ fraction.getD []).length ≤ 15) (hsmall : exponent.getD 0 ≤ 46) :
    IsNumeral (whole ++ (fractionText ++ exponentText)) d := by
  intro negative
  refine ⟨_, .mk negative hwhole hfraction hexponent, rfl, hmarked,
    congrArg₂ Decimal.mk hdigits hvalue, fun c hc => ?_, hlength, hsmall⟩
  rcases List.mem_append.mp hc with hc | hc
  · exact hwhole.all_digits c hc
  · exact hfraction.all_digits c hc

end

/-- Digits that start with the first digit of a positive number are digits before a point. -/
theorem isWhole_of_isPrefix {n : ℕ} (hn : 0 < n) {p : List Char} (h : p <+: Nat.toDigits 10 n)
    (hne : p ≠ []) (k : ℕ) : IsWhole (p ++ List.replicate k '0') := by
  obtain ⟨c, ds, hds, hc⟩ := exists_toDigits hn
  obtain ⟨rest, h⟩ := h
  have hdigits := (isDigits_toDigits n).all_digits
  rw [← h] at hds hdigits
  obtain ⟨q, rfl⟩ : ∃ q, p = c :: q := by
    cases p with
    | nil => exact absurd rfl hne
    | cons d q => exact ⟨q, by rw [(List.cons.inj hds).1]⟩
  refine .digits hc ⟨List.cons_ne_nil _ _, fun d hd => ?_⟩
  rcases List.mem_append.mp (show d ∈ (c :: q) ++ List.replicate k '0' from hd) with hd | hd
  · exact hdigits d (List.mem_append_left _ hd)
  · rw [List.eq_of_mem_replicate hd]
    rfl

section

variable {d : Decimal}

/-- A number below one. -/
theorem isNumeral_below_one (hlength : (Nat.toDigits 10 d.digits).length ≤ 9)
    (hneg : firstExponent d < 0) (hlow : -6 ≤ firstExponent d) :
    IsNumeral (Decimal.positional true (Nat.toDigits 10 d.digits) (firstExponent d)) d := by
  have hfirst : firstExponent d = d.exponent + (Nat.toDigits 10 d.digits).length - 1 := rfl
  have hdigits := isDigits_toDigits d.digits
  have hvalue := digitsValue_toDigits d.digits
  generalize Nat.toDigits 10 d.digits = ds at *
  obtain ⟨z, hz⟩ : ∃ z, (-firstExponent d - 1).toNat = z := ⟨_, rfl⟩
  have hfraction : IsDigits (List.replicate z '0' ++ ds) := by
    refine ⟨by simp [hdigits.ne_nil], fun c hc => ?_⟩
    rcases List.mem_append.mp hc with hc | hc
    · rw [List.eq_of_mem_replicate hc]
      rfl
    · exact hdigits.all_digits c hc
  have htext : Decimal.positional true ds (firstExponent d) =
      ['0'] ++ (('.' :: (List.replicate z '0' ++ ds)) ++ []) := by
    rw [Decimal.positional, if_pos hneg, hz]
    simp
  rw [htext]
  refine .of_parts .zero (.some hfraction) .none (.inl rfl) ?_ ?_ ?_ (by norm_num)
  · rw [Option.getD_some, digitsValue_append, digitsValue_append, digitsValue_zeros, hvalue,
      show digitsValue ['0'] = 0 from rfl]
    ring
  · simp only [Option.getD_none, Option.getD_some, List.length_append, List.length_replicate]
    omega
  · simp only [Option.getD_some, List.length_append, List.length_replicate, List.length_singleton]
    omega

/-- An integer. -/
theorem isNumeral_integer (hpos : 0 < d.digits) (hexponent : 0 ≤ d.exponent)
    (hhigh : firstExponent d ≤ 12) :
    IsNumeral (Decimal.positional true (Nat.toDigits 10 d.digits) (firstExponent d))
      ⟨d.digits * 10 ^ (d.exponent.toNat + 1), -1⟩ := by
  have hfirst : firstExponent d = d.exponent + (Nat.toDigits 10 d.digits).length - 1 := rfl
  have hlength : 0 < (Nat.toDigits 10 d.digits).length := Nat.length_toDigits_pos
  have hwhole := isWhole_of_isPrefix hpos List.prefix_rfl Nat.toDigits_ne_nil d.exponent.toNat
  have hvalue := digitsValue_toDigits d.digits
  generalize Nat.toDigits 10 d.digits = ds at *
  have hzeros : (firstExponent d + 1).toNat - ds.length = d.exponent.toNat := by omega
  have htext : Decimal.positional true ds (firstExponent d) =
      (ds ++ List.replicate d.exponent.toNat '0') ++ (('.' :: ['0']) ++ []) := by
    rw [Decimal.positional, if_neg (by omega)]
    simp only
    rw [if_pos (by omega), hzeros]
    rfl
  rw [htext]
  refine .of_parts hwhole (.some (isDigits_zeros one_pos)) .none (.inl rfl) ?_ ?_ ?_ (by norm_num)
  · rw [Option.getD_some, digitsValue_append, digitsValue_append, digitsValue_zeros, hvalue,
      List.length_replicate, List.length_singleton, show digitsValue ['0'] = 0 from rfl]
    ring
  · rfl
  · simp only [Option.getD_some, List.length_append, List.length_replicate, List.length_singleton]
    omega

/-- A number with digits on both sides of the point. -/
theorem isNumeral_mixed (hpos : 0 < d.digits) (hlength : (Nat.toDigits 10 d.digits).length ≤ 9)
    (hfirst_nonneg : 0 ≤ firstExponent d) (hexponent : d.exponent < 0) :
    IsNumeral (Decimal.positional true (Nat.toDigits 10 d.digits) (firstExponent d)) d := by
  have hfirst : firstExponent d = d.exponent + (Nat.toDigits 10 d.digits).length - 1 := rfl
  have hdigits := isDigits_toDigits d.digits
  have hvalue := digitsValue_toDigits d.digits
  obtain ⟨w, hw⟩ : ∃ w, (firstExponent d + 1).toNat = w := ⟨_, rfl⟩
  have hwhole := isWhole_of_isPrefix hpos (List.take_prefix w _) (by simp [hdigits.ne_nil]; omega) 0
  generalize Nat.toDigits 10 d.digits = ds at *
  rw [List.replicate_zero, List.append_nil] at hwhole
  have hfraction : IsDigits (ds.drop w) :=
    ⟨by simp; omega, fun c hc => hdigits.all_digits c (List.mem_of_mem_drop hc)⟩
  have htext : Decimal.positional true ds (firstExponent d) =
      ds.take w ++ (('.' :: ds.drop w) ++ []) := by
    rw [Decimal.positional, if_neg (by omega)]
    simp only
    rw [hw, if_neg (by omega), List.append_nil]
  rw [htext]
  refine .of_parts hwhole (.some hfraction) .none (.inl rfl) ?_ ?_ ?_ (by norm_num)
  · rw [Option.getD_some, List.take_append_drop, hvalue]
  · simp only [Option.getD_none, Option.getD_some, List.length_drop]
    omega
  · rw [Option.getD_some, List.take_append_drop]
    omega

/-- The exponent of a numeral. -/
theorem isExponent_toDigits (e : ℤ) :
    IsExponent ('e' :: ((if e < 0 then ['-'] else ['+']) ++ Nat.toDigits 10 e.natAbs))
      (some e) := by
  have hsign : IsSign (if e < 0 then ['-'] else ['+']) (decide (e < 0)) := by
    by_cases he : e < 0
    · rw [if_pos he, decide_eq_true he]
      exact .minus
    · rw [if_neg he, decide_eq_false he]
      exact .plus
  have hexponent := IsExponent.some (.inl rfl) hsign (isDigits_toDigits e.natAbs)
  have hvalue : signed (decide (e < 0)) e.natAbs = e := by
    rw [signed, Int.natCast_natAbs]
    by_cases he : e < 0
    · rw [if_pos (decide_eq_true he), abs_of_neg he, neg_neg]
    · rw [if_neg (by simpa using he), abs_of_nonneg (not_lt.mp he)]
  rwa [digitsValue_toDigits, hvalue] at hexponent

/-- A number with an exponent. -/
theorem isNumeral_scientific (hpos : 0 < d.digits)
    (hlength : (Nat.toDigits 10 d.digits).length ≤ 9) (hhigh : d.exponent ≤ 38) :
    IsNumeral (Decimal.scientific true (Nat.toDigits 10 d.digits) (firstExponent d)) d := by
  have hfirst : firstExponent d = d.exponent + (Nat.toDigits 10 d.digits).length - 1 := rfl
  have hdigits := isDigits_toDigits d.digits
  have hvalue := digitsValue_toDigits d.digits
  have hexponent := isExponent_toDigits (firstExponent d)
  have hwhole := isWhole_of_isPrefix hpos (List.take_prefix 1 _) (by simp) 0
  generalize Nat.toDigits 10 d.digits = ds at *
  rw [List.replicate_zero, List.append_nil] at hwhole
  have hsplit := List.take_append_drop 1 ds
  have hcount := List.length_pos_iff.mpr hdigits.ne_nil
  by_cases hone : ds.length ≤ 1
  · have hdrop : ds.drop 1 = [] := List.drop_eq_nil_of_le hone
    have htext : Decimal.scientific true ds (firstExponent d) = ds.take 1 ++ ([] ++
        'e' :: ((if firstExponent d < 0 then ['-'] else ['+']) ++
          Nat.toDigits 10 (firstExponent d).natAbs)) := by
      simp only [Decimal.scientific, if_pos hone, if_true]
      simp
    rw [htext]
    rw [hdrop, List.append_nil] at hsplit
    refine .of_parts hwhole .none hexponent (.inr rfl) ?_ ?_ ?_ ?_
    · rw [Option.getD_none, List.append_nil, hsplit, hvalue]
    · simp only [Option.getD_none, Option.getD_some, List.length_nil]
      omega
    · rw [Option.getD_none, List.append_nil, hsplit]
      omega
    · rw [Option.getD_some]
      omega
  · have hfraction : IsDigits (ds.drop 1) :=
      ⟨mt List.drop_eq_nil_iff.mp hone,
        fun c hc => hdigits.all_digits c (List.mem_of_mem_drop hc)⟩
    have htext : Decimal.scientific true ds (firstExponent d) = ds.take 1 ++ (('.' :: ds.drop 1) ++
        'e' :: ((if firstExponent d < 0 then ['-'] else ['+']) ++
          Nat.toDigits 10 (firstExponent d).natAbs)) := by
      simp only [Decimal.scientific, if_neg hone, if_true]
      simp
    rw [htext]
    refine .of_parts hwhole (.some hfraction) hexponent (.inl rfl) ?_ ?_ ?_ ?_
    · rw [Option.getD_some, hsplit, hvalue]
    · simp only [Option.getD_some, List.length_drop]
      omega
    · rw [Option.getD_some, hsplit]
      omega
    · rw [Option.getD_some]
      omega

/-- A positive decimal is written as a short number that shows it. -/
theorem exists_shows (hd : d.IsSmall) (negative : Bool) :
    ∃ l, IsNumber ((if negative then ['-'] else []) ++ d.write .json) l ∧
      l.negative = negative ∧ l.Short ∧ l.Shows d := by
  have hlength : (Nat.toDigits 10 d.digits).length ≤ 9 :=
    (Nat.length_toDigits_le_iff (by norm_num) (by norm_num)).mpr
      (hd.digits_lt.trans (by norm_num))
  have hcount : 0 < (Nat.toDigits 10 d.digits).length := Nat.length_toDigits_pos
  have hfirst : firstExponent d = d.exponent + (Nat.toDigits 10 d.digits).length - 1 := rfl
  have hsame {t : List Char} (h : IsNumeral t d) :
      ∃ l, IsNumber ((if negative then ['-'] else []) ++ t) l ∧
        l.negative = negative ∧ l.Short ∧ l.Shows d := by
    obtain ⟨l, hl, hnegative, hmarked, hexact, hshort⟩ := h negative
    exact ⟨l, hl, hnegative, hshort, hmarked, .inl hexact⟩
  have htext : d.write .json =
      if NumeralStyle.json.positional (firstExponent d) = true then
        Decimal.positional true (Nat.toDigits 10 d.digits) (firstExponent d)
      else Decimal.scientific true (Nat.toDigits 10 d.digits) (firstExponent d) := rfl
  rw [htext]
  by_cases hpositional : NumeralStyle.json.positional (firstExponent d) = true
  · have hrange : -6 ≤ firstExponent d ∧ firstExponent d ≤ 12 := by
      simpa [NumeralStyle.json] using hpositional
    rw [if_pos hpositional]
    by_cases hexponent : 0 ≤ d.exponent
    · obtain ⟨l, hl, hnegative, hmarked, hexact, hshort⟩ :=
        isNumeral_integer hd.digits_pos hexponent hrange.2 negative
      exact ⟨l, hl, hnegative, hshort, hmarked, .inr ⟨hexponent, hexact⟩⟩
    · by_cases hneg : firstExponent d < 0
      · exact hsame (isNumeral_below_one hlength hneg hrange.1)
      · exact hsame
          (isNumeral_mixed hd.digits_pos hlength (not_lt.mp hneg) (not_le.mp hexponent))
  · rw [if_neg hpositional]
    exact hsame (isNumeral_scientific hd.digits_pos hlength hd.exponent_le)

end

/-- One digit is a run of digits. -/
theorem isDigits_singleton {c : Char} (h : c.isDigit = true) : IsDigits [c] :=
  ⟨List.cons_ne_nil _ _, List.forall_mem_singleton.mpr h⟩

/-- **Numerals.**  A finite number is written as a short number with its sign that shows its
shortest decimal. -/
theorem numeral_shows {x : Float32} (hx : x.isFinite = true) :
    ∃ l, IsNumber (numeral .json x) l ∧ l.negative = Binary32.isNegative x ∧ l.Short ∧
      l.Shows (Binary32.shortest x) := by
  rcases Binary32.finite_cases hx with ⟨s, hvalue⟩ | ⟨s, m, e, hm, hvalue⟩
  · have htext : numeral .json x =
        (if Binary32.isNegative x then ['-'] else []) ++ ['0', '.', '0'] := by
      rw [numeral, show x.toModel.unpack = _ from hvalue, Binary32.isNegative, hvalue]
      cases s <;> rfl
    rw [htext, Binary32.shortest, hvalue]
    refine ⟨_, .mk _ .zero (.some (isDigits_singleton (by decide))) .none, rfl, ?_, .inl rfl,
      .inr ⟨le_rfl, rfl⟩⟩
    exact ⟨by simp [Literal.digits], by simp [Literal.digits], by simp⟩
  · obtain ⟨hm_lt, he, he_le, -⟩ := Binary32.bounds_of_value hvalue
    have htext : numeral .json x = (if Binary32.isNegative x then ['-'] else []) ++
        (Decimal.shortest .even m e).write .json := by
      rw [numeral, show x.toModel.unpack = _ from hvalue, Binary32.isNegative, hvalue]
      cases s <;> rfl
    rw [htext, Binary32.shortest, hvalue]
    exact exists_shows (Decimal.isSmall_shortest hm hm_lt he he_le) _

/-- A number that is not finite is written as a null. -/
theorem numeral_of_not_finite {x : Float32} (hx : x.isFinite = false) :
    numeral .json x = nullWord := by
  rcases Binary32.not_finite_cases hx with ⟨s, hvalue⟩ | hvalue <;>
    rw [numeral, show x.toModel.unpack = _ from hvalue] <;> rfl

end Spatial.Json
