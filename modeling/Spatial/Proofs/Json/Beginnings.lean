import Mathlib
import Spatial.Proofs.Json.Numerals

/-!
# Beginnings of numbers

Where a number breaks off, and what its beginning is then.

1.  A beginning of a number breaks off behind a sign, a point or the letter of an exponent, and
    is truncated.  Anywhere else it is a shorter number.
2.  A shorter number has fewer digits and no greater exponent, so that it is in range if the
    whole is short.
-/

namespace Spatial.Json

/-! ## Cuts -/

/-- A beginning of a text that is not all of it. -/
def Cut (p t : List Char) : Prop := ∃ c u, t = p ++ c :: u

section

variable {p s t : List Char} {c : Char}

/-- The empty text has no beginning but itself. -/
theorem not_cut_nil : ¬Cut p [] := by
  rintro ⟨c, u, h⟩
  simp at h

/-- A text is cut before its first character or behind it. -/
theorem Cut.cons (h : Cut p (c :: t)) : p = [] ∨ ∃ q, p = c :: q ∧ Cut q t := by
  obtain ⟨d, u, h⟩ := h
  cases p with
  | nil => exact .inl rfl
  | cons b q =>
      obtain ⟨rfl, ht⟩ := List.cons.inj h
      exact .inr ⟨q, rfl, d, u, ht⟩

/-- A text of two parts is cut in the first or behind it. -/
theorem Cut.append (h : Cut p (s ++ t)) : Cut p s ∨ ∃ q, p = s ++ q ∧ Cut q t := by
  obtain ⟨d, u, h⟩ := h
  rcases List.append_eq_append_iff.mp h with ⟨q, rfl, ht⟩ | ⟨q, rfl, hq⟩
  · exact .inr ⟨q, rfl, d, u, ht⟩
  · cases q with
    | nil => exact .inr ⟨[], by simp, d, u, by simpa using hq.symm⟩
    | cons b q =>
        obtain ⟨rfl, -⟩ := List.cons.inj hq
        exact .inl ⟨d, q, rfl⟩

/-- A cut is a beginning. -/
theorem Cut.isPrefix (h : Cut p t) : p <+: t := by
  obtain ⟨c, u, rfl⟩ := h
  exact List.prefix_append p _

/-- A beginning is a cut unless it is the whole text. -/
theorem cut_of_isPrefix (h : p <+: t) (hne : p ≠ t) : Cut p t := by
  obtain ⟨u, rfl⟩ := h
  cases u with
  | nil => exact absurd (List.append_nil p).symm hne
  | cons c u => exact ⟨c, u, rfl⟩

/-- A beginning of a text starts as the text does. -/
theorem Cut.head {P : Char → Prop} (h : Cut p t) (ht : ∀ c ∈ t.head?, P c) :
    ∀ c ∈ p.head?, P c := by
  intro c hc
  obtain ⟨d, u, rfl⟩ := h
  obtain ⟨q, rfl⟩ := List.head?_eq_some_iff.mp hc
  exact ht c rfl

/-! ## Numbers -/

/-- Digits break off before the first of them, or are fewer digits. -/
theorem Cut.digits (h : Cut p t) (ht : IsDigits t) : p = [] ∨ IsDigits p := by
  by_cases hp : p = []
  · exact .inl hp
  · exact .inr ⟨hp, fun c hc => ht.all_digits c (List.IsPrefix.subset h.isPrefix hc)⟩

/-- The digits before a point break off before the first of them, or are fewer digits. -/
theorem Cut.whole (h : Cut p t) (ht : IsWhole t) : p = [] ∨ IsWhole p := by
  cases ht with
  | zero =>
      rcases h.cons with hp | ⟨q, -, hq⟩
      · exact .inl hp
      · exact absurd hq not_cut_nil
  | digits hzero ht =>
      rcases h.digits ht with hp | hp
      · exact .inl hp
      · rcases h.cons with rfl | ⟨q, rfl, -⟩
        · exact .inl rfl
        · exact .inr (.digits hzero hp)

/-- A fraction breaks off behind its point. -/
theorem Cut.fraction {fraction : Option (List Char)} (h : Cut p t) (ht : IsFraction t fraction) :
    scanFraction p = .error .truncated ∨
      ∃ shorter, IsFraction p shorter ∧ shorter.getD [] <+: fraction.getD [] := by
  cases ht with
  | none => exact absurd h not_cut_nil
  | some hds =>
      rcases h.cons with rfl | ⟨q, rfl, hq⟩
      · exact .inr ⟨none, .none, List.nil_prefix⟩
      · rcases hq.digits hds with rfl | hdigits
        · exact .inl rfl
        · exact .inr ⟨some q, .some hdigits, hq.isPrefix⟩

/-- Fewer digits make no greater number. -/
theorem digitsValue_le_of_isPrefix (h : s <+: t) : digitsValue s ≤ digitsValue t := by
  obtain ⟨u, rfl⟩ := h
  rw [digitsValue_append]
  exact (Nat.le_mul_of_pos_left _ (by positivity)).trans (Nat.le_add_right _ _)

/-- An exponent breaks off behind its letter or its sign. -/
theorem Cut.exponent {exponent : Option Int} (h : Cut p t) (ht : IsExponent t exponent) :
    scanExponent p = .error .truncated ∨
      ∃ shorter, IsExponent p shorter ∧ shorter.getD 0 ≤ max 0 (exponent.getD 0) := by
  cases ht with
  | none => exact absurd h not_cut_nil
  | @some c sign ds negative hc hsign hds =>
      rcases h.cons with rfl | ⟨q, rfl, hq⟩
      · exact .inr ⟨none, .none, le_max_left _ _⟩
      · rcases hq.append with hsigns | ⟨r, rfl, hr⟩
        · left
          cases hsign with
          | none => exact absurd hsigns not_cut_nil
          | plus | minus =>
              rcases hsigns.cons with rfl | ⟨r, -, hr⟩
              · rcases hc with rfl | rfl <;> rfl
              · exact absurd hr not_cut_nil
        · rcases hr.digits hds with rfl | hdigits
          · left
            rcases hc with rfl | rfl <;> cases hsign <;> rfl
          · refine .inr ⟨_, .some hc hsign hdigits, ?_⟩
            have hle := digitsValue_le_of_isPrefix hr.isPrefix
            simp only [Option.getD_some, signed]
            split_ifs <;> omega

variable {l : Literal}

/-- The digits of the one are a beginning of those of the other, and its exponent is no greater
unless it is negative. -/
structure Literal.Shortens (k l : Literal) : Prop where
  digits : k.digits <+: l.digits
  exponent : k.exponent.getD 0 ≤ max 0 (l.exponent.getD 0)

/-- What is shorter than a short literal is short. -/
theorem Literal.Shortens.short {k : Literal} (h : k.Shortens l) (hl : l.Short) : k.Short :=
  ⟨fun c hc => hl.all_digits c (List.IsPrefix.subset h.digits hc),
    h.digits.length_le.trans hl.length,
    h.exponent.trans (max_le (by norm_num) hl.exponent)⟩

/-- A number without its sign breaks off, or is a shorter number. -/
theorem Cut.magnitude {whole fractionText exponentText : List Char}
    {fraction : Option (List Char)} {exponent : Option Int} (negative : Bool)
    (h : Cut p (whole ++ (fractionText ++ exponentText))) (hwhole : IsWhole whole)
    (hfraction : IsFraction fractionText fraction)
    (hexponent : IsExponent exponentText exponent) :
    scanMagnitude negative p = .error .truncated ∨
      ∃ k, IsNumber ((if negative then ['-'] else []) ++ p) k ∧
        k.Shortens ⟨negative, whole, fraction, exponent⟩ := by
  have hpoint : ∀ c ∈ exponentText.head?, c.isDigit = false ∧ c ≠ '.' := by
    simpa using hexponent.head_append ends_nil
  have hmark := hfraction.head_append hpoint
  rcases h.append with hp | ⟨q, rfl, hq⟩
  · rcases hp.whole hwhole with rfl | hshorter
    · exact .inl rfl
    · refine .inr ⟨⟨negative, p, none, none⟩, ?_, ?_, le_max_left _ _⟩
      · simpa using IsNumber.mk negative hshorter .none .none
      · simpa [Literal.digits] using hp.isPrefix.trans (List.prefix_append whole _)
  · rcases hq.append with hcut | ⟨r, rfl, hr⟩
    · rcases hcut.fraction hfraction with hbroken | ⟨shorter, hshorter, hstart⟩
      · left
        have hends : ∀ c ∈ q.head?, c.isDigit = false :=
          hcut.head fun c hc => hmark c (by rw [List.head?_append, hc]; rfl)
        rw [scanMagnitude, scanWhole_append hwhole hends]
        simp only [bind, Except.bind, hbroken]
      · refine .inr ⟨⟨negative, whole, shorter, none⟩, ?_, ?_, le_max_left _ _⟩
        · simpa using IsNumber.mk negative hwhole hshorter .none
        · exact (List.prefix_append_right_inj whole).mpr hstart
    · rcases hr.exponent hexponent with hbroken | ⟨shorter, hshorter, hle⟩
      · left
        have hends : ∀ c ∈ r.head?, c.isDigit = false ∧ c ≠ '.' := hr.head hpoint
        rw [scanMagnitude, scanWhole_append hwhole (hfraction.head_append hends)]
        simp only [bind, Except.bind, scanFraction_append hfraction hends, hbroken]
      · exact .inr ⟨_, .mk negative hwhole hfraction hshorter, List.prefix_rfl, hle⟩

/-- A number breaks off, or is a shorter number. -/
theorem Cut.number (h : Cut p t) (ht : IsNumber t l) :
    scanNumber p = .error .truncated ∨ ∃ k, IsNumber p k ∧ k.Shortens l := by
  obtain ⟨negative, hwhole, hfraction, hexponent⟩ := ht
  cases negative with
  | true =>
      rcases h.cons with rfl | ⟨q, rfl, hq⟩
      · exact .inl rfl
      · exact Cut.magnitude true (by simpa using hq) hwhole hfraction hexponent
  | false =>
      have hfirst : ∀ c ∈ p.head?, c ≠ '-' := h.head fun c hc => by
        obtain ⟨d, u, hdigits, hd⟩ := hwhole.exists_digit
        obtain rfl : d = c := by simpa [hdigits] using hc
        rintro rfl
        exact absurd hd (by decide)
      have hscan : scanNumber p = scanMagnitude false p := by
        rw [scanNumber.eq_2]
        rintro u rfl
        exact hfirst '-' rfl rfl
      rw [hscan]
      exact Cut.magnitude false h hwhole hfraction hexponent

/-- A beginning of a number that is no number itself is truncated. -/
theorem scanNumber_truncated (ht : IsNumber t l) (hp : p <+: t) (hnone : ¬∃ k, IsNumber p k) :
    scanNumber p = .error .truncated := by
  have hne : p ≠ t := by
    rintro rfl
    exact hnone ⟨l, ht⟩
  refine ((cut_of_isPrefix hp hne).number ht).resolve_right ?_
  rintro ⟨k, hk, -⟩
  exact hnone ⟨k, hk⟩

/-- A beginning of a short number is a short number, if it is a number at all. -/
theorem Cut.short {k : Literal} (h : Cut p t) (ht : IsNumber t l) (hl : l.Short)
    (hk : IsNumber p k) : k.Short := by
  rcases h.number ht with hbroken | ⟨k', hk', hshorter⟩
  · rw [hk.scanNumber_eq] at hbroken
    cases hbroken
  · rw [hk.unique hk']
    exact hshorter.short hl

end

end Spatial.Json
