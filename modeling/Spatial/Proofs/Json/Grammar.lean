import Mathlib
import Spatial.Json.Skip

/-!
# The grammar of a JSON text

What a text may be, apart from how it is read: blanks, numbers, strings and values, each
as an inductive predicate on characters.  Every scanner passes exactly what its predicate
describes, whatever comes after it.

1.  A number is passed to its end if the text does not go on with a character that could
    belong to it.
2.  A string is passed to its closing quote.  One that is read stands for a text; one
    that is only passed over may hold escaped halves of pairs alone.
3.  A value of any kind is passed over to its end, however deep it is.
-/

namespace Spatial.Json

/-! ## Blanks -/

/-- The text holds nothing but blanks. -/
def Blank (s : List Char) : Prop := ∀ c ∈ s, isBlank c = true

/-- The text does not go on with a character that could belong to a number. -/
def Ends (s : List Char) : Prop :=
  ∀ c ∈ s.head?, c.isDigit = false ∧ c ≠ '.' ∧ c ≠ 'e' ∧ c ≠ 'E'

/-- No characters are blank. -/
theorem blank_nil : Blank [] := fun _ h => absurd h (List.not_mem_nil)

/-- Blanks before a text are passed. -/
theorem skipBlank_append {gap : List Char} (h : Blank gap) (s : List Char) :
    skipBlank (gap ++ s) = skipBlank s :=
  List.dropWhile_append_of_pos h

/-- A character that is no blank stops the passing of blanks. -/
theorem skipBlank_cons {c : Char} (h : isBlank c = false) (s : List Char) :
    skipBlank (c :: s) = c :: s := by
  simp [skipBlank, h]

/-- Of blanks alone nothing is left. -/
theorem skipBlank_blank {gap : List Char} (h : Blank gap) : skipBlank gap = [] := by
  simpa [skipBlank] using skipBlank_append h []

/-- The four blanks. -/
theorem isBlank_cases {c : Char} (h : isBlank c = true) :
    c = ' ' ∨ c = '\n' ∨ c = '\t' ∨ c = '\r' := by
  simpa [isBlank, or_assoc] using h

/-- The end of the text ends a token. -/
theorem ends_nil : Ends [] := by simp [Ends]

/-- A comma or a closing bracket or brace ends a token. -/
theorem ends_cons {c : Char} (h : c ∈ [',', ']', '}']) (s : List Char) : Ends (c :: s) := by
  intro d hd
  obtain rfl : c = d := by simpa using hd
  simp only [List.mem_cons, List.not_mem_nil, or_false] at h
  rcases h with rfl | rfl | rfl <;> decide

/-- Blanks before what ends a token end it too. -/
theorem Ends.blank_append {gap s : List Char} (hgap : Blank gap) (hs : Ends s) :
    Ends (gap ++ s) := by
  cases gap with
  | nil => exact hs
  | cons c gap =>
      intro d hd
      obtain rfl : c = d := by simpa using hd
      rcases isBlank_cases (hgap c List.mem_cons_self) with rfl | rfl | rfl | rfl <;> decide

/-! ## Numbers -/

/-- One or more decimal digits. -/
structure IsDigits (ds : List Char) : Prop where
  ne_nil : ds ≠ []
  all_digits : ∀ c ∈ ds, c.isDigit = true

/-- The digits before the point: a zero alone, or digits that do not start with a zero. -/
inductive IsWhole : List Char → Prop
  | zero : IsWhole ['0']
  | digits {c : Char} {ds : List Char} (hzero : c ≠ '0') (h : IsDigits (c :: ds)) :
      IsWhole (c :: ds)

/-- The point with the digits after it, or neither. -/
inductive IsFraction : List Char → Option (List Char) → Prop
  | none : IsFraction [] none
  | some {ds : List Char} (h : IsDigits ds) : IsFraction ('.' :: ds) (some ds)

/-- The sign of an exponent, or no sign. -/
inductive IsSign : List Char → Bool → Prop
  | none : IsSign [] false
  | plus : IsSign ['+'] false
  | minus : IsSign ['-'] true

/-- A natural number with a sign. -/
def signed (negative : Bool) (n : Nat) : Int := if negative then -n else n

/-- The letter of an exponent, its sign and its digits, or none of them. -/
inductive IsExponent : List Char → Option Int → Prop
  | none : IsExponent [] none
  | some {c : Char} {sign ds : List Char} {negative : Bool} (hc : c = 'e' ∨ c = 'E')
      (hsign : IsSign sign negative) (h : IsDigits ds) :
      IsExponent (c :: (sign ++ ds)) (some (signed negative (digitsValue ds)))

/-- The characters of a number, and what they stand for. -/
inductive IsNumber : List Char → Literal → Prop
  | mk (negative : Bool) {whole fractionText exponentText : List Char}
      {fraction : Option (List Char)} {exponent : Option Int} (hwhole : IsWhole whole)
      (hfraction : IsFraction fractionText fraction)
      (hexponent : IsExponent exponentText exponent) :
      IsNumber ((if negative then ['-'] else []) ++ (whole ++ (fractionText ++ exponentText)))
        ⟨negative, whole, fraction, exponent⟩

section

variable {ds s : List Char}

/-- Digits are taken up to the first other character. -/
theorem IsDigits.takeWhile_append (h : IsDigits ds) (hs : ∀ c ∈ s.head?, c.isDigit = false) :
    (ds ++ s).takeWhile Char.isDigit = ds := by
  rw [List.takeWhile_append_of_pos h.all_digits]
  cases s with
  | nil => simp
  | cons c s => simp [hs c (by simp)]

/-- Behind the digits stands the first other character. -/
theorem IsDigits.dropWhile_append (h : IsDigits ds) (hs : ∀ c ∈ s.head?, c.isDigit = false) :
    (ds ++ s).dropWhile Char.isDigit = s := by
  rw [List.dropWhile_append_of_pos h.all_digits]
  cases s with
  | nil => simp
  | cons c s => simp [hs c (by simp)]

/-- Digits are scanned with whatever comes after them. -/
theorem scanDigits_append (h : IsDigits ds) (hs : ∀ c ∈ s.head?, c.isDigit = false) :
    scanDigits (ds ++ s) = .ok (ds, s) := by
  simp [scanDigits, h.takeWhile_append hs, h.dropWhile_append hs, h.ne_nil]

/-- The digits before the point are scanned with whatever comes after them. -/
theorem scanWhole_append (h : IsWhole ds) (hs : ∀ c ∈ s.head?, c.isDigit = false) :
    scanWhole (ds ++ s) = .ok (ds, s) := by
  cases h with
  | zero =>
      cases s with
      | nil => rfl
      | cons c s => simp [scanWhole, hs c (by simp)]
  | @digits c ds hzero h =>
      have hc := h.all_digits c List.mem_cons_self
      rw [List.cons_append, scanWhole.eq_3 _ _ (by simpa using hzero), if_pos hc,
        ← List.cons_append, h.takeWhile_append hs, h.dropWhile_append hs]

/-- A fraction is scanned with whatever comes after it, and so is the lack of one. -/
theorem scanFraction_append {fraction : Option (List Char)} (h : IsFraction ds fraction)
    (hs : ∀ c ∈ s.head?, c.isDigit = false ∧ c ≠ '.') :
    scanFraction (ds ++ s) = .ok (fraction, s) := by
  cases h with
  | none =>
      cases s with
      | nil => rfl
      | cons c s =>
          rw [List.nil_append, scanFraction.eq_2]
          rintro t ⟨rfl, rfl⟩
          exact (hs '.' (by simp)).2 rfl
  | some h =>
      rw [List.cons_append, scanFraction, scanDigits_append h fun c hc => (hs c hc).1]
      rfl

/-- The sign of an exponent is scanned before its digits. -/
theorem scanSign_append {sign : List Char} {negative : Bool} (hsign : IsSign sign negative)
    (h : IsDigits ds) : scanSign (sign ++ (ds ++ s)) = (negative, ds ++ s) := by
  cases hsign with
  | plus | minus => rfl
  | none =>
      cases ds with
      | nil => exact absurd rfl h.ne_nil
      | cons c ds =>
          have hc := h.all_digits c List.mem_cons_self
          rw [List.nil_append, List.cons_append, scanSign.eq_3]
          · rintro t ⟨rfl, rfl⟩
            exact absurd hc (by decide)
          · rintro t ⟨rfl, rfl⟩
            exact absurd hc (by decide)

/-- An exponent is scanned with whatever comes after it, and so is the lack of one. -/
theorem scanExponent_append {exponent : Option Int} (h : IsExponent ds exponent) (hs : Ends s) :
    scanExponent (ds ++ s) = .ok (exponent, s) := by
  cases h with
  | none =>
      cases s with
      | nil => rfl
      | cons c s =>
          obtain ⟨-, -, hsmall, hlarge⟩ := hs c (by simp)
          simp [scanExponent, hsmall, hlarge]
  | some hc hsign h =>
      simp only [List.cons_append, List.append_assoc, scanExponent, if_pos hc,
        scanSign_append hsign h, scanDigits_append h fun c hc => (hs c hc).1]
      rfl

/-- A fraction or an exponent or the end starts with no digit. -/
theorem IsExponent.head_append {exponent : Option Int} (h : IsExponent ds exponent)
    (hs : Ends s) : ∀ c ∈ (ds ++ s).head?, c.isDigit = false ∧ c ≠ '.' := by
  intro c hc
  cases h with
  | none => exact ⟨(hs c hc).1, (hs c hc).2.1⟩
  | some hletter =>
      obtain rfl : _ = c := by simpa using hc
      rcases hletter with rfl | rfl <;> decide

/-- Neither a fraction nor what follows it starts with a digit. -/
theorem IsFraction.head_append {fraction : Option (List Char)} (h : IsFraction ds fraction)
    (hs : ∀ c ∈ s.head?, c.isDigit = false ∧ c ≠ '.') :
    ∀ c ∈ (ds ++ s).head?, c.isDigit = false := by
  intro c hc
  cases h with
  | none => exact (hs c hc).1
  | some =>
      obtain rfl : '.' = c := by simpa using hc
      decide

/-- The parts of a number without its sign are scanned one after another. -/
theorem scanMagnitude_append {whole fractionText exponentText : List Char}
    {fraction : Option (List Char)} {exponent : Option Int} (negative : Bool)
    (hwhole : IsWhole whole) (hfraction : IsFraction fractionText fraction)
    (hexponent : IsExponent exponentText exponent) (hs : Ends s) :
    scanMagnitude negative (whole ++ (fractionText ++ (exponentText ++ s))) =
      .ok (⟨negative, whole, fraction, exponent⟩, s) := by
  have hhead := hexponent.head_append hs
  simp only [scanMagnitude, scanWhole_append hwhole (hfraction.head_append hhead),
    scanFraction_append hfraction hhead, scanExponent_append hexponent hs, bind, Except.bind]
  rfl

/-- A character that starts a number is none that does not. -/
theorem ne_of_number {c d : Char} (hc : c = '-' ∨ c.isDigit = true)
    (hd : ¬(d = '-' ∨ d.isDigit = true)) : c ≠ d := by
  rintro rfl
  exact hd hc

/-- A number does not start with a blank. -/
theorem isBlank_of_number {c : Char} (hc : c = '-' ∨ c.isDigit = true) : isBlank c = false := by
  rw [← Bool.not_eq_true]
  intro hblank
  rcases isBlank_cases hblank with rfl | rfl | rfl | rfl <;> exact absurd hc (by decide)

/-- The first character of a number is its sign or a digit. -/
theorem IsWhole.exists_digit (h : IsWhole ds) : ∃ c t, ds = c :: t ∧ c.isDigit = true := by
  cases h with
  | zero => exact ⟨'0', [], rfl, by decide⟩
  | digits _ h => exact ⟨_, _, rfl, h.all_digits _ List.mem_cons_self⟩

/-- A number starts with a minus sign or a digit. -/
theorem IsNumber.exists_head {t : List Char} {l : Literal} (h : IsNumber t l) :
    ∃ c u, t = c :: u ∧ (c = '-' ∨ c.isDigit = true) := by
  obtain ⟨negative, hwhole, -, -⟩ := h
  obtain ⟨c, u, rfl, hc⟩ := hwhole.exists_digit
  cases negative with
  | true => exact ⟨'-', _, rfl, .inl rfl⟩
  | false => exact ⟨c, _, rfl, .inr hc⟩

/-- A number is scanned to its end. -/
theorem scanNumber_append {t : List Char} {l : Literal} (h : IsNumber t l) (hs : Ends s) :
    scanNumber (t ++ s) = .ok (l, s) := by
  obtain ⟨negative, hwhole, hfraction, hexponent⟩ := h
  have hscan := scanMagnitude_append negative hwhole hfraction hexponent hs
  cases negative with
  | true => simpa [scanNumber] using hscan
  | false =>
      obtain ⟨c, u, rfl, hc⟩ := hwhole.exists_digit
      have hminus : c ≠ '-' := by
        rintro rfl
        exact absurd hc (by decide)
      simpa [scanNumber, hminus] using hscan

/-- A number that stands alone is scanned to its end. -/
theorem IsNumber.scanNumber_eq {t : List Char} {l : Literal} (h : IsNumber t l) :
    scanNumber t = .ok (l, []) := by
  have hscan := scanNumber_append h ends_nil
  rwa [List.append_nil] at hscan

/-- The characters of a number are those of one literal only. -/
theorem IsNumber.unique {t : List Char} {k l : Literal} (hk : IsNumber t k) (hl : IsNumber t l) :
    k = l := by
  have heq := hk.scanNumber_eq.symm.trans hl.scanNumber_eq
  exact (Prod.mk.inj (Except.ok.inj heq)).1

end

/-! ## Strings -/

/-- A character that stands for itself in a string. -/
def isPlain (c : Char) : Bool := c ≠ '"' && c ≠ '\\' && !isControl c

/-- The characters between the quotes of a string, and the text that they stand for. -/
inductive Spells : List Char → List Char → Prop
  | nil : Spells [] []
  | plain {c : Char} {s t : List Char} (hc : isPlain c = true) (h : Spells s t) :
      Spells (c :: s) (c :: t)
  | escape {e c : Char} {s t : List Char} (hc : escaped? e = some c) (h : Spells s t) :
      Spells ('\\' :: e :: s) (c :: t)
  | unit {a b c d : Char} {n : Nat} {s t : List Char} (hn : hexUnit? a b c d = some n)
      (hleading : isLeading n = false) (htrailing : isTrailing n = false) (h : Spells s t) :
      Spells ('\\' :: 'u' :: a :: b :: c :: d :: s) (Char.ofNat n :: t)
  | pair {a₁ b₁ c₁ d₁ a₂ b₂ c₂ d₂ : Char} {n₁ n₂ : Nat} {s t : List Char}
      (hn₁ : hexUnit? a₁ b₁ c₁ d₁ = some n₁) (hleading : isLeading n₁ = true)
      (hn₂ : hexUnit? a₂ b₂ c₂ d₂ = some n₂) (htrailing : isTrailing n₂ = true)
      (h : Spells s t) :
      Spells ('\\' :: 'u' :: a₁ :: b₁ :: c₁ :: d₁ ::
        '\\' :: 'u' :: a₂ :: b₂ :: c₂ :: d₂ :: s) (Char.ofNat (pairPoint n₁ n₂) :: t)

/-- The characters between the quotes of a string, whatever they stand for. -/
inductive IsBody : List Char → Prop
  | nil : IsBody []
  | plain {c : Char} {s : List Char} (hc : isPlain c = true) (h : IsBody s) : IsBody (c :: s)
  | escape {e c : Char} {s : List Char} (hc : escaped? e = some c) (h : IsBody s) :
      IsBody ('\\' :: e :: s)
  | unit {a b c d : Char} {n : Nat} {s : List Char} (hn : hexUnit? a b c d = some n)
      (h : IsBody s) : IsBody ('\\' :: 'u' :: a :: b :: c :: d :: s)

/-- Plain characters are no quotes, no backslashes and no control characters. -/
theorem isPlain_iff {c : Char} : isPlain c = true ↔ c ≠ '"' ∧ c ≠ '\\' ∧ isControl c = false := by
  simp [isPlain, and_assoc]

/-- The short escapes do not start the long one. -/
theorem escaped?_ne_u {e c : Char} (h : escaped? e = some c) : e ≠ 'u' := by
  rintro rfl
  simp [escaped?] at h

/-- A leading surrogate is no trailing one. -/
theorem isTrailing_of_isLeading {n : Nat} (h : isLeading n = true) : isTrailing n = false := by
  simp only [isLeading, isTrailing, Bool.and_eq_true, decide_eq_true_eq, Bool.and_eq_false_iff,
    decide_eq_false_iff_not] at h ⊢
  omega

/-- The characters of two strings, one after the other. -/
theorem Spells.append {s t s' t' : List Char} (h : Spells s t) (h' : Spells s' t') :
    Spells (s ++ s') (t ++ t') := by
  induction h with
  | nil => exact h'
  | plain hc _ ih => exact .plain hc ih
  | escape hc _ ih => exact .escape hc ih
  | unit hn hleading htrailing _ ih => exact .unit hn hleading htrailing ih
  | pair hn₁ hleading hn₂ htrailing _ ih => exact .pair hn₁ hleading hn₂ htrailing ih

/-- A string that is read is read to its closing quote. -/
theorem scanText_append {s t : List Char} (h : Spells s t) (rest : List Char) :
    scanText none (s ++ '"' :: rest) = .ok (t, rest) := by
  induction h with
  | nil => rfl
  | @plain c s t hc _ ih =>
      obtain ⟨hquote, hslash, hcontrol⟩ := isPlain_iff.mp hc
      simp [scanText, hslash, hcontrol, ih]
      rfl
  | escape hc _ ih =>
      simp [scanText, escaped?_ne_u hc, hc, ih]
      rfl
  | unit hn hleading htrailing _ ih =>
      simp [scanText, hn, hleading, htrailing, ih]
      rfl
  | pair hn₁ hleading hn₂ htrailing _ ih =>
      simp [scanText, hn₁, hleading, isTrailing_of_isLeading hleading, hn₂, htrailing, ih]
      rfl

/-- A string that is passed over is passed to its closing quote. -/
theorem skipText_append {s : List Char} (h : IsBody s) (rest : List Char) :
    skipText (s ++ '"' :: rest) = .ok rest := by
  induction h with
  | nil => rfl
  | plain hc _ ih =>
      obtain ⟨hquote, hslash, hcontrol⟩ := isPlain_iff.mp hc
      simp [skipText, hslash, hcontrol, ih]
  | escape hc _ ih => simp [skipText, escaped?_ne_u hc, hc, ih]
  | unit hn _ ih => simp [skipText, hn, ih]

/-! ## Values -/

/-- The pieces that a text is made of. -/
inductive Piece where
  /-- A value. -/
  | value
  /-- The elements of an array, with the commas between them. -/
  | elements
  /-- The members of an object, with the commas between them. -/
  | members

/-- The characters of a piece of a text. -/
inductive WellFormed : Piece → List Char → Prop
  | nullWord : WellFormed .value ['n', 'u', 'l', 'l']
  | trueWord : WellFormed .value ['t', 'r', 'u', 'e']
  | falseWord : WellFormed .value ['f', 'a', 'l', 's', 'e']
  | number {t : List Char} {l : Literal} (h : IsNumber t l) : WellFormed .value t
  | string {s : List Char} (h : IsBody s) : WellFormed .value ('"' :: (s ++ ['"']))
  | emptyArray {gap : List Char} (hgap : Blank gap) : WellFormed .value ('[' :: (gap ++ [']']))
  | array {s : List Char} (h : WellFormed .elements s) : WellFormed .value ('[' :: (s ++ [']']))
  | emptyObject {gap : List Char} (hgap : Blank gap) :
      WellFormed .value ('\x7b' :: (gap ++ ['\x7d']))
  | object {s : List Char} (h : WellFormed .members s) :
      WellFormed .value ('\x7b' :: (s ++ ['\x7d']))
  | element {before v after : List Char} (hbefore : Blank before) (hafter : Blank after)
      (h : WellFormed .value v) : WellFormed .elements (before ++ (v ++ after))
  | nextElement {before v after s : List Char} (hbefore : Blank before) (hafter : Blank after)
      (h : WellFormed .value v) (hs : WellFormed .elements s) :
      WellFormed .elements (before ++ (v ++ (after ++ ',' :: s)))
  | member {start key colon before v after : List Char} (hstart : Blank start)
      (hkey : IsBody key) (hcolon : Blank colon) (hbefore : Blank before) (hafter : Blank after)
      (h : WellFormed .value v) :
      WellFormed .members
        (start ++ '"' :: (key ++ '"' :: (colon ++ ':' :: (before ++ (v ++ after)))))
  | nextMember {start key colon before v after s : List Char} (hstart : Blank start)
      (hkey : IsBody key) (hcolon : Blank colon) (hbefore : Blank before) (hafter : Blank after)
      (h : WellFormed .value v) (hs : WellFormed .members s) :
      WellFormed .members
        (start ++ '"' :: (key ++ '"' :: (colon ++ ':' :: (before ++ (v ++ (after ++ ',' :: s))))))

/-- The first character of a value is no blank and closes nothing. -/
theorem WellFormed.exists_head {v : List Char} (h : WellFormed .value v) :
    ∃ c u, v = c :: u ∧ isBlank c = false ∧ c ≠ ']' ∧ c ≠ '\x7d' := by
  cases h with
  | number h =>
      obtain ⟨c, u, rfl, hc⟩ := h.exists_head
      exact ⟨c, u, rfl, isBlank_of_number hc, ne_of_number hc (by decide),
        ne_of_number hc (by decide)⟩
  | nullWord | trueWord | falseWord | string | emptyArray | array | emptyObject | object =>
      exact ⟨_, _, rfl, by decide⟩

/-! Passing over. -/

/-- Passing blanks twice is passing them once. -/
theorem skipBlank_skipBlank (s : List Char) : skipBlank (skipBlank s) = skipBlank s :=
  List.dropWhile_idempotent _ _

/-- Blanks before a value to be skipped make no difference. -/
theorem skipWithin_skipBlank (fuel : Nat) (s : List Char) :
    skipWithin fuel (skipBlank s) = skipWithin fuel s := by
  cases fuel with
  | zero => rfl
  | succ fuel => rw [skipWithin, skipWithin, skipBlank_skipBlank]

/-- Blanks before an element to be skipped make no difference. -/
theorem skipElements_skipBlank (fuel : Nat) (s : List Char) :
    skipElements fuel (skipBlank s) = skipElements fuel s := by
  cases fuel with
  | zero => rfl
  | succ fuel => rw [skipElements, skipElements, skipWithin_skipBlank]

/-- Blanks before a member to be skipped make no difference. -/
theorem skipMembers_skipBlank (fuel : Nat) (s : List Char) :
    skipMembers fuel (skipBlank s) = skipMembers fuel s := by
  cases fuel with
  | zero => rfl
  | succ fuel => rw [skipMembers, skipMembers, skipBlank_skipBlank]

/-- The same with the blanks written out. -/
theorem skipWithin_blank_append {gap : List Char} (hgap : Blank gap) (fuel : Nat)
    (s : List Char) : skipWithin fuel (gap ++ s) = skipWithin fuel s := by
  rw [← skipWithin_skipBlank, skipBlank_append hgap, skipWithin_skipBlank]

/-- A piece is passed over to its end by the scanner for such pieces, given fuel for its
length.  Behind the elements and the members stands what closes them. -/
def Passed : Piece → List Char → Prop
  | .value, t => ∀ (rest : List Char) (fuel : Nat), Ends rest → 2 * t.length ≤ fuel →
      skipWithin fuel (t ++ rest) = .ok rest
  | .elements, t => ∀ (rest : List Char) (fuel : Nat), 2 * t.length + 1 ≤ fuel →
      skipElements fuel (t ++ ']' :: rest) = .ok rest
  | .members, t => ∀ (rest : List Char) (fuel : Nat), 2 * t.length + 1 ≤ fuel →
      skipMembers fuel (t ++ '\x7d' :: rest) = .ok rest

/-! Each kind of value by its first character. -/

/-- A number is skipped with whatever comes after it. -/
theorem skipNumber_append {t s : List Char} {l : Literal} (h : IsNumber t l) (hs : Ends s) :
    skipNumber (t ++ s) = .ok s := by
  rw [skipNumber, scanNumber_append h hs]

/-- A value that starts as a number is skipped as one. -/
theorem skipWithin_number {c : Char} (hc : c = '-' ∨ c.isDigit = true) (fuel : Nat)
    (s : List Char) : skipWithin (fuel + 1) (c :: s) = skipNumber (c :: s) := by
  rw [skipWithin, skipBlank_cons (isBlank_of_number hc)]
  split
  case h_1 heq => cases heq
  case h_8 heq =>
    obtain ⟨rfl, rfl⟩ := List.cons.inj heq
    exact if_pos hc
  all_goals
    rename_i heq
    obtain ⟨rfl, -⟩ := List.cons.inj heq
    exact absurd hc (by decide)

/-- A value that starts with a quote is skipped as a string. -/
theorem skipWithin_quote (fuel : Nat) (s : List Char) :
    skipWithin (fuel + 1) ('"' :: s) = skipText s := rfl

/-- A value that starts with a bracket is skipped as an array. -/
theorem skipWithin_bracket (fuel : Nat) (s : List Char) :
    skipWithin (fuel + 1) ('[' :: s) =
      match skipBlank s with
      | ']' :: t => .ok t
      | t => skipElements fuel t := rfl

/-- A value that starts with a brace is skipped as an object. -/
theorem skipWithin_brace (fuel : Nat) (s : List Char) :
    skipWithin (fuel + 1) ('\x7b' :: s) =
      match skipBlank s with
      | '\x7d' :: t => .ok t
      | t => skipMembers fuel t := rfl

/-- An array that does not close at once is skipped element by element. -/
theorem skipWithin_array (fuel : Nat) {s : List Char} (hs : ∀ t, skipBlank s ≠ ']' :: t) :
    skipWithin (fuel + 1) ('[' :: s) = skipElements fuel s := by
  rw [skipWithin_bracket, ← skipElements_skipBlank]
  split
  · exact absurd ‹_› (hs _)
  · rfl

/-- An object that does not close at once is skipped member by member. -/
theorem skipWithin_object (fuel : Nat) {s : List Char} (hs : ∀ t, skipBlank s ≠ '\x7d' :: t) :
    skipWithin (fuel + 1) ('\x7b' :: s) = skipMembers fuel s := by
  rw [skipWithin_brace, ← skipMembers_skipBlank]
  split
  · exact absurd ‹_› (hs _)
  · rfl

/-- Elements start with a value, so they do not start with what closes an array. -/
theorem WellFormed.skipBlank_elements {t : List Char} (h : WellFormed .elements t)
    (rest u : List Char) : skipBlank (t ++ rest) ≠ ']' :: u := by
  cases h with
  | element hbefore _ hv | nextElement hbefore _ hv =>
      obtain ⟨c, v, rfl, hblank, hclose, -⟩ := hv.exists_head
      simp only [List.append_assoc, List.cons_append, skipBlank_append hbefore,
        skipBlank_cons hblank]
      exact fun heq => hclose (List.cons.inj heq).1

/-- Members start with the quote of a key. -/
theorem WellFormed.skipBlank_members {t : List Char} (h : WellFormed .members t)
    (rest u : List Char) : skipBlank (t ++ rest) ≠ '\x7d' :: u := by
  cases h with
  | member hstart | nextMember hstart =>
      simp only [List.append_assoc, List.cons_append, skipBlank_append hstart]
      exact fun heq => absurd (List.cons.inj heq).1 (by decide)

/-- Blanks and a character that closes nothing behind a value. -/
theorem skipWithin_value {v after s : List Char} {fuel : Nat} (hv : Passed .value v)
    (hafter : Blank after) {c : Char} (hc : c ∈ [',', ']', '\x7d'])
    (hfuel : 2 * v.length ≤ fuel) :
    skipWithin fuel (v ++ (after ++ c :: s)) = .ok (after ++ c :: s) :=
  hv _ fuel ((ends_cons hc s).blank_append hafter) hfuel

/-- Behind an element comes a bracket or a comma. -/
theorem skipElements_of_ok {fuel : Nat} {s t : List Char} (h : skipWithin fuel s = .ok t) :
    skipElements (fuel + 1) s =
      match skipBlank t with
      | ',' :: s => skipElements fuel s
      | ']' :: s => .ok s
      | s => .error (unexpected s) := by
  rw [skipElements, h]
  rfl

/-- The bracket behind an element closes the array. -/
theorem skipElements_close (fuel : Nat) {s after rest : List Char}
    (h : skipWithin fuel s = .ok (after ++ ']' :: rest)) (hafter : Blank after) :
    skipElements (fuel + 1) s = .ok rest := by
  rw [skipElements_of_ok h, skipBlank_append hafter]
  rfl

/-- The comma behind an element leads to the next one. -/
theorem skipElements_comma (fuel : Nat) {s after rest : List Char}
    (h : skipWithin fuel s = .ok (after ++ ',' :: rest)) (hafter : Blank after) :
    skipElements (fuel + 1) s = skipElements fuel rest := by
  rw [skipElements_of_ok h, skipBlank_append hafter]
  rfl

/-- The key and the colon before a value are passed. -/
theorem skipMembers_key (fuel : Nat) {start key colon s : List Char} (hstart : Blank start)
    (hkey : IsBody key) (hcolon : Blank colon) :
    skipMembers (fuel + 1) (start ++ '"' :: (key ++ '"' :: (colon ++ ':' :: s))) =
      (skipWithin fuel s).bind fun rest =>
        match skipBlank rest with
        | ',' :: s => skipMembers fuel s
        | '\x7d' :: s => .ok s
        | s => .error (unexpected s) := by
  rw [skipMembers, skipBlank_append hstart, skipBlank_cons (by decide)]
  show (skipText (key ++ '"' :: (colon ++ ':' :: s))).bind _ = _
  rw [skipText_append hkey, Except.bind]
  simp only [skipBlank_append hcolon, skipBlank_cons (show isBlank ':' = false by decide)]
  rfl

/-- A value has a first character, so there is fuel for a first step. -/
theorem passed_value {t : List Char} (ht : t ≠ [])
    (h : ∀ (rest : List Char) (fuel : Nat), Ends rest → 2 * t.length ≤ fuel + 1 →
      skipWithin (fuel + 1) (t ++ rest) = .ok rest) : Passed .value t := by
  intro rest fuel hrest hfuel
  have hlength := List.length_pos_iff.mpr ht
  obtain ⟨fuel, rfl⟩ := Nat.exists_eq_succ_of_ne_zero (n := fuel) (by omega)
  exact h rest fuel hrest hfuel

/-- Every well-formed piece is passed, by induction on how it is formed. -/
theorem WellFormed.passed {piece : Piece} {t : List Char} (h : WellFormed piece t) :
    Passed piece t := by
  induction h with
  | nullWord | trueWord | falseWord => exact passed_value (by simp) fun _ _ _ _ => rfl
  | number h =>
      obtain ⟨c, u, rfl, hc⟩ := h.exists_head
      refine passed_value (by simp) fun rest fuel hrest _ => ?_
      rw [List.cons_append, skipWithin_number hc, ← List.cons_append, skipNumber_append h hrest]
  | string h =>
      refine passed_value (by simp) fun rest fuel _ _ => ?_
      simpa [skipWithin_quote] using skipText_append h rest
  | emptyArray hgap =>
      refine passed_value (by simp) fun rest fuel _ _ => ?_
      rw [List.cons_append, skipWithin_bracket, List.append_assoc, skipBlank_append hgap]
      rfl
  | emptyObject hgap =>
      refine passed_value (by simp) fun rest fuel _ _ => ?_
      rw [List.cons_append, skipWithin_brace, List.append_assoc, skipBlank_append hgap]
      rfl
  | array h ih =>
      refine passed_value (by simp) fun rest fuel _ hfuel => ?_
      simp only [List.length_cons, List.length_append, List.length_nil] at hfuel
      rw [List.cons_append, List.append_assoc, skipWithin_array _ (h.skipBlank_elements _)]
      exact ih rest fuel (by omega)
  | object h ih =>
      refine passed_value (by simp) fun rest fuel _ hfuel => ?_
      simp only [List.length_cons, List.length_append, List.length_nil] at hfuel
      rw [List.cons_append, List.append_assoc, skipWithin_object _ (h.skipBlank_members _)]
      exact ih rest fuel (by omega)
  | element hbefore hafter h ih =>
      intro rest fuel hfuel
      simp only [List.length_append] at hfuel
      obtain ⟨fuel, rfl⟩ := Nat.exists_eq_succ_of_ne_zero (n := fuel) (by omega)
      refine skipElements_close fuel ?_ hafter
      rw [List.append_assoc, List.append_assoc, skipWithin_blank_append hbefore]
      exact skipWithin_value ih hafter (by simp) (by omega)
  | nextElement hbefore hafter h hs ih ihs =>
      intro rest fuel hfuel
      simp only [List.length_append, List.length_cons] at hfuel
      obtain ⟨fuel, rfl⟩ := Nat.exists_eq_succ_of_ne_zero (n := fuel) (by omega)
      rw [skipElements_comma fuel ?_ hafter]
      · exact ihs rest fuel (by omega)
      · simp only [List.append_assoc, List.cons_append]
        rw [skipWithin_blank_append hbefore]
        exact skipWithin_value ih hafter (by simp) (by omega)
  | member hstart hkey hcolon hbefore hafter h ih =>
      intro rest fuel hfuel
      simp only [List.length_append, List.length_cons] at hfuel
      obtain ⟨fuel, rfl⟩ := Nat.exists_eq_succ_of_ne_zero (n := fuel) (by omega)
      simp only [List.append_assoc, List.cons_append]
      rw [skipMembers_key fuel hstart hkey hcolon, skipWithin_blank_append hbefore,
        skipWithin_value ih hafter (by simp) (by omega), Except.bind, skipBlank_append hafter]
      rfl
  | nextMember hstart hkey hcolon hbefore hafter h hs ih ihs =>
      intro rest fuel hfuel
      simp only [List.length_append, List.length_cons] at hfuel
      obtain ⟨fuel, rfl⟩ := Nat.exists_eq_succ_of_ne_zero (n := fuel) (by omega)
      simp only [List.append_assoc, List.cons_append]
      rw [skipMembers_key fuel hstart hkey hcolon, skipWithin_blank_append hbefore,
        skipWithin_value ih hafter (by simp) (by omega), Except.bind, skipBlank_append hafter,
        skipBlank_cons (by decide)]
      exact ihs rest fuel (by omega)

/-- A well-formed value with blanks before it is passed over to its end. -/
theorem skipValue_append {gap v rest : List Char} (hgap : Blank gap) (hv : WellFormed .value v)
    (hrest : Ends rest) : skipValue (gap ++ (v ++ rest)) = .ok rest := by
  rw [skipValue, skipWithin_blank_append hgap]
  exact hv.passed rest _ hrest (by simp only [List.length_append]; omega)

end Spatial.Json
