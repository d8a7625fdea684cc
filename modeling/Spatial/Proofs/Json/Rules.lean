import Mathlib
import Spatial.Proofs.Json.Beginnings
import Spatial.Proofs.Json.Records

/-!
# The rules hold of a library

The rules on reading and writing hold of the library for any way of giving numbers their values, if
every short number has one.  The library that computes numbers from their digits also keeps the rule
on what it computes.

1.  Where a number stands alone or in a record, its value decides, and nothing after it does.
2.  Records are read as the lemmas on their loops say, and written as their members.
3.  A numeral shows the shortest decimal of its number.
-/

namespace Spatial

variable {α β : Type}

namespace Fields

/-- The readers of a record are those of its parts. -/
theorem readers_eq (value : Json.Literal → Option Float32) : (fields : Fields α) →
    fields.readers value = fields.parts.map fun p => (p.1, p.2.reader value)
  | .nil => rfl
  | .cons _ _ rest => congrArg (List.cons _) (rest.readers_eq value)

/-- The parts of a record with a function applied to every scalar. -/
theorem parts_map (f : α → β) : (fields : Fields α) →
    (fields.map f).parts = fields.parts.map fun p => (p.1, p.2.map f)
  | .nil => rfl
  | .cons _ _ rest => congrArg (List.cons _) (rest.parts_map f)

/-- The text of the parts of a record is that of members without blanks. -/
theorem json_eq : (fields : Fields (List Char)) → fields.json =
    (Json.laterMembers (fields.parts.map fun p => Json.plainMember p.1 p.2.json)).tail
  | .nil => rfl
  | .cons _ part .nil => by
      simp [Fields.json, Fields.parts, Json.laterMembers, Json.plainMember, Json.Member.text]
  | .cons first part (.cons key next rest) => by
      show '"' :: first.toList ++ '"' :: ':' :: part.json ++ ',' ::
        (Fields.cons key next rest).json = _
      rw [json_eq (.cons key next rest)]
      simp [Fields.parts, Json.laterMembers, Json.plainMember, Json.Member.text]

end Fields

/-- The text of a record is an object of its parts. -/
theorem Form.json_record (name : String) (fields : Fields (List Char)) :
    (Form.record name fields).json =
      Json.objectText [] (fields.parts.map fun p => Json.plainMember p.1 p.2.json) := by
  have happend :=
    Json.objectText_append [] (fields.parts.map fun p => Json.plainMember p.1 p.2.json) []
  rw [List.append_nil] at happend
  rw [happend, Form.json, Fields.json_eq]
  rfl

namespace Json

variable {value : Literal → Option Float32} {token : List Char} {l : Literal} {x : Float32}

/-! ## Reading -/

/-- The outcome of a number: the value of its literal, or out of range. -/
def outcomeOf (value : Literal → Option Float32) (l : Literal) : Except Fault (List Float32) :=
  match value l with
  | some x => .ok [x]
  | none => .error .malformed

/-- A number is read as the value of its literal. -/
theorem readScalar_number (value : Literal → Option Float32) (hl : IsNumber token l) :
    Yields (readScalar value) token (outcomeOf value l) := by
  intro gap rest hgap hrest
  have hscan := scanNumber_append hl hrest
  obtain ⟨c, u, rfl, hc⟩ := hl.exists_head
  rw [List.cons_append] at hscan ⊢
  rw [readScalar, skipBlank_append hgap, skipBlank_cons (isBlank_of_number hc), outcomeOf]
  simp only [if_pos hc, hscan]
  cases value l <;> rfl

/-- A null is refused. -/
theorem readScalar_null (value : Literal → Option Float32) :
    Refuses (readScalar value) nullWord := by
  intro gap rest hgap _
  rw [readScalar, skipBlank_append hgap]
  rfl

/-- Behind the value of a text there may be blanks. -/
theorem readAll_of_ok {form : Form Unit} {s rest : List Char} {xs : List Float32}
    (h : form.reader value s = .ok (xs, rest)) (hrest : Blank rest) :
    (libraryOf value).readAll form s = .ok xs := by
  show (form.reader value s).bind _ = _
  rw [h]
  simp only [Except.bind, skipBlank_blank hrest]
  rfl

/-- The fault of a value is that of the text. -/
theorem readAll_of_error {form : Form Unit} {s : List Char} {fault : Fault}
    (h : form.reader value s = .error fault) : (libraryOf value).readAll form s = .error fault := by
  show (form.reader value s).bind _ = _
  rw [h]
  rfl

/-- A number that stands alone. -/
theorem readAll_number (value : Literal → Option Float32) (hl : IsNumber token l) :
    (libraryOf value).readAll (.scalar ()) token = outcomeOf value l := by
  have hread := readScalar_number value hl [] [] blank_nil ends_nil
  rw [List.nil_append, List.append_nil] at hread
  cases houtcome : outcomeOf value l with
  | error fault =>
      rw [houtcome] at hread
      exact readAll_of_error hread
  | ok xs =>
      rw [houtcome] at hread
      exact readAll_of_ok hread blank_nil

/-- The readers of the parts of a record are those of its fields. -/
theorem readers_libraryOf (value : Literal → Option Float32) (fields : Fields Unit) :
    (libraryOf value).readers fields = fields.readers value :=
  (fields.readers_eq value).symm

/-- **Reading.**  The rules on reading, where every short number has a value. -/
theorem reads_libraryOf (hshort : ∀ l : Literal, l.Short → (value l).isSome = true) :
    (libraryOf value).Reads where
  number := by
    rintro token x ⟨⟨l, hl⟩, hx⟩
    rw [readAll_number value hl] at hx
    rw [ReadsTo, ← hx]
    exact readScalar_number value hl
  inRange := by
    intro token l hl hl_short
    obtain ⟨x, hx⟩ := Option.isSome_iff_exists.mp (hshort l hl_short)
    refine ⟨x, ⟨l, hl⟩, ?_⟩
    rw [readAll_number value hl, outcomeOf, hx]
  null := readScalar_null value
  array := by
    intro name fields es outcome hproper hstarts h
    rw [readers_libraryOf] at h
    exact readRecord_array value h hproper hstarts
  object := by
    intro name fields gap ms outcome hgap hproper h
    rw [readers_libraryOf] at h
    exact readRecord_object value h hgap hproper
  all_ok := readAll_of_ok
  all_error := readAll_of_error

/-- **Truncation.**  A text that ends too early. -/
theorem truncates_libraryOf (value : Literal → Option Float32) :
    (libraryOf value).Truncates where
  empty form := by cases form <;> rfl
  number := by
    intro p t l ht hp hnone
    have hscan := scanNumber_truncated ht hp hnone
    cases p with
    | nil => rfl
    | cons c q =>
        obtain ⟨d, u, rfl, hd⟩ := ht.exists_head
        obtain ⟨rfl, -⟩ := List.cons_prefix_cons.mp hp
        show readScalar value (c :: q) = _
        rw [readScalar, skipBlank_cons (isBlank_of_number hd)]
        simp only [if_pos hd, hscan]
  object := by
    intro name fields s h
    rw [readers_libraryOf] at h
    exact readMembers_of_unfinished true h s.length

/-! ## Writing -/

/-- **Writing.**  Records are objects of their parts, and finite numbers short numbers. -/
theorem writes_libraryOf (value : Literal → Option Float32) : (libraryOf value).Writes where
  record name fields := by
    show (Form.record name (fields.map (numeral .json))).json = _
    rw [Form.json_record, Fields.parts_map, List.map_map]
    rfl
  finite := by
    intro x hx
    obtain ⟨l, hl, -, hshort, -⟩ := numeral_shows hx
    exact ⟨l, hl, hshort⟩
  null := numeral_of_not_finite

/-- A finite number is written with its sign and its shortest digits. -/
theorem writesShortest_libraryOf (value : Literal → Option Float32) :
    (libraryOf value).WritesShortest := by
  intro x l hx hl
  obtain ⟨k, hk, hnegative, -, hshows⟩ := numeral_shows hx
  obtain rfl : l = k := hl.unique hk
  exact ⟨hnegative, hshows⟩

/-- What a number with a fraction or an exponent has as its value is what it is read as. -/
theorem readsThrough_libraryOf {wide : Literal → Float → Prop}
    (h : ∀ (l : Literal) (x : Float), l.Marked → wide l x → value l = some (Binary.narrow x)) :
    (libraryOf value).ReadsThrough wide := by
  intro token l x hl hmarked hx
  have hread := readScalar_number value hl
  rw [outcomeOf, h l x hmarked hx] at hread
  exact hread

/-! ## Computed numbers -/

/-- The library that computes numbers keeps the rules on reading. -/
theorem reads_library : library.Reads :=
  reads_libraryOf fun _ h => h.isSome_toFloat32?

/-- A number that stands alone is read as the value of its literal. -/
theorem library_readsAs (hl : IsNumber token l) (hx : l.toFloat32? = some x) :
    library.ReadsAs token x := by
  refine ⟨⟨l, hl⟩, ?_⟩
  rw [library, readAll_number _ hl, outcomeOf, hx]

/-- Zero times any power of ten is zero. -/
theorem computed?_zero (e : ℤ) : computed? ⟨0, e⟩ = some 0 := by
  have hzero : natFloat 0 = 0 := by decide +kernel
  cases e with
  | ofNat n => simp [computed?, hzero]
  | negSucc k =>
      simp only [computed?, hzero]
      split_ifs with hone htwo
      · rw [zero_div_powerOfTen hone]
      · rw [zero_div_powerOfTen le_rfl, zero_div_powerOfTen (by omega)]
      · rfl

/-- A number with a fraction or an exponent is computed from its digits. -/
theorem library_readsThrough : library.ReadsThrough Literal.Scaled := by
  refine readsThrough_libraryOf fun l x hmarked hx => ?_
  cases hx with
  | zero hdigits =>
      have hexact : l.exact = ⟨0, l.exact.exponent⟩ := by rw [← hdigits]
      rw [hmarked.toFloat32?_eq (by rw [hdigits]; decide), hexact, computed?_zero]
      rfl
  | @product k hpos hlt hexponent hk hfinite =>
      have hexact : l.exact = ⟨l.exact.digits, .ofNat k⟩ := congrArg (Decimal.mk _) hexponent
      rw [hmarked.toFloat32?_eq hlt, hexact]
      simp only [computed?, if_neg hpos.ne', if_pos hk, hfinite]
      rfl
  | @quotient k hpos hlt hexponent hk =>
      have hexact : l.exact = ⟨l.exact.digits, .negSucc k⟩ := congrArg (Decimal.mk _) hexponent
      rw [hmarked.toFloat32?_eq hlt, hexact]
      simp only [computed?, if_pos hk]
      rfl

end Json

end Spatial
