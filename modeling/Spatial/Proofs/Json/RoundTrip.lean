import Mathlib
import Spatial.Proofs.Json.Truncation
import Spatial.Proofs.Json.Wide

/-!
# What is written is read back

What becomes of a value that is written and read again, with a library that keeps the rules.

1.  A component that is not finite is written as a `null`, which spoils the text.
2.  If numbers are computed from their digits, a finite value is read back bit for bit.
3.  If the nearest number of binary64 is taken, a finite value is read back bit for bit but for one
    number of either sign, which is read as the number after it.
-/

namespace Spatial.Json

variable {L : Library}

/-! ## Numbers -/

/-- A finite number is written as a token that is read through binary64. -/
theorem readsAs_of_narrow (hL : L.Reads) (hW : L.Writes) (hS : L.WritesShortest)
    {wide : Literal → Float → Prop} (hwide : L.ReadsThrough wide) {x y : Float32}
    (hx : x.isFinite = true)
    (h : ∀ l : Literal, l.Short → l.negative = Binary32.isNegative x →
      l.Shows (Binary32.shortest x) → ∃ w, wide l w ∧ Binary.narrow w = y) :
    L.ReadsAs (L.write (.scalar x)) y := by
  obtain ⟨l, hl, hshort⟩ := hW.finite hx
  obtain ⟨hnegative, hshows⟩ := hS x l hx hl
  obtain ⟨w, hw, rfl⟩ := h l hshort hnegative hshows
  have hread := hwide _ l w hl hshows.marked hw [] [] blank_nil ends_nil
  rw [List.nil_append, List.append_nil] at hread
  exact ⟨⟨l, hl⟩, hL.all_ok hread blank_nil⟩

/-- A number that is no number or infinite is not finite. -/
theorem isFinite_of_isNaN_or_isInf {x : Float32} (h : x.isNaN = true ∨ x.isInf = true) :
    x.isFinite = false := by
  have hinf : x.isInf = (Binary32.value x).isInf := rfl
  rw [Binary32.isNaN_eq, hinf] at h
  rw [Binary32.isFinite_eq]
  cases hvalue : Binary32.value x with
  | notANumber | infinity => rfl
  | zero | finite =>
      rw [hvalue] at h
      rcases h with h | h <;> cases h

/-! ## Values -/

/-- A form of which some scalar is a null is spoiled by it. -/
theorem spoiled_json (L : Library) (tokens : Form (List Char)) (hform : tokens.wellNamed = true)
    (htokens : ∀ t ∈ tokens.leaves, L.IsToken t ∨ t = nullWord) (hnull : nullWord ∈ tokens.leaves) :
    tokens.Spoiled L tokens.json := by
  induction tokens using Form.induction_parts with
  | scalar token => exact (List.mem_singleton.mp hnull).symm
  | record name fields ih =>
      rw [Form.leaves, Fields.leaves_eq] at htokens hnull
      obtain ⟨hnames, hparts⟩ := Form.wellNamed_record hform
      have hplain := Fields.plain_keys fields (Form.wellNamed_fields hform)
      have hpart : ∀ p ∈ fields.parts, ∀ t ∈ p.2.leaves, L.IsToken t ∨ t = nullWord :=
        fun p hp t ht => htokens t (List.mem_flatMap.mpr ⟨p, hp, ht⟩)
      have hspoiled : ∀ p ∈ fields.parts, nullWord ∈ p.2.leaves → p.2.Spoiled L p.2.json :=
        fun p hp => ih p hp (hparts p hp) (hpart p hp)
      have heither : ∀ p ∈ fields.parts,
          (⟨p.2.Complete L, p.2.Spoiled L⟩ : Sorted).either p.2.json := by
        intro p hp
        -- A part without a null in it is complete.
        by_cases hpnull : nullWord ∈ p.2.leaves
        · exact .inr (hspoiled p hp hpnull)
        · refine .inl ⟨p.2, rfl, fun t ht => ?_, p.2.presents_json (hparts p hp)⟩
          exact (hpart p hp t ht).resolve_right fun h => hpnull (h ▸ ht)
      obtain ⟨p, hp, hpnull⟩ := List.mem_flatMap.mp hnull
      have hlookup := lookup_of_mem (b := p.2) hnames hp
      have hknown : (fields.sorted L).lookup p.1 = some ⟨p.2.Complete L, p.2.Spoiled L⟩ := by
        rw [Fields.sorted_eq, lookup_map_right fun part : Form (List Char) =>
          (⟨part.Complete L, part.Spoiled L⟩ : Sorted), hlookup]
        rfl
      have hmember : plainMember p.1 p.2.json ∈ fields.parts.map fun p =>
          plainMember p.1 p.2.json := List.mem_map.mpr ⟨p, hp, rfl⟩
      refine .inr ⟨[], _, Form.json_record name fields, blank_nil,
        plainMembers_proper Form.json hplain, ?_,
        .inl ⟨_, hmember, _, hknown, hspoiled p hp hpnull⟩⟩
      rw [Fields.sorted_eq, List.map_map]
      exact fits_plainMember
        (fun part : Form (List Char) => (⟨part.Complete L, part.Spoiled L⟩ : Sorted).either)
        hnames heither

open Components (toList)
open Layout (EveryKind Lawful form shape)

section

variable {F : Type → Type} [Layout F] [Lawful F] {v : F Float32}

/-- The scalars of a value as they are written. -/
theorem leaves_written (v : F Float32) :
    ((form v).map fun x => L.write (.scalar x)).leaves =
      (toList v).map fun x => L.write (.scalar x) := by
  rw [Form.leaves_map, Lawful.leaves_form]

/-- The names of a value as it is written are those of its kind. -/
theorem wellNamed_written (hF : (shape F).wellNamed = true) (v : F Float32) :
    ((form v).map fun x => L.write (.scalar x)).wellNamed = true := by
  rw [Form.wellNamed_map]
  exact wellNamed_form hF v

omit [Lawful F] in
/-- The text of a value is that of its scalars. -/
theorem toList_toJson (hW : L.Writes) (v : F Float32) :
    (L.toJson v).toList = ((form v).map fun x => L.write (.scalar x)).json := by
  rw [Library.toJson, String.toList_ofList, hW.write_eq]

/-- A value is read as what each of its components is read as. -/
theorem ofJson_toJson (hL : L.Reads) (hW : L.Writes) (hF : (shape F).wellNamed = true)
    {f : Float32 → Float32} (hread : ∀ x ∈ toList v, L.ReadsAs (L.write (.scalar x)) (f x)) :
    L.ofJson F (L.toJson v) = .ok (Components.map f v) := by
  have hnamed := wellNamed_written (L := L) hF v
  have htokens : ∀ t ∈ ((form v).map fun x => L.write (.scalar x)).leaves, L.IsToken t := by
    rw [leaves_written, List.forall_mem_map]
    exact fun x hx => ⟨f x, hread x hx⟩
  have hvalues : ((form v).map fun x => L.write (.scalar x)).leaves.map L.tokenValue =
      toList (Components.map f v) := by
    rw [leaves_written, List.map_map, Layout.toList_map]
    exact List.map_congr_left fun x hx => (hread x hx).tokenValue_eq
  have hall := Form.allRead_presents hL _ hnamed htokens
  rw [hvalues, Form.bare_map, bare_form] at hall
  refine ofJson_of_readsTo hL (fun t ht => (hall t ht).2) ?_
  rw [toList_toJson hW]
  exact .plain (Form.presents_json _ hnamed)

/-- A value with a component that is not finite is refused. -/
theorem ofJson_toJson_of_not_finite (hL : L.Reads) (hW : L.Writes)
    (hF : (shape F).wellNamed = true) (hv : ∃ x ∈ toList v, x.isFinite = false) :
    L.ofJson F (L.toJson v) = .error .mismatch := by
  have hspoiled : ((form v).map fun x => L.write (.scalar x)).Spoiled L (L.toJson v).toList := by
    rw [toList_toJson hW]
    refine spoiled_json L _ (wellNamed_written hF v) ?_ ?_
    · rw [leaves_written, List.forall_mem_map]
      intro x hx
      by_cases hfinite : x.isFinite = true
      · exact .inl (hL.isToken_write hW hfinite)
      · exact .inr (hW.null (Bool.eq_false_of_not_eq_true hfinite))
    · obtain ⟨x, hx, hnot⟩ := hv
      rw [leaves_written]
      exact List.mem_map.mpr ⟨x, hx, hW.null hnot⟩
  refine ofJson_of_refuses hL (fun t ht => ?_) (.plain hspoiled)
  have hrefused := (Form.spoiled_refused hL _ (wellNamed_written hF v) t ht).2
  rwa [Form.bare_map, bare_form] at hrefused

end

/-! ## The nearest numbers -/

/-- The library that reads a number with a fraction or an exponent as the nearest number of
binary64; one that is too large is infinite. -/
def nearestLibrary : Library := libraryOf fun l =>
  match l.word? with
  | some n => some (.ofModel (.pack (Binary.ofInteger .binary32 l.negative n)))
  | none => some (Binary.narrow (nearestTo l.sign l.exact))

/-- It keeps the rules on reading. -/
theorem reads_nearestLibrary : nearestLibrary.Reads := by
  refine reads_libraryOf fun l _ => ?_
  cases l.word? <;> rfl

/-- It reads the nearest number of binary64. -/
theorem nearestLibrary_readsThrough : nearestLibrary.ReadsThrough Literal.Nearest := by
  refine readsThrough_libraryOf fun l w hmarked hw => ?_
  rw [hmarked.word?_eq, hw.narrow_eq]

/-- Not every finite value is read back bit for bit if the nearest number of binary64 is taken:
`7038531 · 10⁻³²` is not. -/
theorem middle_is_not_read_back :
    ¬EveryKind fun F _ => ∀ L : Library, L.Reads → L.Writes → L.WritesShortest →
      L.ReadsThrough Literal.Nearest → ∀ v : F Float32,
        (Components.isFinite v = true → L.ofJson F (L.toJson v) = .ok v) ∧
        ((∃ x ∈ toList v, x.isNaN = true ∨ x.isInf = true) →
          L.ofJson F (L.toJson v) = .error .mismatch) := by
  rintro ⟨hpair, -⟩
  have hback := (hpair nearestLibrary reads_nearestLibrary (writes_libraryOf _)
    (writesShortest_libraryOf _) nearestLibrary_readsThrough ⟨.ofBits 0x15ae43fd, 0⟩).1
    (by decide +kernel)
  have hread : nearestLibrary.ofJson Vec2
      (nearestLibrary.toJson (⟨.ofBits 0x15ae43fd, 0⟩ : Vec2 Float32)) =
      .ok ⟨.ofBits 0x15ae43fe, 0⟩ := by decide +kernel
  rw [hread] at hback
  exact absurd (congrArg Vec2.x (Except.ok.inj hback)) (by decide +kernel)

/-- **Round trip.**  What is read back of a value of any kind whose components are finite.  If the
nearest number of binary64 is taken, every component is read back with every bit, but for
`11420669 · 2⁻¹⁰⁷` of either sign, which is read as the number after it; if numbers are computed
from their digits, every component is.  A value with a component that is not a number or infinite is
a mismatch. -/
theorem round_trip_but_for_one :
    EveryKind fun F _ => ∀ L : Library, L.Reads → L.Writes → L.WritesShortest → ∀ v : F Float32,
      (Components.isFinite v = true →
        (L.ReadsThrough Literal.Nearest →
          L.ofJson F (L.toJson v) = .ok (Components.map pastMiddle v)) ∧
        (L.ReadsThrough Literal.Scaled → L.ofJson F (L.toJson v) = .ok v)) ∧
      ((∃ x ∈ toList v, x.isNaN = true ∨ x.isInf = true) →
        L.ofJson F (L.toJson v) = .error .mismatch) := by
  refine everyKind_of_wellNamed fun F _ _ _ hF L hL hW hS v =>
    ⟨fun hv => ⟨fun hN => ?_, fun hC => ?_⟩, fun hv => ?_⟩
  · refine ofJson_toJson hL hW hF fun x hx => ?_
    have hfinite := List.all_eq_true.mp hv x hx
    exact readsAs_of_narrow hL hW hS hN hfinite fun l => exists_nearest_narrow hfinite
  · have hread : L.ofJson F (L.toJson v) = .ok (Components.map id v) := by
      refine ofJson_toJson hL hW hF fun x hx => ?_
      have hfinite := List.all_eq_true.mp hv x hx
      exact readsAs_of_narrow hL hW hS hC hfinite fun l => exists_scaled_narrow hfinite
    rwa [Layout.map_id] at hread
  · obtain ⟨x, hx, hnot⟩ := hv
    exact ofJson_toJson_of_not_finite hL hW hF ⟨x, hx, isFinite_of_isNaN_or_isInf hnot⟩

/-- The number whose decimal nearly reaches a middle, a negative zero, the least number and a
power of two, with both kinds of library; and a value that holds an infinity. -/
theorem near_middle_is_read_back :
    library.ofJson Plane
        "\x7b\"normal\":\x7b\"x\":7.038531e-26,\"y\":-0.0,\"z\":1e-45\x7d,\"d\":-8388608.0\x7d" =
        .ok ⟨⟨.ofBits 0x15ae43fd, -0, .ofBits 1⟩, -8388608⟩ ∧
      nearestLibrary.ofJson Plane
        "\x7b\"normal\":\x7b\"x\":7.038531e-26,\"y\":-0.0,\"z\":1e-45\x7d,\"d\":-8388608.0\x7d" =
        .ok ⟨⟨.ofBits 0x15ae43fe, -0, .ofBits 1⟩, -8388608⟩ ∧
      library.ofJson Vec2 "\x7b\"x\":0.1,\"y\":null\x7d" = .error .mismatch := by
  obtain ⟨hpair, -, -, -, hplane, -⟩ := round_trip_but_for_one
  have hread := (hplane library reads_library (writes_libraryOf _) (writesShortest_libraryOf _)
    ⟨⟨.ofBits 0x15ae43fd, -0, .ofBits 1⟩, -8388608⟩).1 (by decide +kernel)
  have hnearest := (hplane nearestLibrary reads_nearestLibrary (writes_libraryOf _)
    (writesShortest_libraryOf _) ⟨⟨.ofBits 0x15ae43fd, -0, .ofBits 1⟩, -8388608⟩).1
    (by decide +kernel)
  have hrefused := (hpair library reads_library (writes_libraryOf _) (writesShortest_libraryOf _)
    ⟨0.1, 1 / 0⟩).2 ⟨1 / 0, List.mem_cons_of_mem _ List.mem_cons_self, .inr (by decide +kernel)⟩
  have htext : library.toJson (⟨⟨.ofBits 0x15ae43fd, -0, .ofBits 1⟩, -8388608⟩ : Plane Float32) =
      "\x7b\"normal\":\x7b\"x\":7.038531e-26,\"y\":-0.0,\"z\":1e-45\x7d,\"d\":-8388608.0\x7d" := by
    decide +kernel
  have hsame (v : Plane Float32) : nearestLibrary.toJson v = library.toJson v := rfl
  have hpast : Components.map pastMiddle ⟨⟨.ofBits 0x15ae43fd, -0, .ofBits 1⟩, -8388608⟩ =
      (⟨⟨.ofBits 0x15ae43fe, -0, .ofBits 1⟩, -8388608⟩ : Plane Float32) := by decide +kernel
  have hnull : library.toJson (⟨0.1, 1 / 0⟩ : Vec2 Float32) = "\x7b\"x\":0.1,\"y\":null\x7d" := by
    decide +kernel
  rw [htext] at hread
  rw [hsame, htext, hpast] at hnearest
  rw [hnull] at hrefused
  exact ⟨hread.2 library_readsThrough, hnearest.1 nearestLibrary_readsThrough, hrefused⟩

end Spatial.Json
