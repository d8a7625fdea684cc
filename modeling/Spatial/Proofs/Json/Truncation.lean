import Mathlib
import Spatial.Proofs.Json.Presentation

/-!
# Texts that are cut short

A text that stops anywhere before its end is truncated, and neither malformed nor a mismatch, with
every library that keeps the rules.

1.  A number that is cut is truncated, or it is a shorter number, which is read to the end of the
    text.
2.  The members of an object are read one after the other.  A cut is in a key, in a value or
    between the two, and after a value that is read to the end of the text there is no brace.  So
    what is left is an unfinished object, which is an induction on its members.
3.  A record is truncated wherever it is cut, if each of its parts is, or is read to the end of the
    text.
-/

namespace Spatial

namespace Json

variable {L : Library}

/-! ## Values -/

/-- Wherever the text is cut, what is there is truncated, or is read to its end. -/
def Breaks (read : Reader) (text : List Char) : Prop :=
  ∀ p, Cut p text → read p = .error .truncated ∨ ∃ xs, read p = .ok (xs, [])

/-- A short number that is cut is truncated, or a shorter number. -/
theorem breaks_number (hL : L.Reads) (hT : L.Truncates) {t : List Char} {l : Literal}
    (ht : IsNumber t l) (hl : l.Short) : Breaks (L.read (.scalar ())) t := by
  intro p hp
  by_cases hnumber : ∃ k, IsNumber p k
  · right
    obtain ⟨k, hk⟩ := hnumber
    obtain ⟨x, hx⟩ := hL.inRange hk (hp.short ht hl hk)
    have hread := hL.number hx [] [] blank_nil ends_nil
    rw [List.nil_append, List.append_nil] at hread
    exact ⟨[x], hread⟩
  · exact .inl (hT.number ht hp.isPrefix hnumber)

/-! ## Objects -/

section

variable {fields : List (String × Reader)} {found : List String} {lead p : List Char}
  {parts : List (String × List Char)}

/-- A part of a written object that is yet to be read. -/
structure Pending (fields : List (String × Reader)) (found : List String)
    (part : String × List Char) : Prop where
  plain : part.1.toList.all isPlain = true
  fresh : part.1 ∉ found
  known : ∃ read xs, fields.lookup part.1 = some read ∧ ReadsTo read part.2 xs ∧
    Breaks read part.2

/-- The members of a written object and its closing brace, with what stands before the first. -/
def membersText (lead : List Char) : List (String × List Char) → List Char
  | [] => ['\x7d']
  | part :: parts =>
    lead ++ '"' :: (part.1.toList ++ '"' :: ':' :: (part.2 ++ membersText [','] parts))

/-- The members of a written object behind the first. -/
theorem membersText_comma (parts : List (String × List Char)) :
    membersText [','] parts =
      laterMembers (parts.map fun part => plainMember part.1 part.2) ++ ['\x7d'] := by
  induction parts with
  | nil => rfl
  | cons part parts ih =>
      rw [List.map_cons, laterMembers_cons, ← ih]
      rfl

/-- A written object is its opening brace and its members. -/
theorem objectText_plain (parts : List (String × List Char)) :
    objectText [] (parts.map fun part => plainMember part.1 part.2) =
      '\x7b' :: membersText [] parts := by
  cases parts with
  | nil => rfl
  | cons part parts =>
      simp [objectText, membersText, membersText_comma, plainMember, Member.text]

/-- A written member is cut in its key, behind it or behind the colon. -/
theorem unfinished_or_value {part : String × List Char} {s : List Char}
    (hlead : lead = [] ∨ lead = [',']) (hpart : Pending fields found part)
    (h : Cut p (lead ++ '"' :: (part.1.toList ++ '"' :: ':' :: s))) :
    Unfinished fields lead found p ∨
      ∃ q, p = lead ++ '"' :: (part.1.toList ++ '"' :: ':' :: q) ∧ Cut q s := by
  obtain ⟨read, xs, hname, -, -⟩ := hpart.known
  -- The place of the cut, from the left: the lead, the quote, the key, its quote and the colon.
  rcases h.append with hcut | ⟨q, rfl, hq⟩
  · rcases hlead with rfl | rfl
    · exact absurd hcut not_cut_nil
    · rcases hcut.cons with rfl | ⟨q, -, hq⟩
      · exact .inl .behind
      · exact absurd hq not_cut_nil
  rcases hq.cons with rfl | ⟨key, rfl, hkey⟩
  · rw [List.append_nil]
    exact .inl .before
  rcases hkey.append with hcut | ⟨r, rfl, hr⟩
  · refine .inl (.key (List.all_eq_true.mpr fun c hc => ?_))
    exact List.all_eq_true.mp hpart.plain c (List.IsPrefix.subset hcut.isPrefix hc)
  rcases hr.cons with rfl | ⟨u, rfl, hu⟩
  · rw [List.append_nil]
    exact .inl (.key hpart.plain)
  rcases hu.cons with rfl | ⟨v, rfl, hv⟩
  · exact .inl (.colon hpart.plain hname hpart.fresh)
  · exact .inr ⟨v, rfl, hv⟩

/-- **Members.**  Wherever written members are cut, an unfinished object is left. -/
theorem unfinished_of_cut (hlead : lead = [] ∨ lead = [','])
    (hparts : ∀ part ∈ parts, Pending fields found part) (hnames : (parts.map Prod.fst).Nodup)
    (h : Cut p (membersText lead parts)) : Unfinished fields lead found p := by
  induction parts generalizing found lead p with
  | nil =>
      rcases h.cons with rfl | ⟨q, -, hq⟩
      · exact .behind
      · exact absurd hq not_cut_nil
  | cons part parts ih =>
      obtain ⟨hpart, hparts⟩ := List.forall_mem_cons.mp hparts
      obtain ⟨hfirst, hnames⟩ := List.nodup_cons.mp hnames
      obtain ⟨read, xs, hname, hread, hbreaks⟩ := hpart.known
      rcases unfinished_or_value hlead hpart h with hbroken | ⟨q, rfl, hq⟩
      · exact hbroken
      rcases hq.append with hcut | ⟨r, rfl, hr⟩
      · exact .value hpart.plain hname hpart.fresh (hbreaks q hcut)
      · -- The member is whole, and its name must not come again behind it.
        refine .next hpart.plain hname hpart.fresh hread (ih (.inr rfl) (fun other hother => ?_)
          hnames hr)
        have hother' := hparts other hother
        have hne : other.1 ≠ part.1 := fun heq =>
          hfirst (heq ▸ List.mem_map.mpr ⟨other, hother, rfl⟩)
        exact ⟨hother'.plain, List.not_mem_cons_of_ne_of_not_mem hne hother'.fresh, hother'.known⟩

end

/-! ## Written forms -/

variable {form : Form Float32}

/-- A form is written as the object of its numbers. -/
theorem Library.Writes.write_eq (hW : L.Writes) (form : Form Float32) :
    L.write form = (form.map fun x => L.write (.scalar x)).json := by
  induction form using Form.induction_parts with
  | scalar x => rfl
  | record name fields ih =>
      rw [hW.record, Form.map, Form.json_record, Fields.parts_map, List.map_map]
      congr 1
      exact List.map_congr_left fun p hp => congrArg (plainMember p.1) (ih p hp)

/-- A finite number is written as a token. -/
theorem Library.Reads.isToken_write (hL : L.Reads) (hW : L.Writes) {x : Float32}
    (hx : x.isFinite = true) : L.IsToken (L.write (.scalar x)) := by
  obtain ⟨l, hl, hshort⟩ := hW.finite hx
  exact hL.inRange hl hshort

/-- A written form of finite numbers is read. -/
theorem reads_write (hL : L.Reads) (hW : L.Writes) (hform : form.wellNamed = true)
    (hfinite : ∀ x ∈ form.leaves, x.isFinite = true) :
    ReadsTo (L.read form.bare) (L.write form)
      (form.leaves.map fun x => L.tokenValue (L.write (.scalar x))) := by
  have hnamed : (form.map fun x => L.write (.scalar x)).wellNamed = true := by
    rwa [Form.wellNamed_map]
  have htokens : ∀ t ∈ (form.map fun x => L.write (.scalar x)).leaves, L.IsToken t := by
    rw [Form.leaves_map, List.forall_mem_map]
    exact fun x hx => hL.isToken_write hW (hfinite x hx)
  have hread := (Form.allRead_presents hL _ hnamed htokens _ (Form.presents_json _ hnamed)).2
  rwa [Form.bare_map, ← hW.write_eq, Form.leaves_map, List.map_map] at hread

/-- The written text of a record is truncated wherever it is cut, if that of each part is, or is
read to the end of the text. -/
theorem record_cut (hL : L.Reads) (hT : L.Truncates) (hW : L.Writes) {name : String}
    {fields : Fields Float32} {p : List Char} (hform : (Form.record name fields).wellNamed = true)
    (hfinite : ∀ x ∈ (Form.record name fields).leaves, x.isFinite = true)
    (hbreaks : ∀ part ∈ fields.parts, Breaks (L.read part.2.bare) (L.write part.2))
    (h : Cut p (L.write (.record name fields))) :
    L.read (Form.record name fields).bare p = .error .truncated := by
  obtain ⟨hnames, hparts⟩ := Form.wellNamed_record hform
  have hplain := Fields.plain_keys fields (Form.wellNamed_fields hform)
  rw [Form.leaves, Fields.leaves_eq] at hfinite
  have htext : L.write (.record name fields) =
      '\x7b' :: membersText [] (fields.parts.map fun part => (part.1, L.write part.2)) := by
    rw [hW.record, ← objectText_plain, List.map_map]
    rfl
  have hpending : ∀ part ∈ fields.parts.map fun part => (part.1, L.write part.2),
      Pending (L.readers (fields.map fun _ => ())) [] part := by
    rw [List.forall_mem_map]
    intro part hpart
    have hread := reads_write hL hW (hparts part hpart) fun x hx =>
      hfinite x (List.mem_flatMap.mpr ⟨part, hpart, hx⟩)
    refine ⟨hplain part hpart, List.not_mem_nil, L.read part.2.bare, _, ?_, hread,
      hbreaks part hpart⟩
    rw [Fields.readers_bare, lookup_map_right fun part : Form Float32 => L.read part.bare,
      lookup_of_mem hnames hpart]
    rfl
  rw [htext] at h
  rcases h.cons with rfl | ⟨q, rfl, hq⟩
  · exact hT.empty _
  · refine hT.object (unfinished_of_cut (.inl rfl) hpending ?_ hq)
    rwa [List.map_map]

/-- Wherever the text of a form is cut, what is there is truncated, or is read to its end. -/
theorem breaks_write (hL : L.Reads) (hT : L.Truncates) (hW : L.Writes) (form : Form Float32)
    (hform : form.wellNamed = true) (hfinite : ∀ x ∈ form.leaves, x.isFinite = true) :
    Breaks (L.read form.bare) (L.write form) := by
  induction form using Form.induction_parts with
  | scalar x =>
      obtain ⟨l, hl, hshort⟩ := hW.finite (hfinite x (List.mem_singleton.mpr rfl))
      exact breaks_number hL hT hl hshort
  | record name fields ih =>
      intro p hp
      refine .inl (record_cut hL hT hW hform hfinite (fun part hpart => ?_) hp)
      rw [Form.leaves, Fields.leaves_eq] at hfinite
      exact ih part hpart ((Form.wellNamed_record hform).2 part hpart) fun x hx =>
        hfinite x (List.mem_flatMap.mpr ⟨part, hpart, hx⟩)

/-! ## All kinds of value -/

open Components (toList)
open Layout (EveryKind Lawful shape typeName)

/-- The text of a value is truncated wherever it is cut. -/
theorem ofJson_cut {F : Type → Type} [Layout F] [Lawful F] (hL : L.Reads) (hT : L.Truncates)
    (hW : L.Writes) (hF : (shape F).wellNamed = true) (hname : typeName F ≠ "") {v : F Float32}
    (hv : Components.isFinite v = true) {text : String}
    (h : Cut text.toList (L.write (Layout.form v))) : L.ofJson F text = .error .truncated := by
  have hform := wellNamed_form hF v
  have hfinite : ∀ x ∈ (Layout.form v).leaves, x.isFinite = true := by
    rw [Lawful.leaves_form]
    exact List.all_eq_true.mp hv
  have hread : L.read (shape F) text.toList = .error .truncated := by
    rw [typeName, Layout.shape_eq v] at hname
    rw [← bare_form v]
    cases hrecord : Layout.form v with
    | scalar x =>
        rw [hrecord] at hname
        exact absurd rfl hname
    | record name fields =>
        rw [hrecord] at h hform hfinite
        refine record_cut hL hT hW hform hfinite (fun part hpart => ?_) h
        rw [Form.leaves, Fields.leaves_eq] at hfinite
        exact breaks_write hL hT hW part.2 ((Form.wellNamed_record hform).2 part hpart)
          fun x hx => hfinite x (List.mem_flatMap.mpr ⟨part, hpart, hx⟩)
  rw [Library.ofJson, hL.all_error hread]
  rfl

/-- **Truncation.**  The text of a value of any kind whose components are finite is truncated
wherever it is cut, before its first character as well, with every library that keeps the rules. -/
theorem cut_short_is_truncated :
    EveryKind fun F _ => ∀ L : Library, L.Reads → L.Truncates → L.Writes →
      ∀ (v : F Float32) (text : String), Components.isFinite v = true →
        text.toList <+: (L.toJson v).toList → text ≠ L.toJson v →
          L.ofJson F text = .error .truncated := by
  refine everyKind_of_wellNamed fun F _ _ hname hF L hL hT hW v text hv hstart hne => ?_
  rw [Library.toJson, String.toList_ofList] at hstart
  refine ofJson_cut hL hT hW hF hname hv (cut_of_isPrefix hstart fun heq => hne ?_)
  rw [Library.toJson, ← heq, String.ofList_toList]

/-- A plane that breaks off behind the sign of an exponent in its normal, in its last key and
before its last brace. -/
theorem broken_plane_is_truncated :
    library.ofJson Plane "\x7b\"normal\":\x7b\"x\":1.5e-" = .error .truncated ∧
      library.ofJson Plane "\x7b\"normal\":\x7b\"x\":1.5e-7,\"y\":-0.0,\"z\":1e-45\x7d,\"" =
        .error .truncated ∧
      library.ofJson Plane
          "\x7b\"normal\":\x7b\"x\":1.5e-7,\"y\":-0.0,\"z\":1e-45\x7d,\"d\":-8.0" =
        .error .truncated := by
  obtain ⟨-, -, -, -, hplane, -⟩ := cut_short_is_truncated
  have hcut := hplane library reads_library (truncates_libraryOf _) (writes_libraryOf _)
    ⟨⟨1.5e-7, -0, .ofBits 1⟩, -8⟩
  have htext : library.toJson (⟨⟨1.5e-7, -0, .ofBits 1⟩, -8⟩ : Plane Float32) =
      "\x7b\"normal\":\x7b\"x\":1.5e-7,\"y\":-0.0,\"z\":1e-45\x7d,\"d\":-8.0\x7d" := by
    decide +kernel
  rw [htext] at hcut
  exact ⟨hcut _ (by decide +kernel) (by decide +kernel) (by decide),
    hcut _ (by decide +kernel) (by decide +kernel) (by decide),
    hcut _ (by decide +kernel) (by decide +kernel) (by decide)⟩

end Json

end Spatial
