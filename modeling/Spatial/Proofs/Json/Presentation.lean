import Mathlib
import Spatial.Proofs.Layout
import Spatial.Proofs.Json.Rules

/-!
# Presentations of a value

A value may be presented in many ways: a record as an array of its parts or an object of
them, the object with its members in any order and any unknown members between them, and
blanks around every token.  A presentation keeps nothing but the tokens of the numbers, and
which part each of them belongs to.

1.  Every presentation of the same tokens is read to the same value, that of the plain
    array.
2.  A text in which a field is missing, comes twice or is `null`, at any depth, is a
    mismatch, if it is well-formed otherwise.

Both hold of every library that keeps the rules on reading, and are inductions on the form: what
is known of the parts of a record gives what its elements or members come to, and a rule what the
record comes to.
-/

namespace Spatial

variable {α β γ : Type}

mutual

/-- What holds of every scalar, and of a record if it holds of its parts, holds of every form. -/
theorem Form.induction_parts {P : Form α → Prop} (scalar : ∀ a, P (.scalar a))
    (record : ∀ name fields, (∀ p ∈ Fields.parts fields, P p.2) → P (.record name fields)) :
    (form : Form α) → P form
  | .scalar a => scalar a
  | .record name fields => record name fields (fields.induction_parts scalar record)

/-- The same for every part of a record. -/
theorem Fields.induction_parts {P : Form α → Prop} (scalar : ∀ a, P (.scalar a))
    (record : ∀ name fields, (∀ p ∈ Fields.parts fields, P p.2) → P (.record name fields)) :
    (fields : Fields α) → ∀ p ∈ fields.parts, P p.2
  | .nil => fun _ hp => absurd hp List.not_mem_nil
  | .cons _ part rest => List.forall_mem_cons.mpr
      ⟨part.induction_parts scalar record, rest.induction_parts scalar record⟩

end

namespace Fields

/-- The scalars of a record are those of its parts. -/
theorem leaves_eq : (fields : Fields α) →
    fields.leaves = fields.parts.flatMap (·.2.leaves)
  | .nil => rfl
  | .cons _ part rest => congrArg (part.leaves ++ ·) rest.leaves_eq

end Fields

mutual

/-- In every record the keys are distinct, and each stands for itself in a string. -/
def Form.wellNamed : Form α → Bool
  | .scalar _ => true
  | .record _ fields => fields.keys.Nodup && fields.wellNamed

/-- The keys of every part are distinct, and each key stands for itself in a string. -/
def Fields.wellNamed : Fields α → Bool
  | .nil => true
  | .cons key part rest => key.toList.all Json.isPlain && part.wellNamed && rest.wellNamed

/-- The keys of the parts, in order. -/
def Fields.keys : Fields α → List String
  | .nil => []
  | .cons key _ rest => key :: rest.keys

end

namespace Json

/-! ## Tokens -/

namespace Library

variable (L : Library) {token : List Char} {x : Float32}

/-- The token is read as some binary32 number. -/
def IsToken (token : List Char) : Prop := ∃ x, L.ReadsAs token x

/-- The binary32 number that a token is read as. -/
def tokenValue (token : List Char) : Float32 :=
  match L.readAll (.scalar ()) token with
  | .ok [x] => x
  | _ => 0

variable {L}

/-- What a token is read as is its value. -/
theorem ReadsAs.tokenValue_eq (h : L.ReadsAs token x) : L.tokenValue token = x := by
  rw [tokenValue, h.2]

/-- A token is read as its value. -/
theorem IsToken.readsAs (h : L.IsToken token) : L.ReadsAs token (L.tokenValue token) := by
  obtain ⟨x, hx⟩ := h
  rwa [hx.tokenValue_eq]

/-- A token is read as one number only. -/
theorem readsAs_rightUnique : Relator.RightUnique L.ReadsAs := fun _ _ _ hx hy =>
  hx.tokenValue_eq.symm.trans hy.tokenValue_eq

/-- A number starts a value. -/
theorem ReadsAs.starts (h : L.ReadsAs token x) : Starts token := by
  obtain ⟨⟨l, hl⟩, -⟩ := h
  obtain ⟨c, u, rfl, hc⟩ := hl.exists_head
  exact ⟨c, u, rfl, isBlank_of_number hc, ne_of_number hc (by decide)⟩

end Library

/-! ## Texts of a form -/

/-- A set of texts. -/
abbrev Texts := List Char → Prop

/-- The value of a member is a text of its part; without such a part it is any value. -/
def Member.Fits (parts : List (String × Texts)) (m : Member) : Prop :=
  match parts.lookup m.name with
  | some part => part m.value
  | none => WellFormed .value m.value

/-- An array with an element for each part. -/
def ArrayOf (parts : List (String × Texts)) : Texts := fun text =>
  ∃ es : List Element, text = arrayText es ∧ (∀ e ∈ es, e.Proper) ∧
    List.Forall₂ (fun part e => part.2 e.value) parts es

/-- An object with one member for each part, in any order, and any other members. -/
def ObjectOf (parts : List (String × Texts)) : Texts := fun text =>
  ∃ (gap : List Char) (ms : List Member), text = objectText gap ms ∧ Blank gap ∧
    (∀ m ∈ ms, m.Proper) ∧ (∀ m ∈ ms, m.Fits parts) ∧
    (knownNames (parts.map Prod.fst) ms).Perm (parts.map Prod.fst)

end Json

mutual

/-- The texts that present a form whose scalars are tokens. -/
def Form.Presents : Form (List Char) → Json.Texts
  | .scalar token => fun text => text = token
  | .record _ fields => fun text =>
    Json.ArrayOf fields.presented text ∨ Json.ObjectOf fields.presented text

/-- The texts that present each part. -/
def Fields.presented : Fields (List Char) → List (String × Json.Texts)
  | .nil => []
  | .cons key part rest => (key, part.Presents) :: rest.presented

end

/-- The text presents tokens that are read, in the shape of a form. -/
def Form.Complete (L : Json.Library) (form : Form α) : Json.Texts := fun text =>
  ∃ tokens : Form (List Char), tokens.bare = form.bare ∧
    (∀ t ∈ tokens.leaves, L.IsToken t) ∧ tokens.Presents text

namespace Json

/-- The complete texts of a part and its spoiled ones. -/
structure Sorted where
  /-- The texts that present tokens. -/
  complete : Texts
  /-- The texts in which something is missing, twice or null. -/
  spoiled : Texts

/-- A text of the part, complete or spoiled. -/
def Sorted.either (part : Sorted) : Texts := fun text => part.complete text ∨ part.spoiled text

/-- An array with an element for each part, one of which is spoiled. -/
def SpoiledArray (parts : List (String × Sorted)) : Texts := fun text =>
  ∃ es : List Element, text = arrayText es ∧ (∀ e ∈ es, e.Proper) ∧
    List.Forall₂ (fun part e => part.2.either e.value) parts es ∧
    ∃ p ∈ parts.zip es, p.1.2.spoiled p.2.value

/-- An object with a member that is spoiled, or a part that has no member or more than one. -/
def SpoiledObject (parts : List (String × Sorted)) : Texts := fun text =>
  ∃ (gap : List Char) (ms : List Member), text = objectText gap ms ∧ Blank gap ∧
    (∀ m ∈ ms, m.Proper) ∧
    (∀ m ∈ ms, m.Fits (parts.map fun part => (part.1, part.2.either))) ∧
    ((∃ m ∈ ms, ∃ part, parts.lookup m.name = some part ∧ part.spoiled m.value) ∨
      ¬(knownNames (parts.map Prod.fst) ms).Perm (parts.map Prod.fst))

end Json

mutual

/-- The texts in which a field is missing, comes twice or is null, and that are well-formed
otherwise. -/
def Form.Spoiled (L : Json.Library) : Form α → Json.Texts
  | .scalar _ => fun text => text = Json.nullWord
  | .record _ fields => fun text =>
    Json.SpoiledArray (fields.sorted L) text ∨ Json.SpoiledObject (fields.sorted L) text

/-- The complete texts of each part and its spoiled ones. -/
def Fields.sorted (L : Json.Library) : Fields α → List (String × Json.Sorted)
  | .nil => []
  | .cons key part rest => (key, ⟨part.Complete L, part.Spoiled L⟩) :: rest.sorted L

end

namespace Fields

/-- The keys of a record are the names of its parts. -/
theorem keys_eq : (fields : Fields α) → fields.keys = fields.parts.map Prod.fst
  | .nil => rfl
  | .cons _ _ rest => congrArg (List.cons _) rest.keys_eq

/-- The presentations of a record are those of its parts, each under its name. -/
theorem presented_eq : (fields : Fields (List Char)) →
    fields.presented = fields.parts.map fun p => (p.1, p.2.Presents)
  | .nil => rfl
  | .cons _ _ rest => congrArg (List.cons _) rest.presented_eq

/-- What is complete and what is spoiled, for each part under its name. -/
theorem sorted_eq (L : Json.Library) : (fields : Fields α) →
    fields.sorted L = fields.parts.map fun p => (p.1, ⟨p.2.Complete L, p.2.Spoiled L⟩)
  | .nil => rfl
  | .cons _ _ rest => congrArg (List.cons _) (rest.sorted_eq L)

/-- The names of a record are written as they are. -/
theorem plain_keys : (fields : Fields α) → fields.wellNamed = true →
    ∀ p ∈ fields.parts, p.1.toList.all Json.isPlain = true
  | .nil, _ => fun _ hp => absurd hp List.not_mem_nil
  | .cons key part rest, h => by
      rw [wellNamed, Bool.and_eq_true, Bool.and_eq_true] at h
      exact List.forall_mem_cons.mpr ⟨h.1.1, rest.plain_keys h.2⟩

/-- The parts of a record are well named. -/
theorem wellNamed_parts : (fields : Fields α) → fields.wellNamed = true →
    ∀ p ∈ fields.parts, p.2.wellNamed = true
  | .nil, _ => fun _ hp => absurd hp List.not_mem_nil
  | .cons key part rest, h => by
      rw [wellNamed, Bool.and_eq_true, Bool.and_eq_true] at h
      exact List.forall_mem_cons.mpr ⟨h.1.2, rest.wellNamed_parts h.2⟩

end Fields

/-- A record is well named where its list of parts is. -/
theorem Form.wellNamed_fields {name : String} {fields : Fields α}
    (h : (Form.record name fields).wellNamed = true) : fields.wellNamed = true := by
  rw [Form.wellNamed, Bool.and_eq_true] at h
  exact h.2

/-- No two parts of a record have one name, and each part is well named. -/
theorem Form.wellNamed_record {name : String} {fields : Fields α}
    (h : (Form.record name fields).wellNamed = true) :
    (fields.parts.map Prod.fst).Nodup ∧ ∀ p ∈ fields.parts, p.2.wellNamed = true := by
  rw [Form.wellNamed, Bool.and_eq_true, decide_eq_true_eq, Fields.keys_eq] at h
  exact ⟨h.1, fields.wellNamed_parts h.2⟩

/-! ## Reading a presentation -/

namespace Json

/-- An array starts a value. -/
theorem starts_arrayText (es : List Element) : Starts (arrayText es) := by
  cases es with
  | nil => exact ⟨_, _, rfl, by decide⟩
  | cons e es => exact ⟨_, _, rfl, by decide⟩

/-- An object starts a value. -/
theorem starts_objectText (gap : List Char) (ms : List Member) : Starts (objectText gap ms) := by
  cases ms with
  | nil => exact ⟨_, _, rfl, by decide⟩
  | cons m ms => exact ⟨_, _, rfl, by decide⟩

/-- Every text of a set starts a value, and is read to given scalars. -/
def AllRead (texts : Texts) (read : Reader) (xs : List Float32) : Prop :=
  ∀ text, texts text → Starts text ∧ ReadsTo read text xs

/-- Every text of a set starts a value, and is read to some scalars or refused. -/
def AllHandled (texts : Texts) (read : Reader) : Prop :=
  ∀ text, texts text → Starts text ∧ Handled read text

section

variable {L : Library} {γ : Type} {parts : List (String × γ)} {name : String}
  {fields : Fields Unit}

/-- A relation between lists is weakened at the members of the first. -/
theorem forall₂_imp_of_mem {δ ε : Type} {R S : δ → ε → Prop} {as : List δ} {bs : List ε}
    (h : List.Forall₂ R as bs) (himp : ∀ a ∈ as, ∀ b, R a b → S a b) : List.Forall₂ S as bs := by
  induction h with
  | nil => exact .nil
  | cons hab _ ih =>
      obtain ⟨hhead, htail⟩ := List.forall_mem_cons.mp himp
      exact .cons (hhead _ hab) (ih htail)

/-- What a relation says of its right side holds of the second list. -/
theorem forall_of_forall₂ {δ ε : Type} {P : ε → Prop} {as : List δ} {bs : List ε}
    (h : List.Forall₂ (fun _ b => P b) as bs) : ∀ b ∈ bs, P b := by
  induction h with
  | nil => exact fun _ hb => absurd hb List.not_mem_nil
  | cons hab _ ih => exact List.forall_mem_cons.mpr ⟨hab, ih⟩

/-- A member that fits holds a text of its part, or is unknown and holds any value. -/
theorem Member.Fits.cases (texts : γ → Texts) {m : Member}
    (h : m.Fits (parts.map fun p => (p.1, texts p.2))) :
    (∃ part, parts.lookup m.name = some part ∧ texts part m.value) ∨
      parts.lookup m.name = none ∧ WellFormed .value m.value := by
  rw [Member.Fits, lookup_map_right] at h
  cases hlookup : parts.lookup m.name with
  | none =>
      rw [hlookup] at h
      exact .inr ⟨rfl, h⟩
  | some part =>
      rw [hlookup] at h
      exact .inl ⟨part, rfl, h⟩

/-- The readers of a record have the names of its parts. -/
theorem keys_readers {read : γ → Reader}
    (hfields : L.readers fields = parts.map fun p => (p.1, read p.2)) :
    (L.readers fields).map Prod.fst = parts.map Prod.fst := by
  rw [hfields, List.map_map]
  rfl

/-- An array whose elements are read is read to their scalars in order. -/
theorem allRead_arrayOf (hL : L.Reads) (texts : γ → Texts) (read : γ → Reader)
    (xs : γ → List Float32)
    (hfields : L.readers fields = parts.map fun p => (p.1, read p.2))
    (h : ∀ p ∈ parts, AllRead (texts p.2) (read p.2) (xs p.2)) :
    AllRead (ArrayOf (parts.map fun p => (p.1, texts p.2))) (L.read (.record name fields))
      (parts.flatMap fun p => xs p.2) := by
  rintro text ⟨es, rfl, hproper, hparts⟩
  rw [List.forall₂_map_left_iff] at hparts
  have hread := forall₂_imp_of_mem hparts fun p hp e he => h p hp e.value he
  have hstarts := forall_of_forall₂ (hread.imp fun _ _ he => he.1)
  have hpairs : List.Forall₂ (fun part (e : Element) => ReadsTo part.1 e.value part.2)
      (parts.map fun p => (read p.2, xs p.2)) es := by
    rw [List.forall₂_map_left_iff]
    exact hread.imp fun _ _ he => he.2
  have hlists := lists_of_reads hpairs
  simp only [List.map_map, Function.comp_def] at hlists
  refine ⟨starts_arrayText es, hL.array hproper hstarts ?_⟩
  rw [hfields, List.map_map]
  exact hlists

/-- An object whose fields are read is read to their scalars in the order of the record. -/
theorem allRead_objectOf (hL : L.Reads) (texts : γ → Texts) (read : γ → Reader)
    (xs : γ → List Float32)
    (hfields : L.readers fields = parts.map fun p => (p.1, read p.2))
    (hnames : (parts.map Prod.fst).Nodup)
    (h : ∀ p ∈ parts, AllRead (texts p.2) (read p.2) (xs p.2)) :
    AllRead (ObjectOf (parts.map fun p => (p.1, texts p.2))) (L.read (.record name fields))
      (parts.flatMap fun p => xs p.2) := by
  rintro text ⟨pad, ms, rfl, hpad, hproper, hfits, hperm⟩
  have hkeys := keys_readers hfields
  have hreads : ∀ m ∈ ms, m.Reads (L.readers fields)
      fun n => ((parts.lookup n).map xs).getD [] := by
    intro m hm
    rw [Member.Reads, hfields, lookup_map_right]
    rcases (hfits m hm).cases texts with ⟨part, hpart, htext⟩ | ⟨hnone, hvalue⟩
    · rw [hpart]
      exact (h _ (mem_of_lookup hpart) _ htext).2
    · rw [hnone]
      exact hvalue
  refine ⟨starts_objectText pad ms, hL.object hpad hproper ?_⟩
  rw [← flatMap_lookup hnames, ← hkeys]
  refine gathers_of_perm (by rwa [hkeys]) hreads ?_
  rw [hkeys]
  simpa [List.map_map, Function.comp_def] using hperm

/-- The texts of a part are read, or its spoiled texts are refused. -/
def Settled (part : Sorted) (read : Reader) : Prop :=
  AllHandled part.either read ∧ ∀ text, part.spoiled text → Refuses read text

/-- An array with a spoiled element is refused. -/
theorem spoiledArray_refused (hL : L.Reads) (sorted : γ → Sorted) (read : γ → Reader)
    (hfields : L.readers fields = parts.map fun p => (p.1, read p.2))
    (h : ∀ p ∈ parts, Settled (sorted p.2) (read p.2)) {text : List Char}
    (htext : SpoiledArray (parts.map fun p => (p.1, sorted p.2)) text) :
    Starts text ∧ Refuses (L.read (.record name fields)) text := by
  obtain ⟨es, rfl, hproper, hparts, p, hp, hspoiled⟩ := htext
  rw [List.forall₂_map_left_iff] at hparts
  have hhandled := forall₂_imp_of_mem hparts fun p hp e he => (h p hp).1 e.value he
  have hstarts := forall_of_forall₂ (hhandled.imp fun _ _ he => he.1)
  rw [List.zip_map_left] at hp
  obtain ⟨⟨part, e⟩, hmem, rfl⟩ := List.mem_map.mp hp
  have hpart := (List.of_mem_zip hmem).1
  refine ⟨starts_arrayText es, hL.array hproper hstarts (lists_of_refused ?_ ?_)⟩
  · rw [hfields, List.map_map, List.forall₂_map_left_iff]
    exact hhandled.imp fun _ _ he => he.2
  · rw [hfields, List.map_map, List.zip_map_left]
    exact ⟨_, List.mem_map_of_mem hmem, (h part hpart).2 e.value hspoiled⟩

/-- An object with a spoiled member, or without exactly one member for each part, is refused. -/
theorem spoiledObject_refused (hL : L.Reads) (sorted : γ → Sorted) (read : γ → Reader)
    (hfields : L.readers fields = parts.map fun p => (p.1, read p.2))
    (hnames : (parts.map Prod.fst).Nodup)
    (h : ∀ p ∈ parts, Settled (sorted p.2) (read p.2)) {text : List Char}
    (htext : SpoiledObject (parts.map fun p => (p.1, sorted p.2)) text) :
    Starts text ∧ Refuses (L.read (.record name fields)) text := by
  obtain ⟨pad, ms, rfl, hpad, hproper, hfits, hflaw⟩ := htext
  have hkeys := keys_readers hfields
  have hhandled : ∀ m ∈ ms, m.Handled (L.readers fields) := by
    intro m hm
    have hfit := hfits m hm
    rw [List.map_map] at hfit
    rw [Member.Handled, hfields, lookup_map_right]
    rcases hfit.cases (fun part => (sorted part).either) with
      ⟨part, hpart, htext⟩ | ⟨hnone, hvalue⟩
    · rw [hpart]
      exact ((h _ (mem_of_lookup hpart)).1 _ htext).2
    · rw [hnone]
      exact hvalue
  have hflawed : Flawed (L.readers fields) [] ms := by
    rcases hflaw with ⟨m, hm, part, hpart, hspoiled⟩ | hperm
    · rw [lookup_map_right] at hpart
      obtain ⟨b, hb, rfl⟩ := Option.map_eq_some_iff.mp hpart
      refine .refused hm ⟨read b, ?_, (h _ (mem_of_lookup hb)).2 _ hspoiled⟩
      rw [hfields, lookup_map_right, hb]
      rfl
    · refine .of_not_perm (by rwa [hkeys]) ?_
      rw [hkeys]
      simpa [List.map_map, Function.comp_def] using hperm
  exact ⟨starts_objectText pad ms,
    hL.object hpad hproper (gathers_of_flawed hhandled hflawed List.nodup_nil)⟩

end

end Json

mutual

/-- Two functions applied one after the other are one. -/
theorem Form.map_map (f : α → β) (g : β → γ) : (form : Form α) →
    (form.map f).map g = form.map fun a => g (f a)
  | .scalar _ => rfl
  | .record name fields => congrArg (Form.record name) (fields.map_map f g)

/-- The same for the parts of a record. -/
theorem Fields.map_map (f : α → β) (g : β → γ) : (fields : Fields α) →
    (fields.map f).map g = fields.map fun a => g (f a)
  | .nil => rfl
  | .cons key part rest => by
      rw [Fields.map, Fields.map, Fields.map, part.map_map f g, rest.map_map f g]

end

/-- Without its scalars a form does not depend on what was applied to them. -/
theorem Form.bare_map (f : α → β) (form : Form α) : (form.map f).bare = form.bare :=
  form.map_map f fun _ => ()

mutual

/-- The names do not depend on the scalars. -/
theorem Form.wellNamed_map (f : α → β) : (form : Form α) →
    (form.map f).wellNamed = form.wellNamed
  | .scalar _ => rfl
  | .record _ fields => by
      have hkeys : (fields.map f).keys = fields.keys := by
        rw [Fields.keys_eq, Fields.keys_eq, Fields.parts_map, List.map_map]
        rfl
      rw [Form.map, Form.wellNamed, Form.wellNamed, hkeys, fields.wellNamed_map f]

/-- The same for the parts of a record. -/
theorem Fields.wellNamed_map (f : α → β) : (fields : Fields α) →
    (fields.map f).wellNamed = fields.wellNamed
  | .nil => rfl
  | .cons key part rest => by
      rw [Fields.map, Fields.wellNamed, Fields.wellNamed, part.wellNamed_map f,
        rest.wellNamed_map f]

end

open Json

/-- The readers of a record without its scalars. -/
theorem Fields.readers_bare (L : Library) (fields : Fields α) :
    L.readers (fields.map fun _ => ()) = fields.parts.map fun p => (p.1, L.read p.2.bare) := by
  rw [Library.readers, Fields.parts_map, List.map_map]
  rfl

section

variable {L : Library}

/-- Every text that presents a form is read to the values of its tokens. -/
theorem Form.allRead_presents (hL : L.Reads) (form : Form (List Char))
    (hform : form.wellNamed = true) (htokens : ∀ t ∈ form.leaves, L.IsToken t) :
    AllRead form.Presents (L.read form.bare) (form.leaves.map L.tokenValue) := by
  induction form using Form.induction_parts with
  | scalar token =>
      rintro text rfl
      have htoken := (htokens _ List.mem_cons_self).readsAs
      exact ⟨htoken.starts, hL.number htoken⟩
  | record name fields ih =>
      obtain ⟨hnames, hparts⟩ := wellNamed_record hform
      have hread : ∀ p ∈ fields.parts,
          AllRead p.2.Presents (L.read p.2.bare) (p.2.leaves.map L.tokenValue) := by
        intro p hp
        refine ih p hp (hparts p hp) fun t ht => htokens t ?_
        rw [Form.leaves, Fields.leaves_eq]
        exact List.mem_flatMap.mpr ⟨p, hp, ht⟩
      intro text htext
      simp only [Form.Presents, Fields.presented_eq] at htext
      simp only [Form.leaves, Fields.leaves_eq, List.map_flatMap]
      rcases htext with harray | hobject
      · exact allRead_arrayOf hL Form.Presents (fun part => L.read part.bare)
          (fun part => part.leaves.map L.tokenValue) (fields.readers_bare L) hread text harray
      · exact allRead_objectOf hL Form.Presents (fun part => L.read part.bare)
          (fun part => part.leaves.map L.tokenValue) (fields.readers_bare L) hnames hread text
          hobject

/-- A complete text of a form is read. -/
theorem Form.Complete.handled (hL : L.Reads) {form : Form α} (hform : form.wellNamed = true) :
    AllHandled (form.Complete L) (L.read form.bare) := by
  rintro text ⟨tokens, hshape, htokens, htext⟩
  have hnamed : tokens.wellNamed = true := by
    rw [← Form.wellNamed_map fun _ => (), show tokens.map _ = form.map _ from hshape,
      Form.wellNamed_map]
    exact hform
  obtain ⟨hstarts, hread⟩ := tokens.allRead_presents hL hnamed htokens text htext
  rw [hshape] at hread
  exact ⟨hstarts, .inl ⟨_, hread⟩⟩

/-- Every spoiled text of a form is refused. -/
theorem Form.spoiled_refused (hL : L.Reads) (form : Form α) (hform : form.wellNamed = true) :
    ∀ text, form.Spoiled L text → Starts text ∧ Refuses (L.read form.bare) text := by
  induction form using Form.induction_parts with
  | scalar a =>
      rintro text rfl
      exact ⟨⟨_, _, rfl, by decide⟩, hL.null⟩
  | record name fields ih =>
      obtain ⟨hnames, hparts⟩ := wellNamed_record hform
      have hsettled : ∀ p ∈ fields.parts,
          Settled ⟨p.2.Complete L, p.2.Spoiled L⟩ (L.read p.2.bare) := by
        intro p hp
        have hrefused := ih p hp (hparts p hp)
        refine ⟨?_, fun text htext => (hrefused text htext).2⟩
        rintro text (hcomplete | hspoiled)
        · exact Form.Complete.handled hL (hparts p hp) text hcomplete
        · exact ⟨(hrefused text hspoiled).1, .inr (hrefused text hspoiled).2⟩
      intro text htext
      simp only [Form.Spoiled, Fields.sorted_eq] at htext
      rcases htext with harray | hobject
      · exact spoiledArray_refused hL (fun part : Form α => ⟨part.Complete L, part.Spoiled L⟩)
          (fun part => L.read part.bare) (fields.readers_bare L) hsettled harray
      · exact spoiledObject_refused hL (fun part : Form α => ⟨part.Complete L, part.Spoiled L⟩)
          (fun part => L.read part.bare) (fields.readers_bare L) hnames hsettled hobject

end

/-! ## Plain texts -/

mutual

/-- The text of a form as arrays without blanks. -/
def Form.array : Form (List Char) → List Char
  | .scalar token => token
  | .record _ fields => '[' :: fields.array ++ [']']

/-- The texts of the parts as arrays, with commas between them. -/
def Fields.array : Fields (List Char) → List Char
  | .nil => []
  | .cons _ part .nil => part.array
  | .cons _ part rest => part.array ++ ',' :: rest.array

end

namespace Json

/-- A value in an array without blanks. -/
def plainElement (value : List Char) : Element := ⟨[], value, []⟩

/-- An element without blanks is proper. -/
theorem plainElement_proper (value : List Char) : (plainElement value).Proper :=
  ⟨blank_nil, blank_nil⟩

end Json

/-- The text of the parts of a record as an array is that of its elements. -/
theorem Fields.array_eq : (fields : Fields (List Char)) →
    fields.array = (laterElements (fields.parts.map fun p => plainElement p.2.array)).tail
  | .nil => rfl
  | .cons _ part .nil => by
      simp [Fields.array, Fields.parts, laterElements, plainElement, Element.text]
  | .cons _ part (.cons key next rest) => by
      show part.array ++ ',' :: (Fields.cons key next rest).array = _
      rw [Fields.array_eq (.cons key next rest)]
      simp [Fields.parts, laterElements, plainElement, Element.text]

/-- The plain array presents a form. -/
theorem Form.presents_array (form : Form (List Char)) : form.Presents form.array := by
  induction form using Form.induction_parts with
  | scalar token => rfl
  | record name fields ih =>
      refine .inl ⟨fields.parts.map fun p => plainElement p.2.array, ?_, ?_, ?_⟩
      · have happend := arrayText_append (fields.parts.map fun p => plainElement p.2.array) []
        rw [List.append_nil] at happend
        rw [happend, Form.array, Fields.array_eq]
        rfl
      · intro e he
        obtain ⟨p, -, rfl⟩ := List.mem_map.mp he
        exact plainElement_proper _
      · rw [Fields.presented_eq, List.forall₂_map_left_iff, List.forall₂_map_right_iff,
          List.forall₂_same]
        exact ih

/-- The parts of a record of scalars. -/
theorem Fields.parts_ofScalars : (tokens : List (String × α)) →
    (Fields.ofScalars tokens).parts = tokens.map fun p => (p.1, .scalar p.2)
  | [] => rfl
  | _ :: rest => congrArg (List.cons _) (Fields.parts_ofScalars rest)

/-- An array of its tokens presents a record of scalars. -/
theorem Form.presents_arrayText (name : String) {tokens : List (String × List Char)}
    {es : List Element} (hproper : ∀ e ∈ es, e.Proper)
    (hvalues : tokens.map Prod.snd = es.map Element.value) :
    (Form.record name (.ofScalars tokens)).Presents (arrayText es) := by
  refine .inl ⟨es, rfl, hproper, ?_⟩
  have hpairs : List.Forall₂ Eq (es.map Element.value) (tokens.map Prod.snd) := by
    rw [hvalues, List.forall₂_eq_eq_eq]
  rw [List.forall₂_map_left_iff, List.forall₂_map_right_iff] at hpairs
  rw [Fields.presented_eq, Fields.parts_ofScalars, List.map_map, List.forall₂_map_left_iff]
  exact hpairs.flip

/-- The members of a written object have the names of its fields, in order. -/
theorem knownNames_plainMember {γ : Type} (parts : List (String × γ)) (f : γ → List Char) :
    knownNames (parts.map Prod.fst) (parts.map fun p => plainMember p.1 (f p.2)) =
      parts.map Prod.fst := by
  rw [knownNames, List.map_map]
  exact List.filter_eq_self.mpr fun n hn => by simpa [plainMember] using hn

/-- A member of a written object holds the text of its part. -/
theorem fits_plainMember {γ : Type} {parts : List (String × γ)} (texts : γ → Texts)
    {f : γ → List Char} (hnames : (parts.map Prod.fst).Nodup)
    (h : ∀ p ∈ parts, texts p.2 (f p.2)) :
    ∀ m ∈ parts.map fun p => plainMember p.1 (f p.2),
      m.Fits (parts.map fun p => (p.1, texts p.2)) := by
  intro m hm
  obtain ⟨p, hp, rfl⟩ := List.mem_map.mp hm
  have hlookup : parts.lookup p.1 = some p.2 := lookup_of_mem hnames hp
  rw [Member.Fits, lookup_map_right]
  show match (parts.lookup p.1).map texts with
    | some part => part (f p.2)
    | none => WellFormed .value (f p.2)
  rw [hlookup]
  exact h p hp

/-- Members without blanks are proper where their keys are plain. -/
theorem plainMembers_proper {γ : Type} {parts : List (String × γ)} (f : γ → List Char)
    (h : ∀ p ∈ parts, p.1.toList.all isPlain = true) :
    ∀ m ∈ parts.map fun p => plainMember p.1 (f p.2), m.Proper := by
  intro m hm
  obtain ⟨p, hp, rfl⟩ := List.mem_map.mp hm
  exact plainMember_proper (h p hp) _

/-- The written object presents a form. -/
theorem Form.presents_json (form : Form (List Char)) (hform : form.wellNamed = true) :
    form.Presents form.json := by
  induction form using Form.induction_parts with
  | scalar token => rfl
  | record name fields ih =>
      obtain ⟨hnames, hparts⟩ := wellNamed_record hform
      have hplain := Fields.plain_keys fields (wellNamed_fields hform)
      have hpresents : ∀ p ∈ fields.parts, p.2.Presents p.2.json :=
        fun p hp => ih p hp (hparts p hp)
      refine .inr ⟨[], _, Form.json_record name fields, blank_nil,
        plainMembers_proper Form.json hplain, ?_, ?_⟩
      · rw [Fields.presented_eq]
        exact fits_plainMember Form.Presents hnames hpresents
      · rw [Fields.presented_eq, List.map_map]
        exact .of_eq (knownNames_plainMember fields.parts Form.json)

/-! ## All kinds of value -/

namespace Json

open Components (toList)
open Layout (EveryKind Lawful form shape typeName)

/-- A text of a set, with blanks around it. -/
def Padded (texts : Texts) : Texts := fun s =>
  ∃ before text after : List Char, Blank before ∧ Blank after ∧ texts text ∧
    s = before ++ (text ++ after)

/-- A text without blanks around it is one with them. -/
theorem Padded.plain {texts : Texts} {text : List Char} (h : texts text) : Padded texts text :=
  ⟨[], text, [], blank_nil, blank_nil, h, by simp⟩

section

variable {L : Library} {F : Type → Type} [Layout F] [Lawful F]

/-- The forms of values of a kind differ in their scalars only. -/
theorem bare_form {α : Type} (v : F α) : (form v).bare = shape F := (Layout.shape_eq v).symm

/-- The names of the parts of a kind are those of its values. -/
theorem wellNamed_form (hF : (shape F).wellNamed = true) {α : Type} (v : F α) :
    (form v).wellNamed = true := by
  rwa [Layout.shape_eq v, Form.wellNamed_map] at hF

/-- A text with blanks around it is read if the text is. -/
theorem ofJson_of_readsTo (hL : L.Reads) {texts : Texts} {v : F Float32}
    (hread : ∀ t, texts t → ReadsTo (L.read (shape F)) t (toList v)) {text : String}
    (htext : Padded texts text.toList) : L.ofJson F text = .ok v := by
  obtain ⟨before, body, after, hbefore, hafter, hbody, heq⟩ := htext
  have hends : Ends after := by
    simpa using ends_nil.blank_append hafter
  have hall := hL.all_ok (hread body hbody before after hbefore hends) hafter
  rw [Library.ofJson, heq, hall, ← Layout.memory_eq]
  simp only [bind, Except.bind, Layout.ofMemory?_memory]

omit [Lawful F] in
/-- A text with blanks around it is refused if the text is. -/
theorem ofJson_of_refuses (hL : L.Reads) {texts : Texts}
    (hrefuse : ∀ t, texts t → Refuses (L.read (shape F)) t) {text : String}
    (htext : Padded texts text.toList) : L.ofJson F text = .error .mismatch := by
  obtain ⟨before, body, after, hbefore, hafter, hbody, heq⟩ := htext
  have hends : Ends after := by
    simpa using ends_nil.blank_append hafter
  have hall := hL.all_error (hrefuse body hbody before after hbefore hends)
  rw [Library.ofJson, heq, hall]
  rfl

/-- Every presentation of tokens is read to the value of their numbers. -/
theorem ofJson_presents (hL : L.Reads) (hF : (shape F).wellNamed = true) {tokens : F (List Char)}
    (htokens : ∀ t ∈ toList tokens, L.IsToken t) {text : String}
    (htext : Padded (form tokens).Presents text.toList) :
    L.ofJson F text = .ok (Components.map L.tokenValue tokens) := by
  refine ofJson_of_readsTo hL (fun t ht => ?_) htext
  rw [Layout.toList_map, ← bare_form tokens, ← Lawful.leaves_form]
  rw [← Lawful.leaves_form] at htokens
  exact ((form tokens).allRead_presents hL (wellNamed_form hF tokens) htokens t ht).2

/-- Every spoiled text is a mismatch. -/
theorem ofJson_spoiled (hL : L.Reads) (hF : (shape F).wellNamed = true) {text : String}
    (htext : Padded ((shape F).Spoiled L) text.toList) : L.ofJson F text = .error .mismatch := by
  refine ofJson_of_refuses hL (fun t ht => ?_) htext
  rw [← bare_form (Components.splat () : F Unit)]
  exact ((shape F).spoiled_refused hL hF t ht).2

end

/-! ## A plane -/

/-- The elements of a normal, with a blank after the first. -/
def someNormal : List Element :=
  [⟨[], ['-', '0'], [' ']⟩, ⟨[], ['5', 'e', '-', '1'], []⟩, ⟨[], ['3'], []⟩]

/-- The members of a plane with an unknown one and an escape in a key among them. -/
def someMembers : List Member :=
  [⟨[], "d".toList, "d", [' '], [], ['1', 'E', '+', '2'], []⟩,
    ⟨[], "u".toList, "u", [], [], "\x7b\"d\":[\"\\\"\"]\x7d".toList, [' ']⟩,
    ⟨[' '], "n\\u006frmal".toList, "normal", [], [], arrayText someNormal, []⟩]

/-- The tokens of the plane. -/
def someTokens : Plane (List Char) :=
  ⟨⟨['-', '0'], ['5', 'e', '-', '1'], ['3']⟩, ['1', 'E', '+', '2']⟩

/-- A space is a blank. -/
theorem blank_space : Blank [' '] := by simp [Blank, isBlank]

/-- The tokens are numbers. -/
theorem someTokens_readAs :
    List.Forall₂ library.ReadsAs (toList someTokens) [-0, 0.5, 3, 100] := by
  have hone : IsDigits ['1'] := isDigits_singleton (by decide)
  have htwo : IsDigits ['2'] := isDigits_singleton (by decide)
  have hthree : IsDigits ['3'] := isDigits_singleton (by decide)
  have hfive : IsDigits ['5'] := isDigits_singleton (by decide)
  refine .cons ?_ (.cons ?_ (.cons ?_ (.cons ?_ .nil)))
  · exact library_readsAs (.mk true .zero .none .none) (by decide +kernel)
  · exact library_readsAs
      (.mk false (.digits (by decide) hfive) .none (.some (.inl rfl) .minus hone))
      (by decide +kernel)
  · exact library_readsAs (.mk false (.digits (by decide) hthree) .none .none) (by decide +kernel)
  · exact library_readsAs
      (.mk false (.digits (by decide) hone) .none (.some (.inr rfl) .plus htwo))
      (by decide +kernel)

/-- The tokens of the example are numbers that are read. -/
theorem someTokens_areTokens : ∀ t ∈ toList someTokens, library.IsToken t :=
  forall_of_forall₂ (someTokens_readAs.flip.imp fun x _ hx => ⟨x, hx⟩)

/-- The elements of the example are proper. -/
theorem someNormal_proper : ∀ e ∈ someNormal, e.Proper := by
  simp only [someNormal, List.forall_mem_cons]
  exact ⟨⟨blank_nil, blank_space⟩, ⟨blank_nil, blank_nil⟩, ⟨blank_nil, blank_nil⟩, by simp⟩

/-- The array presents the normal. -/
theorem someNormal_presents : (form someTokens.normal).Presents (arrayText someNormal) :=
  Form.presents_arrayText "Vector3" someNormal_proper rfl

/-- A key with an escape stands for the name of the normal. -/
theorem spells_normal : Spells "n\\u006frmal".toList "normal".toList := by
  show Spells ("n".toList ++ ("\\u006f".toList ++ "rmal".toList))
    ("n".toList ++ ("o".toList ++ "rmal".toList))
  have hescape : Spells "\\u006f".toList "o".toList := .unit (n := 0x6f) rfl rfl rfl .nil
  exact (spells_of_isPlain (by decide)).append (hescape.append (spells_of_isPlain (by decide)))

/-- The members of the example are proper, the one with an escaped key too. -/
theorem someMembers_proper : ∀ m ∈ someMembers, m.Proper := by
  simp only [someMembers, List.forall_mem_cons]
  refine ⟨⟨blank_nil, spells_of_isPlain (by decide), blank_space, blank_nil, blank_nil⟩,
    ⟨blank_nil, spells_of_isPlain (by decide), blank_nil, blank_nil, blank_space⟩,
    ⟨blank_space, spells_normal, blank_nil, blank_nil, blank_nil⟩, by simp⟩

/-- The unknown member holds an object with an array of a string. -/
theorem wellFormed_unknown : WellFormed .value "\x7b\"d\":[\"\\\"\"]\x7d".toList := by
  have hquote : WellFormed .value ['"', '\\', '"', '"'] := .string (.escape rfl .nil)
  have helement : WellFormed .elements ['"', '\\', '"', '"'] :=
    .element blank_nil blank_nil hquote
  have hmember : WellFormed .members ('"' :: 'd' :: '"' :: ':' :: "[\"\\\"\"]".toList) :=
    .member blank_nil (.plain rfl .nil) blank_nil blank_nil blank_nil (.array helement)
  exact .object hmember

/-- The members present the plane. -/
theorem someMembers_present : (form someTokens).Presents (objectText [] someMembers) := by
  refine .inr ⟨[], someMembers, rfl, blank_nil, someMembers_proper, ?_, by decide⟩
  simp only [someMembers, List.forall_mem_cons]
  exact ⟨rfl, wellFormed_unknown, someNormal_presents, by simp⟩

/-- A plane that has its normal only. -/
theorem spoiled_normal :
    (shape Plane).Spoiled library
      (objectText [] [plainMember "normal" (arrayText someNormal)]) := by
  refine .inr ⟨[], _, rfl, blank_nil, ?_, ?_, .inr (by decide)⟩
  · rw [List.forall_mem_singleton]
    exact plainMember_proper (by decide) _
  · rw [List.forall_mem_singleton]
    refine .inl ⟨form someTokens.normal, rfl, fun t ht => someTokens_areTokens t ?_,
      someNormal_presents⟩
    exact List.mem_append_left [someTokens.d] ht

/-! ## The seven kinds -/

/-- What holds of every lawful layout that is a record with a name and with plain distinct keys
holds of each of the seven kinds. -/
theorem everyKind_of_wellNamed {P : (F : Type → Type) → [Layout F] → Prop}
    (h : ∀ (F : Type → Type) [Layout F] [Lawful F], typeName F ≠ "" →
      (shape F).wellNamed = true → P F) : EveryKind P :=
  ⟨h _ (by decide) (by decide), h _ (by decide) (by decide), h _ (by decide) (by decide),
    h _ (by decide) (by decide), h _ (by decide) (by decide), h _ (by decide) (by decide),
    h _ (by decide) (by decide)⟩

/-- **Presentation does not matter.**  Tokens that are read as numbers are read to one
value, from the plain array and from every other text that presents them.  A text in which
a field is missing, comes twice or is null is a mismatch.  This is so with every library that
keeps the rules on reading. -/
theorem presentation_insignificant :
    EveryKind fun F _ => ∀ L : Library, L.Reads →
      (∀ tokens : F (List Char), (∀ t ∈ toList tokens, L.IsToken t) →
        ∃ v : F Float32, List.Forall₂ L.ReadsAs (toList tokens) (toList v) ∧
          L.ofJson F (String.ofList (form tokens).array) = .ok v ∧
          ∀ text : String, Padded (form tokens).Presents text.toList →
            L.ofJson F text = .ok v) ∧
      ∀ text : String, Padded ((shape F).Spoiled L) text.toList →
        L.ofJson F text = .error .mismatch := by
  refine everyKind_of_wellNamed fun F _ _ _ hF L hL =>
    ⟨fun tokens htokens => ?_, fun text => ?_⟩
  · refine ⟨Components.map L.tokenValue tokens, ?_, ?_, fun text => ofJson_presents hL hF htokens⟩
    · rw [Layout.toList_map, List.forall₂_map_right_iff, List.forall₂_same]
      exact fun t ht => (htokens t ht).readsAs
    · refine ofJson_presents hL hF htokens ?_
      rw [String.toList_ofList]
      exact .plain (form tokens).presents_array
  · exact ofJson_spoiled hL hF

/-- The members of a plane with an unknown one and an escaped key among them, and its normal
as an array; and a plane without its distance. -/
theorem shuffled_plane_is_read :
    library.ofJson Plane
        " \x7b\"d\" :1E+2,\"u\":\x7b\"d\":[\"\\\"\"]\x7d , \"n\\u006frmal\":[-0 ,5e-1,3]\x7d" =
        .ok ⟨⟨-0, 0.5, 3⟩, 100⟩ ∧
      library.ofJson Plane "\x7b\"normal\":[-0 ,5e-1,3]\x7d" = .error .mismatch := by
  obtain ⟨-, -, -, -, hplane, -⟩ := presentation_insignificant
  obtain ⟨hpresent, hspoiled⟩ := hplane library reads_library
  constructor
  · obtain ⟨v, hv, -, hread⟩ := hpresent someTokens someTokens_areTokens
    have hvalues : v = ⟨⟨-0, 0.5, 3⟩, 100⟩ := by
      obtain ⟨⟨a, b, c⟩, d⟩ := v
      have hlist : [a, b, c, d] = [-0, 0.5, 3, 100] :=
        Library.readsAs_rightUnique.forall₂ hv someTokens_readAs
      obtain ⟨rfl, rfl, rfl, rfl⟩ : a = -0 ∧ b = 0.5 ∧ c = 3 ∧ d = 100 := by
        simpa using hlist
      rfl
    rw [← hvalues]
    exact hread _ ⟨[' '], objectText [] someMembers, [], blank_space, blank_nil,
      someMembers_present, rfl⟩
  · exact hspoiled _ (.plain spoiled_normal)

end Json

end Spatial
