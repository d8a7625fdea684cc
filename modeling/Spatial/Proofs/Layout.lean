import Mathlib
import Spatial.Layout

/-!
# Lawful layouts

A kind of value is described several times over: by the record that is declared, by the list
of its names, by the component that each name means, by the array of its components, and by
the values that are made from an array and from a memory.  A layout is lawful if these
descriptions are of one order.

1.  The scalars of the record are the components, and a function applied to the components
    is applied to the scalars of the record.
2.  The names are the paths to the parts of the record, no two of them are the same, and
    each means the component in its place.
3.  A list makes a value exactly if it is as long as there are names, and the components
    of that value are the list.  A memory holds the value that the list makes.

All seven kinds are lawful.
-/

namespace Spatial

variable {α β : Type}

/-- The path to a part of a part: the two names with a point between them. -/
def joinPath (key path : String) : String := if path.isEmpty then key else key ++ "." ++ path

mutual

/-- The scalars of a form, each with its path. -/
def Form.named : Form α → List (String × α)
  | .scalar a => [("", a)]
  | .record _ fields => fields.named

/-- The scalars of the parts, each with its path. -/
def Fields.named : Fields α → List (String × α)
  | .nil => []
  | .cons key part rest => part.named.map (Prod.map (joinPath key) id) ++ rest.named

end

mutual

/-- Without their paths the scalars are the leaves. -/
theorem Form.map_snd_named : (form : Form α) → form.named.map Prod.snd = form.leaves
  | .scalar _ => rfl
  | .record _ fields => fields.map_snd_named

/-- The same for the parts of a record. -/
theorem Fields.map_snd_named : (fields : Fields α) → fields.named.map Prod.snd = fields.leaves
  | .nil => rfl
  | .cons key part rest => by
      have hpart := part.map_snd_named
      have hrest := rest.map_snd_named
      simp only [Fields.named, Fields.leaves, List.map_append, hrest, ← hpart, List.map_map]
      rfl

end

mutual

/-- A function applied to a form is applied to its leaves. -/
theorem Form.leaves_map (f : α → β) : (form : Form α) → (form.map f).leaves = form.leaves.map f
  | .scalar _ => rfl
  | .record _ fields => fields.leaves_map f

/-- The same for the parts of a record. -/
theorem Fields.leaves_map (f : α → β) :
    (fields : Fields α) → (fields.map f).leaves = fields.leaves.map f
  | .nil => rfl
  | .cons _ part rest => by
      simp only [Fields.map, Fields.leaves, part.leaves_map f, rest.leaves_map f, List.map_append]

end

mutual

/-- The paths do not depend on the scalars. -/
theorem Form.named_map (f : α → β) :
    (form : Form α) → (form.map f).named = form.named.map (Prod.map id f)
  | .scalar _ => rfl
  | .record _ fields => fields.named_map f

/-- The same for the parts of a record. -/
theorem Fields.named_map (f : α → β) :
    (fields : Fields α) → (fields.map f).named = fields.named.map (Prod.map id f)
  | .nil => rfl
  | .cons key part rest => by
      simp only [Fields.map, Fields.named, part.named_map f, rest.named_map f, List.map_append,
        List.map_map]
      rfl

end

namespace Layout

open Components (ofList? toList)

/-- The descriptions of a kind of value agree. -/
class Lawful (F : Type → Type) [Layout F] : Prop where
  /-- A function of the components is one of the scalars of the record. -/
  form_map {α β : Type} (f : α → β) (v : F α) : form (Components.map f v) = (form v).map f
  /-- Without its scalars every value has the same record. -/
  map_unit {α : Type} (v : F α) : Components.map (fun _ => ()) v = (Components.splat () : F Unit)
  /-- The scalars of the record are the components. -/
  leaves_form {α : Type} (v : F α) : (form v).leaves = toList v
  /-- The paths to the parts of the record are the names. -/
  paths_shape : (shape F).named.map Prod.fst = fieldNames F
  /-- No two components have one name. -/
  nodup_fieldNames : (fieldNames F).Nodup
  /-- Each name means the component in its place. -/
  map_field? {α : Type} (v : F α) : (fieldNames F).map (field? v) = (toList v).map some
  /-- No other name means a component. -/
  field?_of_notMem {α : Type} (v : F α) {name : String} (h : name ∉ fieldNames F) :
    field? v name = none
  /-- The components of a value make that value. -/
  ofList?_toList {α : Type} (v : F α) : ofList? (toList v) = some v
  /-- The value made from a list has that list for its components. -/
  toList_of_ofList? {α : Type} {l : List α} {v : F α} (h : ofList? l = some v) : toList v = l
  /-- A list of the right length makes a value. -/
  isSome_ofList? {α : Type} (l : List α) (h : l.length = fieldCount F) :
    (ofList? l : Option (F α)).isSome = true
  /-- A memory holds the value that is made from it as a list. -/
  ofMemory?_eq {α : Type} (l : List α) : (ofMemory? l : Option (F α)) = ofList? l

section

variable {F : Type → Type} [Layout F] [Lawful F]

/-- Without its scalars a value is the shape of its kind. -/
theorem shape_eq (v : F α) : shape F = (form v).map fun _ => () := by
  rw [shape, ← Lawful.map_unit v, Lawful.form_map]

/-- A function applied to the components is applied to their list. -/
theorem toList_map (f : α → β) (v : F α) : toList (Components.map f v) = (toList v).map f := by
  rw [← Lawful.leaves_form, Lawful.form_map, Form.leaves_map, Lawful.leaves_form]

/-- The identity applied to every component changes nothing. -/
theorem map_id (v : F α) : Components.map id v = v := by
  have h := Lawful.ofList?_toList (Components.map id v)
  rw [toList_map, List.map_id, Lawful.ofList?_toList] at h
  exact (Option.some.inj h).symm

/-- What is declared stands in memory in the order of the array. -/
theorem memory_eq (v : F α) : memory v = toList v := Lawful.leaves_form v

/-- The paths of every value are the names. -/
theorem paths_form (v : F α) : (form v).named.map Prod.fst = fieldNames F := by
  rw [← Lawful.paths_shape, shape_eq v, Form.named_map, List.map_map]
  rfl

/-- The scalars of the record with their paths are the components with their names. -/
theorem named_form (v : F α) : (form v).named = (fieldNames F).zip (toList v) := by
  rw [← paths_form v, ← Lawful.leaves_form, ← Form.map_snd_named]
  simpa only [List.unzip_eq_map] using (List.zip_unzip (form v).named).symm

/-- There are as many components as names. -/
theorem length_toList (v : F α) : (toList v).length = fieldCount F := by
  rw [fieldCount, ← paths_form v, ← Lawful.leaves_form, ← Form.map_snd_named, List.length_map,
    List.length_map]

/-- A list makes a value exactly if it has an element for each name. -/
theorem isSome_ofList?_iff (l : List α) :
    (ofList? l : Option (F α)).isSome = true ↔ l.length = fieldCount F := by
  constructor
  · intro h
    obtain ⟨v, hv⟩ := Option.isSome_iff_exists.mp h
    rw [← Lawful.toList_of_ofList? hv]
    exact length_toList v
  · exact Lawful.isSome_ofList? l

/-- What stands in a memory that holds a value. -/
theorem memory_of_ofMemory? {l : List α} {v : F α} (h : ofMemory? l = some v) : memory v = l := by
  rw [Lawful.ofMemory?_eq] at h
  rw [memory_eq, Lawful.toList_of_ofList? h]

/-- The memory of a value holds that value. -/
theorem ofMemory?_memory (v : F α) : ofMemory? (memory v) = some v := by
  rw [Lawful.ofMemory?_eq, memory_eq, Lawful.ofList?_toList]

end

/-! The seven kinds. -/

/-- A statement holds of each of the seven kinds of value. -/
def EveryKind (P : (F : Type → Type) → [Layout F] → Prop) : Prop :=
  P Vec2 ∧ P Vec3 ∧ P Vec4 ∧ P Quaternion ∧ P Plane ∧ P Affine2 ∧ P Matrix4

instance : Lawful Vec2 where
  form_map _ _ := rfl
  map_unit _ := rfl
  leaves_form _ := rfl
  paths_shape := by decide
  nodup_fieldNames := by decide
  map_field? _ := rfl
  field?_of_notMem _ _ h := by
    simp only [fieldNames, List.mem_cons, List.not_mem_nil, or_false, not_or] at h
    simp [field?, h]
  ofList?_toList _ := rfl
  toList_of_ofList? h := by
    simp only [ofList?] at h
    split at h <;> cases h
    rfl
  isSome_ofList?
    | [a, b], _ => rfl
  ofMemory?_eq _ := rfl

instance : Lawful Vec3 where
  form_map _ _ := rfl
  map_unit _ := rfl
  leaves_form _ := rfl
  paths_shape := by decide
  nodup_fieldNames := by decide
  map_field? _ := rfl
  field?_of_notMem _ _ h := by
    simp only [fieldNames, List.mem_cons, List.not_mem_nil, or_false, not_or] at h
    simp [field?, h]
  ofList?_toList _ := rfl
  toList_of_ofList? h := by
    simp only [ofList?] at h
    split at h <;> cases h
    rfl
  isSome_ofList?
    | [a, b, c], _ => rfl
  ofMemory?_eq _ := rfl

instance : Lawful Vec4 where
  form_map _ _ := rfl
  map_unit _ := rfl
  leaves_form _ := rfl
  paths_shape := by decide
  nodup_fieldNames := by decide
  map_field? _ := rfl
  field?_of_notMem _ _ h := by
    simp only [fieldNames, List.mem_cons, List.not_mem_nil, or_false, not_or] at h
    simp [field?, h]
  ofList?_toList _ := rfl
  toList_of_ofList? h := by
    simp only [ofList?] at h
    split at h <;> cases h
    rfl
  isSome_ofList?
    | [a, b, c, d], _ => rfl
  ofMemory?_eq _ := rfl

instance : Lawful Quaternion where
  form_map _ _ := rfl
  map_unit _ := rfl
  leaves_form _ := rfl
  paths_shape := by decide
  nodup_fieldNames := by decide
  map_field? _ := rfl
  field?_of_notMem _ _ h := by
    simp only [fieldNames, List.mem_cons, List.not_mem_nil, or_false, not_or] at h
    simp [field?, h]
  ofList?_toList _ := rfl
  toList_of_ofList? h := by
    simp only [ofList?] at h
    split at h <;> cases h
    rfl
  isSome_ofList?
    | [a, b, c, d], _ => rfl
  ofMemory?_eq _ := rfl

instance : Lawful Plane where
  form_map _ _ := rfl
  map_unit _ := rfl
  leaves_form _ := rfl
  paths_shape := by decide
  nodup_fieldNames := by decide
  map_field? _ := rfl
  field?_of_notMem _ _ h := by
    simp only [fieldNames, List.mem_cons, List.not_mem_nil, or_false, not_or] at h
    simp [field?, h]
  ofList?_toList _ := rfl
  toList_of_ofList? h := by
    simp only [ofList?] at h
    split at h <;> cases h
    rfl
  isSome_ofList?
    | [a, b, c, d], _ => rfl
  ofMemory?_eq _ := rfl

instance : Lawful Affine2 where
  form_map _ _ := rfl
  map_unit _ := rfl
  leaves_form _ := rfl
  paths_shape := by decide
  nodup_fieldNames := by decide
  map_field? _ := rfl
  field?_of_notMem _ _ h := by
    simp only [fieldNames, List.mem_cons, List.not_mem_nil, or_false, not_or] at h
    simp [field?, h]
  ofList?_toList _ := rfl
  toList_of_ofList? h := by
    simp only [ofList?] at h
    split at h <;> cases h
    rfl
  isSome_ofList?
    | [a, b, c, d, e, f], _ => rfl
  ofMemory?_eq _ := rfl

instance : Lawful Matrix4 where
  form_map _ _ := rfl
  map_unit _ := rfl
  leaves_form _ := rfl
  paths_shape := by decide
  nodup_fieldNames := by decide
  map_field? _ := rfl
  field?_of_notMem _ _ h := by
    simp only [fieldNames, List.mem_cons, List.not_mem_nil, or_false, not_or] at h
    simp [field?, h]
  ofList?_toList _ := rfl
  toList_of_ofList? h := by
    simp only [ofList?] at h
    split at h <;> cases h
    rfl
  isSome_ofList?
    | [a, b, c, d, e, f, g, h, i, j, k, l, m, n, o, p], _ => rfl
  ofMemory?_eq _ := rfl

/-- What holds of every lawful layout holds of each of the seven kinds. -/
theorem EveryKind.of_lawful {P : (F : Type → Type) → [Layout F] → Prop}
    (h : ∀ (F : Type → Type) [Layout F] [Lawful F], P F) : EveryKind P :=
  ⟨h _, h _, h _, h _, h _, h _, h _⟩

end Layout

end Spatial
