import Mathlib
import Spatial.Proofs.Json.Library

/-!
# What elements and members come to

The rules follow a text from its start.  Here they are brought to the form in which order and
place do not count.

1.  An array whose elements are all read comes to their scalars in order.  If one of them is
    refused, and none is worse than that, the array is refused.
2.  An object with one member for each part comes to the scalars of the parts in the order of the
    record, wherever the members and any unknown ones stand.
3.  An object with a member that is refused, with a part that comes twice or with one that does
    not come is refused, if no value is worse than that.

Both statements on objects are inductions on the members, for any parts found before them.  In the
first, what has been found and what is still to come are all parts, each of them once; in the
second, what is wrong is found in the first member or left to the others.
-/

namespace Spatial.Json

variable {fields : List (String × Reader)} {found : List (String × List Float32)}
  {m : Member} {ms : List Member} {seen : List String}

/-! ## Lookups -/

section

variable {γ δ : Type} {l : List (String × γ)} {n : String} {b : γ}

/-- What has a name is looked up under it. -/
theorem isSome_lookup_iff : (l.lookup n).isSome = true ↔ n ∈ l.map Prod.fst := by
  simp

/-- Nothing is looked up under a name that nothing has. -/
theorem lookup_eq_none_of_notMem (h : n ∉ l.map Prod.fst) : l.lookup n = none := by
  rw [← Option.not_isSome_iff_eq_none, isSome_lookup_iff]
  exact h

/-- What is looked up in a list that gives each name its value by a function. -/
theorem lookup_map_mk {f : String → γ} (h : n ∈ seen) :
    (seen.map fun n => (n, f n)).lookup n = some (f n) := by
  induction seen with
  | nil => simp at h
  | cons a seen ih =>
      rw [List.map_cons, List.lookup_cons]
      by_cases hname : n = a
      · rw [hname, beq_self_eq_true]
      · rw [beq_false_of_ne hname]
        exact ih ((List.mem_cons.mp h).resolve_left hname)

/-- A function of the values changes what is looked up. -/
theorem lookup_map_right (f : γ → δ) :
    (l.map fun p => (p.1, f p.2)).lookup n = (l.lookup n).map f := by
  induction l with
  | nil => rfl
  | cons p l ih =>
      rw [List.map_cons, List.lookup_cons, List.lookup_cons, ih]
      cases n == p.1 <;> rfl

/-- What is looked up stands in the list. -/
theorem mem_of_lookup (h : l.lookup n = some b) : (n, b) ∈ l := by
  obtain ⟨before, after, rfl, -⟩ := List.lookup_eq_some_iff.mp h
  simp

/-- What stands in a list of distinct names is looked up. -/
theorem lookup_of_mem (hnodup : (l.map Prod.fst).Nodup) (h : (n, b) ∈ l) :
    l.lookup n = some b := by
  induction l with
  | nil => simp at h
  | cons p l ih =>
      obtain ⟨hfresh, hnodup⟩ := List.nodup_cons.mp hnodup
      rcases List.mem_cons.mp h with rfl | h
      · exact List.lookup_cons_self
      · have hne : n ≠ p.1 := by
          rintro rfl
          exact hfresh (List.mem_map.mpr ⟨_, h, rfl⟩)
        rw [List.lookup_cons, beq_false_of_ne hne]
        exact ih hnodup h

/-- Where each part is read by its name, all are read in order. -/
theorem flatMap_lookup (hnodup : (l.map Prod.fst).Nodup) (f : γ → List δ) :
    (l.map Prod.fst).flatMap (fun n => ((l.lookup n).map f).getD []) =
      l.flatMap fun p => f p.2 := by
  rw [List.flatMap_map]
  refine List.flatMap_congr fun p hp => ?_
  rw [lookup_of_mem hnodup (b := p.2) hp]
  rfl

end

/-! ## Elements -/

/-- A value is read to some scalars, or refused. -/
def Handled (read : Reader) (value : List Char) : Prop :=
  (∃ xs, ReadsTo read value xs) ∨ Refuses read value

/-- Elements that are read come to their scalars in order. -/
theorem lists_of_reads {parts : List (Reader × List Float32)} {es : List Element}
    (h : List.Forall₂ (fun part e => ReadsTo part.1 e.value part.2) parts es) :
    Lists (parts.map Prod.fst) es (.ok (parts.map Prod.snd).flatten) := by
  induction h with
  | nil => exact .done
  | cons hvalue _ ih => exact .read hvalue ih

/-- Elements of which one is refused come to nothing, if the others are read or refused. -/
theorem lists_of_refused {reads : List Reader} {es : List Element}
    (h : List.Forall₂ (fun read e => Handled read e.value) reads es)
    (hrefused : ∃ p ∈ reads.zip es, Refuses p.1 p.2.value) :
    Lists reads es (.error .mismatch) := by
  induction h with
  | nil =>
      obtain ⟨p, hp, -⟩ := hrefused
      cases hp
  | @cons read e reads es hvalue _ ih =>
      rcases hvalue with ⟨xs, hread⟩ | hrefuses
      · obtain ⟨p, hp, hrefuses⟩ := hrefused
        rcases List.mem_cons.mp hp with rfl | hp
        · exact .refused hrefuses
        · exact .read hread (ih ⟨p, hp, hrefuses⟩)
      · exact .refused hrefuses

/-! ## Members -/

/-- The names of the members that are among given names, in the order of the text. -/
def knownNames (names : List String) (ms : List Member) : List String :=
  (ms.map Member.name).filter (· ∈ names)

/-- A member that is no part does not count. -/
theorem knownNames_unknown (h : fields.lookup m.name = none) :
    knownNames (fields.map Prod.fst) (m :: ms) = knownNames (fields.map Prod.fst) ms := by
  have hname : m.name ∉ fields.map Prod.fst := by
    rw [← isSome_lookup_iff, h]
    exact Bool.false_ne_true
  simp only [knownNames, List.map_cons]
  rw [List.filter_cons_of_neg (by simpa using hname)]

/-- A member that is a part comes first. -/
theorem knownNames_known {read : Reader} (h : fields.lookup m.name = some read) :
    knownNames (fields.map Prod.fst) (m :: ms) =
      m.name :: knownNames (fields.map Prod.fst) ms := by
  have hname : m.name ∈ fields.map Prod.fst := by
    rw [← isSome_lookup_iff, h]
    rfl
  simp only [knownNames, List.map_cons]
  rw [List.filter_cons_of_pos (by simpa using hname)]

/-- The value of a part is read to its scalars, and any other value is well-formed. -/
def Member.Reads (fields : List (String × Reader)) (f : String → List Float32)
    (m : Member) : Prop :=
  match fields.lookup m.name with
  | some read => ReadsTo read m.value (f m.name)
  | none => WellFormed .value m.value

/-- The value of a part is read or refused, and any other value is well-formed. -/
def Member.Handled (fields : List (String × Reader)) (m : Member) : Prop :=
  match fields.lookup m.name with
  | some read => Json.Handled read m.value
  | none => WellFormed .value m.value

/-- The value of a part is refused. -/
def Member.Refused (fields : List (String × Reader)) (m : Member) : Prop :=
  ∃ read, fields.lookup m.name = some read ∧ Refuses read m.value

/-- Members that complete what has been seen, each part once, come to the scalars of all parts. -/
theorem gathers_of_once {f : String → List Float32} (hreads : ∀ m ∈ ms, m.Reads fields f)
    (honce : (knownNames (fields.map Prod.fst) ms ++ seen).Nodup)
    (hall : ∀ n ∈ fields.map Prod.fst, n ∈ knownNames (fields.map Prod.fst) ms ++ seen) :
    Gathers fields (seen.map fun n => (n, f n)) ms (.ok ((fields.map Prod.fst).flatMap f)) := by
  -- What has been seen and what is to come stay together all parts, each once.
  induction ms generalizing seen with
  | nil => exact .complete fun n hn => lookup_map_mk (hall n hn)
  | cons m ms ih =>
      obtain ⟨hread, hreads⟩ := List.forall_mem_cons.mp hreads
      rw [Member.Reads] at hread
      cases hlookup : fields.lookup m.name with
      | none =>
          rw [hlookup] at hread
          rw [knownNames_unknown hlookup] at honce hall
          exact .unknown hlookup hread (ih hreads honce hall)
      | some read =>
          rw [hlookup] at hread
          rw [knownNames_known hlookup] at honce hall
          have hfresh : (seen.map fun n => (n, f n)).lookup m.name = none := by
            refine lookup_eq_none_of_notMem fun hmem => (List.nodup_cons.mp honce).1 ?_
            simp only [List.map_map] at hmem
            exact List.mem_append_right _ (by simpa using hmem)
          refine .read hlookup hfresh hread
            (show Gathers fields ((m.name :: seen).map fun n => (n, f n)) ms _ from
              ih hreads ?_ ?_)
          · exact List.perm_middle.symm.nodup honce
          · exact fun n hn => List.perm_middle.symm.mem_iff.mp (hall n hn)

/-- **Any order.**  Members that have each part once, in any order and with any others between
them, come to the scalars of the parts in the order of the record. -/
theorem gathers_of_perm {f : String → List Float32} (hnames : (fields.map Prod.fst).Nodup)
    (hreads : ∀ m ∈ ms, m.Reads fields f)
    (hperm : (knownNames (fields.map Prod.fst) ms).Perm (fields.map Prod.fst)) :
    Gathers fields [] ms (.ok ((fields.map Prod.fst).flatMap f)) := by
  refine show Gathers fields (([] : List String).map fun n => (n, f n)) ms _ from
    gathers_of_once hreads ?_ fun n hn => ?_
  · simpa using hperm.nodup_iff.mpr hnames
  · simpa using hperm.mem_iff.mpr hn

/-- What leaves an object a mismatch, behind parts that have been seen: a value is refused, or a
part comes twice or not at all. -/
inductive Flawed (fields : List (String × Reader)) (seen : List String) (ms : List Member) : Prop
  | refused {m : Member} (hm : m ∈ ms) (h : m.Refused fields)
  | repeated (h : ¬(knownNames (fields.map Prod.fst) ms ++ seen).Nodup)
  | missing {n : String} (hn : n ∈ fields.map Prod.fst)
      (h : n ∉ knownNames (fields.map Prod.fst) ms ++ seen)

namespace Flawed

/-- Behind the last member, a part is missing. -/
theorem exists_missing (h : Flawed fields seen []) (hseen : seen.Nodup) :
    ∃ n ∈ fields.map Prod.fst, n ∉ seen := by
  cases h with
  | refused hm h => cases hm
  | repeated h => exact absurd hseen h
  | missing hn h => exact ⟨_, hn, h⟩

/-- The flaw is not in a member that is no part. -/
theorem of_unknown (h : Flawed fields seen (m :: ms)) (hlookup : fields.lookup m.name = none) :
    Flawed fields seen ms := by
  have hnames : knownNames (fields.map Prod.fst) (m :: ms) = knownNames (fields.map Prod.fst) ms :=
    knownNames_unknown hlookup
  cases h with
  | refused hm h =>
      rcases List.mem_cons.mp hm with rfl | hm
      · obtain ⟨read, hread, -⟩ := h
        rw [hlookup] at hread
        cases hread
      · exact .refused hm h
  | repeated h => exact .repeated (hnames ▸ h)
  | missing hn h => exact .missing hn (hnames ▸ h)

/-- The flaw is in what follows a part that is not refused. -/
theorem of_known {read : Reader} (h : Flawed fields seen (m :: ms))
    (hlookup : fields.lookup m.name = some read) (hread : ¬Refuses read m.value) :
    Flawed fields (m.name :: seen) ms := by
  have hperm : (knownNames (fields.map Prod.fst) (m :: ms) ++ seen).Perm
      (knownNames (fields.map Prod.fst) ms ++ m.name :: seen) := by
    rw [knownNames_known hlookup]
    exact List.perm_middle.symm
  cases h with
  | refused hm h =>
      rcases List.mem_cons.mp hm with rfl | hm
      · obtain ⟨read', hread', hrefuses⟩ := h
        rw [hlookup] at hread'
        cases hread'
        exact absurd hrefuses hread
      · exact .refused hm h
  | repeated h => exact .repeated fun honce => h (hperm.symm.nodup honce)
  | missing hn h => exact .missing hn fun hmem => h (hperm.symm.mem_iff.mp hmem)

/-- Names that are not those of the parts, each once, repeat one or lack one. -/
theorem of_not_perm (hnames : (fields.map Prod.fst).Nodup)
    (h : ¬(knownNames (fields.map Prod.fst) ms).Perm (fields.map Prod.fst)) :
    Flawed fields [] ms := by
  by_contra hflaw
  have honce : (knownNames (fields.map Prod.fst) ms).Nodup := by
    by_contra hrepeated
    exact hflaw (.repeated (by rwa [List.append_nil]))
  have hall : ∀ n ∈ fields.map Prod.fst, n ∈ knownNames (fields.map Prod.fst) ms := by
    by_contra! hmissing
    obtain ⟨n, hn, hmissing⟩ := hmissing
    exact hflaw (.missing hn (by rwa [List.append_nil]))
  refine h ((List.perm_ext_iff_of_nodup honce hnames).mpr fun n => ⟨fun hn => ?_, hall n⟩)
  simpa using (List.mem_filter.mp hn).2

end Flawed

/-- **Flaws.**  Members with a flaw come to nothing. -/
theorem gathers_of_flawed (hhandled : ∀ m ∈ ms, m.Handled fields)
    (hflaw : Flawed fields (found.map Prod.fst) ms) (hfound : (found.map Prod.fst).Nodup) :
    Gathers fields found ms (.error .mismatch) := by
  -- Along the members: the flaw is in this one, or it stays behind it.
  induction ms generalizing found with
  | nil =>
      obtain ⟨n, hn, hmissing⟩ := hflaw.exists_missing hfound
      exact .missing hn (lookup_eq_none_of_notMem hmissing)
  | cons m ms ih =>
      obtain ⟨hhandle, hhandled⟩ := List.forall_mem_cons.mp hhandled
      rw [Member.Handled] at hhandle
      cases hlookup : fields.lookup m.name with
      | none =>
          rw [hlookup] at hhandle
          exact .unknown hlookup hhandle (ih hhandled (hflaw.of_unknown hlookup) hfound)
      | some read =>
          rw [hlookup] at hhandle
          cases hseen : found.lookup m.name with
          | some xs => exact .repeated hlookup hseen
          | none =>
              have hfresh : m.name ∉ found.map Prod.fst := by
                rw [← isSome_lookup_iff, hseen]
                exact Bool.false_ne_true
              by_cases hrefused : Refuses read m.value
              · exact .refused hlookup hseen hrefused
              · obtain ⟨xs, hread⟩ := hhandle.resolve_right hrefused
                exact .read hlookup hseen hread
                  (ih hhandled (hflaw.of_known hlookup hrefused)
                    (List.nodup_cons.mpr ⟨hfresh, hfound⟩))

end Spatial.Json
