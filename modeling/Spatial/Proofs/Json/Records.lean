import Mathlib
import Spatial.Json.Record
import Spatial.Proofs.Json.Members

/-!
# A library that follows the rules

The reader and the writer of this library do what is documented of one, for any way of
giving numbers their values that gives one to every short number.

1.  An array is read element by element, and an object member by member: the loop over each
    carries what has been found so far, and every statement about it is an induction on what the
    elements or the members come to, for anything found before.
2.  An object that breaks off is truncated, again by an induction over its members.
3.  The text of a record is an object of its parts.
-/

namespace Spatial.Json

variable {read : Reader} {reads : List Reader} {e : Element} {es : List Element}
  {fields : List (String × Reader)} {found : List (String × List Float32)}
  {m : Member} {ms : List Member} {outcome : Except Fault (List Float32)}
  {xs : List Float32} {gap rest : List Char}

/-! ## Arrays -/

/-- What stands behind an element ends it. -/
theorem Element.Proper.ends (he : e.Proper) (es : List Element) (rest : List Char) :
    Ends (e.after ++ (laterElements es ++ ']' :: rest)) := by
  refine Ends.blank_append he.after_blank ?_
  cases es with
  | nil => exact ends_cons (by simp) _
  | cons d es => exact ends_cons (by simp) _

/-- The value of an element, and then the elements after it. -/
def continueElements (read : Reader) (reads : List Reader) (s : List Char) :
    Except Fault (List Float32 × List Char) := do
  let (xs, s) ← read s
  let (ys, s) ← readElements reads false s
  return (xs ++ ys, s)

/-- The first element stands behind the bracket. -/
theorem readElements_first (he : e.Proper) (hstarts : Starts e.value) (s : List Char) :
    readElements (read :: reads) true (e.before ++ (e.value ++ s)) =
      continueElements read reads (e.value ++ s) := by
  obtain ⟨c, u, hvalue, hblank, hclose⟩ := hstarts
  rw [readElements, skipBlank_append he.before_blank, hvalue, List.cons_append,
    skipBlank_cons hblank]
  split
  · rename_i heq
    exact absurd (List.cons.inj heq).1 hclose
  · rfl

/-- A comma is passed, and the blanks behind it. -/
theorem readElements_later (read : Reader) (reads : List Reader) (he : e.Proper)
    (hstarts : Starts e.value) (hgap : Blank gap) (s : List Char) :
    readElements (read :: reads) false (gap ++ ',' :: (e.before ++ (e.value ++ s))) =
      continueElements read reads (e.value ++ s) := by
  obtain ⟨c, u, hvalue, hblank, hclose⟩ := hstarts
  have hcomma : passComma false (',' :: (e.before ++ (e.value ++ s))) = .ok (e.value ++ s) := by
    simp [passComma, skipBlank_append he.before_blank, hvalue, skipBlank_cons hblank, hclose]
  rw [readElements, skipBlank_append hgap, skipBlank_cons (by decide)]
  show (passComma false (',' :: (e.before ++ (e.value ++ s)))).bind _ = _
  rw [hcomma]
  rfl

/-- A value is read, and the elements behind it go on. -/
theorem continueElements_of_yields (he : e.Proper) (h : Yields read e.value outcome) :
    continueElements read reads (e.value ++ (e.after ++ (laterElements es ++ ']' :: rest))) =
      outcome.bind fun xs =>
        (readElements reads false (e.after ++ (laterElements es ++ ']' :: rest))).map
          fun (ys, s) => (xs ++ ys, s) := by
  have hread := h [] _ blank_nil (he.ends es rest)
  rw [List.nil_append] at hread
  rw [continueElements, hread]
  cases outcome <;> rfl

/-- Where all parts have been read, the bracket closes the array. -/
theorem readElements_close (hgap : Blank gap) (first : Bool) :
    readElements [] first (gap ++ ']' :: rest) = .ok ([], rest) := by
  rw [readElements, skipBlank_append hgap]
  rfl

/-- The first of the later elements, with what comes after it. -/
theorem laterElements_cons (e : Element) (es : List Element) (s : List Char) :
    laterElements (e :: es) ++ s =
      ',' :: (e.before ++ (e.value ++ (e.after ++ (laterElements es ++ s)))) := by
  simp [laterElements, Element.text]

/-- Later elements come to what they list. -/
theorem readElements_of_lists (h : Lists reads es outcome) (hproper : ∀ e ∈ es, e.Proper)
    (hstarts : ∀ e ∈ es, Starts e.value) (hgap : Blank gap) (rest : List Char) :
    readElements reads false (gap ++ (laterElements es ++ ']' :: rest)) =
      outcome.map fun xs => (xs, rest) := by
  induction h generalizing gap with
  | done => exact readElements_close hgap false
  | @read read reads e es xs outcome hvalue _ ih =>
      obtain ⟨he, hproper⟩ := List.forall_mem_cons.mp hproper
      obtain ⟨hstart, hstarts⟩ := List.forall_mem_cons.mp hstarts
      rw [laterElements_cons, readElements_later _ _ he hstart hgap,
        continueElements_of_yields he hvalue, Except.bind, ih hproper hstarts he.after_blank]
      cases outcome <;> rfl
  | refused hvalue =>
      obtain ⟨he, -⟩ := List.forall_mem_cons.mp hproper
      obtain ⟨hstart, -⟩ := List.forall_mem_cons.mp hstarts
      rw [laterElements_cons, readElements_later _ _ he hstart hgap,
        continueElements_of_yields he hvalue]
      rfl

/-- An array is its bracket, its elements without the first comma, and its closing bracket. -/
theorem arrayText_append (es : List Element) (rest : List Char) :
    arrayText es ++ rest = '[' :: ((laterElements es).tail ++ ']' :: rest) := by
  cases es with
  | nil => rfl
  | cons e es => simp [arrayText, laterElements]

/-- There is an element where there is a part. -/
theorem Lists.nil_iff (h : Lists reads es outcome) : reads = [] ↔ es = [] := by
  cases h <;> simp

/-- The first element is read as one that has a comma before it. -/
theorem readElements_array (hproper : ∀ e ∈ es, e.Proper) (hstarts : ∀ e ∈ es, Starts e.value)
    (hnil : reads = [] ↔ es = []) :
    readElements reads true ((laterElements es).tail ++ ']' :: rest) =
      readElements reads false (laterElements es ++ ']' :: rest) := by
  cases es with
  | nil =>
      obtain rfl := hnil.mpr rfl
      rfl
  | cons e es =>
      cases reads with
      | nil => exact absurd (hnil.mp rfl) (List.cons_ne_nil _ _)
      | cons read reads =>
          have he := hproper e List.mem_cons_self
          have hstart := hstarts e List.mem_cons_self
          have htail : (laterElements (e :: es)).tail ++ ']' :: rest =
              e.before ++ (e.value ++ (e.after ++ (laterElements es ++ ']' :: rest))) := by
            simp [laterElements, Element.text]
          have hlater := readElements_later read reads he hstart blank_nil
            (e.after ++ (laterElements es ++ ']' :: rest))
          rw [List.nil_append] at hlater
          rw [htail, readElements_first he hstart, laterElements_cons, hlater]

/-- **Arrays.**  An array comes to what its elements list. -/
theorem readRecord_array (value : Literal → Option Float32)
    (h : Lists (fields.map Prod.snd) es outcome) (hproper : ∀ e ∈ es, e.Proper)
    (hstarts : ∀ e ∈ es, Starts e.value) :
    Yields (readRecord value fields) (arrayText es) outcome := by
  intro gap rest hgap _
  rw [readRecord, skipBlank_append hgap, arrayText_append, skipBlank_cons (by decide)]
  show readElements (fields.map Prod.snd) true _ = _
  rw [readElements_array hproper hstarts h.nil_iff]
  exact readElements_of_lists h hproper hstarts blank_nil rest

/-! ## Objects -/

/-- The key of a member has been read: its value, and then the members after it. -/
def continueMembers (fields : List (String × Reader)) (fuel : Nat)
    (found : List (String × List Float32)) (name : String) (s : List Char) :
    Except Fault (List Float32 × List Char) :=
  match fields.lookup name with
  | none => do readMembers fields fuel found false (← skipValue s)
  | some read =>
    if (found.lookup name).isSome then .error .mismatch
    else do
      let (xs, s) ← read s
      readMembers fields fuel ((name, xs) :: found) false s

/-- The blanks before a colon and the colon are passed. -/
theorem passColon_append {colon s : List Char} (h : Blank colon) :
    passColon (colon ++ ':' :: s) = .ok s := by
  rw [passColon, skipBlank_append h]
  rfl

/-- The key behind its opening quote, and the colon. -/
theorem readMembers_opened (hm : m.Proper) {fuel : Nat} {first : Bool} {s t : List Char}
    (hopen : openKey first (skipBlank t) = .ok (m.key ++ '"' :: (m.colon ++ ':' :: s)))
    (hclose : ∀ u, skipBlank t ≠ '\x7d' :: u) :
    readMembers fields (fuel + 1) found first t = continueMembers fields fuel found m.name s := by
  have hcolon := passColon_append (s := s) hm.colon_blank
  rw [readMembers]
  split
  · exact absurd ‹_› (hclose _)
  · show (openKey first (skipBlank t)).bind _ = _
    rw [hopen]
    show (scanText none (m.key ++ '"' :: (m.colon ++ ':' :: s))).bind _ = _
    rw [scanText_append hm.spells]
    simp only [Except.bind, String.ofList_toList, hcolon, bind]
    rfl

/-- The first member stands behind the brace. -/
theorem readMembers_first (hm : m.Proper) (fuel : Nat) (s : List Char) :
    readMembers fields (fuel + 1) found true
        (m.start ++ '"' :: (m.key ++ '"' :: (m.colon ++ ':' :: s))) =
      continueMembers fields fuel found m.name s := by
  refine readMembers_opened hm ?_ ?_
  · rw [skipBlank_append hm.start_blank]
    rfl
  · intro u
    rw [skipBlank_append hm.start_blank, skipBlank_cons (by decide)]
    exact fun heq => absurd (List.cons.inj heq).1 (by decide)

/-- Any other member stands behind a comma. -/
theorem readMembers_later (fields : List (String × Reader))
    (found : List (String × List Float32)) (hm : m.Proper) (hgap : Blank gap) (fuel : Nat)
    (s : List Char) :
    readMembers fields (fuel + 1) found false
        (gap ++ ',' :: (m.start ++ '"' :: (m.key ++ '"' :: (m.colon ++ ':' :: s)))) =
      continueMembers fields fuel found m.name s := by
  refine readMembers_opened hm ?_ ?_
  · rw [skipBlank_append hgap, skipBlank_cons (by decide)]
    simp only [openKey, Bool.false_eq_true, if_false, skipBlank_append hm.start_blank]
    rfl
  · intro u
    rw [skipBlank_append hgap, skipBlank_cons (by decide)]
    exact fun heq => absurd (List.cons.inj heq).1 (by decide)

/-- At the brace every part has been found, or one is missing. -/
theorem readMembers_close (hgap : Blank gap) (fuel : Nat) (first : Bool) :
    readMembers fields (fuel + 1) found first (gap ++ '\x7d' :: rest) =
      match collect found (fields.map Prod.fst) with
      | some xs => .ok (xs, rest)
      | none => .error .mismatch := by
  rw [readMembers, skipBlank_append hgap]
  rfl

/-- What stands behind a member ends it. -/
theorem Member.Proper.ends (hm : m.Proper) (ms : List Member) (hgap : Blank gap)
    (rest : List Char) :
    Ends (m.after ++ (laterMembers ms ++ (gap ++ '\x7d' :: rest))) := by
  refine Ends.blank_append hm.after_blank ?_
  cases ms with
  | nil =>
      show Ends (gap ++ '\x7d' :: rest)
      exact Ends.blank_append hgap (ends_cons (by simp) _)
  | cons d ms => exact ends_cons (by simp) _

/-- The first of the later members, with what comes after it. -/
theorem laterMembers_cons (m : Member) (ms : List Member) (s : List Char) :
    laterMembers (m :: ms) ++ s =
      ',' :: (m.start ++ '"' :: (m.key ++ '"' :: (m.colon ++ ':' ::
        (m.before ++ (m.value ++ (m.after ++ (laterMembers ms ++ s))))))) := by
  simp [laterMembers, Member.text]

/-! One member. -/

/-- The value of an unknown member is passed over. -/
theorem continueMembers_unknown {s : List Char} (hm : m.Proper) (hs : Ends (m.after ++ s))
    (hunknown : fields.lookup m.name = none) (hvalue : WellFormed .value m.value) (fuel : Nat) :
    continueMembers fields fuel found m.name (m.before ++ (m.value ++ (m.after ++ s))) =
      readMembers fields fuel found false (m.after ++ s) := by
  rw [continueMembers, hunknown]
  show (skipValue (m.before ++ (m.value ++ (m.after ++ s)))).bind _ = _
  rw [skipValue_append hm.before_blank hvalue hs]
  rfl

/-- A part that comes again is a mismatch, whatever its value is. -/
theorem continueMembers_repeated (hknown : fields.lookup m.name = some read)
    (hfound : found.lookup m.name = some xs) (fuel : Nat) (s : List Char) :
    continueMembers fields fuel found m.name s = .error .mismatch := by
  simp only [continueMembers, hknown, hfound, Option.isSome_some, if_true]

/-- The value of a part is read, and the members behind it go on. -/
theorem continueMembers_of_yields {s : List Char} (hm : m.Proper)
    (hs : Ends (m.after ++ s)) (hknown : fields.lookup m.name = some read)
    (hfresh : found.lookup m.name = none) (hvalue : Yields read m.value outcome) (fuel : Nat) :
    continueMembers fields fuel found m.name (m.before ++ (m.value ++ (m.after ++ s))) =
      outcome.bind fun xs =>
        readMembers fields fuel ((m.name, xs) :: found) false (m.after ++ s) := by
  simp only [continueMembers, hknown, hfresh, Option.isSome_none, Bool.false_eq_true, if_false,
    hvalue _ _ hm.before_blank hs]
  cases outcome <;> rfl

/-! What has been found. -/

/-- Where every part has been found, the scalars are those of all parts in order. -/
theorem collect_of_found {f : String → List Float32} {names : List String}
    (h : ∀ n ∈ names, found.lookup n = some (f n)) :
    collect found names = some (names.flatMap f) := by
  have hall : names.mapM (fun n => found.lookup n) = some (names.map f) := by
    induction names with
    | nil => rfl
    | cons n names ih =>
        obtain ⟨hn, hnames⟩ := List.forall_mem_cons.mp h
        rw [List.mapM_cons, hn, ih hnames]
        rfl
  rw [collect, hall]
  rfl

/-- Where some part has not been found, there is no result. -/
theorem collect_of_missing {names : List String} {n : String} (hn : n ∈ names)
    (hmissing : found.lookup n = none) : collect found names = none := by
  have hall : names.mapM (fun n => found.lookup n) = none := by
    induction names with
    | nil => simp at hn
    | cons a names ih =>
        rw [List.mapM_cons]
        rcases List.mem_cons.mp hn with rfl | hn
        · rw [hmissing]
          rfl
        · rw [ih hn]
          cases found.lookup a <;> rfl
  rw [collect, hall]
  rfl

/-! All members. -/

/-- Later members come to what they gather. -/
theorem readMembers_of_gathers {after : List Char} (h : Gathers fields found ms outcome)
    (hproper : ∀ m ∈ ms, m.Proper) (hafter : Blank after) (hgap : Blank gap) {fuel : Nat}
    (hfuel : ms.length < fuel) (rest : List Char) :
    readMembers fields fuel found false
        (after ++ (laterMembers ms ++ (gap ++ '\x7d' :: rest))) =
      outcome.map fun xs => (xs, rest) := by
  obtain ⟨fuel, rfl⟩ := Nat.exists_eq_succ_of_ne_zero (n := fuel) (by omega)
  -- Before the closing brace stand the blanks behind the last member and those of the object.
  have hblank : ∀ {after : List Char}, Blank after → Blank (after ++ gap) := fun hafter c hc =>
    (List.mem_append.mp hc).elim (hafter c) (hgap c)
  induction h generalizing after fuel with
  | complete hall =>
      show readMembers fields _ _ false (after ++ (gap ++ '\x7d' :: rest)) = _
      rw [← List.append_assoc, readMembers_close (hblank hafter), collect_of_found hall]
      rfl
  | missing hn hmissing =>
      show readMembers fields _ _ false (after ++ (gap ++ '\x7d' :: rest)) = _
      rw [← List.append_assoc, readMembers_close (hblank hafter), collect_of_missing hn hmissing]
      rfl
  | @unknown found m ms outcome hname hvalue _ ih =>
      obtain ⟨hm, hproper⟩ := List.forall_mem_cons.mp hproper
      simp only [List.length_cons] at hfuel
      obtain ⟨fuel, rfl⟩ := Nat.exists_eq_succ_of_ne_zero (n := fuel) (by omega)
      rw [laterMembers_cons, readMembers_later _ _ hm hafter,
        continueMembers_unknown hm (hm.ends ms hgap rest) hname hvalue]
      exact ih hproper hm.after_blank fuel (by omega)
  | repeated hname hfound =>
      obtain ⟨hm, -⟩ := List.forall_mem_cons.mp hproper
      rw [laterMembers_cons, readMembers_later _ _ hm hafter,
        continueMembers_repeated hname hfound]
      rfl
  | @read found m ms outcome read xs hname hfresh hvalue _ ih =>
      obtain ⟨hm, hproper⟩ := List.forall_mem_cons.mp hproper
      simp only [List.length_cons] at hfuel
      obtain ⟨fuel, rfl⟩ := Nat.exists_eq_succ_of_ne_zero (n := fuel) (by omega)
      rw [laterMembers_cons, readMembers_later _ _ hm hafter,
        continueMembers_of_yields hm (hm.ends ms hgap rest) hname hfresh hvalue]
      exact ih hproper hm.after_blank fuel (by omega)
  | @refused found m ms read hname hfresh hvalue =>
      obtain ⟨hm, -⟩ := List.forall_mem_cons.mp hproper
      rw [laterMembers_cons, readMembers_later _ _ hm hafter,
        continueMembers_of_yields hm (hm.ends ms hgap rest) hname hfresh hvalue]
      rfl

/-- An object is its brace, its members without the first comma, and its closing brace. -/
theorem objectText_append (gap : List Char) (ms : List Member) (rest : List Char) :
    objectText gap ms ++ rest = '\x7b' :: ((laterMembers ms).tail ++ (gap ++ '\x7d' :: rest)) := by
  cases ms with
  | nil => simp [objectText, laterMembers]
  | cons m ms => simp [objectText, laterMembers]

/-- The first member is read as one that has a comma before it. -/
theorem readMembers_object (hproper : ∀ m ∈ ms, m.Proper) (hgap : Blank gap) (fuel : Nat) :
    readMembers fields (fuel + 1) found true ((laterMembers ms).tail ++ (gap ++ '\x7d' :: rest)) =
      readMembers fields (fuel + 1) found false (laterMembers ms ++ (gap ++ '\x7d' :: rest)) := by
  cases ms with
  | nil => exact (readMembers_close hgap fuel true).trans (readMembers_close hgap fuel false).symm
  | cons m ms =>
      have hm := hproper m List.mem_cons_self
      have htail : (laterMembers (m :: ms)).tail ++ (gap ++ '\x7d' :: rest) =
          m.start ++ '"' :: (m.key ++ '"' :: (m.colon ++ ':' ::
            (m.before ++ (m.value ++ (m.after ++
              (laterMembers ms ++ (gap ++ '\x7d' :: rest))))))) := by
        simp [laterMembers, Member.text]
      have hlater := readMembers_later fields found hm blank_nil fuel
        (m.before ++ (m.value ++ (m.after ++ (laterMembers ms ++ (gap ++ '\x7d' :: rest)))))
      rw [List.nil_append] at hlater
      rw [htail, readMembers_first hm, laterMembers_cons, hlater]

/-- Every member takes two characters at least, so the length of the text is enough fuel. -/
theorem length_le_laterMembers (ms : List Member) : 2 * ms.length ≤ (laterMembers ms).length := by
  induction ms with
  | nil => simp
  | cons m ms ih =>
      simp only [laterMembers, List.flatMap_cons, List.length_append, List.length_cons,
        Member.text] at ih ⊢
      omega

/-- **Objects.**  An object comes to what its members gather. -/
theorem readRecord_object (value : Literal → Option Float32) {pad : List Char}
    (h : Gathers fields [] ms outcome) (hpad : Blank pad) (hproper : ∀ m ∈ ms, m.Proper) :
    Yields (readRecord value fields) (objectText pad ms) outcome := by
  intro gap rest hgap _
  have hlength := length_le_laterMembers ms
  rw [readRecord, skipBlank_append hgap, objectText_append, skipBlank_cons (by decide)]
  show readMembers fields (((laterMembers ms).tail ++ (pad ++ '\x7d' :: rest)).length + 1) []
    true _ = _
  rw [readMembers_object hproper hpad]
  show readMembers fields _ [] false ([] ++ _) = _
  refine readMembers_of_gathers h hproper blank_nil hpad ?_ rest
  simp only [List.length_append, List.length_tail, List.length_cons]
  omega

/-! ## Objects that break off -/

section

variable {lead s : List Char} {names : List String} {name : String}

/-- A string of plain characters stands for itself. -/
theorem spells_of_isPlain {s : List Char} (h : s.all isPlain = true) : Spells s s := by
  induction s with
  | nil => exact .nil
  | cons c s ih =>
      rw [List.all_cons, Bool.and_eq_true] at h
      exact .plain h.1 (ih h.2)

/-- A member without blanks is proper if its key is plain. -/
theorem plainMember_proper {name : String} (h : name.toList.all isPlain = true)
    (value : List Char) : (plainMember name value).Proper :=
  ⟨blank_nil, spells_of_isPlain h, blank_nil, blank_nil, blank_nil⟩

/-- A string of plain characters without its closing quote. -/
theorem scanText_plain {s : List Char} (h : s.all isPlain = true) :
    scanText none s = .error .truncated := by
  induction s with
  | nil => rfl
  | cons c s ih =>
      rw [List.all_cons, Bool.and_eq_true] at h
      obtain ⟨hquote, hslash, hcontrol⟩ := isPlain_iff.mp h.1
      simp [scanText, hslash, hcontrol, ih h.2]
      rfl

/-- What stands before a member: nothing before the first, a comma before the others. -/
def leadOf (first : Bool) : List Char := if first then [] else [',']

/-- A key has been opened. -/
theorem readMembers_quote (fuel : Nat) (first : Bool) (s : List Char) :
    readMembers fields (fuel + 1) found first (leadOf first ++ '"' :: s) = (do
      let (text, s) ← scanText none s
      let key := String.ofList text
      match fields.lookup key with
      | none => readMembers fields fuel found false (← skipValue (← passColon s))
      | some read =>
        if (found.lookup key).isSome then .error .mismatch
        else
          let (xs, s) ← read (← passColon s)
          readMembers fields fuel ((key, xs) :: found) false s) := by
  cases first <;> rfl

/-- A member without blanks. -/
theorem readMembers_plain (hplain : name.toList.all isPlain = true) (fuel : Nat) (first : Bool)
    (s : List Char) :
    readMembers fields (fuel + 1) found first
        (leadOf first ++ '"' :: (name.toList ++ '"' :: ':' :: s)) =
      continueMembers fields fuel found name s := by
  rw [readMembers_quote, scanText_append (spells_of_isPlain hplain)]
  simp only [bind, Except.bind, String.ofList_toList]
  rfl

/-- What stands behind a member without blanks ends it. -/
theorem Unfinished.ends (h : Unfinished fields [','] names s) : Ends s := by
  cases h with
  | behind => exact ends_nil
  | before | key | colon | value | next => exact ends_cons (by simp) _

/-- Members that break off are truncated, whatever has been found before them. -/
theorem readMembers_of_unfinished (first : Bool)
    (h : Unfinished fields (leadOf first) (found.map Prod.fst) s) (fuel : Nat) :
    readMembers fields (fuel + 1) found first s = .error .truncated := by
  -- The lead and the names are indices of the relation, so they are variables in the induction.
  obtain ⟨lead, hlead⟩ : ∃ lead, leadOf first = lead := ⟨_, rfl⟩
  obtain ⟨names, hnames⟩ : ∃ names, found.map Prod.fst = names := ⟨_, rfl⟩
  rw [hlead, hnames] at h
  induction h generalizing first found fuel with
  | behind => cases first <;> rfl
  | before =>
      subst hlead
      cases first <;> rfl
  | key hkey =>
      subst hlead
      rw [readMembers_quote, scanText_plain hkey]
      rfl
  | colon hplain hname hfresh =>
      subst hlead hnames
      rw [readMembers_quote, scanText_append (spells_of_isPlain hplain)]
      simp only [bind, Except.bind, String.ofList_toList, hname, lookup_eq_none_of_notMem hfresh]
      rfl
  | value hplain hname hfresh hvalue =>
      subst hlead hnames
      rw [readMembers_plain hplain]
      simp only [continueMembers, hname, lookup_eq_none_of_notMem hfresh]
      rcases hvalue with hbroken | ⟨ys, hys⟩
      · rw [hbroken]
        rfl
      · rw [hys]
        cases fuel <;> rfl
  | @next lead names name read value s xs hplain hname hfresh hvalue hrest ih =>
      subst hlead hnames
      have hread := hvalue [] s blank_nil hrest.ends
      rw [List.nil_append] at hread
      rw [readMembers_plain hplain]
      simp only [continueMembers, hname, lookup_eq_none_of_notMem hfresh, hread]
      show readMembers fields fuel ((name, xs) :: found) false s = _
      cases fuel with
      | zero => rfl
      | succ fuel => exact ih false fuel rfl rfl

end

end Spatial.Json
