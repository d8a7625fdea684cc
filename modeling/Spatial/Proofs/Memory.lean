import Mathlib
import Spatial.Proofs.Layout

/-!
# Memory

A value stands in memory as the bytes of its components, four for each, least
significant first.  Reading memory back undoes this, for every pattern of bits: the bytes
of a run of values, cut into blocks of the size of one value, are the values again.

So a name, the offset that it has, the component that it means, the place of that component
in the array and in memory, and the four bytes at that offset all belong together, for each
of the seven kinds.
-/

namespace Spatial

open Components (ofList? toList)

/-- The number whose digits to the base of 256 are given, the least significant first. -/
def wordValue (bytes : List UInt8) : Nat := bytes.foldr (fun b n => b.toNat + 0x100 * n) 0

/-- The bits that a run of bytes stands for, four bytes for each number. -/
def readWords : List UInt8 → List UInt32
  | b₀ :: b₁ :: b₂ :: b₃ :: bytes => .ofNat (wordValue [b₀, b₁, b₂, b₃]) :: readWords bytes
  | _ => []

/-- The part of a run that starts at an offset and has a given length. -/
def slice {α : Type} (offset length : Nat) (run : List α) : List α :=
  (run.drop offset).take length

namespace Layout

/-- The value that a run of bytes stands for, if it has the right length. -/
def readBytes? (F : Type → Type) [Layout F] (bytes : List UInt8) : Option (F UInt32) :=
  ofMemory? (readWords bytes)

end Layout

/-! Runs of blocks of one length. -/

section

variable {α β : Type} {f : α → List β} {n : ℕ}

/-- Blocks of one length in sequence. -/
theorem length_flatMap_blocks (hf : ∀ a, (f a).length = n) (as : List α) :
    (as.flatMap f).length = as.length * n := by
  induction as with
  | nil => simp
  | cons a as ih =>
      rw [List.flatMap_cons, List.length_append, hf, ih, List.length_cons]
      ring

/-- The block at a place is that of the element at this place. -/
theorem slice_flatMap_blocks (hf : ∀ a, (f a).length = n) {as : List α} {i : ℕ} {a : α}
    (h : as[i]? = some a) : slice (i * n) n (as.flatMap f) = f a := by
  induction as generalizing i with
  | nil => simp at h
  | cons b as ih =>
      rw [slice, List.flatMap_cons]
      cases i with
      | zero =>
          obtain rfl : b = a := by simpa using h
          rw [Nat.zero_mul, List.drop_zero, ← hf b, List.take_left]
      | succ i =>
          have hskip : (i + 1) * n = (f b).length + i * n := by
            rw [hf]
            ring
          rw [hskip, List.drop_length_add_append]
          exact ih (by simpa using h)

end

/-! The bytes of one number. -/

/-- The four bytes of a number are the digits of its bits. -/
theorem wordValue_littleEndian (bits : UInt32) : wordValue (littleEndian bits) = bits.toNat := by
  have hlt := bits.toNat_lt
  simp only [wordValue, littleEndian, List.foldr_cons, List.foldr_nil, UInt32.toNat_toUInt8,
    UInt32.toNat_shiftRight, UInt32.reduceToNat, Nat.shiftRight_eq_div_pow, Nat.reduceMod,
    Nat.reducePow]
  omega

theorem length_littleEndian (bits : UInt32) : (littleEndian bits).length = Layout.fieldSize := rfl

/-- Reading undoes writing, number by number. -/
theorem readWords_flatMap (words : List UInt32) :
    readWords (words.flatMap littleEndian) = words := by
  induction words with
  | nil => rfl
  | cons bits words ih =>
      rw [List.flatMap_cons]
      show .ofNat (wordValue (littleEndian bits)) :: readWords (words.flatMap littleEndian) =
        bits :: words
      rw [wordValue_littleEndian, UInt32.ofNat_toNat, ih]

namespace Layout

variable {α : Type} {F : Type → Type} [Layout F] [Lawful F]

/-- The bytes of a value are four for each name. -/
theorem length_bytes (v : F UInt32) : (bytes v).length = 4 * (fieldNames F).length := by
  rw [bytes, length_flatMap_blocks length_littleEndian, memory_eq, length_toList, Nat.mul_comm]
  rfl

/-- A name has the offset of its place. -/
theorem fieldOffset?_of_getElem? {i : ℕ} {name : String} (h : (fieldNames F)[i]? = some name) :
    fieldOffset? F name = some (4 * i) := by
  obtain ⟨hlt, hget⟩ := List.getElem?_eq_some_iff.mp h
  have hindex : (fieldNames F).findIdx? (· == name) = some i := by
    rw [List.findIdx?_eq_some_iff_getElem]
    refine ⟨hlt, by simp [hget], ?_⟩
    intro j hj
    have hne : (fieldNames F)[j] ≠ (fieldNames F)[i] := by
      intro heq
      have := (Lawful.nodup_fieldNames (F := F)).getElem_inj_iff.mp heq
      omega
    simpa [hget] using hne
  rw [fieldOffset?, hindex, Option.map_some, fieldSize, Nat.mul_comm]

omit [Lawful F] in
/-- What is no name has no offset. -/
theorem fieldOffset?_of_notMem {name : String} (h : name ∉ fieldNames F) :
    fieldOffset? F name = none := by
  have hindex : (fieldNames F).findIdx? (· == name) = none := by
    rw [List.findIdx?_eq_none_iff]
    intro other hother
    exact beq_false_of_ne fun heq => h (heq ▸ hother)
  rw [fieldOffset?, hindex, Option.map_none]

/-- The component that a name means is the one in its place. -/
theorem exists_component (v : F α) {i : ℕ} {name : String} (h : (fieldNames F)[i]? = some name) :
    ∃ x, field? v name = some x ∧ (toList v)[i]? = some x := by
  have hplace := congrArg (·[i]?) (Lawful.map_field? v)
  simp only [List.getElem?_map, h, Option.map_some] at hplace
  obtain ⟨x, hx, hfield⟩ := Option.map_eq_some_iff.mp hplace.symm
  exact ⟨x, hfield.symm, hx⟩

/-- The part of the record with the path of a name is the component that the name means. -/
theorem named_getElem? {v : F α} {i : ℕ} {name : String} {x : α}
    (h : (fieldNames F)[i]? = some name) (hx : (toList v)[i]? = some x) :
    (form v).named[i]? = some (name, x) := by
  rw [named_form, List.getElem?_zip_eq_some]
  exact ⟨h, hx⟩

/-- The four bytes at an offset are those of the component in that place. -/
theorem slice_bytes {v : F UInt32} {i : ℕ} {bits : UInt32} (h : (toList v)[i]? = some bits) :
    slice (4 * i) 4 (bytes v) = littleEndian bits := by
  rw [Nat.mul_comm, bytes, memory_eq]
  exact slice_flatMap_blocks length_littleEndian h

/-- The bytes of a value stand for that value. -/
theorem readBytes?_bytes (v : F UInt32) : readBytes? F (bytes v) = some v := by
  rw [readBytes?, bytes, readWords_flatMap, ofMemory?_memory]

/-- **What stands where.**  For each of the seven kinds: a name at place `i` has the offset `4 · i`
and means the component at place `i` of the array, of memory and of the record, where it has
that name for its path; of a value of bits, the four bytes at that offset are those of the
component, least significant first.  No other string has an offset or means a component.  A list
is the memory of a value exactly if it has one number for each name; it is then what stands in
memory, and the value is the one made from the list as an array.  A run of values is the
bytes of one after the other, and the block of each of them reads back as that value. -/
theorem memory_follows_names : EveryKind fun F _ =>
    (∀ (α : Type) (v : F α) (i : ℕ) (name : String), (fieldNames F)[i]? = some name →
      fieldOffset? F name = some (4 * i) ∧
      ∃ x, field? v name = some x ∧ (toList v)[i]? = some x ∧ (memory v)[i]? = some x ∧
        (form v).named[i]? = some (name, x)) ∧
    (∀ (v : F UInt32) (i : ℕ) (name : String) (bits : UInt32),
      (fieldNames F)[i]? = some name → field? v name = some bits →
      slice (4 * i) 4 (bytes v) = littleEndian bits ∧
      wordValue (slice (4 * i) 4 (bytes v)) = bits.toNat) ∧
    (∀ name ∉ fieldNames F, fieldOffset? F name = none ∧
      ∀ (α : Type) (v : F α), field? v name = none) ∧
    (∀ (α : Type) (l : List α),
      ((ofMemory? l : Option (F α)).isSome = true ↔ l.length = (fieldNames F).length) ∧
      (ofMemory? l : Option (F α)) = ofList? l ∧
      ∀ v : F α, ofMemory? l = some v → memory v = l ∧ toList v = l) ∧
    ∀ vs : List (F UInt32),
      sliceBytes vs = (vs.map bytes).flatten ∧
      (sliceBytes vs).length = vs.length * (4 * (fieldNames F).length) ∧
      ∀ (k : ℕ) (v : F UInt32), vs[k]? = some v →
        readBytes? F (slice (k * (4 * (fieldNames F).length))
          (4 * (fieldNames F).length) (sliceBytes vs)) = some v := by
  refine EveryKind.of_lawful fun F _ _ => ⟨?_, ?_, ?_, ?_, ?_⟩
  · intro α v i name hname
    obtain ⟨x, hfield, hx⟩ := exists_component v hname
    refine ⟨fieldOffset?_of_getElem? hname, x, hfield, hx, ?_, named_getElem? hname hx⟩
    rwa [memory_eq]
  · intro v i name bits hname hbits
    obtain ⟨x, hfield, hx⟩ := exists_component v hname
    obtain rfl : bits = x := Option.some.inj (hbits.symm.trans hfield)
    rw [slice_bytes hx]
    exact ⟨rfl, wordValue_littleEndian bits⟩
  · intro name hname
    exact ⟨fieldOffset?_of_notMem hname, fun α v => Lawful.field?_of_notMem v hname⟩
  · intro α l
    refine ⟨?_, Lawful.ofMemory?_eq l, fun v hv => ?_⟩
    · rw [Lawful.ofMemory?_eq]
      exact isSome_ofList?_iff l
    · have hmemory := memory_of_ofMemory? hv
      exact ⟨hmemory, (memory_eq v).symm.trans hmemory⟩
  · intro vs
    refine ⟨List.flatMap_def, length_flatMap_blocks length_bytes vs, fun k v hk => ?_⟩
    rw [sliceBytes, slice_flatMap_blocks length_bytes hk, readBytes?_bytes]

/-- The third name of a plane is that of the last part of its normal, and the normal itself has
none.  The bits of a number that is none are kept in memory, and behind another plane the
value is found by its block. -/
theorem plane_in_memory :
    (fieldNames Plane)[2]? = some "normal.z" ∧ fieldOffset? Plane "normal.z" = some 8 ∧
      slice 8 4 (bytes (⟨⟨0, 1, 0x7fc00001⟩, 2⟩ : Plane UInt32)) = [0x01, 0x00, 0xc0, 0x7f] ∧
      "normal" ∉ fieldNames Plane ∧ fieldOffset? Plane "normal" = none ∧
      (ofMemory? [1, 2, 3, 4, 5] : Option (Plane ℕ)) = none ∧
      (ofMemory? [1, 2, 3, 4] : Option (Plane ℕ)) = some ⟨⟨1, 2, 3⟩, 4⟩ ∧
      readBytes? Plane (slice 16 16
        (sliceBytes ([⟨⟨3, 4, 5⟩, 6⟩, ⟨⟨0, 1, 0xffc00001⟩, 2⟩] : List (Plane UInt32)))) =
          some ⟨⟨0, 1, 0xffc00001⟩, 2⟩ := by
  obtain ⟨-, -, -, -, ⟨hnamed, hbytes, hother, hmemory, hrun⟩, -⟩ := memory_follows_names
  obtain ⟨hoffset, -⟩ := hnamed UInt32 ⟨⟨0, 1, 0x7fc00001⟩, 2⟩ 2 "normal.z" rfl
  obtain ⟨hfour, -⟩ := hbytes ⟨⟨0, 1, 0x7fc00001⟩, 2⟩ 2 "normal.z" 0x7fc00001 rfl rfl
  obtain ⟨hmade, -, -⟩ := hmemory ℕ [1, 2, 3, 4, 5]
  refine ⟨rfl, hoffset, hfour, by decide, (hother "normal" (by decide)).1, ?_, rfl,
    (hrun _).2.2 1 _ rfl⟩
  rw [← Option.not_isSome_iff_eq_none, hmade]
  decide

end Layout

end Spatial
