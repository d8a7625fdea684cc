import Mathlib
import Spatial.Proofs.Inverse
import Spatial.Proofs.Binary.Arithmetic

/-!
# Products by rows and by elements

Each element of a product of matrices is the scalar product of a row and a column, and both add
their four terms from the left.  So the row of a product is the row of the left factor multiplied
by the right one, bit for bit and whatever the elements are.  Only the two factors of each term
change places when a product is transposed, and a rounded product does not depend on their order.

The elements of a matrix lie in memory one row after the other.  A product may be written there
element by element: the element in row `r` and column `c` goes to the place `r * cols + c`.
Different elements go to different places, and every place is reached, so what is there in the end
does not depend on what was there before.
-/

namespace Spatial

open Components (dot)

/-! ## Writing by rows -/

section Filling

variable {α : Type} {n : ℕ}

/-- Writing leaves a place alone that is none of those written to. -/
theorem getElem_foldl_set_of_ne {ι : Type} (place : ι → Fin n) (entry : ι → α) {l : List ι}
    {j : Fin n} (h : ∀ i ∈ l, place i ≠ j) (out : Vector α n) :
    (l.foldl (fun out i => out.set (place i) (entry i)) out)[j] = out[j] := by
  induction l generalizing out with
  | nil => rfl
  | cons i l ih =>
      have hne : (place i : ℕ) ≠ j := Fin.val_ne_of_ne (h i List.mem_cons_self)
      rw [List.foldl_cons, ih fun i' hi' => h i' (List.mem_cons_of_mem i hi')]
      exact Vector.getElem_set_ne _ _ hne

/-- Writing to different places leaves each entry at its own. -/
theorem getElem_foldl_set {ι : Type} {place : ι → Fin n} (hplace : Function.Injective place)
    (entry : ι → α) {l : List ι} (hl : l.Nodup) {i : ι} (hi : i ∈ l) (out : Vector α n) :
    (l.foldl (fun out i => out.set (place i) (entry i)) out)[place i] = entry i := by
  induction l generalizing out with
  | nil => cases hi
  | cons k l ih =>
      obtain ⟨hlater, hl⟩ := List.nodup_cons.mp hl
      rw [List.foldl_cons]
      rcases List.mem_cons.mp hi with rfl | hi
      · have hne : ∀ i' ∈ l, place i' ≠ place i := by
          intro i' hi' heq
          rw [hplace heq] at hi'
          exact hlater hi'
        rw [getElem_foldl_set_of_ne place entry hne]
        exact Vector.getElem_set_self _
      · exact ih hl hi _

variable {rows cols : ℕ}

/-- The place of an element is within the matrix. -/
theorem place_lt (r : Fin rows) (c : Fin cols) : r * cols + c < rows * cols := by
  calc r * cols + c < r * cols + cols := Nat.add_lt_add_left c.isLt _
    _ = (r + 1) * cols := (Nat.succ_mul _ _).symm
    _ ≤ rows * cols := Nat.mul_le_mul_right cols r.isLt

/-- The place of an element among all elements, one row after the other. -/
def place (p : Fin rows × Fin cols) : Fin (rows * cols) := ⟨p.1 * cols + p.2, place_lt p.1 p.2⟩

/-- Places are counted row by row. -/
theorem place_eq (p : Fin rows × Fin cols) : place p = finProdFinEquiv p := by
  apply Fin.ext
  calc (p.1 : ℕ) * cols + p.2 = p.2 + cols * p.1 := by rw [Nat.mul_comm, Nat.add_comm]
    _ = finProdFinEquiv p := (finProdFinEquiv_apply_val p).symm

/-- No two elements have one place. -/
theorem place_injective : Function.Injective (place : Fin rows × Fin cols → Fin (rows * cols)) := by
  intro p q h
  rw [place_eq, place_eq] at h
  exact finProdFinEquiv.injective h

/-- Every place is that of an element. -/
theorem place_surjective :
    Function.Surjective (place : Fin rows × Fin cols → Fin (rows * cols)) := by
  intro j
  obtain ⟨p, rfl⟩ := finProdFinEquiv.surjective j
  exact ⟨p, place_eq p⟩

/-- Write the entries of a table to their places, row by row and each row from the left. -/
def fill (entry : Fin rows → Fin cols → α) (out : Vector α (rows * cols)) :
    Vector α (rows * cols) :=
  (List.finRange rows).foldl
    (fun out r => (List.finRange cols).foldl
      (fun out c => out.set (place (r, c)) (entry r c)) out) out

/-- Once a table is written, each of its entries is at its place. -/
theorem getElem_fill (entry : Fin rows → Fin cols → α) (out : Vector α (rows * cols))
    (p : Fin rows × Fin cols) : (fill entry out)[place p] = entry p.1 p.2 := by
  have hpairs : fill entry out =
      (List.finRange rows ×ˢ List.finRange cols).foldl
        (fun out p => out.set (place p) (entry p.1 p.2)) out := by
    simp only [fill, SProd.sprod, List.product, List.foldl_flatMap, List.foldl_map]
  have hnodup : (List.finRange rows ×ˢ List.finRange cols).Nodup :=
    (List.nodup_finRange rows).product (List.nodup_finRange cols)
  have hmem : p ∈ List.finRange rows ×ˢ List.finRange cols :=
    List.mem_product.mpr ⟨List.mem_finRange p.1, List.mem_finRange p.2⟩
  rw [hpairs]
  exact getElem_foldl_set place_injective (fun p => entry p.1 p.2) hnodup hmem out

end Filling

namespace Matrix4

/-- One of the four rows. -/
def row {β : Type} (m : Matrix4 β) : Fin 4 → Vec4 β
  | 0 => m.r1
  | 1 => m.r2
  | 2 => m.r3
  | 3 => m.r4

section Elements

variable {α : Type} [Scalar α]

/-- The elements of a product, each written to its place among sixteen zeros. -/
def mulByElements (a b : Matrix4 α) : Vector α (4 * 4) :=
  fill (fun r c => dot (a.row r) (b.transpose.row c)) (Vector.replicate (4 * 4) 0)

/-- The element of a product in a given row and column. -/
theorem getElem_toList_mul (a b : Matrix4 α) (r c : Fin 4) :
    (Components.toList (a * b))[place (r, c)] = dot (a.row r) (b.transpose.row c) := by
  fin_cases r <;> fin_cases c <;> rfl

/-- Written element by element, a product has the elements that it has by rows. -/
theorem ofList?_mulByElements (a b : Matrix4 α) :
    Components.ofList? (mulByElements a b).toList = some (a * b) := by
  have hlist : (mulByElements a b).toList = Components.toList (a * b) := by
    refine List.ext_getElem Vector.length_toList fun i hi _ => ?_
    rw [Vector.length_toList] at hi
    obtain ⟨⟨r, c⟩, hplace⟩ := place_surjective (⟨i, hi⟩ : Fin (4 * 4))
    obtain rfl : (place (r, c) : ℕ) = i := congrArg Fin.val hplace
    rw [Vector.getElem_toList]
    exact (getElem_fill _ _ (r, c)).trans (getElem_toList_mul a b r c).symm
  rw [hlist]
  rfl

/-- A row of a product is the row of the first factor, moved by the second. -/
theorem row_mul (a b : Matrix4 α) (i : Fin 4) : (a * b).row i = b.transform (a.row i) := by
  fin_cases i <;> rfl

end Elements

/-- The scalar product is the same in either order, bit for bit. -/
theorem dot_comm_binary32 (u v : Vec4 Float32) : dot u v = dot v u := by
  rw [Vec4.dot_eq, Vec4.dot_eq, Binary32.mul_comm u.x, Binary32.mul_comm u.y,
    Binary32.mul_comm u.z, Binary32.mul_comm u.w]

/-- Transposing exchanges the rows of the left factor and the columns of the right one. -/
theorem transpose_mul_binary32 (a b : Matrix4 Float32) :
    (a * b).transpose = b.transpose * a.transpose := by
  ext <;> exact dot_comm_binary32 _ _

end Matrix4

/-- **Products by rows.**  In binary32, whatever the elements are, the rows of a product of four by
four matrices are the rows of the left factor multiplied by the right one; written element by
element, the product is the same; and its transpose is the product of the transposes in the other
order.  A product of maps of the plane has the images of two directions for the axes, and that of
a point for the origin. -/
theorem products_are_moved_rows :
    (∀ a b : Matrix4 Float32,
      (∀ i, (a * b).row i = b.transform (a.row i)) ∧
      Components.ofList? (a.mulByElements b).toList = some (a * b) ∧
      (a * b).transpose = b.transpose * a.transpose) ∧
    ∀ a b : Affine2 Float32,
      (a * b).r1 = b.transformDirection a.r1 ∧ (a * b).r2 = b.transformDirection a.r2 ∧
      (a * b).translationPart = b.transformPoint a.translationPart := by
  constructor
  · intro a b
    exact ⟨a.row_mul b, a.ofList?_mulByElements b, a.transpose_mul_binary32 b⟩
  · intro a b
    rw [Affine2.mul_rows]
    exact ⟨rfl, rfl, rfl⟩

end Spatial
