/-
CactKernel/Lib/ByteFile.lean

Files as lists of cells.

A file is read and written at an offset, extended with blank cells (`z`) and
cut off.  A store that keeps the cells of a file somewhere is compared with it
through `image n g`, the file of the `n` cells `g 0, …, g (n - 1)`: each
operation on an image is the image of an explicit function, so that a proof
about a store only compares cells.
-/
import Mathlib.Data.List.Basic

namespace ByteFile

variable {α : Type*} (z : α)

/-- At least `n` cells. -/
def extend (f : List α) (n : Nat) : List α := f ++ List.replicate (n - f.length) z

/-- The cells of `[off, off + n)` the file has. -/
def read (f : List α) (off n : Nat) : List α := (f.drop off).take n

/-- Exactly `n` cells. -/
def truncate (f : List α) (n : Nat) : List α := (extend z f n).take n

/-- The cells `bs` at `off`. -/
def write (f : List α) (off : Nat) (bs : List α) : List α :=
  (extend z f off).take off ++ bs ++ f.drop (off + bs.length)

/-- The file of the cells `g 0, …, g (n - 1)`. -/
def image (n : Nat) (g : Nat → α) : List α := (List.range n).map g

variable {n k off : Nat} {g g' : Nat → α} {f : List α}

@[simp] theorem image_length : (image n g).length = n := by
  simp [image]

theorem image_getElem? (i : Nat) : (image n g)[i]? = if i < n then some (g i) else none := by
  unfold image
  rw [List.getElem?_map]
  split
  · next h => rw [List.getElem?_range h, Option.map_some]
  · next h =>
    rw [List.getElem?_eq_none (by simpa using h)]
    rfl

theorem image_congr (h : ∀ i < n, g i = g' i) : image n g = image n g' :=
  List.map_congr_left fun i hi => h i (List.mem_range.mp hi)

/-- A file is an image if it has its cells. -/
theorem eq_image (h : ∀ i, f[i]? = if i < n then some (g i) else none) : f = image n g :=
  List.ext_getElem? fun i => (h i).trans (image_getElem? i).symm

theorem read_image (off : Nat) :
    read (image n g) off k = image (min k (n - off)) fun i => g (off + i) := by
  refine eq_image fun i => ?_
  rw [read, List.getElem?_take, List.getElem?_drop, image_getElem?]
  split_ifs <;> first | rfl | omega

variable {z} {bs : List α}

theorem extend_getElem? {i : Nat} (h : i < n) : (extend z f n)[i]? = some ((f[i]?).getD z) := by
  rw [extend, List.getElem?_append]
  split
  · next hi => rw [List.getElem?_eq_getElem hi, Option.getD_some]
  · next hi =>
    rw [List.getElem?_replicate, if_pos (by omega), List.getElem?_eq_none (by omega), Option.getD_none]

theorem extend_image : extend z (image n g) k = image (max n k) fun i => if i < n then g i else z := by
  refine eq_image fun i => ?_
  rw [extend, List.getElem?_append, image_length, image_getElem?, List.getElem?_replicate]
  split_ifs <;> first | rfl | omega

/-- The cells of a file after a write. -/
theorem write_getElem? (i : Nat) :
    (write z f off bs)[i]? =
      if i < off then some ((f[i]?).getD z) else if i < off + bs.length then bs[i - off]? else f[i]? := by
  have hlen : ((extend z f off).take off).length = off := by
    rw [List.length_take, extend, List.length_append, List.length_replicate]
    omega
  rw [write, List.append_assoc, List.getElem?_append, hlen]
  by_cases h₁ : i < off
  · rw [if_pos h₁, if_pos h₁, List.getElem?_take, if_pos h₁, extend_getElem? h₁]
  rw [if_neg h₁, if_neg h₁, List.getElem?_append]
  by_cases h₂ : i < off + bs.length
  · rw [if_pos (by omega), if_pos h₂]
  · rw [if_neg (by omega), if_neg h₂, List.getElem?_drop,
      show off + bs.length + (i - off - bs.length) = i by omega]

/-- A file cut or extended to `n` cells. -/
theorem truncate_eq_image : truncate z f n = image n fun i => (f[i]?).getD z := by
  refine eq_image fun i => ?_
  rw [truncate, List.getElem?_take]
  split
  · next hi => exact extend_getElem? hi
  · rfl

/-- A file that is long enough is only cut. -/
theorem take_eq_image (h : n ≤ f.length) (z : α) : f.take n = image n fun i => (f[i]?).getD z := by
  rw [← truncate_eq_image, truncate, extend, Nat.sub_eq_zero_of_le h, List.replicate_zero, List.append_nil]

theorem write_length : (write z f off bs).length = max f.length (off + bs.length) := by
  simp only [write, extend, List.length_append, List.length_take, List.length_replicate, List.length_drop]
  omega

theorem truncate_image : truncate z (image n g) k = image k fun i => if i < n then g i else z := by
  rw [truncate_eq_image]
  refine image_congr fun i _ => ?_
  rw [image_getElem?]
  split <;> rfl

theorem write_image (hin : ∀ j b, bs[j]? = some b → g' (off + j) = b)
    (hout : ∀ i, i < off ∨ off + bs.length ≤ i → i < max n (off + bs.length) →
      g' i = if i < n then g i else z) :
    write z (image n g) off bs = image (max n (off + bs.length)) g' := by
  refine eq_image fun i => ?_
  rw [write_getElem?, image_getElem?]
  by_cases h₁ : i < off
  · rw [if_pos h₁, if_pos (show i < max n (off + bs.length) by omega), hout i (Or.inl h₁) (by omega)]
    split <;> rfl
  rw [if_neg h₁]
  by_cases h₂ : i < off + bs.length
  · obtain ⟨b, hb⟩ : ∃ b, bs[i - off]? = some b := ⟨_, List.getElem?_eq_getElem (by omega)⟩
    rw [if_pos h₂, if_pos (by omega), hb, ← hin _ _ hb, Nat.add_sub_cancel' (by omega)]
  rw [if_neg h₂]
  by_cases h₃ : i < n
  · rw [if_pos h₃, if_pos (by omega), hout i (Or.inr (by omega)) (by omega), if_pos h₃]
  · rw [if_neg h₃, if_neg (by omega)]

end ByteFile
