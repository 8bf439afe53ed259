/-
CactKernel/Lib/Chain.lean

Singly linked lists threaded through memory.

`Linked w h l` says that the pointer `h` starts a chain through the cells of
`l`: each cell holds the address of the next one and the last holds 0.  Only
the words of the cells on the list matter (`Linked.congr`), so a write to any
other cell leaves the chain alone; a cell is put in front by writing the old
head into it (`Linked.push`).  `linked_slots` is the chain through an array of
cells that each point to their successor.
-/
import Mathlib.Data.List.Range

namespace Chain

open Function

variable {w w' : Nat → Nat} {h a : Nat} {l : List Nat}

/-- The cells of `l`, in order, from the pointer `h` on. -/
def Linked (w : Nat → Nat) : Nat → List Nat → Prop
  | h, [] => h = 0
  | h, a :: l => h = a ∧ a ≠ 0 ∧ Linked w (w a) l

theorem Linked.congr (hl : Linked w h l) (hw : ∀ a ∈ l, w' a = w a) : Linked w' h l := by
  induction l generalizing h with
  | nil => exact hl
  | cons a l ih =>
    refine ⟨hl.1, hl.2.1, ?_⟩
    rw [hw a List.mem_cons_self]
    exact ih hl.2.2 fun b hb => hw b (List.mem_cons_of_mem a hb)

/-- A write outside the list. -/
theorem Linked.write {v : Nat} (hl : Linked w h l) (ha : a ∉ l) : Linked (update w a v) h l :=
  hl.congr fun _ hb => update_of_ne (ne_of_mem_of_not_mem hb ha) ..

/-- A cell put in front. -/
theorem Linked.push (hl : Linked w h l) (h0 : a ≠ 0) (ha : a ∉ l) : Linked (update w a h) a (a :: l) := by
  refine ⟨rfl, h0, ?_⟩
  rw [update_self]
  exact hl.write ha

/-- Cells that each hold the address of the next. -/
theorem linked_slots {slot : Nat → Nat} {n : Nat}
    (hw : ∀ i < n, w (slot i) = if i + 1 < n then slot (i + 1) else 0) (h0 : ∀ i, slot i ≠ 0) (k i : Nat)
    (hn : i + k = n) : Linked w (if i < n then slot i else 0) ((List.range' i k).map slot) := by
  induction k generalizing i with
  | zero => exact if_neg (by omega)
  | succ k ih =>
    rw [if_pos (by omega)]
    refine ⟨rfl, h0 i, ?_⟩
    rw [hw i (by omega)]
    exact ih (i + 1) (by omega)

end Chain
