/-
CactKernel/Lib/Ledger.lean

Sums over the cells of an array.

`tally n g` is `g 0 + … + g (n - 1)`.  With `g i` the number of references that
cell `i` keeps to some object, it is the number of references kept to that
object, and the rules say how it moves when a cell is added (`tally_succ`) or
changes what it keeps (`tally_swap`).
-/
import Mathlib.Algebra.Order.BigOperators.Group.Finset

namespace Ledger

open Function

variable {n i : Nat} {g k : Nat → Nat} {α : Type*} {f : Nat → α} {x : α}

/-- The sum over the cells below `n`. -/
def tally (n : Nat) (g : Nat → Nat) : Nat := ∑ i ∈ Finset.range n, g i

theorem tally_succ : tally (n + 1) g = tally n g + g n := Finset.sum_range_succ ..

theorem tally_congr (h : ∀ i < n, k i = g i) : tally n k = tally n g :=
  Finset.sum_congr rfl fun i hi => h i (Finset.mem_range.mp hi)

/-- **One cell changes** what it keeps. -/
theorem tally_swap (hi : i < n) (h : ∀ j, j ≠ i → k j = g j) :
    tally n k + g i = tally n g + k i := by
  induction n with
  | zero => omega
  | succ n ih =>
    rw [tally_succ, tally_succ]
    by_cases hin : i = n
    · subst hin
      rw [tally_congr fun j hj => h j (by omega)]
      omega
    · rw [h n (Ne.symm hin)]
      omega

/-- The cell is rewritten. -/
theorem tally_set (c : Nat → α → Nat) (hi : i < n) :
    (tally n fun j => c j (update f i x j)) + c i (f i) = (tally n fun j => c j (f j)) + c i x := by
  have hswap := tally_swap (k := fun j => c j (update f i x j)) hi
    fun j hj => by rw [update_of_ne hj]
  rwa [update_self] at hswap

/-- What one cell keeps is kept. -/
theorem le_tally (hi : i < n) : g i ≤ tally n g :=
  Finset.single_le_sum (fun _ _ => Nat.zero_le _) (Finset.mem_range.mpr hi)

/-- What two cells keep is kept. -/
theorem pair_le_tally {j : Nat} (hi : i < n) (hj : j < n) (hij : i ≠ j) : g i + g j ≤ tally n g := by
  have hswap : tally n (update g i 0) + g i = tally n g + 0 := tally_set (fun _ x => x) hi
  have hle : update g i 0 j ≤ tally n (update g i 0) := le_tally hj
  rw [update_of_ne hij.symm] at hle
  omega

end Ledger
