/-
CactKernel/Lib/Count.lean

How many cells of a finite array satisfy a predicate, and how that number
moves when one cell is overwritten.

Reference counting compares a stored count with the number of places that
refer to an object.  `countOf n q g` is that number for the cells
`g 0, …, g (n - 1)`; the only rule that matters is `countOf_update`, which
trades the old cell for the new one.  `countOf₂` is the same for a table of
`m` rows.
-/
import CactKernel.Lib.Ledger

namespace Count

open Function Ledger

variable {α : Type*} {q : α → Prop} [DecidablePred q] {g g' : ℕ → α} {n i j m : ℕ} {x : α}
  {p : Prop}

/-- `1` if `q` holds, else `0`. -/
def one (p : Prop) [Decidable p] : ℕ := if p then 1 else 0

@[simp] theorem one_pos [Decidable p] (h : p) : one p = 1 := if_pos h
@[simp] theorem one_neg [Decidable p] (h : ¬p) : one p = 0 := if_neg h

theorem one_le [Decidable p] : one p ≤ 1 := by
  unfold one
  split <;> omega

/-- The number of cells below `n` that satisfy `q`. -/
def countOf (n : ℕ) (q : α → Prop) [DecidablePred q] (g : ℕ → α) : ℕ :=
  ∑ k ∈ Finset.range n, one (q (g k))

theorem countOf_congr (h : ∀ k, k < n → (q (g k) ↔ q (g' k))) :
    countOf n q g = countOf n q g' :=
  tally_congr fun k hk => if_congr (h k hk) rfl rfl

theorem countOf_eq_zero : countOf n q g = 0 ↔ ∀ k, k < n → ¬q (g k) := by
  unfold countOf one
  simp

/-- **Overwriting one cell** trades its old contribution for the new one. -/
theorem countOf_update (hi : i < n) :
    countOf n q (update g i x) + one (q (g i)) = countOf n q g + one (q x) :=
  tally_set (fun _ x => one (q x)) hi

/-- One more cell. -/
theorem countOf_succ : countOf (n + 1) q g = countOf n q g + one (q (g n)) :=
  Finset.sum_range_succ ..

/-- More cells count more, and as many if the new ones do not satisfy `q`. -/
theorem countOf_mono_length (h : n ≤ m) : countOf n q g ≤ countOf m q g :=
  Finset.sum_le_sum_of_subset (Finset.range_mono h)

theorem countOf_extend (h : n ≤ m) (hnone : ∀ k, n ≤ k → k < m → ¬q (g k)) :
    countOf m q g = countOf n q g := by
  induction m, h using Nat.le_induction with
  | base => rfl
  | succ m hm ih =>
    rw [countOf_succ, one_neg (hnone m hm (by omega))]
    exact ih fun k hk hkm => hnone k hk (by omega)

/-- If the first `n` cells are struck out, the others remain. -/
theorem countOf_strike (h : n ≤ m) (hq : ∀ k, q (g' k) ↔ q (g k) ∧ n ≤ k) :
    countOf m q g' + countOf n q g = countOf m q g := by
  induction m, h using Nat.le_induction with
  | base =>
    have h0 : countOf n q g' = 0 := countOf_eq_zero.mpr fun k hk hg => by
      have := ((hq k).mp hg).2
      omega
    omega
  | succ m hm ih =>
    have hone : one (q (g' m)) = one (q (g m)) := by
      exact if_congr ((hq m).trans (and_iff_left hm)) rfl rfl
    rw [countOf_succ, countOf_succ]
    omega

theorem one_le_countOf (hi : i < n) (h : q (g i)) : 1 ≤ countOf n q g :=
  (one_pos h).ge.trans (le_tally (g := fun k => one (q (g k))) hi)

/-- Two cells that satisfy `q` are counted twice. -/
theorem two_le_countOf (hi : i < n) (hj : j < n) (hij : i ≠ j) (hqi : q (g i)) (hqj : q (g j)) :
    2 ≤ countOf n q g := by
  have := pair_le_tally (g := fun k => one (q (g k))) hi hj hij
  rwa [one_pos hqi, one_pos hqj] at this

/-! ### Tables -/

section Table

variable {m i' j' : ℕ} {t t' : ℕ → ℕ → α}

/-- The number of cells of an `m` by `n` table that satisfy `q`. -/
def countOf₂ (m n : ℕ) (q : α → Prop) [DecidablePred q] (t : ℕ → ℕ → α) : ℕ :=
  ∑ i ∈ Finset.range m, countOf n q (t i)

/-- Overwrite one cell of a table. -/
def setCell (t : ℕ → ℕ → α) (i j : ℕ) (x : α) : ℕ → ℕ → α := update t i (update (t i) j x)

theorem setCell_self : setCell t i j x i j = x := by
  rw [setCell, update_self, update_self]

theorem setCell_of_ne (h : (i', j') ≠ (i, j)) : setCell t i j x i' j' = t i' j' := by
  unfold setCell
  by_cases hi : i' = i
  · subst hi
    rw [update_self, update_of_ne]
    rintro rfl
    exact h rfl
  · rw [update_of_ne hi]

theorem countOf₂_eq_zero : countOf₂ m n q t = 0 ↔ ∀ i j, i < m → j < n → ¬q (t i j) := by
  unfold countOf₂
  rw [Finset.sum_eq_zero_iff]
  simp only [Finset.mem_range, countOf_eq_zero]
  exact ⟨fun h i j hi hj => h i hi j hj, fun h i hi j hj => h i j hi hj⟩

/-- Fewer cells satisfy `q` in the smaller table. -/
theorem countOf₂_mono (h : ∀ i j, i < m → j < n → q (t' i j) → q (t i j)) :
    countOf₂ m n q t' ≤ countOf₂ m n q t := by
  refine Finset.sum_le_sum fun i hi => Finset.sum_le_sum fun j hj => ?_
  rw [Finset.mem_range] at hi hj
  by_cases hq : q (t' i j)
  · rw [one_pos hq, one_pos (h i j hi hj hq)]
  · rw [one_neg hq]
    exact Nat.zero_le _

/-- **Overwriting one cell of a table.** -/
theorem countOf₂_setCell (hi : i < m) (hj : j < n) :
    countOf₂ m n q (setCell t i j x) + one (q (t i j)) = countOf₂ m n q t + one (q x) := by
  have hrow := countOf_update (q := q) (g := t i) (x := x) hj
  have hrows : countOf₂ m n q (setCell t i j x) + countOf n q (t i) =
      countOf₂ m n q t + countOf n q (update (t i) j x) := tally_set (fun _ => countOf n q) hi
  omega

/-- Two cells of a table that satisfy `q` are counted twice. -/
theorem two_le_countOf₂ (hi : i < m) (hj : j < n) (hi' : i' < m) (hj' : j' < n)
    (hne : (i, j) ≠ (i', j')) (h : q (t i j)) (h' : q (t i' j')) : 2 ≤ countOf₂ m n q t := by
  by_cases hrow : i = i'
  · subst hrow
    have hjj : j ≠ j' := fun h => hne (by rw [h])
    refine (two_le_countOf hj hj' hjj h h').trans ?_
    exact le_tally (g := fun k => countOf n q (t k)) hi
  · have hpair := pair_le_tally (g := fun k => countOf n q (t k)) hi hi' hrow
    exact (Nat.add_le_add (one_le_countOf hj h) (one_le_countOf hj' h')).trans hpair

/-- A new last row. -/
theorem countOf₂_succ : countOf₂ (m + 1) n q t = countOf₂ m n q t + countOf n q (t m) :=
  Finset.sum_range_succ ..

theorem countOf₂_congr (h : ∀ i j, i < m → j < n → (q (t i j) ↔ q (t' i j))) :
    countOf₂ m n q t = countOf₂ m n q t' :=
  le_antisymm (countOf₂_mono fun i j hi hj => (h i j hi hj).mp)
    (countOf₂_mono fun i j hi hj => (h i j hi hj).mpr)

end Table

end Count
