/-
CactKernel/Lib/Cover.lean

How far a list of intervals reaches.

The items of a list occupy intervals `[lo r, hi r)`, in any order, with gaps
and overlaps.  `reach lo hi rs a` walks from `a` to the end of an interval
that holds `a`, from there to the end of one that holds that address, and so
on until none does.  A pass leaves an interval behind it for good
(`countP_lt`), so as many passes as there are items are enough, and the
address where the walk stops is the first gap behind `a` (`le_reach_iff`).
-/
import Mathlib.Data.List.Basic
import Mathlib.Algebra.Order.Ring.Nat

namespace Cover

variable {α : Type*} {lo hi : α → ℕ} {rs : List α} {a b e n : ℕ}

/-- A stronger test that some item fails finds fewer items. -/
theorem countP_lt {p q : α → Bool} {r : α} (hr : r ∈ rs) (hpq : ∀ x, q x = true → p x = true)
    (hp : p r = true) (hq : q r = false) : rs.countP q < rs.countP p := by
  obtain ⟨l₁, l₂, rfl⟩ := List.append_of_mem hr
  have h₁ := List.countP_mono_left fun x (_ : x ∈ l₁) => hpq x
  have h₂ := List.countP_mono_left fun x (_ : x ∈ l₂) => hpq x
  rw [List.countP_append, List.countP_append, List.countP_cons, List.countP_cons, if_pos hp,
    if_neg (by simp [hq])]
  omega

/-- Some interval holds `a`. -/
def Covered (lo hi : α → ℕ) (rs : List α) (a : ℕ) : Prop := ∃ r ∈ rs, lo r ≤ a ∧ a < hi r

/-- `n` passes of the walk from `a` on. -/
def walk (lo hi : α → ℕ) (rs : List α) : ℕ → ℕ → ℕ
  | 0, a => a
  | n + 1, a =>
    match rs.find? fun r => lo r ≤ a ∧ a < hi r with
    | none => a
    | some r => walk lo hi rs n (hi r)

/-- The first address from `a` on that no interval holds. -/
def reach (lo hi : α → ℕ) (rs : List α) (a : ℕ) : ℕ := walk lo hi rs rs.length a

theorem holds_of_find? {r : α} (hf : (rs.find? fun r => lo r ≤ a ∧ a < hi r) = some r) :
    r ∈ rs ∧ lo r ≤ a ∧ a < hi r :=
  ⟨List.mem_of_find?_eq_some hf, by simpa using List.find?_some hf⟩

/-- Everything the walk has passed is covered. -/
theorem covered_of_lt_walk (hb : a ≤ b) (hlt : b < walk lo hi rs n a) : Covered lo hi rs b := by
  induction n generalizing a with
  | zero => exact absurd hlt (not_lt.mpr hb)
  | succ n ih =>
    rw [walk] at hlt
    rcases hf : rs.find? fun r => lo r ≤ a ∧ a < hi r with - | r
    · rw [hf] at hlt
      exact absurd hlt (not_lt.mpr hb)
    · rw [hf] at hlt
      obtain ⟨hr, hlo, -⟩ := holds_of_find? hf
      rcases lt_or_ge b (hi r) with h | h
      · exact ⟨r, hr, hlo.trans hb, h⟩
      · exact ih h hlt

/-- With a pass for every interval that ends behind `a`, the walk ends at a gap. -/
theorem not_covered_walk (hn : rs.countP (fun r => a < hi r) ≤ n) :
    ¬Covered lo hi rs (walk lo hi rs n a) := by
  induction n generalizing a with
  | zero =>
    rintro ⟨r, hr, -, hlt⟩
    exact absurd (decide_eq_true hlt) (List.countP_eq_zero.mp (Nat.le_zero.mp hn) r hr)
  | succ n ih =>
    rw [walk]
    rcases hf : rs.find? fun r => lo r ≤ a ∧ a < hi r with - | r
    · rintro ⟨r, hr, h⟩
      exact absurd (decide_eq_true h) (List.find?_eq_none.mp hf r hr)
    · obtain ⟨hr, -, hlt⟩ := holds_of_find? hf
      -- each pass leaves one more interval behind
      have hless : rs.countP (fun q => hi r < hi q) < rs.countP (fun q => a < hi q) := by
        refine countP_lt hr (fun q hq => ?_) (decide_eq_true hlt) (by simp)
        exact decide_eq_true (hlt.trans (of_decide_eq_true hq))
      exact ih (by omega)

/-- **The walk measures the covered run**: it gets to `e` exactly when every
address from `a` up to `e` is covered. -/
theorem le_reach_iff :
    e ≤ reach lo hi rs a ↔ ∀ b, a ≤ b → b < e → Covered lo hi rs b := by
  constructor
  · intro hle b hb hlt
    exact covered_of_lt_walk hb (hlt.trans_le hle)
  · intro hall
    by_contra hlt
    have hgap : ¬Covered lo hi rs (reach lo hi rs a) := not_covered_walk List.countP_le_length
    exact hgap (hall _ (le_walk ..) (not_le.mp hlt))
where
  /-- The walk never goes back. -/
  le_walk (n a : ℕ) : a ≤ walk lo hi rs n a := by
    induction n generalizing a with
    | zero => exact le_rfl
    | succ n ih =>
      rw [walk]
      rcases hf : rs.find? fun r => lo r ≤ a ∧ a < hi r with - | r
      · exact le_rfl
      · exact (holds_of_find? hf).2.2.le.trans (ih (hi r))

end Cover
