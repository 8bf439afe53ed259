/-
CactKernel/Lib/Tiling.lean

Blocks laid out back to back.

A heap of the boundary-header kind is a list of cells; a cell is a header of
`h` bytes followed by `size` bytes of payload, and the next cell starts where
it ends.  Only sizes are stored: where a cell lies follows from the cells
before it.  `At h a cells x c` says that the cell `c` lies at the address `x`
when the list starts at `a`.

`coalesce` merges neighbouring free cells in one pass.  The results: a pass
keeps the extent, keeps every used cell where it is, and leaves no two
neighbours free.
-/
import Mathlib.Data.List.Chain

namespace Tiling

/-- A cell: the size of its payload, and whether it is free. -/
structure Cell where
  size : ℕ
  free : Bool
deriving DecidableEq, Repr

variable {h a b x y k : ℕ} {c d : Cell} {cs ds : List Cell}

/-- The extent of a list of cells, headers included. -/
def span (h : ℕ) : List Cell → ℕ
  | [] => 0
  | c :: cs => h + c.size + span h cs

@[simp] theorem span_nil : span h [] = 0 := rfl
@[simp] theorem span_cons : span h (c :: cs) = h + c.size + span h cs := rfl

@[simp] theorem span_append : span h (cs ++ ds) = span h cs + span h ds := by
  induction cs with
  | nil => simp
  | cons c cs ih => simp [ih, Nat.add_assoc]

theorem mul_length_le_span (h : ℕ) (cs : List Cell) : h * cs.length ≤ span h cs := by
  induction cs with
  | nil => simp
  | cons c cs ih =>
    rw [List.length_cons, Nat.mul_succ, span_cons]
    omega

/-- Sizes that are multiples of `k` give an extent that is one. -/
theorem dvd_span (hk : k ∣ h) (hcs : ∀ c ∈ cs, k ∣ c.size) : k ∣ span h cs := by
  induction cs with
  | nil => exact Nat.dvd_zero k
  | cons c cs ih =>
    exact Nat.dvd_add (Nat.dvd_add hk (hcs c List.mem_cons_self))
      (ih fun d hd => hcs d (List.mem_cons_of_mem c hd))

/-- The cell `c` lies at `x`, in a list that starts at `a`. -/
def At (h : ℕ) : ℕ → List Cell → ℕ → Cell → Prop
  | _, [], _, _ => False
  | a, d :: ds, x, c => x = a ∧ c = d ∨ At h (a + h + d.size) ds x c

theorem at_append : At h a (cs ++ ds) x c ↔ At h a cs x c ∨ At h (a + span h cs) ds x c := by
  induction cs generalizing a with
  | nil => simp [At]
  | cons e cs ih =>
    rw [List.cons_append, At, At, ih, span_cons, or_assoc,
      show a + h + e.size + span h cs = a + (h + e.size + span h cs) by omega]

/-- A cell of the list, wherever it is. -/
theorem at_mid : At h a (cs ++ c :: ds) (a + span h cs) c :=
  at_append.mpr (Or.inr (Or.inl ⟨rfl, rfl⟩))

section

variable (hx : At h a cs x c)
include hx

/-- The cells before and after the one at `x`. -/
theorem At.split : ∃ pre post, cs = pre ++ c :: post ∧ x = a + span h pre := by
  induction cs generalizing a with
  | nil => cases hx
  | cons e cs ih =>
    rcases hx with ⟨rfl, rfl⟩ | hx
    · exact ⟨[], cs, rfl, rfl⟩
    · obtain ⟨pre, post, rfl, rfl⟩ := ih hx
      exact ⟨e :: pre, post, rfl, by simp [Nat.add_assoc]⟩

theorem At.bounds : a ≤ x ∧ x + h + c.size ≤ a + span h cs := by
  obtain ⟨pre, post, rfl, rfl⟩ := hx.split
  simp only [span_append, span_cons]
  omega

/-- **Two cells are the same or do not meet.** -/
theorem At.apart (hy : At h a cs y d) :
    x = y ∧ c = d ∨ x + h + c.size ≤ y ∨ y + h + d.size ≤ x := by
  induction cs generalizing a with
  | nil => cases hx
  | cons e cs ih =>
    rcases hx with ⟨rfl, rfl⟩ | hx <;> rcases hy with ⟨rfl, rfl⟩ | hy
    · exact Or.inl ⟨rfl, rfl⟩
    · exact Or.inr (Or.inl hy.bounds.1)
    · exact Or.inr (Or.inr hx.bounds.1)
    · exact ih hx hy

end

/-- There is one cell at an address. -/
theorem At.unique (hpos : 0 < h) (hx : At h a cs x c) (hy : At h a cs x d) : c = d := by
  rcases hx.apart hy with ⟨-, heq⟩ | hle | hle
  · exact heq
  · omega
  · omega

/-- Replacing a cell by others of the same extent keeps the cells around it. -/
theorem At.replace {pre post : List Cell} (hx : At h a (pre ++ d :: post) x c) (mid : List Cell)
    (hspan : span h mid = span h [d]) :
    (x = a + span h pre ∧ c = d) ∨ At h a (pre ++ (mid ++ post)) x c := by
  simp only [at_append, At, hspan, Nat.add_assoc] at hx ⊢
  tauto

/-! ### Coalescing -/

/-- Two neighbours of which at most one is free. -/
def NotBothFree (c d : Cell) : Prop := ¬(c.free = true ∧ d.free = true)

/-- A free cell that absorbs its free neighbour. -/
def merge (h : ℕ) (c d : Cell) : Cell := ⟨c.size + (d.size + h), true⟩

/-- One pass over the list: a free cell absorbs free neighbours as long as it
has one. -/
def coalesce (h : ℕ) : List Cell → List Cell
  | [] => []
  | [c] => [c]
  | c :: d :: cs =>
    if c.free = true ∧ d.free = true then coalesce h (merge h c d :: cs)
    else c :: coalesce h (d :: cs)
termination_by cs => cs.length

theorem coalesce_both_free (hc : c.free = true) (hd : d.free = true) :
    coalesce h (c :: d :: cs) = coalesce h (merge h c d :: cs) := by
  rw [coalesce, if_pos ⟨hc, hd⟩]

theorem coalesce_not_both_free (hcd : NotBothFree c d) :
    coalesce h (c :: d :: cs) = c :: coalesce h (d :: cs) := by
  rw [coalesce, if_neg hcd]

theorem span_coalesce : span h (coalesce h cs) = span h cs := by
  fun_induction coalesce h cs with
  | case1 => rfl
  | case2 => rfl
  | case3 c d cs hfree ih =>
    rw [ih]
    simp only [span_cons, merge]
    omega
  | case4 c d cs hfree ih => rw [span_cons, ih, span_cons, span_cons, span_cons]

/-- The first cell of a pass is as free as the first cell was. -/
theorem coalesce_head (c : Cell) (cs : List Cell) :
    ∃ c' cs', coalesce h (c :: cs) = c' :: cs' ∧ c'.free = c.free := by
  induction cs generalizing c with
  | nil => exact ⟨c, [], by rw [coalesce], rfl⟩
  | cons d cs ih =>
    by_cases hfree : c.free = true ∧ d.free = true
    · obtain ⟨c', cs', heq, hc'⟩ := ih (merge h c d)
      exact ⟨c', cs', by rw [coalesce_both_free hfree.1 hfree.2, heq], by rw [hc', hfree.1]; rfl⟩
    · exact ⟨c, _, coalesce_not_both_free hfree, rfl⟩

/-- **After a pass no two neighbours are free.** -/
theorem coalesce_isChain : (coalesce h cs).IsChain NotBothFree := by
  fun_induction coalesce h cs with
  | case1 => exact .nil
  | case2 c => exact .singleton c
  | case3 c d cs hfree ih => exact ih
  -- the next cell may have grown, but it is as free as it was
  | case4 c d cs hfree ih =>
    obtain ⟨d', cs', heq, hd'⟩ := coalesce_head d cs
    rw [heq] at ih ⊢
    exact .cons_cons (by rwa [NotBothFree, hd']) ih

/-- **A pass leaves used cells where they are.** -/
theorem At.coalesce (hx : At h a cs x c) (hc : c.free = false) : At h a (coalesce h cs) x c := by
  induction cs using coalesce.induct (h := h) generalizing a with
  | case1 => cases hx
  | case2 d => rwa [Tiling.coalesce]
  | case3 d e cs hfree ih =>
    rw [coalesce_both_free hfree.1 hfree.2]
    refine ih ?_
    -- a used cell is neither of the two that merge
    rcases hx with ⟨-, rfl⟩ | ⟨-, rfl⟩ | hx
    · simp [hc] at hfree
    · simp [hc] at hfree
    · refine Or.inr ?_
      rwa [show a + h + (merge h d e).size = a + h + d.size + h + e.size by
        simp only [merge]; omega]
  | case4 d e cs hfree ih =>
    rw [coalesce_not_both_free hfree]
    rcases hx with hx | hx
    · exact Or.inl hx
    · exact Or.inr (ih hx)

theorem dvd_size_coalesce (hk : k ∣ h) (hcs : ∀ c ∈ cs, k ∣ c.size) :
    ∀ c ∈ coalesce h cs, k ∣ c.size := by
  fun_induction coalesce h cs with
  | case1 => exact hcs
  | case2 => exact hcs
  | case3 c d cs hfree ih =>
    simp only [List.forall_mem_cons] at hcs ih
    exact ih ⟨Nat.dvd_add hcs.1 (Nat.dvd_add hcs.2.1 hk), hcs.2.2⟩
  | case4 c d cs hfree ih =>
    obtain ⟨hc, hcs⟩ := List.forall_mem_cons.mp hcs
    exact List.forall_mem_cons.mpr ⟨hc, ih hcs⟩

/-! ### Taking a free cell -/

section Take

variable {pre post : List Cell} {u r : Cell}

theorem notBothFree_of_used (hu : u.free = false) : NotBothFree c u ∧ NotBothFree u c := by
  simp [NotBothFree, hu]

section

variable (hchain : (pre ++ c :: post).IsChain NotBothFree)
include hchain

/-- Taking a whole cell keeps neighbours apart. -/
theorem isChain_take (hu : u.free = false) :
    (pre ++ u :: post).IsChain NotBothFree := by
  rw [List.isChain_append, List.isChain_cons] at hchain ⊢
  obtain ⟨hpre, ⟨-, hpost⟩, -⟩ := hchain
  refine ⟨hpre, ⟨fun d _ => (notBothFree_of_used hu).2, hpost⟩, fun x _ y hy => ?_⟩
  obtain rfl : u = y := by simpa using hy
  exact (notBothFree_of_used hu).1

/-- Taking the front of a free cell keeps neighbours apart: the cell after it is
used. -/
theorem isChain_take_front (hc : c.free = true)
    (hu : u.free = false) : (pre ++ u :: r :: post).IsChain NotBothFree := by
  have hall := isChain_take hchain hu
  rw [List.isChain_append, List.isChain_cons] at hchain hall ⊢
  obtain ⟨hpre, ⟨-, hpost⟩, hjoin⟩ := hall
  obtain ⟨-, ⟨hnext, -⟩, -⟩ := hchain
  refine ⟨hpre, ⟨fun d _ => (notBothFree_of_used hu).2, ?_⟩, by simpa using hjoin⟩
  rw [List.isChain_cons]
  refine ⟨fun d hd => ?_, hpost⟩
  have hused : d.free = false := by simpa [NotBothFree, hc] using hnext d hd
  exact (notBothFree_of_used hused).1

end

end Take

end Tiling
