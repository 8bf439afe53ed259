/-
CactKernel/Lib/Table.lean

Tables that are filled from the front.

An entry is added behind the last one and taken out by moving the last one into
its place (`swapRemove`).  Up to the order of the entries that is an erasure:
`swapRemove_perm`.  In a table with distinct keys the entry that goes is the one
with the key (`mem_of_swapRemove`), and taking out what was just added gives the
table back (`swapRemove_concat`).
-/
import Mathlib.Data.List.Nodup

namespace Table

variable {α : Type*} {p : α → Bool} {l l' : List α} {x : α}

/-- The last entry moves into the gap in front of `l`. -/
def fillGap (l : List α) : List α :=
  match l.getLast? with
  | none => []
  | some z => z :: l.dropLast

/-- Take the first entry with `p` out. -/
def swapRemove (p : α → Bool) : List α → Option (List α)
  | [] => none
  | x :: l => if p x then some (fillGap l) else (swapRemove p l).map (x :: ·)

theorem fillGap_perm : (fillGap l).Perm l := by
  unfold fillGap
  cases h : l.getLast? with
  | none => rw [List.getLast?_eq_none_iff.mp h]
  | some z =>
    obtain ⟨hne, rfl⟩ := List.mem_getLast?_eq_getLast h
    have hsplit := List.dropLast_append_getLast hne
    calc (l.getLast hne :: l.dropLast).Perm (l.dropLast ++ [l.getLast hne]) :=
          (List.perm_append_singleton ..).symm
      _ = l := hsplit

/-- **Taking out is erasing.** -/
theorem swapRemove_perm (h : swapRemove p l = some l') : ∃ x, p x = true ∧ l.Perm (x :: l') := by
  induction l generalizing l' with
  | nil => cases h
  | cons y l ih =>
    unfold swapRemove at h
    split_ifs at h with hy
    · obtain rfl := Option.some.inj h
      exact ⟨y, hy, fillGap_perm.symm.cons y⟩
    · obtain ⟨l₁, hl₁, rfl⟩ := Option.map_eq_some_iff.mp h
      obtain ⟨x, hx, hperm⟩ := ih hl₁
      exact ⟨x, hx, (hperm.cons y).trans (List.Perm.swap ..)⟩

theorem swapRemove_of_mem (hx : x ∈ l) (hp : p x = true) : ∃ l', swapRemove p l = some l' := by
  induction l with
  | nil => cases hx
  | cons y l ih =>
    unfold swapRemove
    split_ifs with hy
    · exact ⟨_, rfl⟩
    · rcases List.mem_cons.mp hx with rfl | hx
      · exact absurd hp hy
      · obtain ⟨l₁, hl₁⟩ := ih hx
        exact ⟨y :: l₁, by rw [hl₁]; rfl⟩

/-- An entry that was just added is taken out again. -/
theorem swapRemove_concat (hl : ∀ y ∈ l, p y = false) (hp : p x = true) :
    swapRemove p (l ++ [x]) = some l := by
  induction l with
  | nil =>
    show (if p x then _ else _) = _
    rw [if_pos hp]
    rfl
  | cons y l ih =>
    show (if p y then _ else (swapRemove p (l ++ [x])).map _) = _
    rw [if_neg (by rw [hl y List.mem_cons_self]; exact Bool.false_ne_true),
      ih fun z hz => hl z (List.mem_cons_of_mem _ hz)]
    rfl

section Keys

variable {κ : Type*} {f : α → κ}

theorem nodup_of_swapRemove (hnd : (l.map f).Nodup) (h : swapRemove p l = some l') :
    (l'.map f).Nodup := by
  obtain ⟨x, -, hperm⟩ := swapRemove_perm h
  exact (List.nodup_cons.mp ((hperm.map f).nodup_iff.mp hnd)).2

/-- With distinct keys, exactly the entry with the key of `x` goes. -/
theorem mem_of_swapRemove (hnd : (l.map f).Nodup) (hp : ∀ y, p y = true ↔ f y = f x) {y : α}
    (h : swapRemove p l = some l') : y ∈ l' ↔ y ∈ l ∧ f y ≠ f x := by
  obtain ⟨z, hz, hperm⟩ := swapRemove_perm h
  have hcons := List.nodup_cons.mp ((hperm.map f).nodup_iff.mp hnd)
  have hkey : f z = f x := (hp z).mp hz
  constructor
  · intro hy
    refine ⟨hperm.mem_iff.mpr (List.mem_cons_of_mem _ hy), fun heq => hcons.1 ?_⟩
    rw [hkey, ← heq]
    exact List.mem_map_of_mem hy
  · rintro ⟨hy, hne⟩
    rcases List.mem_cons.mp (hperm.mem_iff.mp hy) with rfl | hy
    · exact absurd hkey hne
    · exact hy

end Keys

end Table
