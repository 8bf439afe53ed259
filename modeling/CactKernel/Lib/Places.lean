/-
CactKernel/Lib/Places.lean

Tokens kept in lists, one list per place.

`q : P → List T` says which tokens stand at each place.  `Once q` is the
discipline of intrusive lists: no list repeats a token and no token stands at
two places.  Such a table is changed by taking a token out (`takeOut`) and
putting it back in front (`putFirst`) or at the end (`putLast`).

`Moved q q' t d` says what a chain of these did to the token `t`: it now
stands at `d`, or nowhere, and nothing happened to the other tokens.  An
argument about a table that never looks at the order inside a list only needs
this relation.
-/
import Mathlib.Data.List.Nodup

namespace Places

open Function

variable {P T : Type*} {q q' q'' : P → List T} {p p' : P} {t u : T}

/-- No list repeats a token, and no token stands at two places. -/
structure Once (q : P → List T) : Prop where
  nodup : ∀ p, (q p).Nodup
  unique : ∀ {p p' t}, t ∈ q p → t ∈ q p' → p = p'

/-- A new entry keeps `Once`, whichever end of the list it goes to. -/
theorem Once.put (h : Once q) (ht : ∀ p, t ∉ q p)
    (hmem : ∀ u p', u ∈ q' p' ↔ u ∈ q p' ∨ p' = p ∧ u = t) (hnodup : ∀ p, (q' p).Nodup) :
    Once q' where
  nodup := hnodup
  unique {p₁ p₂ u} h₁ h₂ := by
    rcases (hmem u p₁).mp h₁ with h₁ | ⟨rfl, rfl⟩ <;> rcases (hmem u p₂).mp h₂ with h₂ | ⟨rfl, hu⟩
    · exact h.unique h₁ h₂
    · exact absurd (hu ▸ h₁) (ht _)
    · exact absurd h₂ (ht _)
    · rfl

/-- `t` now stands at `d` and nowhere else; the other tokens stand where they stood. -/
structure Moved (q q' : P → List T) (t : T) (d : Option P) : Prop where
  once : Once q'
  other : ∀ {u}, u ≠ t → ∀ p, u ∈ q' p ↔ u ∈ q p
  self : ∀ p, t ∈ q' p ↔ d = some p

namespace Moved

/-- A token that stands at `p` and is left there. -/
theorem stay (h : Once q) (ht : t ∈ q p) : Moved q q t (some p) :=
  ⟨h, fun _ _ => Iff.rfl, fun _ => ⟨fun hp => congrArg some (h.unique ht hp),
    fun hp => Option.some.inj hp ▸ ht⟩⟩

/-- A token that stands nowhere and is left out. -/
theorem absent (h : Once q) (ht : ∀ p, t ∉ q p) : Moved q q t none :=
  ⟨h, fun _ _ => Iff.rfl, fun p => ⟨fun hp => absurd hp (ht p), nofun⟩⟩

theorem notMem (h : Moved q q' t none) (p : P) : t ∉ q' p := fun hp => nomatch (h.self p).mp hp

/-- A token put back into a table it had been taken out of. -/
theorem put (h : Moved q q' t none) (hq : Once q'')
    (hmem : ∀ u p', u ∈ q'' p' ↔ u ∈ q' p' ∨ p' = p ∧ u = t) : Moved q q'' t (some p) where
  once := hq
  other hu p' := by
    rw [hmem, ← h.other hu]
    exact ⟨fun hm => hm.resolve_right fun he => hu he.2, Or.inl⟩
  self p' := by
    rw [hmem]
    exact ⟨fun hm => congrArg some ((hm.resolve_left (h.notMem p')).1).symm,
      fun hp => Or.inr ⟨(Option.some.inj hp).symm, rfl⟩⟩

end Moved

/-! ### Putting a token in -/

section Put

variable [DecidableEq P]

def putLast (q : P → List T) (p : P) (t : T) : P → List T := update q p (q p ++ [t])

def putFirst (q : P → List T) (p : P) (t : T) : P → List T := update q p (t :: q p)

theorem mem_putLast : u ∈ putLast q p t p' ↔ u ∈ q p' ∨ p' = p ∧ u = t := by
  unfold putLast
  by_cases h : p' = p
  · subst h
    simp
  · simp [h]

theorem mem_putFirst : u ∈ putFirst q p t p' ↔ u ∈ q p' ∨ p' = p ∧ u = t := by
  unfold putFirst
  by_cases h : p' = p
  · subst h
    simp [or_comm]
  · simp [h]

theorem Once.putLast (h : Once q) (ht : ∀ p, t ∉ q p) (p : P) : Once (putLast q p t) := by
  refine h.put ht (fun u p' => mem_putLast) ?_
  refine (forall_update_iff q fun _ l => l.Nodup).mpr ⟨?_, fun p' _ => h.nodup p'⟩
  exact (h.nodup p).append (List.nodup_singleton t) (List.disjoint_singleton.mpr (ht p))

theorem Once.putFirst (h : Once q) (ht : ∀ p, t ∉ q p) (p : P) : Once (putFirst q p t) := by
  refine h.put ht (fun u p' => mem_putFirst) ?_
  exact (forall_update_iff q fun _ l => l.Nodup).mpr ⟨List.nodup_cons.mpr ⟨ht p, h.nodup p⟩, fun p' _ => h.nodup p'⟩

theorem Moved.putLast (h : Moved q q' t none) (p : P) : Moved q (putLast q' p t) t (some p) :=
  h.put (h.once.putLast h.notMem p) fun _ _ => mem_putLast

theorem Moved.putFirst (h : Moved q q' t none) (p : P) : Moved q (putFirst q' p t) t (some p) :=
  h.put (h.once.putFirst h.notMem p) fun _ _ => mem_putFirst

end Put

/-! ### Taking a token out -/

section TakeOut

variable [DecidableEq P] [DecidableEq T]

def takeOut (q : P → List T) (p : P) (t : T) : P → List T := update q p ((q p).erase t)

theorem takeOut_of_ne (h : p' ≠ p) : takeOut q p t p' = q p' := update_of_ne h ..

theorem mem_takeOut (h : Once q) : u ∈ takeOut q p t p' ↔ u ∈ q p' ∧ ¬(p' = p ∧ u = t) := by
  unfold takeOut
  by_cases hp : p' = p
  · subst hp
    rw [update_self, (h.nodup p').mem_erase_iff]
    tauto
  · simp [hp]

theorem Once.takeOut (h : Once q) (p : P) (t : T) : Once (takeOut q p t) where
  nodup := (forall_update_iff q fun _ l => l.Nodup).mpr ⟨(h.nodup p).erase t, fun p' _ => h.nodup p'⟩
  unique h₁ h₂ := h.unique ((mem_takeOut h).mp h₁).1 ((mem_takeOut h).mp h₂).1

theorem Moved.takeOut (h : Once q) (ht : t ∈ q p) : Moved q (takeOut q p t) t none where
  once := h.takeOut p t
  other hu _ := (mem_takeOut h).trans ⟨And.left, fun hq => ⟨hq, fun he => hu he.2⟩⟩
  self p' := by
    refine (mem_takeOut h).trans ⟨fun hq => ?_, nofun⟩
    exact absurd ⟨h.unique hq.1 ht, rfl⟩ hq.2

end TakeOut

end Places
