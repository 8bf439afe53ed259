/-
CactKernel/Lib/Holds.lean

References and who holds them.

All references of a system are kept in one list of holds `⟨holder, object⟩`, and
an object's reference count is compared with the number of its holds (`held`).
Handing a reference over changes the holder only (`relabel`, `relabelFirst`), so
it changes no count.

Some holders are places that have room for one reference.  `key` gives the place
of such a holder, and `Exclusive key hs` says that no place is used twice.
-/
import Mathlib.Data.List.Nodup
import Mathlib.Data.List.Count
import Mathlib.Data.List.Perm.Basic

namespace Holds

/-- One reference to `object`, held by `holder`. -/
structure Hold (κ ι : Type*) where
  holder : κ
  object : ι
deriving DecidableEq, Repr

variable {κ ι α : Type*}

/-- The number of references to `x`. -/
def held [DecidableEq ι] (hs : List (Hold κ ι)) (x : ι) : Nat := hs.countP fun h => decide (h.object = x)

/-- Hand the references selected by `p` over to `k`. -/
def relabel (p : Hold κ ι → Bool) (k : κ) (hs : List (Hold κ ι)) : List (Hold κ ι) :=
  hs.map fun h => if p h then { h with holder := k } else h

/-- Hand the first reference selected by `p` over to `k`. -/
def relabelFirst (p : Hold κ ι → Bool) (k : κ) : List (Hold κ ι) → List (Hold κ ι)
  | [] => []
  | h :: hs => if p h then { h with holder := k } :: hs else h :: relabelFirst p k hs

variable {hs : List (Hold κ ι)} {p : Hold κ ι → Bool} {k : κ} {x : ι}

/-! ### Counts -/

section Counts

variable [DecidableEq ι]

theorem held_cons (h : Hold κ ι) : held (h :: hs) x = held hs x + if h.object = x then 1 else 0 := by
  simp [held, List.countP_cons]

theorem held_pos : 0 < held hs x ↔ ∃ h ∈ hs, h.object = x := by
  simp [held]

@[simp] theorem held_relabel : held (relabel p k hs) x = held hs x := by
  induction hs with
  | nil => rfl
  | cons h hs ih =>
    show held ((if p h then { h with holder := k } else h) :: relabel p k hs) x = _
    rw [held_cons, held_cons, ih]
    split_ifs <;> rfl

@[simp] theorem held_relabelFirst : held (relabelFirst p k hs) x = held hs x := by
  induction hs with
  | nil => rfl
  | cons h hs ih =>
    unfold relabelFirst
    split_ifs
    · rw [held_cons, held_cons]
    · rw [held_cons, held_cons, ih]

/-- Dropping the first reference selected by `p`. -/
theorem held_eraseP {h : Hold κ ι} (hfind : hs.find? p = some h) :
    held hs x = held (hs.eraseP p) x + if h.object = x then 1 else 0 := by
  obtain ⟨hp, before, after, rfl, hbefore⟩ := List.find?_eq_some_iff_append.mp hfind
  rw [List.eraseP_append_right _ (fun b hb => by simpa using hbefore b hb),
    List.eraseP_cons_of_pos hp]
  simp only [held, List.countP_append, List.countP_cons, decide_eq_true_eq]
  omega

end Counts

/-! ### Places with room for one -/

/-- The places in use. -/
def keys (key : κ → Option α) (hs : List (Hold κ ι)) : List α := hs.filterMap fun h => key h.holder

/-- No place is used twice. -/
def Exclusive (key : κ → Option α) (hs : List (Hold κ ι)) : Prop := (keys key hs).Nodup

variable {key : κ → Option α} {a : α}

theorem keys_cons (h : Hold κ ι) :
    keys key (h :: hs) = (key h.holder).toList ++ keys key hs := by
  rw [keys, List.filterMap_cons]
  cases key h.holder <;> rfl

theorem mem_keys : a ∈ keys key hs ↔ ∃ h ∈ hs, key h.holder = some a := by
  simp [keys]

theorem mem_relabelFirst {g : Hold κ ι} (h : g ∈ relabelFirst p k hs) : g ∈ hs ∨ g.holder = k := by
  induction hs with
  | nil => cases h
  | cons g' hs ih =>
    unfold relabelFirst at h
    split_ifs at h
    · rcases List.mem_cons.mp h with rfl | h
      · exact .inr rfl
      · exact .inl (List.mem_cons_of_mem _ h)
    · rcases List.mem_cons.mp h with rfl | h
      · exact .inl List.mem_cons_self
      · exact (ih h).imp_left (List.mem_cons_of_mem _)

/-- References that are handed over to no place free theirs. -/
theorem keys_relabel (hk : key k = none) : (keys key (relabel p k hs)).Sublist (keys key hs) := by
  induction hs with
  | nil => exact List.Sublist.refl _
  | cons h hs ih =>
    show (keys key ((if p h then { h with holder := k } else h) :: relabel p k hs)).Sublist _
    rw [keys_cons, keys_cons]
    split_ifs
    · rw [hk]
      exact ih.trans (List.sublist_append_right _ _)
    · exact (List.Sublist.refl _).append ih

theorem Exclusive.relabel (h : Exclusive key hs) (hk : key k = none) :
    Exclusive key (relabel p k hs) := h.sublist (keys_relabel hk)

theorem Exclusive.eraseP (h : Exclusive key hs) : Exclusive key (hs.eraseP p) :=
  h.sublist (List.Sublist.filterMap _ List.eraseP_sublist)

theorem Exclusive.cons {h : Hold κ ι} (hs' : Exclusive key hs)
    (hfree : ∀ a, key h.holder = some a → a ∉ keys key hs) : Exclusive key (h :: hs) := by
  unfold Exclusive
  rw [keys_cons]
  rcases hkey : key h.holder with - | a
  · exact hs'
  · exact List.nodup_cons.mpr ⟨hfree a hkey, hs'⟩

/-- A reference that was at no place is handed over to a place, if there is one to hand over. -/
theorem keys_relabelFirst (hp : ∀ h ∈ hs, p h = true → key h.holder = none) (hk : key k = some a) :
    keys key (relabelFirst p k hs) = keys key hs ∨
      (keys key (relabelFirst p k hs)).Perm (a :: keys key hs) := by
  induction hs with
  | nil => exact .inl rfl
  | cons h hs ih =>
    unfold relabelFirst
    split_ifs with hsel
    · right
      rw [keys_cons, keys_cons, hk, hp h List.mem_cons_self hsel]
      exact List.Perm.refl _
    · rcases ih fun g hg => hp g (List.mem_cons_of_mem _ hg) with heq | hperm
      · left
        rw [keys_cons, keys_cons, heq]
      · right
        rw [keys_cons, keys_cons]
        exact (hperm.append_left _).trans List.perm_middle

theorem Exclusive.relabelFirst (h : Exclusive key hs)
    (hp : ∀ g ∈ hs, p g = true → key g.holder = none) (hk : key k = some a)
    (hfree : a ∉ keys key hs) : Exclusive key (relabelFirst p k hs) := by
  rcases keys_relabelFirst hp hk with heq | hperm
  · unfold Exclusive
    rw [heq]
    exact h
  · exact hperm.nodup_iff.mpr (List.nodup_cons.mpr ⟨hfree, h⟩)

end Holds
