/-
CactKernel/Mm/PageDir.lean

Page table entries and page directories (`rust_mm/src/ffi.rs`,
`vmm/paging.rs`).

Virtual and physical pages are named by their numbers: the entry of the
page `v` is found in slot `v % 1024` of the table that directory slot
`v / 1024` names.  An entry is a record of the bits the memory manager
reads; the cache bits PWT and PCD are left out, and so bit 3 of the entry
word appears only as the swap marker, which the source consults in
non-present entries alone.

A directory slot is absent, names one of the kernel's static identity
tables (which every process shares and nothing in this development writes),
or names a table of its own (`PDE_PRIVATE`).  `PageDir.pte` is the entry
the walk finds, and the structure carries what makes that sound: under an
absent slot there is no entry, under a shared slot the entry is the kernel's
identity entry, and the kernel half is always shared.  Copying a shared
table into a private one therefore changes the slot and not the entries.
-/
import CactKernel.Mm.Layout

namespace CactKernel

open Function

/-! ### Entries -/

/-- A page table entry: a frame number (a swap slot when swapped out) and flags. -/
structure Pte where
  frame : Nat
  present : Bool
  rw : Bool
  user : Bool
  swapped : Bool
  accessed : Bool
  cow : Bool
  demand : Bool
  zero : Bool
deriving DecidableEq, Repr

namespace Pte

/-- The zero word. -/
def empty : Pte := ⟨0, false, false, false, false, false, false, false, false⟩

/-- `frame | flags | PAGE_PRESENT` for a user mapping. -/
def mapped (f : Nat) (rw : Bool) : Pte := ⟨f, true, rw, true, false, false, false, false, false⟩

/-- A present entry of a user page: what teardown gives back. -/
def IsUser (e : Pte) : Prop := e.present = true ∧ e.user = true
deriving Decidable

/-- `e` is a present user entry that names the frame `f`. -/
def Names (e : Pte) (f : Nat) : Prop := e.IsUser ∧ e.frame = f
deriving Decidable

/-- `(pte & !PAGE_RW) | PAGE_COW`. -/
def markCow (e : Pte) : Pte := { e with rw := false, cow := true }

/-- `swap_pte_is_swapped`. -/
def isSwapped (e : Pte) : Bool := !e.present && e.swapped

@[simp] theorem markCow_frame (e : Pte) : e.markCow.frame = e.frame := rfl
theorem not_isUser_of_not_present {e : Pte} (h : e.present = false) : ¬e.IsUser :=
  fun hu => by simp [hu.1] at h

theorem not_isUser_empty : ¬empty.IsUser := by decide

end Pte

/-- The kernel's identity entry of the page `v`: present, writable, supervisor. -/
def kernelPte (v : Nat) : Pte := ⟨v, true, true, false, false, false, false, false, false⟩

theorem not_isUser_kernelPte (v : Nat) : ¬(kernelPte v).IsUser := fun h => by simp [kernelPte, Pte.IsUser] at h

/-! ### Directory slots -/

/-- A directory entry: absent, one of the kernel's tables, or a private table
in the frame `table`. -/
inductive Pde where
  | absent
  | shared (rw user : Bool)
  | priv (rw user : Bool) (table : Nat)
deriving DecidableEq, Repr

namespace Pde

def isPresent : Pde → Bool
  | absent => false
  | _ => true

def isPriv : Pde → Bool
  | priv .. => true
  | _ => false

def isShared : Pde → Bool
  | shared .. => true
  | _ => false

/-- The permission bits the walk combines with those of the entry. -/
def rw : Pde → Bool
  | absent => false
  | shared rw _ => rw
  | priv rw _ _ => rw

def user : Pde → Bool
  | absent => false
  | shared _ user => user
  | priv _ user _ => user

end Pde

/-- Directory slots below this one are user space (`PD_KERNEL_ENTRIES`). -/
@[irreducible] def pdKernelEntries : Nat := 768

/-- Virtual pages below this one are user space. -/
@[irreducible] def userPages : Nat := 786432

def pdIndex (v : Nat) : Nat := v / 1024

theorem pdIndex_lt_iff {v : Nat} : pdIndex v < pdKernelEntries ↔ v < userPages := by
  simp only [pdIndex, pdKernelEntries, userPages]
  omega

/-! ### Directories -/

/-- A page directory, in the frame `frame`. -/
structure PageDir where
  frame : Nat
  pde : Nat → Pde
  pte : Nat → Pte
  absent_empty : ∀ v, pde (pdIndex v) = .absent → pte v = .empty
  shared_kernel : ∀ v rw user, pde (pdIndex v) = .shared rw user → pte v = kernelPte v
  kernel_shared : ∀ i, pdKernelEntries ≤ i → (pde i).isShared = true

namespace PageDir

/-- The page table of `v` is private, so its entries can be written. -/
def Private (pd : PageDir) (v : Nat) : Prop := (pd.pde (pdIndex v)).isPriv = true
deriving Decidable

/-- The kernel template: every slot names a shared table, present and writable. -/
def template (frame : Nat) : PageDir where
  frame := frame
  pde _ := .shared true false
  pte := kernelPte
  absent_empty _ h := by cases h
  shared_kernel _ _ _ _ := rfl
  kernel_shared _ _ := rfl

/-- Write an entry of a private table. -/
def setPte (pd : PageDir) (v : Nat) (e : Pte) : PageDir :=
  if h : pd.Private v then
    { pd with
      pte := update pd.pte v e
      absent_empty := by
        intro w hw
        have hne : w ≠ v := by
          rintro rfl
          simp [Private, hw, Pde.isPriv] at h
        rw [update_of_ne hne]
        exact pd.absent_empty w hw
      shared_kernel := by
        intro w rw user hw
        have hne : w ≠ v := by
          rintro rfl
          simp [Private, hw, Pde.isPriv] at h
        rw [update_of_ne hne]
        exact pd.shared_kernel w rw user hw }
  else pd

/-- Replace the directory slot `i` and the entries below it. -/
def setSlot (pd : PageDir) (i : Nat) (d : Pde) (entries : Nat → Pte)
    (ha : d = .absent → ∀ v, entries v = .empty)
    (hs : ∀ rw user, d = .shared rw user → ∀ v, entries v = kernelPte v)
    (hk : pdKernelEntries ≤ i → d.isShared = true) : PageDir where
  frame := pd.frame
  pde := update pd.pde i d
  pte v := if pdIndex v = i then entries v else pd.pte v
  absent_empty v hv := by
    by_cases hi : pdIndex v = i
    · rw [if_pos hi]
      exact ha (by simpa [hi] using hv) v
    · rw [if_neg hi]
      exact pd.absent_empty v (by simpa [hi] using hv)
  shared_kernel v rw user hv := by
    by_cases hi : pdIndex v = i
    · rw [if_pos hi]
      exact hs rw user (by simpa [hi] using hv) v
    · rw [if_neg hi]
      exact pd.shared_kernel v rw user (by simpa [hi] using hv)
  kernel_shared j hj := by
    by_cases hi : j = i
    · subst hi
      simpa using hk hj
    · simpa [hi] using pd.kernel_shared j hj

/-- Point a user slot at a private table that holds the entries the slot has
now: a copy of the shared table, a zeroed table for an absent slot. -/
def makePriv (pd : PageDir) (i : Nat) (rw user : Bool) (table : Nat) : PageDir :=
  if h : i < pdKernelEntries then
    pd.setSlot i (.priv rw user table) pd.pte (fun h => by cases h) (fun _ _ h => by cases h)
      fun hk => absurd h (not_lt.mpr hk)
  else pd

/-- Point a user slot at a zeroed private table. -/
def install (pd : PageDir) (i : Nat) (rw user : Bool) (table : Nat) : PageDir :=
  if h : i < pdKernelEntries then
    pd.setSlot i (.priv rw user table) (fun _ => .empty) (fun h => by cases h)
      (fun _ _ h => by cases h) fun hk => absurd h (not_lt.mpr hk)
  else pd

/-- Point a slot at the kernel's table. -/
def share (pd : PageDir) (i : Nat) (rw user : Bool) : PageDir :=
  pd.setSlot i (.shared rw user) kernelPte (fun h => by cases h) (fun _ _ _ _ => rfl) fun _ => rfl

/-- Clear a user slot. -/
def clear (pd : PageDir) (i : Nat) : PageDir :=
  if h : i < pdKernelEntries then
    pd.setSlot i .absent (fun _ => .empty) (fun _ _ => rfl) (fun _ _ h => by cases h)
      fun hk => absurd h (not_lt.mpr hk)
  else pd

/-! ### What the writes do -/

section Writes

variable {pd : PageDir} {v w i : Nat} {e : Pte} {rw user : Bool} {table : Nat}

theorem setPte_of_private (h : pd.Private v) : (pd.setPte v e).pte = update pd.pte v e := by
  simp [setPte, h]

theorem setPte_of_not_private (h : ¬pd.Private v) : pd.setPte v e = pd := by
  simp [setPte, h]

@[simp] theorem setPte_pde : (pd.setPte v e).pde = pd.pde := by
  unfold setPte
  split <;> rfl

@[simp] theorem setPte_frame : (pd.setPte v e).frame = pd.frame := by
  unfold setPte
  split <;> rfl

@[simp] theorem setPte_private : (pd.setPte v e).Private w ↔ pd.Private w := by
  simp [Private]

/-- What holds of every entry and of the new one. -/
theorem forall_setPte {Q : Nat → Pte → Prop} (h : ∀ w, Q w (pd.pte w)) (he : Q v e) (w : Nat) :
    Q w ((pd.setPte v e).pte w) := by
  by_cases hp : pd.Private v
  · rw [setPte_of_private hp]
    exact (forall_update_iff pd.pte Q).mpr ⟨he, fun w _ => h w⟩ w
  · rw [setPte_of_not_private hp]
    exact h w

theorem setPte_ne (h : w ≠ v) : (pd.setPte v e).pte w = pd.pte w := by
  unfold setPte
  split
  · exact update_of_ne h ..
  · rfl

@[simp] theorem setSlot_self_pte {d : Pde} {ha hs hk} :
    (pd.setSlot i d pd.pte ha hs hk).pte = pd.pte := by
  funext v
  exact ite_self ..

@[simp] theorem makePriv_pte : (pd.makePriv i rw user table).pte = pd.pte := by
  unfold makePriv
  split
  · exact setSlot_self_pte
  · rfl

theorem makePriv_pde (h : i < pdKernelEntries) :
    (pd.makePriv i rw user table).pde = update pd.pde i (.priv rw user table) := by
  simp [makePriv, h, setSlot]

theorem makePriv_private (h : v < userPages) :
    (pd.makePriv (pdIndex v) rw user table).Private v := by
  simp [Private, makePriv_pde (pdIndex_lt_iff.mpr h), Pde.isPriv]

theorem Private.makePriv (h : pd.Private v) : (pd.makePriv i rw user table).Private v := by
  by_cases hi : i < pdKernelEntries
  · by_cases hv : pdIndex v = i
    · simp [Private, makePriv_pde hi, hv, Pde.isPriv]
    · simpa [Private, makePriv_pde hi, hv] using h
  · simpa [PageDir.makePriv, hi] using h

theorem install_pde (h : i < pdKernelEntries) :
    (pd.install i rw user table).pde = update pd.pde i (.priv rw user table) := by
  simp [install, h, setSlot]

theorem install_pte (h : i < pdKernelEntries) :
    (pd.install i rw user table).pte = fun v => if pdIndex v = i then .empty else pd.pte v := by
  simp [install, h, setSlot]

theorem share_pte :
    (pd.share i rw user).pte = fun v => if pdIndex v = i then kernelPte v else pd.pte v := rfl

theorem clear_pte (h : i < pdKernelEntries) :
    (pd.clear i).pte = fun v => if pdIndex v = i then .empty else pd.pte v := by
  simp [clear, h, setSlot]

theorem Private.lt_userPages (h : pd.Private v) : v < userPages := by
  by_contra hv
  have hk : pdKernelEntries ≤ pdIndex v := not_lt.mp (mt pdIndex_lt_iff.mp hv)
  have hs := pd.kernel_shared _ hk
  unfold Private at h
  rcases hp : pd.pde (pdIndex v) with - | ⟨rw, user⟩ | ⟨rw, user, t⟩ <;> rw [hp] at h hs
  · cases h
  · cases h
  · cases hs

/-- A user page lies under a private table. -/
theorem private_of_isUser (h : (pd.pte v).IsUser) : pd.Private v := by
  rcases hp : pd.pde (pdIndex v) with - | ⟨rw, user⟩ | ⟨rw, user, t⟩
  · rw [pd.absent_empty v hp] at h
    exact absurd h Pte.not_isUser_empty
  · rw [pd.shared_kernel v rw user hp] at h
    exact absurd h (not_isUser_kernelPte v)
  · simp [Private, hp, Pde.isPriv]

end Writes

end PageDir

end CactKernel
