/-
CactKernel/Mm/Vm.lean

The state of the memory manager and the mapping functions under every
address-space operation (`vmm/paging.rs`, `ensure_pde_private` of
`vmm/mmap.rs`, `ensure_private_pt` of `fault/page_fault.rs`).

`Mm` holds what all address spaces share: the frame allocator, the contents
of the frames, the swap area and the memfd objects.  A page directory is
passed next to it.  `kalloc` is one pass of the allocator: an allocation
that finds no frame fails, as it does when swap is off and there is nothing
to kill; its reclaim rounds are the subject of `PmmLaw`.

`vmm_map` is modelled for the calls user mappings make, with `PAGE_USER` and
without the cache bits; only device mappings take its other branch, which
writes the kernel's own tables.

Main results: one inversion lemma for each function that may allocate a
table (`ensurePdePrivate_ok`, `ensurePrivatePt_some`, `vmmMap_cases`); all
later proofs go through these.
-/
import CactKernel.Mm.Pmm
import CactKernel.Mm.PageDir

namespace CactKernel

open Function Runs

/-! ### State -/

/-- The bytes of a page. -/
abbrev Page := Nat → UInt8

def zeroPage : Page := fun _ => 0

/-- The swap area: slot bitmap (`true` = in use), slot contents, clock hand. -/
structure Swap where
  enabled : Bool
  totalSlots : Nat
  bitmap : Nat → Bool
  slots : Nat → Page
  clockPdi : Nat
  clockPtj : Nat

/-- A memfd object; `pages` holds its frames. -/
structure MemFd where
  valid : Bool
  size : Nat
  numPages : Nat
  pagesCap : Nat
  pages : Nat → Nat
  fds : Nat
  maps : Nat

/-- What all address spaces share. -/
structure Mm where
  pmm : Pmm
  mem : Nat → Page
  swap : Swap
  memfds : Nat → MemFd

namespace Mm

/-- The memory manager after boot: no swap device, no memfd objects. -/
def boot (modulesEnd : Nat) (mmap : List Mb2MmapFlat) : Mm where
  pmm := bootPmm modulesEnd mmap
  mem _ := zeroPage
  swap := ⟨false, 0, fun _ => false, fun _ => zeroPage, 32, 0⟩
  memfds _ := ⟨false, 0, 0, 0, fun _ => 0, 0, 0⟩

/-- A frame, or `none` when the pass finds none. -/
def kalloc (m : Mm) : Option (Nat × Mm) :=
  (kallocScan m.pmm).map fun r => (r.1, { m with pmm := r.2 })

/-- `free_page` of the frame `f`. -/
def freePage (m : Mm) (f : Nat) : Mm := { m with pmm := CactKernel.freePage m.pmm (pageToAddr f) }

/-- `page_ref_inc` of the frame `f`. -/
def pageRefInc (m : Mm) (f : Nat) : Mm := { m with pmm := CactKernel.pageRefInc m.pmm (pageToAddr f) }

/-- `page_ref_get_locked` of the frame `f`. -/
def pageRefGet (m : Mm) (f : Nat) : Nat := CactKernel.pageRefGet m.pmm (pageToAddr f)

/-- Fill a frame (`zero_page`, `copy_nonoverlapping`, a device read). -/
def setPage (m : Mm) (f : Nat) (p : Page) : Mm := { m with mem := update m.mem f p }

variable {m m' : Mm} {f : Nat} {p : Page}

section

variable (h : m.kalloc = some (f, m'))
include h

/-- **What `kalloc` returns**, on the state of the memory manager. -/
theorem kalloc_spec :
    m.pmm.bitmap f = false ∧ f < m.pmm.limit ∧
    kallocScan m.pmm = some (f, m'.pmm) ∧ m' = { m with pmm := m'.pmm } ∧
    m'.pmm.refcounts = update m.pmm.refcounts f 1 ∧ m'.pmm.bitmap = update m.pmm.bitmap f true ∧
    m'.pmm.reservedEnd = m.pmm.reservedEnd := by
  obtain ⟨⟨g, s⟩, hs, rfl, rfl⟩ := of_map_pair h
  obtain ⟨h₁, -, h₂, -, rfl⟩ := kallocScan_spec hs
  exact ⟨h₁, h₂, hs, rfl, rfl, rfl, rfl⟩

theorem kalloc_mem : m'.mem = m.mem := by
  rw [(kalloc_spec h).2.2.2.1]

theorem kalloc_swap : m'.swap = m.swap := by
  rw [(kalloc_spec h).2.2.2.1]

end

end Mm

/-! ### Private page tables -/

/-- Why a page table cannot be made private. -/
inductive EnsurePteTable where
  | absent
  | oom
  | kernelMmio
deriving DecidableEq, Repr

/-- Make the table of the slot `i` private before its entries change. -/
def ensurePdePrivate (m : Mm) (pd : PageDir) (i : Nat) : Except EnsurePteTable (Mm × PageDir) :=
  if pdKernelEntries ≤ i then .error .kernelMmio
  else
    match pd.pde i with
    | .absent => .error .absent
    | .priv .. => .ok (m, pd)
    | .shared .. =>
      match m.kalloc with
      | none => .error .oom
      | some (t, m') => .ok (m', pd.makePriv i true true t)

/-- The fault path's variant: it also fills an absent slot, and leaves the
write bit of the slot alone. -/
def ensurePrivatePt (m : Mm) (pd : PageDir) (i : Nat) (user : Bool) : Option (Mm × PageDir) :=
  if pdKernelEntries ≤ i then none
  else
    match pd.pde i with
    | .absent => m.kalloc.map fun r => (r.2, pd.makePriv i true user r.1)
    | .shared rw u => m.kalloc.map fun r => (r.2, pd.makePriv i rw (u || user) r.1)
    | .priv .. => some (m, pd)

/-- A table is private already, or a fresh frame becomes the private table of
the slot `i`. -/
inductive Privatized (m : Mm) (pd : PageDir) (i : Nat) : Mm → PageDir → Prop
  | same : (pd.pde i).isPriv = true → Privatized m pd i m pd
  | fresh {m' : Mm} {t : Nat} {rw user : Bool} : i < pdKernelEntries →
      (pd.pde i).isPriv = false → m.kalloc = some (t, m') →
      Privatized m pd i m' (pd.makePriv i rw user t)

variable {m m' : Mm} {pd pd' : PageDir} {i : Nat} {rw : Bool}

theorem ensurePdePrivate_ok
    (h : ensurePdePrivate m pd i = .ok (m', pd')) : Privatized m pd i m' pd' := by
  unfold ensurePdePrivate at h
  by_cases hi : pdKernelEntries ≤ i
  · rw [if_pos hi] at h
    cases h
  rw [if_neg hi] at h
  rcases hp : pd.pde i with - | ⟨rw, user⟩ | ⟨rw, user, t⟩ <;> rw [hp] at h
  · cases h
  · rcases hk : m.kalloc with - | ⟨t, m₁⟩ <;> rw [hk] at h
    · cases h
    · obtain ⟨rfl, rfl⟩ : m₁ = m' ∧ pd.makePriv i true true t = pd' := by
        simpa using h
      exact .fresh (by omega) (by rw [hp]; rfl) hk
  · obtain ⟨rfl, rfl⟩ : m = m' ∧ pd = pd' := by simpa using h
    exact .same (by rw [hp]; rfl)

theorem ensurePrivatePt_some {user : Bool}
    (h : ensurePrivatePt m pd i user = some (m', pd')) : Privatized m pd i m' pd' := by
  unfold ensurePrivatePt at h
  by_cases hi : pdKernelEntries ≤ i
  · rw [if_pos hi] at h
    cases h
  rw [if_neg hi] at h
  rcases hp : pd.pde i with - | ⟨rw, u⟩ | ⟨rw, u, t⟩ <;> rw [hp] at h
  · obtain ⟨⟨t, m₁⟩, hk, rfl, rfl⟩ := of_map_pair h
    exact .fresh (by omega) (by rw [hp]; rfl) hk
  · obtain ⟨⟨t, m₁⟩, hk, rfl, rfl⟩ := of_map_pair h
    exact .fresh (by omega) (by rw [hp]; rfl) hk
  · obtain ⟨rfl, rfl⟩ := of_pair h
    exact .same (by rw [hp]; rfl)

namespace Privatized

variable {m m' : Mm} {pd pd' : PageDir} {i v : Nat}

/-- No entry changes. -/
theorem pte (h : Privatized m pd i m' pd') : pd'.pte = pd.pte := by
  cases h with
  | same => rfl
  | fresh => exact PageDir.makePriv_pte

theorem isPrivate (h : Privatized m pd (pdIndex v) m' pd') : pd'.Private v := by
  cases h with
  | same hp => exact hp
  | fresh hi => exact PageDir.makePriv_private (pdIndex_lt_iff.mp hi)

end Privatized

/-! ### Mapping a page -/

/-- The user stack window `[USER_STACK_LIMIT, USER_STACK_TOP)`, by page. -/
def inStack (v : Nat) : Bool :=
  decide (userStackLimit ≤ pageToAddr v) && decide (pageToAddr v < userStackTop)

/-- The directory slot below which `vmm_map` writes its entry: private, with
the permission bits of the mapping added. -/
def mapSlot (m : Mm) (pd : PageDir) (i : Nat) (rw : Bool) : Option (Mm × PageDir) :=
  match pd.pde i with
  | .absent => m.kalloc.map fun r => (r.2, pd.makePriv i rw true r.1)
  | .shared r _ => m.kalloc.map fun k => (k.2, pd.makePriv i (r || rw) true k.1)
  | .priv r _ t => some (m, pd.makePriv i (r || rw) true t)

/-- `vmm_map` with `PAGE_PRESENT | PAGE_USER`, and `PAGE_RW` if `rw`. -/
def vmmMap (m : Mm) (pd : PageDir) (va pa : Nat) (rw : Bool) : Mm × PageDir :=
  if va % pageSize ≠ 0 ∨ pa % pageSize ≠ 0 then (m, pd)
  -- a user mapping must never target the kernel half
  else if userStackTop ≤ va then (m, pd)
  else
    match mapSlot m pd (pdIndex (addrToPage va)) (rw || inStack (addrToPage va)) with
    | none => (m, pd)
    | some (m', pd') =>
      let old := pd'.pte (addrToPage va)
      -- only a copy-on-write frame is given back when its entry is replaced
      let m'' := if old.present ∧ old.cow ∧ old.frame ≠ addrToPage pa then m'.freePage old.frame else m'
      (m'', pd'.setPte (addrToPage va) (.mapped (addrToPage pa) (rw || inStack (addrToPage va))))

/-- What `mapSlot` does: the slot keeps its private table, or gets a fresh one. -/
inductive SlotReady (m : Mm) (pd : PageDir) (i : Nat) : Mm → PageDir → Prop
  | kept {r u rw : Bool} {t : Nat} : pd.pde i = .priv r u t →
      SlotReady m pd i m (pd.makePriv i rw true t)
  | fresh {m' : Mm} {t : Nat} {rw : Bool} : (pd.pde i).isPriv = false → m.kalloc = some (t, m') →
      SlotReady m pd i m' (pd.makePriv i rw true t)

theorem mapSlot_some (h : mapSlot m pd i rw = some (m', pd')) : SlotReady m pd i m' pd' := by
  unfold mapSlot at h
  rcases hp : pd.pde i with - | ⟨r, u⟩ | ⟨r, u, t⟩ <;> rw [hp] at h
  · obtain ⟨⟨t, m₁⟩, hk, rfl, rfl⟩ := of_map_pair h
    exact .fresh (by rw [hp]; rfl) hk
  · obtain ⟨⟨t, m₁⟩, hk, rfl, rfl⟩ := of_map_pair h
    exact .fresh (by rw [hp]; rfl) hk
  · obtain ⟨rfl, rfl⟩ := of_pair h
    exact .kept hp

theorem SlotReady.pte (h : SlotReady m pd i m' pd') : pd'.pte = pd.pte := by
  cases h with
  | kept | fresh => exact PageDir.makePriv_pte

theorem SlotReady.isPrivate {v : Nat} (hv : v < userPages)
    (h : SlotReady m pd (pdIndex v) m' pd') : pd'.Private v := by
  cases h with
  | kept | fresh => exact PageDir.makePriv_private hv

/-- **What `vmm_map` does**: nothing, or it writes the entry of one user page
below a private table, giving back a copy-on-write frame it replaces. -/
theorem vmmMap_cases (m : Mm) (pd : PageDir) (va pa : Nat) (rw : Bool) :
    vmmMap m pd va pa rw = (m, pd) ∨
    ∃ m' pd', va = pageToAddr (addrToPage va) ∧ addrToPage va < userPages ∧
      SlotReady m pd (pdIndex (addrToPage va)) m' pd' ∧
      vmmMap m pd va pa rw =
        (if (pd.pte (addrToPage va)).present ∧ (pd.pte (addrToPage va)).cow ∧
            (pd.pte (addrToPage va)).frame ≠ addrToPage pa
          then m'.freePage (pd.pte (addrToPage va)).frame else m',
        pd'.setPte (addrToPage va) (.mapped (addrToPage pa) (rw || inStack (addrToPage va)))) := by
  unfold vmmMap
  by_cases hmod : va % pageSize ≠ 0 ∨ pa % pageSize ≠ 0
  · exact Or.inl (if_pos hmod)
  by_cases htop : userStackTop ≤ va
  · exact Or.inl (by rw [if_neg hmod, if_pos htop])
  rw [if_neg hmod, if_neg htop]
  rcases hs : mapSlot m pd (pdIndex (addrToPage va)) (rw || inStack (addrToPage va)) with - | ⟨m', pd'⟩
  · exact Or.inl rfl
  · have hready := mapSlot_some hs
    refine Or.inr ⟨m', pd', ?_, ?_, hready, ?_⟩
    · simp only [pageToAddr, addrToPage, pageSize] at *
      omega
    · simp only [addrToPage, userPages, userStackTop, pageSize] at *
      omega
    · simp only [hready.pte]

/-- `vmm_map` writes one entry. -/
theorem vmmMap_pte_of_ne {va pa w : Nat} (hw : w ≠ addrToPage va) :
    (vmmMap m pd va pa rw).2.pte w = pd.pte w := by
  rcases vmmMap_cases m pd va pa rw with h | ⟨m₁, pd₁, -, -, hr, h⟩
  · rw [h]
  · rw [h]
    exact (PageDir.setPte_ne hw).trans (congrFun hr.pte w)

/-! ### Creating and tearing down an address space -/

/-- A directory that starts as a copy of the kernel's. -/
def vmmCreateAddressSpace (m : Mm) : Option (Mm × PageDir) :=
  m.kalloc.map fun r => (r.2, .template r.1)

/-- Give back the frame of one entry, if it is a user page. -/
def freeEntry (pd : PageDir) (m : Mm) (v : Nat) : Mm :=
  if (pd.pte v).IsUser then m.freePage (pd.pte v).frame else m

/-- Give back the user pages of one private table, then the table. -/
def freeTable (pd : PageDir) (m : Mm) (i : Nat) : Mm :=
  match pd.pde i with
  | .priv _ _ t => ((List.range' (i * 1024) 1024).foldl (freeEntry pd) m).freePage t
  | _ => m

/-- Tear an address space down. -/
def vmmFreeAddressSpace (m : Mm) (pd : PageDir) : Mm :=
  ((List.range pdKernelEntries).foldl (freeTable pd) m).freePage pd.frame

end CactKernel
