/-
CactKernel/Mm/Fork.lean

Duplicating an address space: `vmm_fork_address_space` (`vmm/cow.rs`) and
`mmap_table_clone` (`vmm/mmap_clone.rs`).

Both functions walk the parent's tables and write the child's; a `Fork`
holds the two directories and the shared state while they do.  The child's
table of a slot is zeroed and filled in place.

The two walks consist of a handful of page-sized actions.  `ForkStep t`
lists them, each with the circumstances under which the source takes it:
copying an entry that names no user frame, sharing a frame through the
entry as it is (only pages of a `MAP_SHARED` region of the table `t`),
sharing it copy-on-write, cloning a stack page, and the changes of
directory slots that go with them.  `vmmForkAddressSpace_steps` and
`mmapTableClone_steps` say that nothing else happens, so a property that
every `ForkStep` keeps is kept by `fork` (`Fork.steps_invariant`).
-/
import CactKernel.Mm.Mmap

namespace CactKernel

open Function Relation Runs

/-- A fork in progress. -/
structure Fork where
  mm : Mm
  src : PageDir
  dst : PageDir

/-! ### `vmm_fork_address_space` -/

/-- The directory slots `mmap_table_clone` looks after. -/
def inMmapWindow (i : Nat) : Bool :=
  decide (mmapBase / 0x400000 ≤ i) && decide (i < mmapLimit / 0x400000)

/-- One entry of a private table. -/
def forkEntry (s : Fork) (v : Nat) : Fork :=
  let e := s.src.pte v
  -- demand and swap entries, and supervisor entries, are copied verbatim
  if e.present = false ∨ e.user = false then { s with dst := s.dst.setPte v e }
  else
    -- user stack pages are cloned at once, unless there is no frame
    match (if inStack v then s.mm.kalloc else none) with
    | some (f, m) =>
      { s with
        mm := m.setPage f (m.mem e.frame)
        dst := s.dst.setPte v { e with frame := f, cow := false, rw := true } }
    | none => ⟨s.mm.pageRefInc e.frame, s.src.setPte v e.markCow, s.dst.setPte v e.markCow⟩

/-- One directory slot. -/
def forkPde (s : Fork) (i : Nat) : Fork :=
  if inMmapWindow i then s
  else
    match s.src.pde i with
    | .absent => { s with dst := s.dst.clear i }
    | .shared rw user => { s with dst := s.dst.share i rw user }
    | .priv rw user _ =>
      match s.mm.kalloc with
      | none => s
      | some (t, m) =>
        (List.range' (i * 1024) 1024).foldl forkEntry ⟨m, s.src, s.dst.install i rw user t⟩

def vmmForkAddressSpace (s : Fork) : Fork := (List.range pdKernelEntries).foldl forkPde s

/-! ### `mmap_table_clone` -/

/-- The child's table for the slot `i`, made private. -/
def ensureChildTable (s : Fork) (i : Nat) : Option Fork :=
  if s.dst.pde i = .absent then s.mm.kalloc.map fun r => ⟨r.2, s.src, s.dst.makePriv i true true r.1⟩
  else
    match ensurePdePrivate s.mm s.dst i with
    | .ok (m, pd) => some ⟨m, s.src, pd⟩
    | .error _ => none

/-- One page of a `MAP_SHARED` region: the child gets the entry as it is. -/
def cloneShared (s : Fork) (v : Nat) : Fork :=
  let e := s.src.pte v
  if s.src.pde (pdIndex v) = .absent ∨ e = .empty then s
  else
    match ensureChildTable s (pdIndex v) with
    | none => s
    | some s' =>
      ⟨if e.present then s'.mm.pageRefInc e.frame else s'.mm, s'.src, s'.dst.setPte v e⟩

/-- One page of a private region: a present page becomes copy-on-write on both
sides. -/
def clonePrivate (s : Fork) (v : Nat) : Fork :=
  let e := s.src.pte v
  if s.src.pde (pdIndex v) = .absent then s
  else
    match ensureChildTable s (pdIndex v) with
    | none => s
    | some s' =>
      if e.present = false then { s' with dst := s'.dst.setPte v e }
      else
        match ensurePdePrivate s'.mm s'.src (pdIndex v) with
        | .error _ => s'
        | .ok (m, src) => ⟨m.pageRefInc e.frame, src.setPte v e.markCow, s'.dst.setPte v e.markCow⟩

/-- Another process maps the object behind a shared region. -/
def cloneShobj (s : Fork) (r : MmapRegion) : Fork :=
  if r.flags.shared = true ∧ 0 < r.shobj then { s with mm := (memfdMapInc s.mm r.shobj).1 } else s

/-- The pages of one region; `none` when an address of it overflows. -/
def cloneRegion (s : Fork) (r : MmapRegion) : Option Fork :=
  if u32Size ≤ r.base + (r.length / pageSize - 1) * pageSize then none
  else
    some ((List.range' (r.base / pageSize) (r.length / pageSize)).foldl
      (if r.flags.shared then cloneShared else clonePrivate) (cloneShobj s r))

/-- The used regions, one after the other. -/
def cloneRegions : List MmapRegion → Fork → Option Fork
  | [], s => some s
  | r :: rs, s => if r.isUsed then (cloneRegion s r).bind (cloneRegions rs) else cloneRegions rs s

/-- The child's table: the parent's used regions in their slots. -/
def cloneTable (src dst : MmapTable) : MmapTable where
  regions := List.zipWith (fun r d => if r.isUsed then r else { d with isUsed := false })
    src.regions dst.regions
  nextBase := src.nextBase
  length_eq := by rw [List.length_zipWith, src.length_eq, dst.length_eq, min_self]

def mmapTableClone (s : Fork) (src dst : MmapTable) : Option (Fork × MmapTable) :=
  (cloneRegions src.regions s).map fun s' => (s', cloneTable src dst)

/-! ### The actions of a fork -/

/-- The page `v` is one of the region's. -/
def MmapRegion.Covers (r : MmapRegion) (v : Nat) : Prop :=
  r.base / pageSize ≤ v ∧ v < r.base / pageSize + r.length / pageSize
deriving Decidable

/-- A used region of the given kind covers the page `v`. -/
def MmapTable.Covered (t : MmapTable) (shared : Bool) (v : Nat) : Prop :=
  ∃ i r, t.Used i r ∧ r.flags.shared = shared ∧ r.Covers v

instance decidableCovered (t : MmapTable) (shared : Bool) (v : Nat) : Decidable (t.Covered shared v) :=
  decidable_of_iff (∃ r ∈ t.regions, r.isUsed = true ∧ r.flags.shared = shared ∧ r.Covers v) <| by
    constructor
    · rintro ⟨r, hr, hu, hs, hc⟩
      obtain ⟨i, hi⟩ := List.mem_iff_getElem?.mp hr
      exact ⟨i, r, ⟨hi, hu⟩, hs, hc⟩
    · rintro ⟨i, r, ⟨hi, hu⟩, hs, hc⟩
      exact ⟨r, List.mem_of_getElem? hi, hu, hs, hc⟩

/-- **One action of a fork** of a process with the region table `t`. -/
inductive ForkStep (t : MmapTable) (s : Fork) : Fork → Prop
  /-- An entry without a user frame is copied. -/
  | copy {v : Nat} : s.dst.Private v → ¬(s.src.pte v).IsUser →
      ForkStep t s ⟨s.mm, s.src, s.dst.setPte v (s.src.pte v)⟩
  /-- A present page of a shared region is copied and its frame counted. -/
  | share {v : Nat} : t.Covered true v → s.dst.Private v → (s.src.pte v).present = true →
      ForkStep t s ⟨s.mm.pageRefInc (s.src.pte v).frame, s.src, s.dst.setPte v (s.src.pte v)⟩
  /-- A page becomes copy-on-write on both sides. -/
  | cow {v : Nat} : t.Covered false v ∨ inMmapWindow (pdIndex v) = false ∧ (s.src.pte v).IsUser →
      s.dst.Private v → s.src.Private v → (s.src.pte v).present = true →
      ForkStep t s ⟨s.mm.pageRefInc (s.src.pte v).frame, s.src.setPte v (s.src.pte v).markCow,
        s.dst.setPte v (s.src.pte v).markCow⟩
  /-- A stack page is cloned into a fresh frame. -/
  | clone {v f : Nat} {m : Mm} : inStack v = true → s.dst.Private v → (s.src.pte v).IsUser →
      s.mm.kalloc = some (f, m) →
      ForkStep t s ⟨m.setPage f (m.mem (s.src.pte v).frame), s.src,
        s.dst.setPte v { s.src.pte v with frame := f, cow := false, rw := true }⟩
  /-- A fresh frame becomes a table of the child that keeps the entries. -/
  | table {i f : Nat} {m : Mm} {rw user : Bool} : i < pdKernelEntries →
      (s.dst.pde i).isPriv = false → s.mm.kalloc = some (f, m) →
      ForkStep t s ⟨m, s.src, s.dst.makePriv i rw user f⟩
  /-- A fresh frame becomes a table of the parent that keeps the entries. -/
  | srcTable {i f : Nat} {m : Mm} {rw user : Bool} : i < pdKernelEntries →
      (s.src.pde i).isPriv = false → s.mm.kalloc = some (f, m) →
      ForkStep t s ⟨m, s.src.makePriv i rw user f, s.dst⟩
  /-- A fresh, zeroed table of the child for a private slot of the parent. -/
  | install {i f : Nat} {m : Mm} {rw user : Bool} : i < pdKernelEntries →
      inMmapWindow i = false → s.mm.kalloc = some (f, m) →
      ForkStep t s ⟨m, s.src, s.dst.install i rw user f⟩
  /-- A slot of the child names the kernel's table, or none. -/
  | shareSlot {i : Nat} {rw user : Bool} : inMmapWindow i = false →
      ForkStep t s ⟨s.mm, s.src, s.dst.share i rw user⟩
  | clearSlot {i : Nat} : i < pdKernelEntries → inMmapWindow i = false →
      ForkStep t s ⟨s.mm, s.src, s.dst.clear i⟩
  /-- The mapping count of an object. -/
  | shobj {h : Nat} : ForkStep t s ⟨(memfdMapInc s.mm h).1, s.src, s.dst⟩

/-- Finitely many actions. -/
abbrev ForkSteps (t : MmapTable) : Fork → Fork → Prop := ReflTransGen (ForkStep t)

variable {t : MmapTable} {s s' : Fork} {v i : Nat} {r : MmapRegion}

/-- **A property every action keeps is kept by any number of them.** -/
theorem Fork.steps_invariant {P : Fork → Prop} (hstep : ∀ s s', P s → ForkStep t s s' → P s')
    (h : ForkSteps t s s') (hs : P s) : P s' := by
  induction h with
  | refl => exact hs
  | tail _ hlast ih => exact hstep _ _ ih hlast

/-- A loop whose passes are actions is a number of actions; `I` is what the
passes may rely on. -/
theorem foldl_steps {α : Type*} {f : Fork → α → Fork} {I : Fork → Prop} (l : List α)
    (hf : ∀ s, ∀ a ∈ l, I s → ForkSteps t s (f s a) ∧ I (f s a)) (hs : I s) :
    ForkSteps t s (l.foldl f s) ∧ I (l.foldl f s) := by
  refine List.foldlRecOn (motive := fun s' => ForkSteps t s s' ∧ I s') l f ⟨.refl, hs⟩ fun s' hs' a ha => ?_
  obtain ⟨hsteps, hI⟩ := hf s' a ha hs'.2
  exact ⟨hs'.1.trans hsteps, hI⟩

/-! ### The walks are made of actions -/

/-- What one entry of `vmm_fork_address_space` does, below private tables. -/
theorem forkEntry_step (hw : inMmapWindow (pdIndex v) = false)
    (hd : s.dst.Private v) (hs : s.src.Private v) : ForkStep t s (forkEntry s v) := by
  unfold forkEntry
  by_cases he : (s.src.pte v).present = false ∨ (s.src.pte v).user = false
  · simp only [if_pos he]
    exact .copy hd fun hu => by simp [hu.1, hu.2] at he
  · have hu : (s.src.pte v).IsUser := by simpa [Pte.IsUser] using he
    simp only [if_neg he]
    rcases hk : (if inStack v then s.mm.kalloc else none) with - | ⟨f, m⟩
    · exact .cow (Or.inr ⟨hw, hu⟩) hd hs hu.1
    · have hst : inStack v = true := by
        by_contra hne
        simp [hne] at hk
      rw [if_pos hst] at hk
      exact .clone hst hd hu hk

theorem forkEntry_pde (s : Fork) (v : Nat) :
    (forkEntry s v).dst.pde = s.dst.pde ∧ (forkEntry s v).src.pde = s.src.pde := by
  unfold forkEntry
  dsimp only
  split
  · exact ⟨PageDir.setPte_pde, rfl⟩
  · rcases (if inStack v then s.mm.kalloc else none) with - | ⟨f, m⟩
    · exact ⟨PageDir.setPte_pde, PageDir.setPte_pde⟩
    · exact ⟨PageDir.setPte_pde, rfl⟩

/-- What one directory slot of `vmm_fork_address_space` does. -/
theorem forkPde_steps (hi : i < pdKernelEntries) : ForkSteps t s (forkPde s i) := by
  unfold forkPde
  by_cases hw : inMmapWindow i = true
  · rw [if_pos hw]
  rw [if_neg hw]
  have hw' : inMmapWindow i = false := by simpa using hw
  rcases hp : s.src.pde i with - | ⟨rw, user⟩ | ⟨rw, user, tb⟩
  · exact .single (.clearSlot hi hw')
  · exact .single (.shareSlot hw')
  · rcases hk : s.mm.kalloc with - | ⟨f, m⟩
    · exact .refl
    · -- both tables of the slot stay private while its entries are filled
      let I : Fork → Prop := fun s' => (s'.dst.pde i).isPriv = true ∧ (s'.src.pde i).isPriv = true
      have hinst : ForkStep t s ⟨m, s.src, s.dst.install i rw user f⟩ := .install hi hw' hk
      have hI : I ⟨m, s.src, s.dst.install i rw user f⟩ := by
        refine ⟨?_, by rw [hp]; rfl⟩
        rw [PageDir.install_pde hi, update_self]
        rfl
      refine (ReflTransGen.single hinst).trans
        (foldl_steps (List.range' (i * 1024) 1024) (fun s' v hv hs' => ?_) hI).1
      obtain ⟨hd, hs⟩ := hs'
      have hv : pdIndex v = i := by
        have := List.mem_range'_1.mp hv
        unfold pdIndex
        omega
      subst hv
      refine ⟨.single (forkEntry_step hw' hd hs), ?_⟩
      show _ ∧ _
      rw [(forkEntry_pde s' v).1, (forkEntry_pde s' v).2]
      exact ⟨hd, hs⟩

/-- **`vmm_fork_address_space` is a number of actions.** -/
theorem vmmForkAddressSpace_steps (t : MmapTable) (s : Fork) :
    ForkSteps t s (vmmForkAddressSpace s) :=
  (foldl_steps (I := fun _ => True) (List.range pdKernelEntries)
    (fun _ _ hi _ => ⟨forkPde_steps (List.mem_range.mp hi), trivial⟩) trivial).1

/-- Above the user half a region has no effect on the child. -/
theorem ensureChildTable_kernel (s : Fork) (hv : userPages ≤ v) :
    ensureChildTable s (pdIndex v) = none := by
  have hi : pdKernelEntries ≤ pdIndex v := not_lt.mp (mt pdIndex_lt_iff.mp (not_lt.mpr hv))
  have hp : s.dst.pde (pdIndex v) ≠ .absent := by
    intro h
    have := s.dst.kernel_shared _ hi
    rw [h] at this
    cases this
  unfold ensureChildTable ensurePdePrivate
  rw [if_neg hp, if_pos hi]

/-- What `ensureChildTable` does. -/
theorem ensureChildTable_some (t : MmapTable) (h : ensureChildTable s (pdIndex v) = some s') :
    ForkSteps t s s' ∧ s'.src = s.src ∧ s'.dst.pte = s.dst.pte ∧ s'.dst.Private v := by
  have hv : v < userPages := by
    by_contra hge
    rw [ensureChildTable_kernel s (not_lt.mp hge)] at h
    cases h
  unfold ensureChildTable at h
  split at h
  · next hp =>
    obtain ⟨⟨f, m⟩, hk, rfl⟩ := Option.map_eq_some_iff.mp h
    exact ⟨.single (.table (pdIndex_lt_iff.mpr hv) (by rw [hp]; rfl) hk), rfl,
      PageDir.makePriv_pte, PageDir.makePriv_private hv⟩
  · rcases he : ensurePdePrivate s.mm s.dst (pdIndex v) with e | ⟨m, pd⟩ <;> rw [he] at h
    · cases h
    · obtain rfl := Option.some.inj h
      have hp := ensurePdePrivate_ok he
      refine ⟨?_, rfl, hp.pte, hp.isPrivate⟩
      cases hp with
      | same => exact .refl
      | fresh hi hn hk => exact .single (.table hi hn hk)

/-- What one page of a shared region does. -/
theorem cloneShared_steps (s : Fork) (hv : t.Covered true v) : ForkSteps t s (cloneShared s v) := by
  unfold cloneShared
  dsimp only
  split
  · exact .refl
  rcases he : ensureChildTable s (pdIndex v) with - | s'
  · exact .refl
  · obtain ⟨hsteps, hsrc, -, hpriv⟩ := ensureChildTable_some t he
    refine hsteps.tail ?_
    dsimp only
    rw [← hsrc]
    by_cases hp : (s'.src.pte v).present = true
    · rw [if_pos hp]
      exact .share hv hpriv hp
    · rw [if_neg hp]
      exact .copy hpriv (Pte.not_isUser_of_not_present (by simpa using hp))

/-- What one page of a private region does. -/
theorem clonePrivate_steps (hv : t.Covered false v) :
    ForkSteps t s (clonePrivate s v) := by
  unfold clonePrivate
  split
  · exact .refl
  rcases he : ensureChildTable s (pdIndex v) with - | s'
  · exact .refl
  · obtain ⟨hsteps, hsrc, -, hpriv⟩ := ensureChildTable_some t he
    dsimp only
    rw [← hsrc]
    by_cases hp : (s'.src.pte v).present = false
    · rw [if_pos hp]
      exact hsteps.tail (.copy hpriv (Pte.not_isUser_of_not_present hp))
    · rw [if_neg hp]
      have hp' : (s'.src.pte v).present = true := by simpa using hp
      rcases hq : ensurePdePrivate s'.mm s'.src (pdIndex v) with e | ⟨m, src⟩
      · exact hsteps
      · have hq' := ensurePdePrivate_ok hq
        have hpriv' := hq'.isPrivate
        have hsame : src.pte = s'.src.pte := hq'.pte
        -- the parent's table may have to be made private first
        have hmid : ForkSteps t s ⟨m, src, s'.dst⟩ := by
          cases hq' with
          | same => exact hsteps
          | fresh hi hn hk => exact hsteps.tail (.srcTable hi hn hk)
        refine hmid.tail ?_
        rw [← hsame] at hp' ⊢
        exact ForkStep.cow (Or.inl hv) hpriv hpriv' hp'

theorem cloneShobj_steps : ForkSteps t s (cloneShobj s r) := by
  unfold cloneShobj
  split
  · exact .single .shobj
  · exact .refl

theorem cloneRegion_steps (hr : r ∈ t.regions) (hu : r.isUsed = true)
    (h : cloneRegion s r = some s') : ForkSteps t s s' := by
  unfold cloneRegion at h
  split at h
  · cases h
  obtain rfl := Option.some.inj h
  refine cloneShobj_steps.trans (foldl_steps (I := fun _ => True) _ (fun s' v hv _ => ⟨?_, trivial⟩) trivial).1
  have hcov : r.Covers v := List.mem_range'_1.mp hv
  obtain ⟨i, hi⟩ := List.mem_iff_getElem?.mp hr
  cases hf : r.flags.shared with
  | true => exact cloneShared_steps s' ⟨i, r, ⟨hi, hu⟩, hf, hcov⟩
  | false => exact clonePrivate_steps ⟨i, r, ⟨hi, hu⟩, hf, hcov⟩

theorem cloneRegions_steps {rs : List MmapRegion} (hrs : ∀ r ∈ rs, r ∈ t.regions)
    (h : cloneRegions rs s = some s') : ForkSteps t s s' := by
  induction rs generalizing s with
  | nil =>
    obtain rfl := Option.some.inj h
    exact .refl
  | cons r rs ih =>
    have hrest : ∀ q ∈ rs, q ∈ t.regions := fun q hq => hrs q (List.mem_cons_of_mem r hq)
    unfold cloneRegions at h
    split at h
    · next hu =>
      obtain ⟨s₁, h₁, h₂⟩ := Option.bind_eq_some_iff.mp h
      exact (cloneRegion_steps (hrs r List.mem_cons_self) hu h₁).trans (ih hrest h₂)
    · exact ih hrest h

/-- **`mmap_table_clone` is a number of actions.** -/
theorem mmapTableClone_steps {src dst dst' : MmapTable}
    (h : mmapTableClone s src dst = some (s', dst')) : ForkSteps src s s' ∧ dst' = cloneTable src dst := by
  obtain ⟨s₁, h₁, rfl, rfl⟩ := of_map_pair h
  exact ⟨cloneRegions_steps (fun r hr => hr) h₁, rfl⟩

/-- The used regions of the child are those of the parent. -/
theorem cloneTable_used {src dst : MmapTable} : (cloneTable src dst).Used i r ↔ src.Used i r := by
  have hlen : src.regions.length = dst.regions.length := src.length_eq.trans dst.length_eq.symm
  unfold MmapTable.Used cloneTable
  rw [List.getElem?_zipWith]
  rcases hs : src.regions[i]? with - | q
  · simp
  · obtain ⟨hi, -⟩ := List.getElem?_eq_some_iff.mp hs
    rw [List.getElem?_eq_getElem (hlen ▸ hi)]
    cases hq : q.isUsed with
    | true => simp [hq]
    | false =>
      simp only [Option.some.injEq]
      refine ⟨fun ⟨h, hu⟩ => ?_, fun ⟨h, hu⟩ => ?_⟩ <;> subst h <;> simp_all

theorem cloneTable_covered {src dst : MmapTable} {shared : Bool} :
    (cloneTable src dst).Covered shared v ↔ src.Covered shared v := by
  simp only [MmapTable.Covered, cloneTable_used]

end CactKernel
