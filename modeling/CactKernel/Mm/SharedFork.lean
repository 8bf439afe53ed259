/-
CactKernel/Mm/SharedFork.lean

A page of a `MAP_SHARED` region over a fork and later faults.

A page is *settled* if it is present, not copy-on-write, in the mmap window
and in no private region (`Settled`).  No action of a fork changes the
parent's entry of such a page, and once the child has the entry nothing
changes it there either (`forkStep_settled`).  `mmap_table_clone` visits every
page of a shared region (`cloneRegions_visits`), so with memory to spare the
child gets the entry, and then parent and child name one frame.  Faults leave
it alone unless they evict a page.

A page that nobody has touched before the fork is not settled: its demand
entry is copied, and each process gets a frame of its own
(`untouched_page_splits`).  **Main result** `shared_mapping_stays_shared`.
-/
import CactKernel.Mm.Fault
import CactKernel.Mm.System

namespace CactKernel

open Function Runs

/-- The page `v` of the process can only be shared as it is. -/
@[mk_iff]
structure Settled (q : Proc) (v : Nat) : Prop where
  user : (q.pd.pte v).IsUser
  cow : (q.pd.pte v).cow = false
  window : inMmapWindow (pdIndex v) = true
  notPrivate : ¬q.tbl.Covered false v

instance decidableSettled (q : Proc) (v : Nat) : Decidable (Settled q v) :=
  decidable_of_iff' _ (settled_iff ..)

variable {t : MmapTable} {v : Nat} {e : Pte} {r r' s s' : Fork} {x : MmapRegion}

/-- The mmap window ends below the stack. -/
theorem not_inStack_of_window (h : inMmapWindow (pdIndex v) = true) : inStack v = false := by
  unfold inMmapWindow pdIndex at h
  unfold inStack pageToAddr
  simp only [mmapBase, mmapLimit, userStackLimit, userStackTop, pageSize, Bool.and_eq_true, decide_eq_true_eq,
    Bool.and_eq_false_iff, decide_eq_false_iff_not] at *
  omega

/-! ### The fork -/

section Steps

variable (hw : inMmapWindow (pdIndex v) = true) (hp : ¬t.Covered false v)
include hw hp

/-- No action of a fork changes the parent's entry. -/
theorem forkStep_src (h : ForkStep t r r') (he : r.src.pte v = e) : r'.src.pte v = e := by
  cases h with
  | @cow w hcase hd hs hpres =>
    have hne : v ≠ w := by
      rintro rfl
      rcases hcase with hc | ⟨hc, -⟩
      · exact hp hc
      · rw [hw] at hc
        cases hc
    exact (PageDir.setPte_ne hne).trans he
  | srcTable => exact (congrFun PageDir.makePriv_pte v).trans he
  | _ => exact he

/-- **Once the child has the entry, both keep it.** -/
theorem forkStep_settled (h : ForkStep t r r') (he : r.src.pte v = e ∧ r.dst.pte v = e) :
    r'.src.pte v = e ∧ r'.dst.pte v = e := by
  refine ⟨forkStep_src hw hp h he.1, ?_⟩
  obtain ⟨hs, hd⟩ := he
  -- the steps on whole slots keep off the window, where `v` is
  have hslot : ∀ i, inMmapWindow i = false → pdIndex v ≠ i := by
    rintro i hi rfl
    rw [hw] at hi
    cases hi
  have hset : ∀ w x, (v = w → x = e) → (r.dst.setPte w x).pte v = e := fun w x hx =>
    PageDir.forall_setPte (Q := fun w x => v = w → x = e) (fun w hw => hw ▸ hd) hx v rfl
  cases h with
  | @copy w | @share w => exact hset w _ fun hv => hv ▸ hs
  | @cow w hcase =>
    refine hset w _ fun hv => ?_
    subst hv
    rcases hcase with hc | ⟨hc, -⟩
    · exact absurd hc hp
    · rw [hw] at hc
      cases hc
  | @clone w f m hst =>
    refine hset w _ fun hv => ?_
    rw [← hv, not_inStack_of_window hw] at hst
    cases hst
  | table => exact (congrFun PageDir.makePriv_pte v).trans hd
  | srcTable => exact hd
  | @install i _ _ _ _ hi hiw =>
    rw [PageDir.install_pte hi]
    exact (if_neg (hslot i hiw)).trans hd
  | @shareSlot i _ _ hiw =>
    exact (if_neg (hslot i hiw)).trans hd
  | @clearSlot i hi hiw =>
    rw [PageDir.clear_pte hi]
    exact (if_neg (hslot i hiw)).trans hd
  | shobj => exact hd

end Steps

theorem kalloc_eq_none {m m' : Mm} (h₁ : m'.pmm.firstAvailablePage = m.pmm.firstAvailablePage)
    (h₂ : m'.pmm.limit = m.pmm.limit) (h₃ : m'.pmm.bitmap = m.pmm.bitmap) (h : m.kalloc = none) :
    m'.kalloc = none := by
  refine Option.map_eq_none_iff.mpr (kallocScan_eq_none_iff.mpr ?_)
  rw [h₁, h₂, h₃]
  exact kallocScan_eq_none_iff.mp (Option.map_eq_none_iff.mp h)

/-- Without a free frame there is none later in the fork. -/
theorem forkStep_starved (h : ForkStep t r r') (hk : r.mm.kalloc = none) : r'.mm.kalloc = none := by
  have hinc : ∀ f, (r.mm.pageRefInc f).kalloc = none := fun f => by
    refine kalloc_eq_none ?_ ?_ ?_ hk
    all_goals
      unfold Mm.pageRefInc pageRefInc
      split_ifs <;> rfl
  cases h with
  | share => exact hinc _
  | cow => exact hinc _
  | clone _ _ _ hs | table _ _ hs | srcTable _ _ hs | install _ _ hs => rw [hk] at hs; cases hs
  | shobj =>
    refine kalloc_eq_none ?_ ?_ ?_ hk
    all_goals
      unfold memfdMapInc
      split <;> rfl
  | _ => exact hk

/-! ### The clone visits every page -/

theorem foldl_visits {α : Type*} {f : Fork → α → Fork} {l : List α} {a : α} (ha : a ∈ l)
    (hf : ∀ s, ∀ b ∈ l, ForkSteps t s (f s b)) (s : Fork) :
    ∃ s₁, ForkSteps t s s₁ ∧ ForkSteps t (f s₁ a) (l.foldl f s) := by
  obtain ⟨l₁, l₂, rfl⟩ := List.append_of_mem ha
  refine ⟨l₁.foldl f s, ?_, ?_⟩
  · exact (foldl_steps (I := fun _ => True) l₁
      (fun s b hb _ => ⟨hf s b (List.mem_append_left _ hb), trivial⟩) trivial).1
  · rw [List.foldl_append]
    exact (foldl_steps (I := fun _ => True) l₂
      (fun s b hb _ => ⟨hf s b (List.mem_append_right _ (List.mem_cons_of_mem a hb)), trivial⟩) trivial).1

theorem cloneRegion_visits (hx : x ∈ t.regions) (hu : x.isUsed = true) (hs : x.flags.shared = true)
    (hc : x.Covers v) (h : cloneRegion s x = some s') :
    ∃ s₁, ForkSteps t s s₁ ∧ ForkSteps t (cloneShared s₁ v) s' := by
  unfold cloneRegion at h
  split at h
  · cases h
  obtain rfl := Option.some.inj h
  obtain ⟨i, hi⟩ := List.mem_iff_getElem?.mp hx
  obtain ⟨s₁, h₁, h₂⟩ := foldl_visits (List.mem_range'_1.mpr hc)
    (fun s w hw => cloneShared_steps s ⟨i, x, ⟨hi, hu⟩, hs, List.mem_range'_1.mp hw⟩) (cloneShobj s x)
  exact ⟨s₁, cloneShobj_steps.trans h₁, h₂⟩

theorem cloneRegions_visits {rs : List MmapRegion} (hrs : ∀ y ∈ rs, y ∈ t.regions) (hx : x ∈ rs)
    (hu : x.isUsed = true) (hs : x.flags.shared = true) (hc : x.Covers v)
    (h : cloneRegions rs s = some s') :
    ∃ s₁, ForkSteps t s s₁ ∧ ForkSteps t (cloneShared s₁ v) s' := by
  induction rs generalizing s with
  | nil => cases hx
  | cons y rs ih =>
    have hrest : ∀ z ∈ rs, z ∈ t.regions := fun z hz => hrs z (List.mem_cons_of_mem y hz)
    unfold cloneRegions at h
    by_cases hy : y.isUsed = true
    · rw [if_pos hy] at h
      obtain ⟨s₂, h₂, h₃⟩ := Option.bind_eq_some_iff.mp h
      rcases List.mem_cons.mp hx with rfl | hx
      · obtain ⟨s₁, hs₁, hs₂⟩ := cloneRegion_visits (hrs x List.mem_cons_self) hu hs hc h₂
        exact ⟨s₁, hs₁, hs₂.trans (cloneRegions_steps hrest h₃)⟩
      · obtain ⟨s₁, hs₁, hs₂⟩ := ih hrest hx h₃
        exact ⟨s₁, (cloneRegion_steps (hrs y List.mem_cons_self) hy h₂).trans hs₁, hs₂⟩
    · rw [if_neg hy] at h
      rcases List.mem_cons.mp hx with rfl | hx
      · exact absurd hu hy
      · exact ih hrest hx h

theorem ensureChildTable_none (hv : v < userPages) (h : ensureChildTable s (pdIndex v) = none) :
    s.mm.kalloc = none := by
  unfold ensureChildTable at h
  split at h
  · exact Option.map_eq_none_iff.mp h
  next hp =>
  unfold ensurePdePrivate at h
  rw [if_neg (not_le.mpr (pdIndex_lt_iff.mpr hv))] at h
  rcases hd : s.dst.pde (pdIndex v) with - | ⟨rw, user⟩ | ⟨rw, user, tb⟩
  · exact absurd hd hp
  · rcases hk : s.mm.kalloc with - | x
    · rfl
    · rw [hd, hk] at h
      cases h
  · rw [hd] at h
    cases h

/-- **A visit gives the child the entry**, unless there is no frame for its table. -/
theorem cloneShared_gets (he : (s.src.pte v).IsUser) :
    (cloneShared s v).dst.pte v = s.src.pte v ∨ s.mm.kalloc = none := by
  have hpriv := PageDir.private_of_isUser he
  unfold cloneShared
  rw [if_neg]
  · rcases hc : ensureChildTable s (pdIndex v) with - | s'
    · exact Or.inr (ensureChildTable_none hpriv.lt_userPages hc)
    · obtain ⟨-, hsrc, -, hd⟩ := ensureChildTable_some .fresh hc
      refine Or.inl ?_
      rw [PageDir.setPte_of_private hd, update_self]
  · rintro (ha | ha)
    · rw [PageDir.Private, ha] at hpriv
      cases hpriv
    · rw [ha] at he
      exact Pte.not_isUser_empty he

/-- **A settled page after the fork**: parent and child have the entry the parent had. -/
theorem fork_settled {s s' : System} {p : Nat} {q : Proc} (hq : s.procs[p]? = some q) (hset : Settled q v)
    (hcov : q.tbl.Covered true v) (h : s.fork p = some s') (hroom : s'.mm.kalloc ≠ none) :
    ∃ a b, s'.procs[p]? = some a ∧ s'.procs[s.procs.length]? = some b ∧
      a.pd.pte v = q.pd.pte v ∧ b.pd.pte v = q.pd.pte v := by
  obtain ⟨hu, -, hw, hp⟩ := hset
  obtain ⟨q', hq', h⟩ := Option.bind_eq_some_iff.mp h
  obtain rfl : q = q' := Option.some.inj (hq.symm.trans hq')
  obtain ⟨c, hc, h⟩ := Option.bind_eq_some_iff.mp h
  obtain ⟨⟨f, tbl⟩, hr, rfl⟩ := Option.map_eq_some_iff.mp h
  obtain ⟨f', hregions, rfl, rfl⟩ := of_map_pair hr
  obtain ⟨i, x, ⟨hx, hxu⟩, hxs, hxc⟩ := hcov
  obtain ⟨s₁, h₁, h₂⟩ := cloneRegions_visits (fun y hy => hy) (List.mem_of_getElem? hx) hxu hxs hxc hregions
  -- up to the visit the parent keeps its entry
  have hsame {r r'} : ForkSteps q.tbl r r' → r.src.pte v = q.pd.pte v → r'.src.pte v = q.pd.pte v :=
    Fork.steps_invariant (P := fun r => r.src.pte v = q.pd.pte v) fun _ _ hr hs => forkStep_src hw hp hs hr
  have hsrc : s₁.src.pte v = q.pd.pte v := hsame ((vmmForkAddressSpace_steps q.tbl _).trans h₁) rfl
  have hvisit : ForkSteps q.tbl s₁ (cloneShared s₁ v) := cloneShared_steps s₁ ⟨i, x, ⟨hx, hxu⟩, hxs, hxc⟩
  have hgets : (cloneShared s₁ v).dst.pte v = q.pd.pte v := by
    rcases cloneShared_gets (hsrc ▸ hu) with hd | hk
    · rw [hd, hsrc]
    · exact absurd (Fork.steps_invariant (P := fun r => r.mm.kalloc = none)
        (fun _ _ hr hs => forkStep_starved hs hr) (hvisit.trans h₂) hk) hroom
  -- after the visit both do
  obtain ⟨ha, hb⟩ := Fork.steps_invariant (P := fun r => r.src.pte v = q.pd.pte v ∧ r.dst.pte v = q.pd.pte v)
    (fun _ _ hr hs => forkStep_settled hw hp hs hr) h₂ ⟨hsame hvisit hsrc, hgets⟩
  have hlt : p < s.procs.length := (List.getElem?_eq_some_iff.mp hq).1
  refine ⟨{ q with pd := f'.src }, ⟨f'.dst, cloneTable q.tbl .fresh, fun _ => false⟩, ?_, ?_, ha, hb⟩
  · rw [List.getElem?_append_left (by simpa using hlt), List.getElem?_set_self hlt]
  · simp

/-! ### Faults -/

variable {m : Mm} {pd : PageDir} {w : Nat}

/-- A swapped page comes back without an eviction. -/
def FaultRoom (m : Mm) (pd : PageDir) (w : Nat) : Prop := (pd.pte w).isSwapped = true → m.kalloc ≠ none

theorem swapHandleFault_pte_of_ne (hroom : FaultRoom m pd w) (hne : v ≠ w) (ioOut ioIn : Bool) :
    (swapHandleFault m pd w ioOut ioIn).1.2.pte v = pd.pte v := by
  unfold swapHandleFault
  split
  · rfl
  next hc =>
  rw [not_or] at hc
  have hroom := hroom (by simpa using hc.2)
  unfold faultFrame
  rcases hk : m.kalloc with - | ⟨f, m'⟩
  · exact absurd hk hroom
  · dsimp only
    split
    · rfl
    · exact PageDir.setPte_ne hne

theorem Faulted.pte_of_ne {err : FaultErr} {pd' : PageDir} (hroom : FaultRoom m pd w) (hne : v ≠ w)
    (h : Faulted m pd w err pd') : pd'.pte v = pd.pte v := by
  cases h with
  | same => rfl
  | swapped => exact swapHandleFault_pte_of_ne hroom hne _ _
  | filled => exact PageDir.setPte_ne hne
  | owned => exact PageDir.setPte_ne hne
  | grown => exact vmmMap_pte_of_ne (by rwa [addrToPage_pageToAddr])

/-- A fault on the page itself is refused. -/
theorem handleDenied_settled (hcow : (pd.pte v).cow = false) (hst : inStack v = false) (write user : Bool) :
    (handleDenied m pd v write user).1.2 = pd := by
  have hnone : handleCow m pd v = none := if_pos (Or.inr hcow)
  unfold handleDenied
  rw [hnone]
  simp [hst]

/-- **A fault leaves a settled page alone**, if nothing is evicted. -/
theorem pageFaultHandler_settled (hu : (pd.pte v).IsUser) (hcow : (pd.pte v).cow = false)
    (hst : inStack v = false) (hroom : FaultRoom m pd w) (write ioOut ioIn : Bool) :
    (pageFaultHandler m pd w (accessErr pd w write) ioOut ioIn).1.2.pte v = pd.pte v := by
  by_cases hv : v = w
  · subst hv
    have hpres : (accessErr pd v write).present = true := by
      have hpriv : (pd.pde (pdIndex v)).isPriv = true := PageDir.private_of_isUser hu
      have : (pd.pde (pdIndex v)).isPresent = true := by
        rcases hd : pd.pde (pdIndex v) with - | ⟨a, b⟩ | ⟨a, b, c⟩ <;> rw [hd] at hpriv
        · cases hpriv
        · rfl
        · rfl
      simp [accessErr, this, hu.1]
    unfold pageFaultHandler
    rw [if_pos hpres, handleDenied_settled hcow hst]
  · exact (pageFaultHandler_faulted ..).pte_of_ne hroom hv

/-! ### Runs -/

/-- A user access of a process that faults, or the rest of the system at work on the state all share. -/
inductive AccessEvent where
  | access (p v : Nat) (write ioOut ioIn : Bool)
  | other (mm : Mm)

def accessStep (s : System) : AccessEvent → Option System
  | .access p v write ioOut ioIn => s.onSpace p fun x =>
    some ⟨(pageFaultHandler x.mm x.pd v (accessErr x.pd v write) ioOut ioIn).1.1,
      (pageFaultHandler x.mm x.pd v (accessErr x.pd v write) ioOut ioIn).1.2, x.tbl⟩
  | .other mm => some { s with mm := mm }

/-- **The condition**: no fault has to evict a page. -/
def System.Roomy (s : System) : AccessEvent → Prop
  | .access p v _ _ _ => ∀ q, s.procs[p]? = some q → FaultRoom s.mm q.pd v
  | .other _ => True

/-- Process `i` has the entry `e` for the page `v`. -/
def System.HasEntry (s : System) (i v : Nat) (e : Pte) : Prop :=
  ∃ a : Proc, s.procs[i]? = some a ∧ a.pd.pte v = e

/-- **One step.** -/
theorem accessStep_settled {s s' : System} {ev : AccessEvent} {i : Nat} (he : e.IsUser) (hcow : e.cow = false)
    (hst : inStack v = false) (hi : s.HasEntry i v e) (hc : s.Roomy ev)
    (h : accessStep s ev = some s') : s'.HasEntry i v e := by
  obtain ⟨a, ha, rfl⟩ := hi
  cases ev with
  | access p w write ioOut ioIn =>
    simp only [accessStep] at h
    obtain ⟨q, y, hq, hy, rfl⟩ := System.onSpace_spec h
    obtain rfl := Option.some.inj hy
    by_cases hip : i = p
    · subst hip
      obtain rfl : a = q := Option.some.inj (ha.symm.trans hq)
      refine ⟨_, List.getElem?_set_self (List.getElem?_eq_some_iff.mp hq).1, ?_⟩
      exact pageFaultHandler_settled he hcow hst (hc a hq) write ioOut ioIn
    · exact ⟨a, (List.getElem?_set_ne (Ne.symm hip)).trans ha, rfl⟩
  | other mm =>
    obtain rfl := Option.some.inj h
    exact ⟨a, ha, rfl⟩

/-- **`MAP_SHARED` mappings stay shared over fork.**  If the page of a shared region is settled when the
process forks and the fork finds memory, then in every run of faults of any process in which none
has to evict a page, parent and child name the same frame. -/
theorem shared_mapping_stays_shared (s s' t : System) (p v : Nat) (q : Proc) (hq : s.procs[p]? = some q)
    (hcov : q.tbl.Covered true v) (hset : Settled q v) (hfork : s.fork p = some s') (hroom : s'.mm.kalloc ≠ none)
    (es : List AccessEvent) (hc : MeetsAll accessStep System.Roomy s' es) (hrun : run accessStep s' es = some t) :
    ∃ a b, t.procs[p]? = some a ∧ t.procs[s.procs.length]? = some b ∧ (a.pd.pte v).IsUser ∧ (b.pd.pte v).IsUser ∧
      (a.pd.pte v).frame = (b.pd.pte v).frame := by
  obtain ⟨a₀, b₀, ha₀, hb₀, hae, hbe⟩ := fork_settled hq hset hcov hfork hroom
  have hst := not_inStack_of_window hset.window
  have hkeep : ∀ i, s'.HasEntry i v (q.pd.pte v) → t.HasEntry i v (q.pd.pte v) := fun i hi =>
    run_invariant (P := fun s : System => s.HasEntry i v (q.pd.pte v))
      (fun hi hc hs => accessStep_settled hset.user hset.cow hst hi hc hs) hi hc hrun
  obtain ⟨a, ha, hae⟩ := hkeep p ⟨a₀, ha₀, hae⟩
  obtain ⟨b, hb, hbe⟩ := hkeep s.procs.length ⟨b₀, hb₀, hbe⟩
  refine ⟨a, b, ha, hb, ?_, ?_, by rw [hae, hbe]⟩
  · rw [hae]
    exact hset.user
  · rw [hbe]
    exact hset.user

/-- The first process with a `MAP_SHARED | MAP_ANON` page at 0x90000000; it reads the page if `touched`. -/
def System.sharedPage (touched : Bool) : Option System :=
  ((System.booted 0 plainMap).onSpace 0 fun x =>
    (doMmap ⟨fun _ _ _ => none, fun _ _ => zeroPage, true⟩ x 0x90000000 4096 true ⟨true, false, true, true⟩ (-1) 0).map
      Prod.fst).bind fun s => if touched then accessStep s (.access 0 0x90000 false true true) else some s

/-- A page that was read before the fork, and written by the child after it. -/
theorem shared_mapping_stays_shared_touched :
    ∃ s s' t, System.sharedPage true = some s ∧ s.fork 0 = some s' ∧
      run accessStep s' [.access 1 0x90000 true true true] = some t ∧
      ∃ a b, t.procs[0]? = some a ∧ t.procs[s.procs.length]? = some b ∧ (a.pd.pte 0x90000).IsUser ∧
        (b.pd.pte 0x90000).IsUser ∧ (a.pd.pte 0x90000).frame = (b.pd.pte 0x90000).frame := by
  have hview : ((System.sharedPage true).bind fun s => s.procs[0]?.bind fun q => (s.fork 0).bind fun s' =>
      (run accessStep s' [.access 1 0x90000 true true true]).map fun _ =>
        (decide (q.tbl.Covered true 0x90000), decide (Settled q 0x90000), s'.mm.kalloc.isSome)) =
      some (true, true, true) := by decide +kernel
  obtain ⟨s, hs, hview⟩ := Option.bind_eq_some_iff.mp hview
  obtain ⟨q, hq, hview⟩ := Option.bind_eq_some_iff.mp hview
  obtain ⟨s', hs', hview⟩ := Option.bind_eq_some_iff.mp hview
  obtain ⟨t, ht, hcov, hview⟩ := of_map_pair hview
  obtain ⟨hset, hroom⟩ := Prod.mk.inj hview
  have hroom : s'.mm.kalloc ≠ none := Option.isSome_iff_ne_none.mp hroom
  have hc : MeetsAll accessStep System.Roomy s' [.access 1 0x90000 true true true] :=
    ⟨fun _ _ _ => hroom, fun _ _ => trivial⟩
  exact ⟨s, s', t, hs, hs', ht, shared_mapping_stays_shared s s' t 0 0x90000 q hq (of_decide_eq_true hcov)
    (of_decide_eq_true hset) hs' hroom _ hc ht⟩

/-- **Each process gets a frame of its own** for a page that was not touched before the fork. -/
theorem untouched_page_splits :
    ((System.sharedPage false).bind fun s => (s.fork 0).bind fun s' =>
      (run accessStep s' [.access 0 0x90000 true true true, .access 1 0x90000 true true true]).map fun t =>
        t.procs.map fun q => (decide (q.tbl.Covered true 0x90000), q.pd.pte 0x90000)) =
      some [(true, .mapped 135172 true), (true, .mapped 135173 true)] := by
  decide +kernel

end CactKernel
