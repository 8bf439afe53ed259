/-
CactKernel/Mm/ReadOnly.lean

A mapping without `PROT_WRITE`, through faults and forks.

`do_mmap` leaves no user entry of the region writable (`doMmap_readOnly`).
After that the process and its descendants fault and fork; the rest of the
system only changes what all address spaces share.  No action of a fork gives
a page of the region a writable entry (`forkStep_readOnly`), and neither does
an eviction.  Two branches of the fault handler do, since they never look at
the region: the one for demand pages and the ones for copy-on-write set
`PAGE_RW` whatever the protection was (`demand_page_writable`).
**Main result** `write_permission_kept`.
-/
import CactKernel.Mm.Fault
import CactKernel.Mm.System

namespace CactKernel

open Function Runs Loops

/-- User mode cannot write through the entry. -/
def Pte.ReadOnly (e : Pte) : Prop := e.user = true → e.rw = false

/-- No page of `[lo, lo + n)` is writable from user mode. -/
def PageDir.ReadOnly (pd : PageDir) (lo n : Nat) : Prop := ∀ v, lo ≤ v → v < lo + n → (pd.pte v).ReadOnly

/-- The pages of `[lo, lo + n)` lie below the stack window. -/
def BelowStack (lo n : Nat) : Prop := (lo + n) * pageSize ≤ userStackLimit

variable {lo n v length : Nat} {m m' : Mm} {pd pd' : PageDir} {e : Pte} {t : MmapTable}

theorem Pte.readOnly_of_not_user (h : e.user = false) : e.ReadOnly := fun hu => by
  rw [h] at hu
  cases hu

theorem BelowStack.not_inStack (h : BelowStack lo n) (hv : v < lo + n) : inStack v = false := by
  unfold inStack BelowStack pageToAddr at *
  simp only [userStackTop, pageSize, Bool.and_eq_false_iff, decide_eq_false_iff_not] at *
  omega

/-- The pages of a mapping of `length` bytes. -/
theorem mem_mapping_iff (h₁ : length ≤ n * pageSize) (h₂ : n * pageSize < length + pageSize) :
    (lo * pageSize ≤ pageToAddr v ∧ pageToAddr v < lo * pageSize + length) ↔ lo ≤ v ∧ v < lo + n := by
  simp only [pageToAddr, pageSize] at *
  omega

theorem belowStack_of_length (h : lo * pageSize + length ≤ userStackLimit)
    (hn : n * pageSize < length + pageSize) : BelowStack lo n := by
  -- the limit is a page boundary itself
  have hlimit : userStackLimit = 0xBF000 * pageSize := by simp only [userStackLimit, pageSize]
  unfold BelowStack
  rw [hlimit] at h ⊢
  refine Nat.mul_le_mul_right _ (Nat.lt_succ_iff.mp (Nat.lt_of_mul_lt_mul_right (a := pageSize) ?_))
  rw [Nat.add_mul]
  omega

/-- One entry is written. -/
theorem PageDir.ReadOnly.setPte (h : pd.ReadOnly lo n) (he : lo ≤ v → v < lo + n → e.ReadOnly) :
    (pd.setPte v e).ReadOnly lo n :=
  PageDir.forall_setPte (Q := fun w e => lo ≤ w → w < lo + n → e.ReadOnly) h he

theorem PageDir.ReadOnly.of_pte_eq (h : pd.ReadOnly lo n) (he : pd'.pte = pd.pte) : pd'.ReadOnly lo n := by
  unfold PageDir.ReadOnly at *
  rwa [he]

/-- Where the table is not private there are no user entries. -/
theorem readOnly_of_not_private (h : ¬pd.Private v) : (pd.pte v).ReadOnly := by
  refine Pte.readOnly_of_not_user ?_
  rcases hp : pd.pde (pdIndex v) with - | ⟨rw, user⟩ | ⟨rw, user, t⟩
  · rw [pd.absent_empty v hp]
    rfl
  · rw [pd.shared_kernel v rw user hp]
    rfl
  · exact absurd (by rw [PageDir.Private, hp]; rfl) h

/-! ### `mmap` without `PROT_WRITE` -/

/-- **`vmm_map` without `PAGE_RW`**, below the stack window. -/
theorem vmmMap_readOnly (hv : v < userPages) (hst : inStack v = false) (f : Nat) :
    ((vmmMap m pd (pageToAddr v) (pageToAddr f) false).2.pte v).ReadOnly := by
  unfold vmmMap
  rw [if_neg (by simp [pageToAddr_mod]), if_neg, addrToPage_pageToAddr, hst]
  · rcases hs : mapSlot m pd (pdIndex v) (false || false) with - | ⟨m', pd'⟩
    · refine readOnly_of_not_private fun hp => ?_
      -- under a private table the slot is always ready
      unfold mapSlot at hs
      rcases hd : pd.pde (pdIndex v) with - | ⟨rw, user⟩ | ⟨rw, user, t⟩
      · rw [PageDir.Private, hd] at hp
        cases hp
      · rw [PageDir.Private, hd] at hp
        cases hp
      · rw [hd] at hs
        cases hs
    · rw [PageDir.setPte_of_private ((mapSlot_some hs).isPrivate hv), update_self]
      exact fun _ => rfl
  · unfold pageToAddr
    simp only [userPages, userStackTop, pageSize] at *
    omega

/-- The first `k` pages of the mapping are there. -/
theorem PageDir.ReadOnly.grow (h : pd.ReadOnly lo n) (hsame : ∀ w, w ≠ lo + n → pd'.pte w = pd.pte w)
    (hnew : (pd'.pte (lo + n)).ReadOnly) : pd'.ReadOnly lo (n + 1) := by
  intro v h₁ h₂
  by_cases hv : v = lo + n
  · subst hv
    exact hnew
  · rw [hsame v hv]
    exact h v h₁ (by omega)

theorem readOnly_zero : pd.ReadOnly lo 0 := fun v h₁ h₂ => by omega

/-- A mapping starts on a page boundary. -/
theorem choosePlace_mod {hint va : Nat} {fixed : Bool}
    (h : choosePlace t hint length fixed = some (some va)) : va % pageSize = 0 := by
  obtain ⟨-, -, rfl, hmod, -⟩ | ⟨hva, hne⟩ := choosePlace_cases h
  · exact hmod
  · obtain ⟨c, hp, hloop⟩ := Option.bind_eq_some_iff.mp hva
    obtain ⟨-, hc, hmod, hlt⟩ := pageUp_spec hp
    exact (freeVaLoop_spec hmod (hc.trans hlt) hloop hne).2.1

theorem eq_next_of_finished {σ : Type*} {r : Flow σ} {s : σ} (hs : r.state = some s) (hf : r.finished = true) :
    r = .next s := by
  cases r with
  | next s' =>
    obtain rfl := Option.some.inj hs
    rfl
  | stop => cases hf
  | panic => cases hf

section Backing

variable {k offset : Nat} {env : MmapEnv} (hb : BelowStack lo n)
include hb

theorem BelowStack.lt_userPages (hk : k < n) : lo + k < userPages := by
  unfold BelowStack at hb
  simp only [userStackLimit, userPages, pageSize] at *
  omega

/-- One page mapped at its place. -/
theorem readOnly_vmmMap (h : pd.ReadOnly lo k) (hk : k < n) (f : Nat) :
    (vmmMap m pd (lo * pageSize + k * pageSize) (pageToAddr f) false).2.ReadOnly lo (k + 1) := by
  have hva : lo * pageSize + k * pageSize = pageToAddr (lo + k) := (Nat.add_mul ..).symm
  rw [hva]
  refine h.grow (fun w hw => vmmMap_pte_of_ne (by rwa [addrToPage_pageToAddr])) ?_
  exact vmmMap_readOnly (hb.lt_userPages hk) (hb.not_inStack (by omega)) f

theorem mapShared_readOnly {x y : Space} {h off : Nat}
    (hm : mapShared env x (lo * pageSize) (n * pageSize) h off offset false = some (y, true)) :
    y.pd.ReadOnly lo n := by
  obtain ⟨-, -, hb'⟩ | ⟨m, u, hu, -, ⟨-, hpd, hfin⟩ | ⟨hb', -⟩⟩ := mapShared_cases hm
  · cases hb'
  · have hloop := eq_next_of_finished hu hfin
    rw [Nat.mul_div_cancel n pageSize_pos] at hloop
    have := loop_next (P := fun k (s : (Mm × PageDir) × Nat) => s.1.2.ReadOnly lo k)
      (fun k s s' _ hk hs hbody => ?_) readOnly_zero hloop
    · rwa [hpd, ← Nat.zero_add n]
    · unfold installShared at hbody
      split at hbody
      · cases hbody
      dsimp only at hbody
      split at hbody
      · obtain rfl := Flow.next.inj hbody
        exact readOnly_vmmMap hb hs (by omega) _
      · cases hbody
  · cases hb'

theorem mapFile_readOnly {x y : Space} {fd : Int}
    (hm : mapFile env x (lo * pageSize) (n * pageSize) fd offset false = some (y, true)) :
    y.pd.ReadOnly lo n := by
  obtain ⟨u, hu, hm⟩ := Option.bind_eq_some_iff.mp hm
  split at hm
  · next hfin =>
    obtain ⟨rfl, -⟩ := of_pair hm
    have hloop := eq_next_of_finished hu hfin
    rw [Nat.mul_div_cancel n pageSize_pos] at hloop
    have := loop_next (P := fun k (s : (Mm × PageDir) × Nat) => s.1.2.ReadOnly lo k)
      (fun k s s' _ hk hs hbody => ?_) readOnly_zero hloop
    · rwa [Nat.zero_add] at this
    · unfold installFile at hbody
      split at hbody
      · cases hbody
      split at hbody
      · cases hbody
      · obtain rfl := Flow.next.inj hbody
        exact readOnly_vmmMap hb hs (by omega) _
  · obtain ⟨r, -, he⟩ := Option.map_eq_some_iff.mp hm
    cases he

theorem vmmMapZero_readOnly (h : (vmmMapZero m pd (lo * pageSize) (n * pageSize)).2 = true) :
    (vmmMapZero m pd (lo * pageSize) (n * pageSize)).1.2.ReadOnly lo n := by
  have hlast : satAdd (satAdd (lo * pageSize) (n * pageSize)) (pageSize - 1) / pageSize = lo + n := by
    unfold BelowStack at hb
    simp only [satAdd, userStackLimit, u32Size, pageSize] at *
    omega
  unfold vmmMapZero at h ⊢
  dsimp only at h ⊢
  rw [hlast, Nat.mul_div_cancel lo pageSize_pos] at h ⊢
  split at h
  · cases h
  next hargs =>
  rw [if_neg hargs]
  rw [show lo + n - lo = n by omega] at h ⊢
  -- only a loop that ran to its end answers success
  rcases hl : loop mapZeroPage n lo (m, pd) with t | t | - <;> rw [hl] at h
  · have := loop_next (P := fun k (s : Mm × PageDir) => lo ≤ k ∧ s.2.ReadOnly lo (k - lo))
      (fun k s s' h₁ h₂ hs hbody => ?_) ⟨le_rfl, by rw [Nat.sub_self]; exact readOnly_zero⟩ hl
    · rw [Nat.add_sub_cancel_left] at this
      exact this.2
    · unfold mapZeroPage at hbody
      split at hbody
      · cases hbody
      next m₁ pd₁ he =>
      obtain rfl := Flow.next.inj hbody
      have hp := ensurePrivatePt_some he
      refine ⟨by omega, ?_⟩
      rw [show k + 1 - lo = k - lo + 1 by omega]
      have hk : lo + (k - lo) = k := by omega
      refine hs.2.grow (fun w hw => ?_) ?_
      · rw [hk] at hw
        exact (PageDir.setPte_ne hw).trans (congrFun hp.pte w)
      · rw [hk]
        rw [PageDir.setPte_of_private hp.isPrivate, update_self]
        exact fun _ => rfl
  · cases h
  · cases h

end Backing

/-- **`do_mmap` without `PROT_WRITE`**, below the stack window. -/
theorem doMmap_readOnly {env : MmapEnv} {x y : Space} {hint offset va : Nat} {flags : MapFlags} {fd : Int}
    (h : doMmap env x hint length false flags fd offset = some (y, some va)) :
    ∃ lo n, va = lo * pageSize ∧ length ≤ n * pageSize ∧ n * pageSize < length + pageSize ∧
      (BelowStack lo n → y.pd.ReadOnly lo n) := by
  obtain ⟨-, ho⟩ | ⟨len, va', i, s₁, o₁, -, hlen, hplace, -, hr, ⟨-, -, ho⟩ | ⟨obj, rfl, ho, rfl⟩⟩ := doMmap_cases h
  · cases ho
  · cases ho
  obtain rfl := Option.some.inj ho
  obtain ⟨h₁, h₂, hmod, -⟩ := pageUp_spec hlen
  obtain ⟨lo, rfl⟩ : ∃ lo, va = lo * pageSize :=
    ⟨_, (Nat.div_mul_cancel (Nat.dvd_of_mod_eq_zero (choosePlace_mod hplace))).symm⟩
  obtain ⟨n, rfl⟩ : ∃ n, len = n * pageSize := ⟨_, (Nat.div_mul_cancel (Nat.dvd_of_mod_eq_zero hmod)).symm⟩
  refine ⟨lo, n, rfl, h₁, h₂, fun hb => ?_⟩
  have hne : some obj ≠ none := Option.some_ne_none obj
  show s₁.pd.ReadOnly lo n
  obtain ⟨r, rfl, rfl, hok⟩ | ⟨-, ho⟩ | ⟨obj', off, b, hy, hok⟩ | ⟨b, hy, hok⟩ := mapBacking_cases hr
  · exact vmmMapZero_readOnly hb (hok hne)
  · cases ho
  · obtain rfl := hok hne
    exact mapShared_readOnly hb hy
  · obtain rfl := hok hne
    exact mapFile_readOnly hb hy

/-! ### Forks -/

/-- **One action of a fork** leaves the pages of the mapping read-only on both sides. -/
theorem forkStep_readOnly (hb : BelowStack lo n) {r r' : Fork}
    (h : r.src.ReadOnly lo n ∧ r.dst.ReadOnly lo n) (hstep : ForkStep t r r') :
    r'.src.ReadOnly lo n ∧ r'.dst.ReadOnly lo n := by
  obtain ⟨hs, hd⟩ := h
  cases hstep with
  | copy => exact ⟨hs, hd.setPte (hs _)⟩
  | share => exact ⟨hs, hd.setPte (hs _)⟩
  | cow => exact ⟨hs.setPte fun _ _ _ => rfl, hd.setPte fun _ _ _ => rfl⟩
  -- a clone is writable, but the stack lies above the region
  | clone hst =>
    refine ⟨hs, hd.setPte fun _ h₂ => ?_⟩
    rw [hb.not_inStack h₂] at hst
    cases hst
  | table => exact ⟨hs, hd.of_pte_eq PageDir.makePriv_pte⟩
  | srcTable => exact ⟨hs.of_pte_eq PageDir.makePriv_pte, hd⟩
  | install hi =>
    refine ⟨hs, fun v h₁ h₂ => ?_⟩
    rw [PageDir.install_pte hi]
    dsimp only
    split
    · exact Pte.readOnly_of_not_user rfl
    · exact hd v h₁ h₂
  | shareSlot =>
    refine ⟨hs, fun v h₁ h₂ => ?_⟩
    rw [PageDir.share_pte]
    dsimp only
    split
    · exact Pte.readOnly_of_not_user rfl
    · exact hd v h₁ h₂
  | clearSlot hi =>
    refine ⟨hs, fun v h₁ h₂ => ?_⟩
    rw [PageDir.clear_pte hi]
    dsimp only
    split
    · exact Pte.readOnly_of_not_user rfl
    · exact hd v h₁ h₂
  | shobj => exact ⟨hs, hd⟩

/-! ### Faults -/

/-- Clearing accessed bits changes no permission. -/
theorem AccessCleared.readOnly (h : AccessCleared pd pd') (hr : pd.ReadOnly lo n) : pd'.ReadOnly lo n := by
  intro v h₁ h₂
  rw [h.pte v]
  exact hr v h₁ h₂

/-- An evicted page keeps its permission. -/
theorem Evicted.readOnly {w slot : Nat} (h : Evicted m pd m' pd' w slot) (hr : pd.ReadOnly lo n) :
    pd'.ReadOnly lo n := by
  obtain ⟨pd₁, hc, rfl⟩ := h.pd
  exact (hc.readOnly hr).setPte fun h₁ h₂ => hr w h₁ h₂

theorem MadeRoom.readOnly (h : MadeRoom m pd m' pd') (hr : pd.ReadOnly lo n) : pd'.ReadOnly lo n := by
  cases h with
  | kept _ hc => exact hc.readOnly hr
  | evicted he _ => exact he.readOnly hr

/-- A page that comes back from swap keeps its permission. -/
theorem swapHandleFault_readOnly (hr : pd.ReadOnly lo n) (ioOut ioIn : Bool) :
    (swapHandleFault m pd v ioOut ioIn).1.2.ReadOnly lo n := by
  obtain ⟨m₁, pd₁, hroom, he | ⟨f, m', -, -, he⟩⟩ := swapHandleFault_spec m pd v ioOut ioIn <;> rw [he]
  · exact hroom.readOnly hr
  · exact (hroom.readOnly hr).setPte fun h₁ h₂ => hr v h₁ h₂

/-- **The condition**: a fault on a page of the mapping does not meet a demand page, and a write does not
meet a copy-on-write page. -/
def FaultErr.Harmless (err : FaultErr) (e : Pte) : Prop :=
  if err.present then err.write = true → e.cow = false
  else e.isSwapped = true ∨ e.demand = false ∧ e.cow = false

instance decidableHarmless : (err : FaultErr) → (e : Pte) → Decidable (err.Harmless e)
  | ⟨true, write, _⟩, e => inferInstanceAs (Decidable (write = true → e.cow = false))
  | ⟨false, _, _⟩, e => inferInstanceAs (Decidable (e.isSwapped = true ∨ e.demand = false ∧ e.cow = false))

/-- **A harmless fault leaves the mapping read-only.** -/
theorem Faulted.readOnly (hb : BelowStack lo n) (hr : pd.ReadOnly lo n) {err : FaultErr}
    (hh : lo ≤ v → v < lo + n → err.Harmless (pd.pte v)) (h : Faulted m pd v err pd') : pd'.ReadOnly lo n := by
  unfold FaultErr.Harmless at hh
  cases h with
  | same => exact hr
  | swapped => exact swapHandleFault_readOnly hr _ _
  | filled hp hs hcase =>
    refine hr.setPte fun h₁ h₂ => ?_
    have hfree : (pd.pte v).demand = false ∧ (pd.pte v).cow = false := by
      simpa [hp, hs] using hh h₁ h₂
    rcases hcase with hd | hc
    · rw [hfree.1] at hd
      cases hd
    · rw [hfree.2] at hc
      cases hc
  | owned hp hw hc =>
    refine hr.setPte fun h₁ h₂ => ?_
    have hfree : (pd.pte v).cow = false := by simpa [hp, hw] using hh h₁ h₂
    rw [hfree] at hc
    cases hc
  -- the stack grows above the region
  | grown hst =>
    intro w h₁ h₂
    have hne : w ≠ v := by
      rintro rfl
      rw [hb.not_inStack h₂] at hst
      cases hst
    rw [vmmMap_pte_of_ne (by rwa [addrToPage_pageToAddr])]
    exact hr w h₁ h₂

/-- **A store to a present read-only page kills the task**, unless the page is copy-on-write. -/
theorem store_kills (hst : inStack v = false) (hcow : (pd.pte v).cow = false) (user ioOut ioIn : Bool) :
    (pageFaultHandler m pd v ⟨true, true, user⟩ ioOut ioIn).2 = false := by
  have hnone : handleCow m pd v = none := if_pos (Or.inr hcow)
  unfold pageFaultHandler handleDenied
  simp [hnone, hst]

/-! ### Runs -/

/-- What the family of a process does, and the rest of the system to the state all share. -/
inductive FamilyEvent where
  | fork (p : Nat)
  | fault (p v : Nat) (err : FaultErr) (ioOut ioIn : Bool)
  | other (mm : Mm)

def familyStep (s : System) : FamilyEvent → Option System
  | .fork p => s.fork p
  | .fault p v err ioOut ioIn => s.onSpace p fun x =>
    some ⟨(pageFaultHandler x.mm x.pd v err ioOut ioIn).1.1,
      (pageFaultHandler x.mm x.pd v err ioOut ioIn).1.2, x.tbl⟩
  | .other mm => some { s with mm := mm }

/-- Faults on the pages of `[va, va + length)` are harmless. -/
def FamilyEvent.Harmless (va length : Nat) (s : System) : FamilyEvent → Prop
  | .fault p v err _ _ => ∀ q, s.procs[p]? = some q → va ≤ pageToAddr v → pageToAddr v < va + length →
      err.Harmless (q.pd.pte v)
  | _ => True

/-- No process of the family can write to `[lo, lo + n)`. -/
def System.ReadOnly (s : System) (lo n : Nat) : Prop :=
  ∀ (p : Nat) (q : Proc), s.procs[p]? = some q → q.pd.ReadOnly lo n

/-- **One step.** -/
theorem familyStep_readOnly (hb : BelowStack lo n) {s s' : System} {ev : FamilyEvent} (hr : s.ReadOnly lo n)
    (hh : ∀ p v err ioOut ioIn q, ev = .fault p v err ioOut ioIn → s.procs[p]? = some q →
      lo ≤ v → v < lo + n → err.Harmless (q.pd.pte v))
    (h : familyStep s ev = some s') : s'.ReadOnly lo n := by
  intro i x hx
  cases ev with
  | fork p =>
    obtain ⟨q, d, m, r, hq, hk, hsteps, rfl⟩ := System.fork_spec h
    obtain ⟨hsrc, hdst⟩ := Fork.steps_invariant (fun _ _ => forkStep_readOnly hb) hsteps
      ⟨hr p q hq, fun _ _ _ => Pte.readOnly_of_not_user rfl⟩
    rcases List.mem_append.mp (List.mem_of_getElem? hx) with hmem | hmem
    · obtain ⟨j, hj⟩ := List.mem_iff_getElem?.mp hmem
      rcases System.getElem?_set hj with ⟨-, rfl⟩ | ⟨-, hj⟩
      · exact hsrc
      · exact hr j x hj
    · obtain rfl := List.mem_singleton.mp hmem
      exact hdst
  | fault p v err ioOut ioIn =>
    simp only [familyStep] at h
    obtain ⟨q, y, hq, hy, rfl⟩ := System.onSpace_spec h
    obtain rfl := Option.some.inj hy
    rcases System.getElem?_set hx with ⟨-, rfl⟩ | ⟨-, hx⟩
    · exact (pageFaultHandler_faulted ..).readOnly hb (hr p q hq) (hh p v err ioOut ioIn q rfl hq)
    · exact hr i x hx
  | other mm =>
    obtain rfl := Option.some.inj h
    exact hr i x hx

/-- **Write permission is never exceeded.**  After a successful `do_mmap` without `PROT_WRITE` below the
stack window, in every run of forks and faults of the process and its descendants whose faults are
harmless, no page of the mapping can be written from user mode in any of them, and a store to a page
that is present and not copy-on-write kills the task. -/
theorem write_permission_kept (env : MmapEnv) (x y : Space) (shm : Nat → Bool) (hint length offset va : Nat)
    (flags : MapFlags) (fd : Int)
    (hmap : doMmap env x hint length false flags fd offset = some (y, some va))
    (hbelow : va + length ≤ userStackLimit) (es : List FamilyEvent) (s : System)
    (hc : MeetsAll familyStep (FamilyEvent.Harmless va length) ⟨y.mm, [⟨y.pd, y.tbl, shm⟩]⟩ es)
    (hrun : run familyStep ⟨y.mm, [⟨y.pd, y.tbl, shm⟩]⟩ es = some s) :
    ∀ (p : Nat) (q : Proc) (v : Nat), s.procs[p]? = some q → va ≤ pageToAddr v → pageToAddr v < va + length →
      (q.pd.pte v).ReadOnly ∧ ¬Accessible q.pd v true ∧
        ((q.pd.pte v).cow = false → (pageFaultHandler s.mm q.pd v ⟨true, true, true⟩ true true).2 = false) := by
  obtain ⟨lo, n, rfl, h₁, h₂, hro⟩ := doMmap_readOnly hmap
  have hb : BelowStack lo n := belowStack_of_length hbelow h₂
  have hmem := fun v => @mem_mapping_iff lo n v length h₁ h₂
  have hr := run_invariant
    (P := fun s : System => s.ReadOnly lo n)
    (fun hs hev hstep => familyStep_readOnly hb hs (fun p v err ioOut ioIn q he hq h₁ h₂ => ?_) hstep)
    (fun p q hq => ?_) hc hrun
  · intro p q v hq hv₁ hv₂
    obtain ⟨h₃, h₄⟩ := (hmem v).mp ⟨hv₁, hv₂⟩
    have hv := hr p q hq v h₃ h₄
    refine ⟨hv, fun hacc => ?_, fun hcow => store_kills (hb.not_inStack h₄) hcow true true true⟩
    have := hv hacc.2.1.2
    rw [(hacc.2.2 rfl).2] at this
    cases this
  · subst he
    obtain ⟨h₃, h₄⟩ := (hmem v).mpr ⟨h₁, h₂⟩
    exact hev q hq h₃ h₄
  · obtain rfl := List.mem_singleton.mp (List.mem_of_getElem? hq)
    exact hro hb

/-- A page at 0x90000000 mapped read-only, of a file or anonymous. -/
def mapReadOnly (anon : Bool) : Option (Space × Option Nat) :=
  doMmap ⟨fun _ _ _ => none, fun _ _ => zeroPage, true⟩ ⟨.boot 0 plainMap, .template 0, .fresh⟩ 0x90000000 4096 false
    ⟨false, true, true, anon⟩ 3 0

/-- The process forks and the child faults on the page of the file; neither can write to it. -/
theorem write_permission_kept_forked :
    ∃ y s, mapReadOnly false = some (y, some 0x90000000) ∧
      run familyStep ⟨y.mm, [⟨y.pd, y.tbl, fun _ => false⟩]⟩ [.fork 0, .fault 1 0x90000 ⟨true, false, true⟩ true true] =
        some s ∧
      ∀ (p : Nat) (q : Proc), s.procs[p]? = some q → ¬Accessible q.pd 0x90000 true := by
  have hview : (mapReadOnly false).bind (fun r =>
      (run familyStep ⟨r.1.mm, [⟨r.1.pd, r.1.tbl, fun _ => false⟩]⟩
        [.fork 0, .fault 1 0x90000 ⟨true, false, true⟩ true true]).map fun _ => r.2) = some (some 0x90000000) := by
    decide +kernel
  obtain ⟨⟨y, o⟩, hy, hview⟩ := Option.bind_eq_some_iff.mp hview
  obtain ⟨s, hs, ho⟩ := Option.map_eq_some_iff.mp hview
  obtain rfl : o = some 0x90000000 := ho
  refine ⟨y, s, hy, hs, fun p q hq => ?_⟩
  have hc : MeetsAll familyStep (FamilyEvent.Harmless 0x90000000 4096) ⟨y.mm, [⟨y.pd, y.tbl, fun _ => false⟩]⟩
      [.fork 0, .fault 1 0x90000 ⟨true, false, true⟩ true true] :=
    ⟨trivial, fun _ _ => ⟨fun _ _ _ _ => nofun, fun _ _ => trivial⟩⟩
  exact (write_permission_kept _ _ y (fun _ => false) _ 4096 _ 0x90000000 _ _ hy (by decide +kernel) _ s hc hs p q
    0x90000 hq (by decide +kernel) (by decide +kernel)).2.1

/-- **A demand page is writable whatever its protection**: a read fault of an anonymous read-only page
leaves a writable entry. -/
theorem demand_page_writable :
    (mapReadOnly true).bind (fun r =>
      (run familyStep ⟨r.1.mm, [⟨r.1.pd, r.1.tbl, fun _ => false⟩]⟩
        [.fault 0 0x90000 ⟨false, false, true⟩ true true]).map fun s =>
          (r.2, s.procs.map fun q => (decide (Accessible q.pd 0x90000 true), (q.pd.pte 0x90000).rw))) =
      some (some 0x90000000, [(true, true)]) := by
  decide +kernel

end CactKernel
