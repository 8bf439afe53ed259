/-
CactKernel/Mm/Shadow.lean

Which pages the mapping calls of a process can touch.

The kernel reaches a frame through the identity entry of its number, and a
process directory keeps that entry only as long as no user page is mapped over
it.  A page is safe (`user_va_is_safe`) if it lies in the low reservation or
at or above `USER_FRAME_CEIL`, where no frame is handed out.

`SameOutside pd pd' lo n` says that two directories differ at most in the `n`
entries from `lo` on.  Each call of `UserMem` is of this kind for the range it
is asked to map, so that what is left is which ranges the calls accept: `mmap`
checks the rule, `shm_at` checks the alignment of an address it is given, and
`brk` checks the growth only.  **Main result** `user_mappings_safe_iff`.
-/
import CactKernel.Mm.UserMem

namespace CactKernel

open Function Loops Runs

/-! ### Entries that stay -/

/-- The directories agree outside the pages `lo, …, lo + n - 1`. -/
def SameOutside (lo n : Nat) (pd pd' : PageDir) : Prop :=
  ∀ v, v < lo ∨ lo + n ≤ v → pd'.pte v = pd.pte v

namespace SameOutside

variable {lo n lo' n' v : Nat} {pd pd₁ pd₂ : PageDir}

theorem refl : SameOutside lo n pd pd := fun _ _ => rfl

theorem trans (h : SameOutside lo n pd pd₁) (h' : SameOutside lo n pd₁ pd₂) : SameOutside lo n pd pd₂ :=
  fun v hv => (h' v hv).trans (h v hv)

theorem mono (h : SameOutside lo n pd pd₁) (h₁ : lo' ≤ lo) (h₂ : lo + n ≤ lo' + n') :
    SameOutside lo' n' pd pd₁ := fun v hv => h v (by omega)

theorem of_pte_eq (h : pd₁.pte = pd.pte) : SameOutside lo n pd pd₁ := fun _ _ => by rw [h]

theorem setPte {e : Pte} (h : SameOutside lo n pd pd₁) (h₁ : lo ≤ v) (h₂ : v < lo + n) :
    SameOutside lo n pd (pd₁.setPte v e) := fun w hw =>
  (PageDir.setPte_ne (by omega)).trans (h w hw)

/-- A changed entry is one of the range. -/
theorem mem (h : SameOutside lo n pd pd₁) (hv : pd₁.pte v ≠ pd.pte v) : lo ≤ v ∧ v < lo + n := by
  by_contra hout
  exact hv (h v (by omega))

end SameOutside

section Calls

variable {lo n v : Nat} {m : Mm} {pd pd₀ : PageDir} {rw : Bool}

theorem vmmMap_same {va pa : Nat} (h : SameOutside lo n pd₀ pd) (h₁ : lo ≤ addrToPage va)
    (h₂ : addrToPage va < lo + n) : SameOutside lo n pd₀ (vmmMap m pd va pa rw).2 := by
  rcases vmmMap_cases m pd va pa rw with he | ⟨m', pd', -, -, hready, he⟩ <;> rw [he]
  · exact h
  · exact (h.trans (.of_pte_eq hready.pte)).setPte h₁ h₂

theorem mapZeroPage_same {s s' : Mm × PageDir} (h : SameOutside lo n pd₀ s.2) (h₁ : lo ≤ v)
    (h₂ : v < lo + n) (hs : (mapZeroPage s v).state = some s') : SameOutside lo n pd₀ s'.2 := by
  unfold mapZeroPage at hs
  split at hs
  · obtain rfl := Option.some.inj hs
    exact h
  · next hp =>
    obtain rfl := Option.some.inj hs
    exact (h.trans (.of_pte_eq (ensurePrivatePt_some hp).pte)).setPte h₁ h₂

theorem unmapPage_same {s s' : Mm × PageDir} (h : SameOutside lo n pd₀ s.2) (h₁ : lo ≤ v)
    (h₂ : v < lo + n) (hs : (unmapPage s v).state = some s') : SameOutside lo n pd₀ s'.2 := by
  unfold unmapPage at hs
  split at hs
  · exact nomatch hs
  split at hs
  · obtain rfl := Option.some.inj hs
    exact h
  · obtain rfl := Option.some.inj hs
    exact h
  · next hp =>
    obtain rfl := Option.some.inj hs
    exact (h.trans (.of_pte_eq (ensurePdePrivate_ok hp).pte)).setPte h₁ h₂

/-- `do_munmap` touches the pages it is given. -/
theorem doMunmap_same {s s' : Space} {k : Nat} {b : Bool}
    (h : doMunmap s (lo * pageSize) (k * pageSize) = some (s', b)) : SameOutside lo k s.pd s'.pd := by
  obtain ⟨rfl, -⟩ | ⟨len, i, r, u, hlen, -, -, -, -, hu, hs'⟩ := doMunmap_cases h
  · exact .refl
  obtain rfl : len = k * pageSize := (pageUp_eq hlen).trans (by
    unfold alignUp pageSize
    omega)
  rw [Nat.mul_div_cancel _ pageSize_pos, Nat.mul_div_cancel _ pageSize_pos] at hu
  have hsame : SameOutside lo k s.pd u.2 :=
    loop_invariant (P := fun u => SameOutside lo k s.pd u.2)
      (fun j u u' h₁ h₂ hu hj => unmapPage_same hu h₁ h₂ hj) .refl hu
  obtain ⟨rfl, -⟩ | ⟨q, -, -, -, rfl⟩ := hs' <;> exact hsame

theorem clearUserPte_same {s : Mm × PageDir} (h : SameOutside lo n pd₀ s.2) (h₁ : lo ≤ v)
    (h₂ : v < lo + n) : SameOutside lo n pd₀ (clearUserPte s v).2 := by
  unfold clearUserPte
  split
  · exact h.setPte h₁ h₂
  · exact h

theorem addrToPage_add (k : Nat) : addrToPage (lo * pageSize + k * pageSize) = lo + k := by
  rw [← Nat.add_mul]
  exact addrToPage_pageToAddr _

/-- The state of a mapping loop before its page `k`. -/
def Filling (lo n : Nat) (pd₀ : PageDir) (k : Nat) (s : (Mm × PageDir) × Nat) : Prop :=
  SameOutside lo n pd₀ s.1.2 ∧ s.2 = k

/-- The state a mapping loop leaves. -/
def Filled (lo n : Nat) (pd₀ : PageDir) (s : (Mm × PageDir) × Nat) : Prop :=
  SameOutside lo n pd₀ s.1.2 ∧ s.2 ≤ n

variable {env : MmapEnv} {s s' : Space} {offset : Nat} {fd : Int} {write b : Bool}
  {t : (Mm × PageDir) × Nat}

theorem installShared_loop {obj firstPage : Nat}
    (h : (loop (installShared obj firstPage (lo * pageSize) write) n 0 ((m, pd₀), 0)).state = some t) :
    Filled lo n pd₀ t := by
  refine (loop_indexed (P := fun k s => ∃ j ≤ k, Filling lo n pd₀ j s) ?_ ⟨0, le_rfl, .refl, rfl⟩ h).elim
    fun k ⟨hk, j, hj, hu, hc⟩ => ⟨hu, by omega⟩
  rintro k u u' - hk ⟨j, hj, hu, rfl⟩ hb
  unfold installShared at hb
  split at hb
  · obtain rfl := Option.some.inj hb
    exact ⟨_, by omega, hu, rfl⟩
  dsimp only at hb
  split at hb <;> obtain rfl := Option.some.inj hb
  all_goals exact ⟨_, by omega, vmmMap_same hu (by rw [addrToPage_add]; omega) (by rw [addrToPage_add]; omega), rfl⟩

theorem mapShared_same {obj off : Nat}
    (h : mapShared env s (lo * pageSize) (n * pageSize) obj off offset write = some (s', b)) :
    SameOutside lo n s.pd s'.pd := by
  obtain ⟨hpd, -, -⟩ | ⟨m, t, ht, -, hs'⟩ := mapShared_cases h
  · exact .of_pte_eq (by rw [hpd])
  rw [Nat.mul_div_cancel _ pageSize_pos] at ht
  obtain ⟨hsame, hcount⟩ := installShared_loop ht
  obtain ⟨-, hpd, -⟩ | ⟨-, hpd⟩ := hs' <;> rw [hpd]
  · exact hsame
  · -- the pages installed so far are taken out again
    refine List.foldlRecOn (motive := fun u : Mm × PageDir => SameOutside lo n s.pd u.2) _ _ hsame fun u hu v hv => ?_
    have := List.mem_range'_1.mp hv
    rw [show addrToPage (lo * pageSize) = lo from addrToPage_pageToAddr lo] at this
    exact clearUserPte_same hu (by omega) (by omega)

theorem installFile_loop
    (h : (loop (installFile env fd offset (lo * pageSize) write) n 0 ((m, pd₀), 0)).state = some t) :
    Filled lo n pd₀ t := by
  refine (loop_indexed (P := fun k s => ∃ j ≤ k, Filling lo n pd₀ j s) ?_ ⟨0, le_rfl, .refl, rfl⟩ h).elim
    fun k ⟨hk, j, hj, hu, hc⟩ => ⟨hu, by omega⟩
  rintro k u u' - hk ⟨j, hj, hu, rfl⟩ hb
  unfold installFile at hb
  split at hb
  · obtain rfl := Option.some.inj hb
    exact ⟨_, by omega, hu, rfl⟩
  split at hb
  · exact nomatch hb
  · obtain rfl := Option.some.inj hb
    exact ⟨_, by omega, vmmMap_same hu (by rw [addrToPage_add]; omega) (by rw [addrToPage_add]; omega), rfl⟩

theorem mapFile_same
    (h : mapFile env s (lo * pageSize) (n * pageSize) fd offset write = some (s', b)) :
    SameOutside lo n s.pd s'.pd := by
  obtain ⟨t, ht, h⟩ := Option.bind_eq_some_iff.mp h
  rw [Nat.mul_div_cancel _ pageSize_pos] at ht
  obtain ⟨hsame, hcount⟩ := installFile_loop ht
  split at h
  · obtain ⟨rfl, -⟩ := of_pair h
    exact hsame
  · obtain ⟨⟨s₁, b₁⟩, hun, rfl, -⟩ := of_map_pair h
    exact hsame.trans ((doMunmap_same hun).mono le_rfl (by omega))

section

variable (hfit : lo * pageSize + n * pageSize ≤ userStackTop)
include hfit

/-- `vmm_map_zero` touches the pages it is given. -/
theorem vmmMapZero_same :
    SameOutside lo n pd₀ (vmmMapZero m pd₀ (lo * pageSize) (n * pageSize)).1.2 := by
  unfold vmmMapZero
  dsimp only
  split
  · exact .refl
  have hlast : satAdd (satAdd (lo * pageSize) (n * pageSize)) (pageSize - 1) / pageSize = lo + n := by
    simp only [satAdd, u32Size, userStackTop, pageSize] at *
    omega
  rw [hlast, Nat.mul_div_cancel _ pageSize_pos, Nat.add_sub_cancel_left]
  rcases hr : (loop mapZeroPage n lo (m, pd₀)).state with - | t
  · exact .refl
  · exact loop_invariant (P := fun u => SameOutside lo n pd₀ u.2)
      (fun j u u' h₁ h₂ hu hj => mapZeroPage_same hu h₁ h₂ hj) .refl hr

theorem mapBacking_same {flags : MapFlags} {o : Option Nat}
    (h : mapBacking env s (lo * pageSize) (n * pageSize) write flags fd offset = some (s', o)) :
    SameOutside lo n s.pd s'.pd := by
  obtain ⟨r, rfl, rfl, -⟩ | ⟨rfl, -⟩ | ⟨obj, off, b, hr, -⟩ | ⟨b, hr, -⟩ := mapBacking_cases h
  · exact vmmMapZero_same hfit
  · exact .refl
  · exact mapShared_same hr
  · exact mapFile_same hr

end

end Calls

/-! ### Where the calls map -/

/-- The page `v` is safe. -/
def SafePage (v : Nat) : Prop := userVaIsSafe (pageToAddr v) pageSize = true
deriving Decidable

variable {u u' : UserMem} {v newBrk n lo : Nat} {o : Option Nat} {pd : PageDir} {m : Mm}
  {flags : MapFlags} {env : MmapEnv} {write rw : Bool} {fd : Int}

theorem safePage_iff : SafePage v ↔ 0x80000 ≤ v ∨ v < 0x20000 := by
  simp only [SafePage, userVaIsSafe, Bool.or_eq_true, decide_eq_true_eq, pageToAddr, satAdd, u32Size,
    userFrameCeil, reservedEndMin, pageSize]
  omega

/-- **`mmap` maps safe pages only.** -/
theorem choosePlace_safe {t : MmapTable} {hint va : Nat} {fixed : Bool} (ht : mmapBase ≤ t.nextBase)
    (hn : n * pageSize < u32Size) (h : choosePlace t hint (n * pageSize) fixed = some (some va)) :
    ∃ lo, va = lo * pageSize ∧ va + n * pageSize ≤ userStackTop ∧ ∀ v, lo ≤ v → v < lo + n → SafePage v := by
  obtain ⟨-, -, rfl, hmod, hlow, hhigh, hsafe⟩ | ⟨hva, hne⟩ := choosePlace_cases h
  · -- a fixed address is checked
    refine ⟨va / pageSize, ?_, ?_, fun v h₁ h₂ => safePage_iff.mpr ?_⟩ <;>
    · simp only [userVaIsSafe, satAdd, u32Size, userStackTop, userFrameCeil, reservedEndMin, pageSize,
        Bool.or_eq_true, decide_eq_true_eq] at *
      omega
  · -- free space is looked for above the bump pointer
    obtain ⟨c, hp, hloop⟩ := Option.bind_eq_some_iff.mp hva
    obtain ⟨hle, hc, hmod, hlt⟩ := pageUp_spec hp
    obtain ⟨h₁, h₂, h₃, h₄, h₅, -⟩ := freeVaLoop_spec hmod (hc.trans hlt) hloop hne
    refine ⟨va / pageSize, ?_, ?_, fun v hv₁ hv₂ => safePage_iff.mpr ?_⟩ <;>
    · simp only [u32Size, userStackTop, mmapLimit, mmapBase, pageSize] at *
      omega

theorem doMmap_safe {s s' : Space} {hint length offset : Nat} (ht : mmapBase ≤ s.tbl.nextBase)
    (h : doMmap env s hint length write flags fd offset = some (s', o))
    (hv : s'.pd.pte v ≠ s.pd.pte v) : SafePage v := by
  obtain ⟨rfl, -⟩ | ⟨len, va, i, s₁, o₁, -, hlen, hplace, -, hb, hrec⟩ := doMmap_cases h
  · exact absurd rfl hv
  obtain ⟨-, hup, hmod, hlt⟩ := pageUp_spec hlen
  obtain ⟨n, rfl⟩ : ∃ n, len = n * pageSize := ⟨len / pageSize, (Nat.div_mul_cancel (Nat.dvd_of_mod_eq_zero hmod)).symm⟩
  obtain ⟨lo, rfl, hfit, hsafe⟩ := choosePlace_safe ht (by omega) hplace
  have hpd : s'.pd = s₁.pd := by
    obtain ⟨rfl, -, -⟩ | ⟨obj, -, -, rfl⟩ := hrec <;> rfl
  rw [hpd] at hv
  obtain ⟨h₁, h₂⟩ := (mapBacking_same hfit hb).mem hv
  exact hsafe v h₁ h₂

theorem findShmVaFrom_le {segs : Nat → ShmSeg} {as : List ShmAttachment} {size c va : Nat}
    (h : findShmVaFrom segs as size c = some va) (hva : va ≠ 0) : c ≤ va := by
  fun_induction findShmVaFrom segs as size c with
  | case1 => cases h
  | case2 => cases h
  | case3 => exact (Option.some.inj h).le
  | case4 c _ _ _ next hclash ih => exact (shmClash_lt hclash).le.trans (ih h)
  | case5 => exact absurd (Option.some.inj h).symm hva

/-- **`shm_at`** changes entries at the address it is given, or in the window for segments. -/
theorem shmAt_pages {shmid shmaddr : Nat} {rnd rdonly : Bool}
    (h : u.shmAt shmid shmaddr rnd rdonly = some (u', o)) (hv : u'.pd.pte v ≠ u.pd.pte v) :
    (segValid u.segs shmid ∧ (u.shmAttachments.any fun a => a.shmId == 0) = true ∧ shmaddr ≠ 0 ∧
      shmRounded shmaddr rnd % pageSize = 0 ∧ addrToPage (shmRounded shmaddr rnd) ≤ v ∧
      v < addrToPage (shmRounded shmaddr rnd) + (u.segs (shmid - 1)).numPages) ∨ 0xA0000 ≤ v := by
  unfold UserMem.shmAt at h
  split at h
  · obtain ⟨rfl, -⟩ := of_pair h
    exact absurd rfl hv
  next hseg =>
  split at h
  · obtain ⟨rfl, -⟩ := of_pair h
    exact absurd rfl hv
  next slot hslot =>
  obtain ⟨place, hplace, h⟩ := Option.bind_eq_some_iff.mp h
  rcases place with - | va
  · obtain ⟨rfl, -⟩ := of_pair h
    exact absurd rfl hv
  obtain ⟨r, hr, rfl, -⟩ := of_map_pair h
  -- the loop maps one page a turn, from `va` up
  have hsame : SameOutside (addrToPage va) (u.segs (shmid - 1)).numPages u.pd r.2 :=
    loop_invariant (P := fun s => SameOutside (addrToPage va) (u.segs (shmid - 1)).numPages u.pd s.2)
      (fun i s s' _ hi hs hb => by
        unfold shmPage at hb
        split at hb
        · exact nomatch hb
        next a ha =>
        obtain rfl := Option.some.inj hb
        obtain ⟨-, rfl⟩ := checkedAdd_eq_some.mp ha
        have : addrToPage (va + i * pageSize) = addrToPage va + i :=
          Nat.add_mul_div_right _ _ pageSize_pos
        exact vmmMap_same hs (by omega) (by omega)) .refl hr
  -- an address given is used as it is; a searched one is never below the search base
  unfold UserMem.shmPlace at hplace
  split at hplace
  · next haddr =>
    have hchoice := Option.some.inj hplace
    split at hchoice
    · exact nomatch hchoice
    next hmod =>
    obtain rfl := Option.some.inj hchoice
    obtain ⟨h₁, h₂⟩ := hsame.mem hv
    refine Or.inl ⟨not_not.mp hseg, ?_, haddr, not_not.mp hmod, h₁, h₂⟩
    obtain ⟨a, ha⟩ := List.findIdx?_eq_some_iff_getElem.mp hslot
    exact List.any_eq_true.mpr ⟨_, List.getElem_mem a, ha.1⟩
  · obtain ⟨va', hva, hne⟩ := Option.map_eq_some_iff.mp hplace
    split at hne
    · exact nomatch hne
    next hz =>
    obtain rfl := Option.some.inj hne
    have hbase := findShmVaFrom_le hva hz
    have hlo : 0xA0000 ≤ addrToPage va' := by
      simp only [shmVaBase, addrToPage, pageSize] at *
      omega
    exact Or.inr (hlo.trans (hsame.mem hv).1)

/-- **`brk`** changes entries between the old end and the new one. -/
theorem sysBrk_pages (h : u.sysBrk newBrk = some (u', o)) (hv : u'.pd.pte v ≠ u.pd.pte v) :
    u.brkStart ≤ newBrk ∧ newBrk - u.brkStart ≤ userBrkMaxGrowth ∧
      brkEnd u.brkCurrent ≤ v ∧ v < brkEnd newBrk := by
  unfold UserMem.sysBrk at h
  split at h
  · obtain ⟨rfl, -⟩ := of_pair h
    exact absurd rfl hv
  split at h
  · obtain ⟨rfl, -⟩ := of_pair h
    exact absurd rfl hv
  split at h
  · obtain ⟨rfl, -⟩ := of_pair h
    exact absurd rfl hv
  next hlow hgrow =>
  obtain ⟨r, hr, he⟩ := Option.map_eq_some_iff.mp h
  -- the loop maps from the old end up to the new one
  have hsame : SameOutside (brkEnd u.brkCurrent) (brkEnd newBrk - brkEnd u.brkCurrent) u.pd r.2 :=
    loop_invariant (P := fun s => SameOutside _ _ u.pd s.2)
      (fun k s s' h₁ h₂ hs hb => by
        unfold brkPage at hb
        split at hb
        · obtain rfl := Option.some.inj hb
          exact hs
        · obtain rfl := Option.some.inj hb
          exact vmmMap_same hs (by rwa [addrToPage_pageToAddr]) (by rwa [addrToPage_pageToAddr]))
      .refl hr
  have hpd : u'.pd = r.2 := by
    split at he <;> (obtain ⟨rfl, -⟩ := Prod.mk.inj he; rfl)
  rw [hpd] at hv
  obtain ⟨h₁, h₂⟩ := hsame.mem hv
  exact ⟨by omega, by omega, h₁, by omega⟩

/-- **The condition** on the arguments of a call. -/
def UserMem.SafeCall (u : UserMem) : MapCall → Prop
  | .mmap .. => True
  | .shmAt shmid shmaddr rnd _ =>
    segValid u.segs shmid → (u.shmAttachments.any fun a => a.shmId == 0) = true → shmaddr ≠ 0 →
      shmRounded shmaddr rnd % pageSize = 0 →
      ∀ i, i < (u.segs (shmid - 1)).numPages → SafePage (addrToPage (shmRounded shmaddr rnd) + i)
  | .brk newBrk =>
    u.brkStart ≤ newBrk → newBrk - u.brkStart ≤ userBrkMaxGrowth →
      brkEnd u.brkCurrent < brkEnd newBrk → pageToAddr (brkEnd newBrk) ≤ reservedEndMin

theorem mapCall_mmap {hint length offset : Nat}
    (h : mapCall u (.mmap env hint length write flags fd offset) = some u') :
    ∃ o, doMmap env u.toSpace hint length write flags fd offset = some (u'.toSpace, o) := by
  simp only [mapCall] at h
  split at h
  · exact nomatch h
  · next r hr =>
    obtain rfl := Option.some.inj h
    exact ⟨r.2, hr⟩

theorem mapCall_safe {c : MapCall} (hc : u.SafeCall c) (h : mapCall u c = some u')
    (hv : u'.pd.pte v ≠ u.pd.pte v) : SafePage v := by
  cases c with
  | mmap env hint length write flags fd offset =>
    obtain ⟨o, ho⟩ := mapCall_mmap h
    exact doMmap_safe u.next_high ho hv
  | shmAt shmid shmaddr rnd rdonly =>
    obtain ⟨r, hr, rfl⟩ := Option.map_eq_some_iff.mp h
    rcases shmAt_pages hr hv with ⟨h₁, h₂, h₃, h₄, h₅, h₆⟩ | hwin
    · have := hc h₁ h₂ h₃ h₄ (v - addrToPage (shmRounded shmaddr rnd)) (by omega)
      rwa [Nat.add_sub_cancel' h₅] at this
    · exact safePage_iff.mpr (Or.inl (by omega))
  | brk newBrk =>
    obtain ⟨r, hr, rfl⟩ := Option.map_eq_some_iff.mp h
    obtain ⟨h₁, h₂, h₃, h₄⟩ := sysBrk_pages hr hv
    have := hc h₁ h₂ (by omega)
    refine safePage_iff.mpr (Or.inr ?_)
    simp only [pageToAddr, reservedEndMin, pageSize] at this
    omega

/-! ### The condition is needed -/

/-- A directory with a table of its own for every user slot, each still a copy of the kernel's. -/
def PageDir.ownTables : PageDir where
  frame := 0
  pde i := if i < pdKernelEntries then .priv true true 0 else .shared true false
  pte := kernelPte
  absent_empty v h := by split at h <;> cases h
  shared_kernel _ _ _ _ := rfl
  kernel_shared i hi := by rw [if_neg (not_lt.mpr hi)]; rfl

/-- Tables need not be allocated, and no mapping gives a frame back. -/
structure Owning (pd : PageDir) : Prop where
  priv : ∀ v, v < userPages → pd.Private v
  cow : ∀ v, (pd.pte v).cow = false

theorem owning_ownTables : Owning .ownTables := by
  refine ⟨fun v hv => ?_, fun _ => rfl⟩
  show (if pdIndex v < pdKernelEntries then Pde.priv true true 0 else .shared true false).isPriv = true
  rw [if_pos (pdIndex_lt_iff.mpr hv)]
  rfl

/-- A mapping below such a directory writes its entry and nothing else. -/
theorem Owning.vmmMap {f : Nat} (h : Owning pd) (hv : v < userPages) :
    (vmmMap m pd (pageToAddr v) (pageToAddr f) rw).1 = m ∧
      (vmmMap m pd (pageToAddr v) (pageToAddr f) rw).2.pte = update pd.pte v (.mapped f (rw || inStack v)) ∧
      Owning (vmmMap m pd (pageToAddr v) (pageToAddr f) rw).2 := by
  have htop : ¬userStackTop ≤ pageToAddr v := by
    simp only [userStackTop, pageToAddr, userPages, pageSize] at *
    omega
  have hmod : ¬(pageToAddr v % pageSize ≠ 0 ∨ pageToAddr f % pageSize ≠ 0) := by
    rw [pageToAddr_mod, pageToAddr_mod]
    simp
  have hpriv := h.priv v hv
  unfold PageDir.Private at hpriv
  unfold CactKernel.vmmMap
  rw [if_neg hmod, if_neg htop, addrToPage_pageToAddr, addrToPage_pageToAddr, mapSlot]
  rcases hp : pd.pde (pdIndex v) with - | ⟨r, u⟩ | ⟨r, u, t⟩ <;> rw [hp] at hpriv
  · cases hpriv
  · cases hpriv
  · dsimp only
    have hset : (pd.makePriv (pdIndex v) (r || (rw || inStack v)) true t).Private v :=
      PageDir.makePriv_private hv
    have hpte := PageDir.setPte_of_private (e := .mapped f (rw || inStack v)) hset
    rw [PageDir.makePriv_pte] at hpte
    refine ⟨?_, hpte, fun w hw => ?_, fun w => ?_⟩
    · rw [PageDir.makePriv_pte, h.cow]
      simp
    · exact PageDir.setPte_private.mpr (h.priv w hw).makePriv
    · rw [hpte]
      by_cases hwv : w = v
      · subst hwv
        rw [update_self]
        rfl
      · rw [update_of_ne hwv]
        exact h.cow w

/-- The next `n` frames from the hint on are free. -/
def Roomy (m : Mm) (n : Nat) : Prop :=
  m.pmm.firstAvailablePage + n ≤ m.pmm.limit ∧
    ∀ f, m.pmm.firstAvailablePage ≤ f → f < m.pmm.limit → m.pmm.bitmap f = false

theorem Roomy.kalloc (h : Roomy m (n + 1)) : ∃ f m', m.kalloc = some (f, m') ∧ Roomy m' n := by
  obtain ⟨hfit, hfree⟩ := h
  have hk := kallocScan_of_hint_clear (hfree _ le_rfl (by omega)) (by omega)
  refine ⟨_, _, by rw [Mm.kalloc, hk]; rfl, ?_, fun f h₁ h₂ => ?_⟩
  · show m.pmm.firstAvailablePage + 1 + n ≤ m.pmm.limit
    omega
  · have hlt : m.pmm.firstAvailablePage + 1 ≤ f := h₁
    show update m.pmm.bitmap m.pmm.firstAvailablePage true f = false
    rw [update_of_ne (by omega)]
    exact hfree f (by omega) h₂

/-- A machine with 2 GiB of RAM has room for any heap. -/
theorem roomy_boot (h : n ≤ 0x21000) : Roomy (.boot 0 plainMap) n := by
  have hfirst : (bootPmm 0 plainMap).firstAvailablePage = 0x21000 := by decide +kernel
  have hlimit : (bootPmm 0 plainMap).limit = 0x7FFFF := by decide +kernel
  refine ⟨?_, fun f h₁ h₂ => ?_⟩
  · show (bootPmm 0 plainMap).firstAvailablePage + n ≤ (bootPmm 0 plainMap).limit
    omega
  · rw [show (Mm.boot 0 plainMap).pmm = bootPmm 0 plainMap from rfl] at *
    have hbitmap : (bootPmm 0 plainMap).bitmap = markRange (markRange (markRange (fun _ => true) 0 0x80000
        false) 0 0x20000 true) 0x20000 0x21000 true := by with_unfolding_all rfl
    rw [hbitmap, markRange, if_neg (by omega), markRange, if_neg (by omega), markRange, if_pos (by omega)]

/-- The pages from `lo` up to `k` are user pages, in a directory that owns its tables. -/
structure Written (lo k : Nat) (pd : PageDir) : Prop extends Owning pd where
  user : ∀ v, lo ≤ v → v < k → (pd.pte v).user = true

theorem written_ownTables : Written lo lo .ownTables :=
  ⟨owning_ownTables, fun _ h₁ h₂ => absurd h₁ (not_le.mpr h₂)⟩

theorem Written.vmmMap {k f : Nat} (h : Written lo k pd)
    (hk : k < userPages) : Written lo (k + 1) (vmmMap m pd (pageToAddr k) (pageToAddr f) rw).2 := by
  refine ⟨(h.toOwning.vmmMap hk).2.2, fun v h₁ h₂ => ?_⟩
  rw [(h.toOwning.vmmMap hk).2.1]
  by_cases hv : v = k
  · subst hv
    rw [update_self]
    rfl
  · rw [update_of_ne hv]
    exact h.user v h₁ (by omega)

/-- A user page is not the kernel's. -/
theorem Written.ne_kernel {k : Nat} (h : Written lo k pd) (h₁ : lo ≤ v) (h₂ : v < k) :
    pd.pte v ≠ kernelPte v := fun he => by
  have := h.user v h₁ h₂
  rw [he] at this
  exact nomatch this

theorem shmAt_unsafe (mm : Mm) (rdonly : Bool) {shmid shmaddr : Nat} {rnd : Bool} (hseg : segValid u.segs shmid)
    (hany : (u.shmAttachments.any fun a => a.shmId == 0) = true) (haddr : shmaddr ≠ 0)
    (hmod : shmRounded shmaddr rnd % pageSize = 0) (h₁ : addrToPage (shmRounded shmaddr rnd) ≤ v)
    (h₂ : v < addrToPage (shmRounded shmaddr rnd) + (u.segs (shmid - 1)).numPages) (hv : v < 0x80000) :
    ∃ u', mapCall (u.over mm .ownTables) (.shmAt shmid shmaddr rnd rdonly) = some u' ∧
      u'.pd.pte v ≠ kernelPte v := by
  obtain ⟨slot, hslot⟩ : ∃ slot, u.shmAttachments.findIdx? (fun a => a.shmId == 0) = some slot := by
    rw [← Option.isSome_iff_exists, List.findIdx?_isSome]
    exact hany
  have hfew := (u.segs (shmid - 1)).few
  obtain ⟨b, hb⟩ : ∃ b, shmRounded shmaddr rnd = pageToAddr b :=
    ⟨_, (Nat.div_mul_cancel (Nat.dvd_of_mod_eq_zero hmod)).symm⟩
  rw [hb, addrToPage_pageToAddr] at h₁ h₂
  -- with tables of its own the loop writes every page it comes to
  have hloop : ∃ t, loop (shmPage (u.segs (shmid - 1)) (pageToAddr b) !rdonly)
      (u.segs (shmid - 1)).numPages 0 (mm, .ownTables) = .next t ∧
        Written b (b + (0 + (u.segs (shmid - 1)).numPages)) t.2 := by
    refine loop_runs (P := fun k (s : Mm × PageDir) => Written b (b + k) s.2) (fun j s _ hj hw => ?_)
      written_ownTables
    have hfit : checkedAdd (pageToAddr b) (j * pageSize) = some (pageToAddr (b + j)) := by
      refine checkedAdd_eq_some.mpr ⟨?_, Nat.add_mul ..⟩
      simp only [shmMaxPages, pageToAddr, u32Size, pageSize] at *
      omega
    have hlt : b + j < userPages := by
      simp only [shmMaxPages, userPages] at *
      omega
    exact ⟨_, by rw [shmPage, hfit], hw.vmmMap hlt⟩
  obtain ⟨t, ht, hdone⟩ := hloop
  have hplace : (u.over mm .ownTables).shmPlace ((u.over mm .ownTables).segs (shmid - 1)).numPages
      shmaddr rnd = some (some (pageToAddr b)) := by
    rw [UserMem.shmPlace, if_pos haddr, hb, if_neg (not_not.mpr (pageToAddr_mod b))]
  refine ⟨{ u.over t.1 t.2 with shmAttachments := u.shmAttachments.set slot ⟨shmid, pageToAddr b⟩ }, ?_,
    hdone.ne_kernel h₁ (by omega)⟩
  show ((u.over mm .ownTables).shmAt shmid shmaddr rnd rdonly).map Prod.fst = _
  have hseg' : ¬¬segValid (u.over mm .ownTables).segs shmid := not_not.mpr hseg
  have hslot' : (u.over mm .ownTables).shmAttachments.findIdx? (fun a => a.shmId == 0) = some slot := hslot
  unfold UserMem.shmAt
  rw [if_neg hseg', hslot']
  dsimp only
  rw [hplace, Option.bind_some]
  dsimp only [UserMem.over]
  rw [ht]
  rfl

theorem brk_unsafe (hlow : u.brkStart ≤ newBrk) (hgrow : newBrk - u.brkStart ≤ userBrkMaxGrowth)
    (h₁ : brkEnd u.brkCurrent ≤ v) (h₂ : v < brkEnd newBrk) :
    ∃ u', mapCall (u.over (.boot 0 plainMap) .ownTables) (.brk newBrk) = some u' ∧
      u'.pd.pte v ≠ kernelPte v := by
  have hend : brkEnd newBrk ≤ 0x21000 := by
    have := u.brk_low
    simp only [brkEnd, userBrkMaxGrowth, reservedEndMin, u32Size, pageSize] at *
    omega
  generalize hlo : brkEnd u.brkCurrent = lo at *
  generalize hhi : brkEnd newBrk = hi at *
  -- each turn takes one frame, and the boot map has more than are asked
  have hloop : ∃ t, loop brkPage (hi - lo) lo (.boot 0 plainMap, .ownTables) = .next t ∧
      Written lo (lo + (hi - lo)) t.2 ∧ Roomy t.1 (hi - (lo + (hi - lo))) := by
    refine loop_runs (P := fun k (s : Mm × PageDir) => Written lo k s.2 ∧ Roomy s.1 (hi - k))
      (fun k s _ hk hs => ?_)
      ⟨written_ownTables, roomy_boot (by omega)⟩
    obtain ⟨hw, hr⟩ := hs
    have hlt : k < userPages := by
      simp only [userPages]
      omega
    obtain ⟨f, m', hm, hr'⟩ := Roomy.kalloc (by rwa [show hi - (k + 1) + 1 = hi - k by omega])
    refine ⟨_, by rw [brkPage, hm], hw.vmmMap hlt, ?_⟩
    rw [(hw.toOwning.vmmMap hlt).1]
    exact hr'
  obtain ⟨t, ht, hdone, -⟩ := hloop
  refine ⟨{ u.over t.1 t.2 with brkCurrent := newBrk }, ?_, hdone.ne_kernel h₁ (by omega)⟩
  show ((u.over _ .ownTables).sysBrk newBrk).map Prod.fst = _
  have hzero : newBrk ≠ 0 := by
    rintro rfl
    simp only [brkEnd, u32Size, pageSize] at hhi
    omega
  have hlow' : ¬newBrk < (u.over (.boot 0 plainMap) .ownTables).brkStart := not_lt.mpr hlow
  have hgrow' : ¬userBrkMaxGrowth < newBrk - (u.over (.boot 0 plainMap) .ownTables).brkStart :=
    not_lt.mpr hgrow
  unfold UserMem.sysBrk
  rw [if_neg hzero, if_neg hlow', if_neg hgrow']
  dsimp only [UserMem.over]
  rw [hlo, hhi, ht]
  rfl

/-- **Which mapping calls keep off the kernel's frames**: over all states of the memory a call
changes the entries of safe pages only exactly if its arguments meet the condition. -/
theorem user_mappings_safe_iff (u : UserMem) (c : MapCall) :
    (∀ mm pd u', mapCall (u.over mm pd) c = some u' → ∀ v, u'.pd.pte v ≠ pd.pte v →
      userVaIsSafe (pageToAddr v) pageSize = true) ↔ u.SafeCall c := by
  constructor
  · intro h
    cases c with
    | mmap => trivial
    | shmAt shmid shmaddr rnd rdonly =>
      intro h₁ h₂ h₃ h₄ i hi
      by_contra hbad
      have hpage : addrToPage (shmRounded shmaddr rnd) + i < 0x80000 := by
        rw [safePage_iff] at hbad
        omega
      obtain ⟨u', hu', hne⟩ := shmAt_unsafe (.boot 0 plainMap) rdonly h₁ h₂ h₃ h₄
        (Nat.le_add_right _ i) (by omega) hpage
      exact hbad (h _ _ u' hu' _ hne)
    | brk newBrk =>
      intro h₁ h₂ h₃
      by_contra hbad
      obtain ⟨u', hu', hne⟩ := brk_unsafe h₁ h₂ (v := brkEnd newBrk - 1) (by omega) (by omega)
      have hsafe := safePage_iff.mp (h _ _ u' hu' _ hne)
      have hlow := u.brk_low
      simp only [brkEnd, userBrkMaxGrowth, pageToAddr, reservedEndMin, u32Size, pageSize] at *
      omega
  · intro hc mm pd u' hu' v hv
    have hc' : (u.over mm pd).SafeCall c := by cases c <;> exact hc
    exact mapCall_safe hc' hu' hv

/-- A process on a machine with 2 GiB of RAM, with one segment of one page (frame `0x21000`) and a
break just below the end of the reservation. -/
def lowProcess : UserMem where
  mm := .boot 0 plainMap
  pd := .template 0
  tbl := .fresh
  segs _ := ⟨1, fun _ => 0x21000, true, by decide⟩
  shmAttachments := List.replicate taskShmMax ⟨0, 0⟩
  brkStart := 0x1FFFF000
  brkCurrent := 0x1FFFF000
  brk_low := by decide +kernel
  next_high := le_rfl

/-- `shm_at` at `0x30000000` and `brk` to `0x20001000` both succeed and replace the kernel's entry of a
page that is not safe; the frame of the first is one that `kalloc` hands out. -/
theorem kernel_frames_shadowed :
    ((mapCall lowProcess (.shmAt 1 0x30000000 false false)).map fun u => u.pd.pte 0x30000) =
        some (.mapped 0x21000 true) ∧
      ((mapCall lowProcess (.brk 0x20001000)).map fun u => (u.pd.pte 0x20000).user) = some true ∧
      lowProcess.pd.pte 0x30000 = kernelPte 0x30000 ∧ lowProcess.pd.pte 0x20000 = kernelPte 0x20000 ∧
      lowProcess.mm.pmm.bitmap 0x30000 = false ∧ 0x30000 < lowProcess.mm.pmm.limit ∧
      userVaIsSafe (pageToAddr 0x30000) pageSize = false ∧
      userVaIsSafe (pageToAddr 0x20000) pageSize = false := by
  decide +kernel

end CactKernel
