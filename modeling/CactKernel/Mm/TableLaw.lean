/-
CactKernel/Mm/TableLaw.lean

The region tables over whole runs of `mmap`, `munmap` and
`mmap_table_clone`.

Each call changes a table in at most one of two ways: one used region
shrinks or goes, or a new region fills a slot.  `doMunmap_table` and
`doMmap_table` say so, and `TableInv` (module `MmapTable`) is kept by both,
provided the new region is placed apart from the others.  `find_free_va`
places it so; `MAP_FIXED` does not look at the table, and this is the one
condition a run needs (`FixedClear`).

Main results: `region_tables_sound` (every table reached satisfies the
representation invariant, and `mmap_find_region` answers exactly the one
region that holds the address) and `fixed_mappings_overlap`, a run of two
calls without the condition.
-/
import CactKernel.Mm.System

namespace CactKernel

open Runs

/-! ### What the calls do to the table -/

/-- One used region of the table shrinks or goes. -/
inductive Shrunk (t : MmapTable) : MmapTable → Prop
  | same : Shrunk t t
  | cut {i : Nat} {r q : MmapRegion} : t.Used i r →
      (RegionOk r → q.isUsed = true →
        RegionOk q ∧ r.base ≤ q.base ∧ q.base + q.length ≤ r.base + r.length) →
      Shrunk t (t.set i q)

variable {env : MmapEnv} {t t' : MmapTable} {s s' : Space} {va addr length offset hint : Nat}
  {fd : Int} {write b : Bool} {rs : List MmapRegion} {flags : MapFlags} {o : Option Nat}

theorem Shrunk.inv (h : Shrunk t t') (ht : TableInv t) : TableInv t' := by
  cases h with
  | same => exact ht
  | cut hr hq => exact ht.shrink hr fun hu => hq (ht.ok _ _ hr) hu

/-- Cutting whole pages out of a region leaves whole pages of it, or nothing. -/
theorem cutRegion_spec {r q : MmapRegion} (h : cutRegion r addr length = some q)
    (haddr : addr % pageSize = 0) (hlen : length % pageSize = 0)
    (hlow : r.base ≤ addr) (hhigh : addr + length ≤ r.base + r.length) (hr : RegionOk r)
    (hq : q.isUsed = true) :
    RegionOk q ∧ r.base ≤ q.base ∧ q.base + q.length ≤ r.base + r.length := by
  obtain ⟨h₁, h₂, h₃, h₄, h₅⟩ := hr
  unfold cutRegion at h
  split_ifs at h with hall hfront
  · obtain rfl := Option.some.inj h
    cases hq
  · obtain ⟨off, -, rfl⟩ := Option.map_eq_some_iff.mp h
    refine ⟨⟨?_, ?_, ?_, ?_, ?_⟩, ?_, ?_⟩ <;> simp only [pageSize] at * <;> omega
  · obtain rfl := Option.some.inj h
    refine ⟨⟨?_, ?_, ?_, ?_, ?_⟩, ?_, ?_⟩ <;> simp only [pageSize] at * <;> omega

/-- **`munmap` shrinks at most one region.** -/
theorem doMunmap_table (h : doMunmap s addr length = some (s', b)) : Shrunk s.tbl s'.tbl := by
  obtain ⟨rfl, -⟩ | ⟨len, i, r, u, hlen, haddr, hr, hlow, hhigh, -, ⟨rfl, -⟩ | ⟨q, hq, -, -, rfl⟩⟩ :=
    doMunmap_cases h
  · exact .same
  · exact .same
  · exact .cut hr fun hok hqu => cutRegion_spec hq haddr (pageUp_spec hlen).2.2.1 hlow hhigh hok hqu

/-- The clean-up of a failed file mapping is an `munmap`. -/
theorem mapFile_table (h : mapFile env s va length fd offset write = some (s', b)) :
    s'.tbl = s.tbl ∨ b = false ∧ Shrunk s.tbl s'.tbl := by
  obtain ⟨u, -, h⟩ := Option.bind_eq_some_iff.mp h
  split_ifs at h
  · obtain ⟨rfl, -⟩ := of_pair h
    exact Or.inl rfl
  · obtain ⟨⟨t, c⟩, ht, rfl, rfl⟩ := of_map_pair h
    exact Or.inr ⟨rfl, doMunmap_table (s := ⟨u.1.1, u.1.2, s.tbl⟩) ht⟩

/-- Building the backing of a mapping leaves the table alone, but for what the
clean-up of a failed file mapping unmaps. -/
theorem mapBacking_table (h : mapBacking env s va length write flags fd offset = some (s', o)) :
    s'.tbl = s.tbl ∨ o = none ∧ Shrunk s.tbl s'.tbl := by
  obtain ⟨r, -, rfl, -⟩ | ⟨rfl, -⟩ | ⟨obj, off, b, hr, -⟩ | ⟨b, hr, hb⟩ := mapBacking_cases h
  · exact Or.inl rfl
  · exact Or.inl rfl
  · obtain ⟨-, htbl, -⟩ | ⟨-, -, -, htbl, -⟩ := mapShared_cases hr <;> exact Or.inl htbl
  · rcases mapFile_table hr with heq | ⟨rfl, hs⟩
    · exact Or.inl heq
    · exact Or.inr ⟨not_not.mp fun ho => Bool.false_ne_true (hb ho), hs⟩

/-- Where a new region may go. -/
def Vacant (t : MmapTable) (va length : Nat) : Prop :=
  ∀ i r, t.Used i r → va + length ≤ r.base ∨ r.base + r.length ≤ va

/-- The range of a `MAP_FIXED` request is apart from every used region. -/
def FixedClear (t : MmapTable) (hint length : Nat) (flags : MapFlags) : Prop :=
  flags.fixed = true → hint ≠ 0 → Vacant t hint (alignUp pageSize length)

theorem pageUp_eq {x y : Nat} (h : pageUp x = some y) : y = alignUp pageSize x := by
  obtain ⟨z, hz, rfl⟩ := Option.map_eq_some_iff.mp h
  obtain ⟨-, rfl⟩ := checkedAdd_eq_some.mp hz
  simp only [alignUp, pageSize]
  omega

/-- The place `do_mmap` chooses is a valid range of whole pages, apart from the
used regions if a fixed request is. -/
theorem choosePlace_spec (ht : TableInv t) {fixed : Bool} (hlen : length < u32Size)
    (hfix : fixed = true → hint ≠ 0 → Vacant t hint length)
    (h : choosePlace t hint length fixed = some (some va)) :
    va % pageSize = 0 ∧ userSpaceStart ≤ va ∧ va + length ≤ userStackTop ∧ Vacant t va length := by
  obtain ⟨hf, hne, rfl, hmod, hlow, hhigh, -⟩ | ⟨hw, h0⟩ := choosePlace_cases h
  · refine ⟨hmod, hlow, ?_, hfix hf hne⟩
    simp only [satAdd, u32Size, userStackTop] at *
    omega
  · obtain ⟨h₁, h₂, h₃, h₄⟩ := findFreeVa_spec ht hlen hw h0
    refine ⟨h₁, h₂, ?_, h₄⟩
    simp only [mmapLimit, userStackTop] at *
    omega

/-- **`mmap` shrinks at most one region, or records one vacant range.** -/
theorem doMmap_inv (ht : TableInv s.tbl) (hfix : FixedClear s.tbl hint length flags)
    (h : doMmap env s hint length write flags fd offset = some (s', o)) : TableInv s'.tbl := by
  obtain ⟨rfl, -⟩ | ⟨len, va, i, s₁, o₁, hpos, hlen, hp, -, hb, hrec⟩ := doMmap_cases h
  · exact ht
  have htbl := mapBacking_table hb
  obtain ⟨rfl, rfl, -⟩ | ⟨obj, rfl, -, rfl⟩ := hrec
  · rcases htbl with heq | ⟨-, hs⟩
    · exact heq ▸ ht
    · exact hs.inv ht
  · have heq : s₁.tbl = s.tbl := htbl.resolve_right fun hc => by cases hc.1
    obtain ⟨hup, hsmall, hwhole, hlt⟩ := pageUp_spec hlen
    obtain ⟨hmod, hlow, hhigh, hvac⟩ := choosePlace_spec ht (by omega)
      (fun h₁ h₂ => pageUp_eq hlen ▸ hfix h₁ h₂) hp
    have hins : TableInv (s.tbl.set i (newRegion va len write flags fd offset obj)) :=
      ht.insert ⟨hmod, by show 0 < len; omega, hwhole, hlow, hhigh⟩ fun j q hq => hvac j q hq
    rw [heq]
    exact ⟨hins.ok, hins.apart, hins.next_low.trans (le_max_left _ _)⟩

/-- The child's table is as good as the parent's. -/
theorem cloneTable_inv {src dst : MmapTable} (h : TableInv src) : TableInv (cloneTable src dst) :=
  ⟨fun i r hr => h.ok i r (cloneTable_used.mp hr),
    fun i j r r' hij hr hr' =>
      h.apart i j r r' hij (cloneTable_used.mp hr) (cloneTable_used.mp hr'),
    h.next_low⟩

/-! ### `mmap_find_region` -/

/-- What the scan answers holds the address. -/
theorem findRegionFrom_some {k i : Nat} (h : findRegionFrom addr rs k = some (some i)) :
    k ≤ i ∧ ∃ r, rs[i - k]? = some r ∧ r.isUsed = true ∧ r.Holds addr := by
  induction rs generalizing k with
  | nil => cases Option.some.inj h
  | cons q rs ih =>
    have hrest : findRegionFrom addr rs (k + 1) = some (some i) →
        k ≤ i ∧ ∃ r, (q :: rs)[i - k]? = some r ∧ r.isUsed = true ∧ r.Holds addr := by
      intro h
      obtain ⟨hk, r, hr, hh⟩ := ih h
      refine ⟨by omega, r, ?_, hh⟩
      rwa [show i - k = i - (k + 1) + 1 by omega]
    unfold findRegionFrom at h
    split_ifs at h with hc
    · obtain ⟨last, hl, h⟩ := Option.bind_eq_some_iff.mp h
      obtain ⟨-, rfl⟩ := checkedAdd_eq_some.mp hl
      split_ifs at h with hlt
      · obtain rfl := Option.some.inj (Option.some.inj h)
        exact ⟨le_rfl, q, by simp, hc.1, hc.2, hlt⟩
      · exact hrest h
    · exact hrest h

/-- If some region holds the address, the scan answers one. -/
theorem findRegionFrom_isSome {k : Nat} (hok : ∀ r ∈ rs, r.isUsed = true → RegionOk r)
    {r : MmapRegion} (hr : r ∈ rs) (hu : r.isUsed = true)
    (hh : r.Holds addr) : ∃ i, findRegionFrom addr rs k = some (some i) := by
  induction rs generalizing k with
  | nil => cases hr
  | cons q rs ih =>
    have hrest : r ≠ q → ∃ i, findRegionFrom addr rs (k + 1) = some (some i) := fun hne =>
      ih (fun x hx => hok x (List.mem_cons_of_mem q hx)) ((List.mem_cons.mp hr).resolve_left hne)
    unfold findRegionFrom
    split_ifs with hc
    · -- the end of a region of user space does not overflow
      have hlast : checkedAdd q.base q.length = some (q.base + q.length) := by
        have hend := (hok q List.mem_cons_self hc.1).high
        refine checkedAdd_eq_some.mpr ⟨?_, rfl⟩
        simp only [userStackTop, u32Size] at *
        omega
      rw [hlast, Option.bind_some]
      split_ifs with hlt
      · exact ⟨k, rfl⟩
      · exact hrest (by rintro rfl; exact hlt hh.2)
    · exact hrest (by rintro rfl; exact hc ⟨hu, hh.1⟩)

/-- **`mmap_find_region` answers the one region that holds the address.** -/
theorem mmapFindRegion_iff (ht : TableInv t) {i : Nat} :
    mmapFindRegion t addr = some (some i) ↔ ∃ r, t.Used i r ∧ r.Holds addr := by
  have hsound : ∀ j, mmapFindRegion t addr = some (some j) → ∃ r, t.Used j r ∧ r.Holds addr := by
    intro j h
    obtain ⟨-, r, hr, hu, hh⟩ := findRegionFrom_some h
    exact ⟨r, ⟨hr, hu⟩, hh⟩
  refine ⟨hsound i, fun ⟨r, hr, hh⟩ => ?_⟩
  have hok : ∀ q ∈ t.regions, q.isUsed = true → RegionOk q := by
    intro q hq hu
    obtain ⟨j, hj⟩ := List.mem_iff_getElem?.mp hq
    exact ht.ok j q ⟨hj, hu⟩
  obtain ⟨j, hj⟩ := findRegionFrom_isSome hok (List.mem_of_getElem? hr.1) hr.2 hh
  obtain ⟨r', hr', hh'⟩ := hsound j hj
  rw [ht.holds_unique hr hr' hh hh']
  exact hj

/-! ### Runs -/

/-- The calls that work on region tables. -/
inductive TableCall where
  | mmap (p : Nat) (env : MmapEnv) (hint length : Nat) (write : Bool) (flags : MapFlags) (fd : Int)
      (offset : Nat)
  | munmap (p addr length : Nat)
  | clone (p c : Nat)

/-- `mmap_table_clone` from process `p` to process `c`. -/
def System.cloneTo (s : System) (p c : Nat) : Option System :=
  s.procs[p]?.bind fun q => s.procs[c]?.bind fun d =>
    (mmapTableClone ⟨s.mm, q.pd, d.pd⟩ q.tbl d.tbl).map fun r =>
      ⟨r.1.mm, (s.procs.set p { q with pd := r.1.src }).set c { d with pd := r.1.dst, tbl := r.2 }⟩

def tableStep (s : System) : TableCall → Option System
  | .mmap p env hint length write flags fd offset =>
    s.onSpace p fun sp => (doMmap env sp hint length write flags fd offset).map Prod.fst
  | .munmap p addr length => s.onSpace p fun sp => (doMunmap sp addr length).map Prod.fst
  | .clone p c => s.cloneTo p c

/-- A fixed mapping goes where its process has none. -/
def TableCall.Clear (s : System) : TableCall → Prop
  | .mmap p _ hint length _ flags _ _ => ∀ q : Proc, s.procs[p]? = some q → FixedClear q.tbl hint length flags
  | _ => True

instance decidableVacant (t : MmapTable) (va length : Nat) : Decidable (Vacant t va length) :=
  decidable_of_iff (∀ r ∈ t.regions, r.isUsed = true → va + length ≤ r.base ∨ r.base + r.length ≤ va) <| by
    constructor
    · intro h i r hr
      exact h r (List.mem_of_getElem? hr.1) hr.2
    · intro h r hr hu
      obtain ⟨i, hi⟩ := List.mem_iff_getElem?.mp hr
      exact h i r ⟨hi, hu⟩

instance (s : System) : ∀ c : TableCall, Decidable (c.Clear s)
  | .mmap p _ hint length _ flags _ _ =>
    inferInstanceAs (Decidable (∀ q ∈ s.procs[p]?, flags.fixed = true → hint ≠ 0 →
      Vacant q.tbl hint (alignUp pageSize length)))
  | .munmap .. => .isTrue trivial
  | .clone .. => .isTrue trivial

/-- Every table of the system satisfies the invariant. -/
def TablesInv (s : System) : Prop := ∀ (p : Nat) (q : Proc), s.procs[p]? = some q → TableInv q.tbl

theorem TablesInv.onSpace {s s' : System} {p : Nat} {op : Space → Option Space} (hs : TablesInv s)
    (hop : ∀ q r, s.procs[p]? = some q → op ⟨s.mm, q.pd, q.tbl⟩ = some r → TableInv r.tbl)
    (h : s.onSpace p op = some s') : TablesInv s' := by
  obtain ⟨q, r, hq, hr, rfl⟩ := System.onSpace_spec h
  intro i x hx
  rcases System.getElem?_set hx with ⟨-, rfl⟩ | ⟨-, hx⟩
  · exact hop q r hq hr
  · exact hs i x hx

/-- One call keeps every table sound. -/
theorem tableStep_inv {s s' : System} {c : TableCall} (hs : TablesInv s) (hc : c.Clear s)
    (h : tableStep s c = some s') : TablesInv s' := by
  cases c with
  | mmap p env hint length write flags fd offset =>
    unfold tableStep at h
    refine hs.onSpace (fun q r hq hr => ?_) h
    obtain ⟨⟨r, o⟩, hcall, rfl⟩ := Option.map_eq_some_iff.mp hr
    exact doMmap_inv (hs p q hq) (hc q hq) hcall
  | munmap p addr length =>
    unfold tableStep at h
    refine hs.onSpace (fun q r hq hr => ?_) h
    obtain ⟨⟨r, b⟩, hcall, rfl⟩ := Option.map_eq_some_iff.mp hr
    exact (doMunmap_table hcall).inv (hs p q hq)
  | clone p c =>
    obtain ⟨q, hq, h⟩ := Option.bind_eq_some_iff.mp h
    obtain ⟨d, hd, h⟩ := Option.bind_eq_some_iff.mp h
    obtain ⟨⟨r, t⟩, hr, rfl⟩ := Option.map_eq_some_iff.mp h
    obtain ⟨-, rfl⟩ := mmapTableClone_steps hr
    intro i x hx
    rcases System.getElem?_set hx with ⟨-, rfl⟩ | ⟨-, hx⟩
    · exact cloneTable_inv (hs p q hq)
    · rcases System.getElem?_set hx with ⟨-, rfl⟩ | ⟨-, hx⟩
      · exact hs p q hq
      · exact hs i x hx

/-- **The representation invariant of the region tables.**  Start with freshly
initialised tables; in every run whose fixed mappings go where their process
has none, each table is a set of disjoint page ranges in user space, and
`mmap_find_region` answers exactly the region that holds the address. -/
theorem region_tables_sound {s s' : System} {calls : List TableCall}
    (hinit : ∀ (p : Nat) (q : Proc), s.procs[p]? = some q → ∃ t, q.tbl = mmapTableInit t)
    (hclear : MeetsAll tableStep (fun s c => c.Clear s) s calls)
    (hrun : run tableStep s calls = some s') {p : Nat} {q : Proc} (hq : s'.procs[p]? = some q) :
    (∀ i r, q.tbl.Used i r → RegionOk r) ∧
    (∀ i j r r', i ≠ j → q.tbl.Used i r → q.tbl.Used j r' → Apart r r') ∧
    ∀ addr i, mmapFindRegion q.tbl addr = some (some i) ↔ ∃ r, q.tbl.Used i r ∧ r.Holds addr := by
  have hs : TablesInv s := by
    intro i x hx
    obtain ⟨t, ht⟩ := hinit i x hx
    exact ht ▸ mmapTableInit_inv t
  have hinv : TablesInv s' :=
    run_invariant tableStep_inv hs hclear hrun
  exact ⟨(hinv p q hq).ok, (hinv p q hq).apart, fun addr i => mmapFindRegion_iff (hinv p q hq)⟩

/-- No object behind any descriptor, no file contents, no heap. -/
def MmapEnv.none : MmapEnv := ⟨fun _ _ _ => .none, fun _ _ => zeroPage, false⟩

/-- `mmap(hint, length, PROT_READ | PROT_WRITE, MAP_PRIVATE | MAP_ANON | MAP_FIXED)` of the first process. -/
def fixedAt (hint length : Nat) : TableCall := .mmap 0 .none hint length true ⟨false, true, true, true⟩ (-1) 0

/-- The first process and a second one, with fresh tables. -/
def System.twoFresh : Option System :=
  (vmmCreateAddressSpace (System.booted 0 plainMap).mm).map fun r =>
    ⟨r.1, (System.booted 0 plainMap).procs ++ [⟨r.2, .fresh, fun _ => false⟩]⟩

theorem twoFresh_init {s : System} (h : System.twoFresh = some s) {p : Nat} {q : Proc}
    (hq : s.procs[p]? = some q) : q.tbl = .fresh := by
  obtain ⟨r, -, rfl⟩ := Option.map_eq_some_iff.mp h
  rcases List.mem_append.mp (List.mem_of_getElem? hq) with hq | hq
  · obtain ⟨i, hi⟩ := List.mem_iff_getElem?.mp hq
    exact (System.ofFirst_proc hi).1
  · obtain rfl := List.mem_singleton.mp hq
    rfl

/-- Two fixed mappings, the first of which loses a page, and a clone of the table. -/
theorem region_tables_sound_fixed :
    ∃ start s q, System.twoFresh = some start ∧
      run tableStep start [fixedAt 0x90000000 8192, fixedAt 0x94000000 4096, .munmap 0 0x90000000 4096, .clone 0 1] =
        some s ∧ s.procs[1]? = some q ∧
      ((q.tbl.regions.filter (·.isUsed)).map fun r => (r.base, r.length)) = [(0x90001000, 4096), (0x94000000, 4096)] ∧
      (∀ i r, q.tbl.Used i r → RegionOk r) ∧
      (∀ i j r r', i ≠ j → q.tbl.Used i r → q.tbl.Used j r' → Apart r r') ∧
      ∀ addr i, mmapFindRegion q.tbl addr = some (some i) ↔
        ∃ r, q.tbl.Used i r ∧ r.Holds addr := by
  have h : (System.twoFresh.bind fun start => (run tableStep start [fixedAt 0x90000000 8192, fixedAt 0x94000000 4096,
      .munmap 0 0x90000000 4096, .clone 0 1]).bind fun s => s.procs[1]?.map fun q =>
        ((q.tbl.regions.filter (·.isUsed)).map fun r => (r.base, r.length),
          decide (MeetsAll tableStep (fun s c => c.Clear s) start [fixedAt 0x90000000 8192,
            fixedAt 0x94000000 4096, .munmap 0 0x90000000 4096, .clone 0 1]))) =
      some ([(0x90001000, 4096), (0x94000000, 4096)], true) := by
    decide +kernel
  obtain ⟨start, hstart, h⟩ := Option.bind_eq_some_iff.mp h
  obtain ⟨s, hs, h⟩ := Option.bind_eq_some_iff.mp h
  obtain ⟨q, hq, hused, hclear⟩ := of_map_pair h
  exact ⟨start, s, q, hstart, hs, hq, hused,
    region_tables_sound (fun p q hq => ⟨_, twoFresh_init hstart hq⟩) (of_decide_eq_true hclear) hs hq⟩

/-- **Two fixed mappings of one range overlap**: the second call succeeds, and
two used regions hold the same page. -/
theorem fixed_mappings_overlap :
    ∃ s q r r', run tableStep (.booted 0 plainMap) [fixedAt 0x90000000 4096, fixedAt 0x90000000 4096] = some s ∧
      s.procs[0]? = some q ∧ q.tbl.Used 0 r ∧ q.tbl.Used 1 r' ∧
      r.Holds 0x90000000 ∧ r'.Holds 0x90000000 ∧ ¬Apart r r' := by
  let r := newRegion 0x90000000 4096 true ⟨false, true, true, true⟩ (-1) 0 0
  have h : ((run tableStep (.booted 0 plainMap) [fixedAt 0x90000000 4096, fixedAt 0x90000000 4096]).bind fun s =>
      s.procs[0]?).map (fun q => (q.tbl.regions[0]?, q.tbl.regions[1]?)) = some (some r, some r) := by
    decide +kernel
  obtain ⟨q, hq, hr⟩ := Option.map_eq_some_iff.mp h
  obtain ⟨s, hs, hq⟩ := Option.bind_eq_some_iff.mp hq
  obtain ⟨h₀, h₁⟩ := Prod.mk.inj hr
  refine ⟨s, q, r, r, hs, hq, ⟨h₀, rfl⟩, ⟨h₁, rfl⟩, ?_, ?_, ?_⟩
  all_goals simp [r, newRegion, MmapRegion.Holds, Apart]

end CactKernel
