/-
CactKernel/Mm/Mmap.lean

`mmap`, `munmap` and `mprotect` (`vmm/mmap.rs`), with `vmm_map_zero` of
`fault/page_fault_map.rs` and `mmap_table_free` of `vmm/mmap_clone.rs`.

A `Space` is what these calls work on: the shared state of the memory
manager, one page directory and its region table.  Each call returns
`none` where an overflow check panics, and otherwise the new state with the
call's answer.  A loop over pages is a `Loops.loop`; its body is a function
of its own, named after what it does to one page, so that a proof about the
call is a proof about that body.

What `do_mmap` asks of other subsystems (the object behind a descriptor, the
bytes of a file, a larger array on the kernel heap) is the argument `env`.
The branch for a private mapping of a shared object is not modelled: its
guard needs an object that only a shared mapping looks up.
-/
import CactKernel.Lib.Loop
import CactKernel.Mm.Memfd
import CactKernel.Mm.MmapTable

namespace CactKernel

open Loops Runs

/-- The memory of one process, as the mmap calls see it. -/
structure Space where
  mm : Mm
  pd : PageDir
  tbl : MmapTable

/-- What other subsystems answer to `do_mmap`. -/
structure MmapEnv where
  /-- `vfs_mmap_resolve`: the object behind a descriptor and the offset in it. -/
  resolve : Int → Nat → Nat → Option (Nat × Nat)
  /-- `read_vfs` of one page of a file, onto a zeroed frame. -/
  readVfs : Int → Nat → Page
  /-- Can `kmalloc` provide a larger page array? -/
  heapOk : Bool

/-! ### Demand-zero mappings -/

/-- `PAGE_DEMAND | PAGE_ZERO | PAGE_USER`. -/
def Pte.demandZero : Pte := ⟨0, false, false, true, false, false, false, true, true⟩

/-- One page of `vmm_map_zero`. -/
def mapZeroPage (s : Mm × PageDir) (v : Nat) : Flow (Mm × PageDir) :=
  match ensurePrivatePt s.1 s.2 (pdIndex v) true with
  | none => .stop s
  | some (m, pd) => .next (m, pd.setPte v .demandZero)

/-- Install demand-zero entries for `[va, va + size)`; the flag is the success
of the call. -/
def vmmMapZero (m : Mm) (pd : PageDir) (va size : Nat) : (Mm × PageDir) × Bool :=
  let first := va / pageSize
  let last := satAdd (satAdd va size) (pageSize - 1) / pageSize
  if size = 0 ∨ userStackTop ≤ first * pageSize ∨ userStackTop < last * pageSize then ((m, pd), false)
  else
    let r := loop mapZeroPage (last - first) first (m, pd)
    (r.state.getD (m, pd), r.finished)

/-! ### `munmap` -/

/-- One page of `do_munmap`. -/
def unmapPage (s : Mm × PageDir) (v : Nat) : Flow (Mm × PageDir) :=
  if totalPages ≤ v then .panic
  else
    match ensurePdePrivate s.1 s.2 (pdIndex v) with
    | .error .oom => .stop s
    | .error _ => .next s
    | .ok (m, pd) => .next (freeEntry pd m v, pd.setPte v .empty)

/-- The region `do_munmap` works on, from slot `i` on. -/
def munmapRegionFrom (addr length : Nat) :
    List MmapRegion → Nat → Option (Option (Nat × MmapRegion))
  | [], _ => some none
  | r :: rs, i =>
    if r.isUsed = false then munmapRegionFrom addr length rs (i + 1)
    else if r.base = addr ∧ r.length = length then some (some (i, r))
    else if r.base ≤ addr then
      (checkedAdd addr length).bind fun last => (checkedAdd r.base r.length).bind fun rlast =>
        if last ≤ rlast then some (some (i, r)) else munmapRegionFrom addr length rs (i + 1)
    else munmapRegionFrom addr length rs (i + 1)

/-- The offset `do_munmap` flushes a shared file mapping from; only its
overflow check is visible here. -/
def flushOffset (r : MmapRegion) (addr : Nat) : Option Nat :=
  if 0 ≤ r.fd ∧ 0 < r.shobj ∧ addr ≠ r.base then checkedAdd r.fileOff (addr - r.base)
  else some r.fileOff

/-- What is left of the region `r` when `[addr, addr + length)` goes. -/
def cutRegion (r : MmapRegion) (addr length : Nat) : Option MmapRegion :=
  if addr = r.base ∧ r.length ≤ length then some { r with isUsed := false, fd := -1, shobj := 0 }
  else if addr = r.base then
    (checkedAdd r.fileOff length).map fun off =>
      { r with base := r.base + length, length := r.length - length, fileOff := off }
  else some { r with length := addr - r.base }

/-- The mapping count of the object behind a region that goes as a whole. -/
def dropShobj (m : Mm) (r : MmapRegion) (addr length : Nat) : Mm :=
  if addr = r.base ∧ r.length ≤ length ∧ 0 < r.shobj then memfdMapDec m r.shobj else m

/-- `do_munmap` once the region is known. -/
def munmapFound (s : Space) (addr length i : Nat) (r : MmapRegion) : Option (Space × Bool) :=
  let run := loop unmapPage (length / pageSize) (addr / pageSize) (s.mm, s.pd)
  run.state.bind fun u =>
    if run.finished then
      (flushOffset r addr).bind fun _ => (cutRegion r addr length).map fun r' =>
        (⟨dropShobj u.1 r addr length, u.2, s.tbl.set i r'⟩, true)
    else some (⟨u.1, u.2, s.tbl⟩, false)

/-- `do_munmap`; the flag is the success of the call. -/
def doMunmap (s : Space) (addr length : Nat) : Option (Space × Bool) :=
  if length = 0 ∨ addr % pageSize ≠ 0 then some (s, false)
  else
    (pageUp length).bind fun len => (munmapRegionFrom addr len s.tbl.regions 0).bind fun found =>
      match found with
      | none => some (s, false)
      | some (i, r) => munmapFound s addr len i r

/-- Unmap the region of one slot, as `mmap_table_free` does. -/
def freeRegion (s : Option Space) (i : Nat) : Option Space :=
  s.bind fun s =>
    match s.tbl.regions[i]? with
    | none => some s
    | some r => if r.isUsed then (doMunmap s r.base r.length).map Prod.fst else some s

/-- `mmap_table_free`. -/
def mmapTableFree (s : Space) : Option Space := (List.range mmapMaxRegions).foldl freeRegion (some s)

/-! ### `mprotect` -/

/-- One page of `do_mprotect`: the flags are rewritten from the protection. -/
def protectPage (write : Bool) (s : Mm × PageDir) (v : Nat) : Flow (Mm × PageDir) :=
  if totalPages ≤ v then .panic
  else
    match ensurePdePrivate s.1 s.2 (pdIndex v) with
    | .error .oom => .stop s
    | .error _ => .next s
    | .ok (m, pd) =>
      if (pd.pte v).present then .next (m, pd.setPte v (.mapped (pd.pte v).frame write))
      else .next (m, pd)

/-- Record the protection of the region in slot `i`. -/
def setProt (t : MmapTable) (i : Nat) (write : Bool) : MmapTable :=
  match t.regions[i]? with
  | none => t
  | some r => t.set i { r with write := write }

/-- `do_mprotect` once the region (`none`: the break) is known. -/
def mprotectFound (s : Space) (addr length : Nat) (write inBrk : Bool) (region : Option Nat) :
    Option (Space × Bool) :=
  let run := loop (protectPage write) (length / pageSize) (addr / pageSize) (s.mm, s.pd)
  run.state.map fun u =>
    if run.finished then
      (⟨u.1, u.2, if inBrk then s.tbl else (region.map fun i => setProt s.tbl i write).getD s.tbl⟩,
        true)
    else (⟨u.1, u.2, s.tbl⟩, false)

/-- `do_mprotect`; the flag is the success of the call. -/
def doMprotect (s : Space) (addr length : Nat) (write : Bool) (brkStart brkEnd : Nat) :
    Option (Space × Bool) :=
  if length = 0 ∨ addr % pageSize ≠ 0 then some (s, false)
  else
    (pageUp length).bind fun len => (mmapFindRegion s.tbl addr).bind fun region =>
      let inBrk := decide (brkStart ≤ addr) && decide (addr < brkEnd)
      if region = none ∧ inBrk = false then some (s, false)
      else mprotectFound s addr len write inBrk region

/-! ### `mmap` -/

/-- Where the mapping goes: the fixed address, if it may be used, or free space. -/
def choosePlace (t : MmapTable) (hint length : Nat) (fixed : Bool) : Option (Option Nat) :=
  if fixed = true ∧ hint ≠ 0 then
    if hint % pageSize ≠ 0 then some none
    else if hint < userSpaceStart ∨ userStackTop ≤ hint ∨ userStackTop < satAdd hint length ∨
        userVaIsSafe hint length = false then some none
    else some (some hint)
  else (findFreeVa t length).map fun va => if va = 0 then none else some va

/-- The frame behind `v`, if the page is present (`pte_phys`). -/
def ptePhys (pd : PageDir) (v : Nat) : Option Nat :=
  if (pd.pde (pdIndex v)).isPresent ∧ (pd.pte v).present then some (pd.pte v).frame else none

/-- `clear_user_pte`. -/
def clearUserPte (s : Mm × PageDir) (v : Nat) : Mm × PageDir :=
  if (s.2.pde (pdIndex v)).isPresent then (freeEntry s.2 s.1 v, s.2.setPte v .empty) else s

/-- One page of a shared mapping of the object `h`; the counter is the number
of pages installed. -/
def installShared (h firstPage va : Nat) (write : Bool) (s : (Mm × PageDir) × Nat) (k : Nat) :
    Flow ((Mm × PageDir) × Nat) :=
  match memfdGetPage s.1.1 h (firstPage + k) with
  | none => .stop s
  | some f =>
    let r := vmmMap s.1.1 s.1.2 (va + k * pageSize) (pageToAddr f) write
    if ptePhys r.2 (addrToPage (va + k * pageSize)) = some f then
      .next ((r.1.pageRefInc f, r.2), s.2 + 1)
    else .stop (r, s.2)

/-- Shared backing: map the frames of the object itself. -/
def mapShared (env : MmapEnv) (s : Space) (va length h off offset : Nat) (write : Bool) :
    Option (Space × Bool) :=
  if offset % pageSize ≠ 0 ∨ off % pageSize ≠ 0 then some (s, false)
  else
    let inc := memfdMapInc s.mm h
    if inc.2 = false then some (s, false)
    else
      (checkedAdd off length).bind fun last =>
        let grown := memfdGrowTo inc.1 h last env.heapOk
        if grown.2 = false then some ({ s with mm := memfdMapDec grown.1 h }, false)
        else
          let run := loop (installShared h (off / pageSize) va write) (length / pageSize) 0
            ((grown.1, s.pd), 0)
          run.state.map fun u =>
            if run.finished then ({ s with mm := u.1.1, pd := u.1.2 }, true)
            else
              let back := (List.range' (addrToPage va) u.2).foldl clearUserPte u.1
              ({ s with mm := memfdMapDec back.1 h, pd := back.2 }, false)

/-- One page of a private file mapping. -/
def installFile (env : MmapEnv) (fd : Int) (offset va : Nat) (write : Bool)
    (s : (Mm × PageDir) × Nat) (k : Nat) : Flow ((Mm × PageDir) × Nat) :=
  match s.1.1.kalloc with
  | none => .stop s
  | some (f, m) =>
    let r := vmmMap (m.setPage f (env.readVfs fd (offset + k * pageSize))) s.1.2
      (va + k * pageSize) (pageToAddr f) write
    -- `file_off += PAGE_SIZE` is checked
    if u32Size ≤ offset + (k + 1) * pageSize then .panic else .next (r, s.2 + 1)

/-- Fill the mapping from a file; without a frame the pages so far are unmapped. -/
def mapFile (env : MmapEnv) (s : Space) (va length : Nat) (fd : Int) (offset : Nat) (write : Bool) :
    Option (Space × Bool) :=
  let run := loop (installFile env fd offset va write) (length / pageSize) 0 ((s.mm, s.pd), 0)
  run.state.bind fun u =>
    if run.finished then some (⟨u.1.1, u.1.2, s.tbl⟩, true)
    else (doMunmap ⟨u.1.1, u.1.2, s.tbl⟩ va (u.2 * pageSize)).map fun r => (r.1, false)

/-- The three kinds of backing; the number is the object of a shared mapping. -/
def mapBacking (env : MmapEnv) (s : Space) (va length : Nat) (write : Bool) (flags : MapFlags)
    (fd : Int) (offset : Nat) : Option (Space × Option Nat) :=
  if flags.anon then
    let r := vmmMapZero s.mm s.pd va length
    some (⟨r.1.1, r.1.2, s.tbl⟩, if r.2 then some 0 else none)
  else if fd < 0 then some (s, none)
  else
    match (if flags.shared then env.resolve fd offset length else none) with
    | some (h, off) =>
      (mapShared env s va length h off offset write).map fun r =>
        (r.1, if r.2 then some h else none)
    | none =>
      (mapFile env s va length fd offset write).map fun r => (r.1, if r.2 then some 0 else none)

/-- Fill the slot and move the bump pointer. -/
def recordRegion (t : MmapTable) (i : Nat) (r : MmapRegion) : MmapTable :=
  { t.set i r with nextBase := max t.nextBase (r.base + r.length) }

/-- The region `do_mmap` records. -/
def newRegion (va length : Nat) (write : Bool) (flags : MapFlags) (fd : Int) (offset h : Nat) :
    MmapRegion where
  base := va
  length := length
  flags := flags
  write := write
  fd := if flags.anon then -1 else fd
  fileOff := offset
  isUsed := true
  shobj := h

/-- `do_mmap`; the answer is the address, `none` for `MAP_FAILED`. -/
def doMmap (env : MmapEnv) (s : Space) (hint length : Nat) (write : Bool) (flags : MapFlags)
    (fd : Int) (offset : Nat) : Option (Space × Option Nat) :=
  if length = 0 ∨ (flags.shared = false ∧ flags.priv = false) then some (s, none)
  else
    (pageUp length).bind fun len => (choosePlace s.tbl hint len flags.fixed).bind fun place =>
      match place, allocRegionSlot s.tbl with
      | none, _ => some (s, none)
      | some _, none => some (s, none)
      | some va, some i =>
        (mapBacking env s va len write flags fd offset).map fun r =>
          match r.2 with
          | none => (r.1, none)
          | some h =>
            (⟨r.1.mm, r.1.pd, recordRegion r.1.tbl i (newRegion va len write flags fd offset h)⟩,
              some va)

/-! ### What the calls can do -/

section Cases

variable {env : MmapEnv} {s s' : Space} {t : MmapTable} {addr hint length va offset : Nat} {write b : Bool}
  {flags : MapFlags} {fd : Int} {o : Option Nat}

theorem munmapRegionFrom_spec {k i : Nat} {rs : List MmapRegion} {r : MmapRegion}
    (h : munmapRegionFrom addr length rs k = some (some (i, r))) :
    k ≤ i ∧ rs[i - k]? = some r ∧ r.isUsed = true ∧ r.base ≤ addr ∧ addr + length ≤ r.base + r.length := by
  induction rs generalizing k with
  | nil => cases h
  | cons q rs ih =>
    have hrest : munmapRegionFrom addr length rs (k + 1) = some (some (i, r)) →
        k ≤ i ∧ (q :: rs)[i - k]? = some r ∧ r.isUsed = true ∧
        r.base ≤ addr ∧ addr + length ≤ r.base + r.length := by
      intro h
      obtain ⟨h₁, h₂, h₃⟩ := ih h
      refine ⟨by omega, ?_, h₃⟩
      rwa [show i - k = i - (k + 1) + 1 by omega]
    unfold munmapRegionFrom at h
    split_ifs at h with hu hexact hbase
    · exact hrest h
    · obtain ⟨rfl, rfl⟩ := Prod.mk.inj (Option.some.inj (Option.some.inj h))
      refine ⟨le_rfl, by simp, by simpa using hu, by omega, by omega⟩
    · obtain ⟨last, hl, h⟩ := Option.bind_eq_some_iff.mp h
      obtain ⟨rlast, hrl, h⟩ := Option.bind_eq_some_iff.mp h
      obtain ⟨-, rfl⟩ := checkedAdd_eq_some.mp hl
      obtain ⟨-, rfl⟩ := checkedAdd_eq_some.mp hrl
      split_ifs at h with hle
      · obtain ⟨rfl, rfl⟩ := Prod.mk.inj (Option.some.inj (Option.some.inj h))
        exact ⟨le_rfl, by simp, by simpa using hu, hbase, hle⟩
      · exact hrest h
    · exact hrest h

/-- **What `do_munmap` does**: nothing, or it clears pages of one used region and, if it gets to the last,
cuts the region. -/
theorem doMunmap_cases (h : doMunmap s addr length = some (s', b)) :
    s' = s ∧ b = false ∨
    ∃ len i r u, pageUp length = some len ∧ addr % pageSize = 0 ∧ s.tbl.Used i r ∧ r.base ≤ addr ∧
      addr + len ≤ r.base + r.length ∧
      (loop unmapPage (len / pageSize) (addr / pageSize) (s.mm, s.pd)).state = some u ∧
      (s' = ⟨u.1, u.2, s.tbl⟩ ∧ b = false ∨
        ∃ q, cutRegion r addr len = some q ∧ b = true ∧
          (loop unmapPage (len / pageSize) (addr / pageSize) (s.mm, s.pd)).finished = true ∧
          s' = ⟨dropShobj u.1 r addr len, u.2, s.tbl.set i q⟩) := by
  unfold doMunmap at h
  split_ifs at h with hbad
  · exact Or.inl (same_of_pair h)
  obtain ⟨len, hlen, h⟩ := Option.bind_eq_some_iff.mp h
  obtain ⟨found, hf, h⟩ := Option.bind_eq_some_iff.mp h
  rcases found with - | ⟨i, r⟩
  · exact Or.inl (same_of_pair h)
  obtain ⟨-, hi, hu, hlow, hhigh⟩ := munmapRegionFrom_spec hf
  obtain ⟨u, hrun, h⟩ := Option.bind_eq_some_iff.mp h
  refine Or.inr ⟨len, i, r, u, hlen, by omega, ⟨hi, hu⟩, hlow, hhigh, hrun, ?_⟩
  split_ifs at h with hfin
  · obtain ⟨-, -, h⟩ := Option.bind_eq_some_iff.mp h
    obtain ⟨q, hq, rfl, rfl⟩ := of_map_pair h
    exact Or.inr ⟨q, hq, rfl, hfin, rfl⟩
  · exact Or.inl (same_of_pair h)

/-- **What `do_mprotect` does**: nothing, or it works on the pages and, if it gets to the last, records the
protection of a region. -/
theorem doMprotect_cases {brkStart brkEnd : Nat}
    (h : doMprotect s addr length write brkStart brkEnd = some (s', b)) :
    s' = s ∧ b = false ∨
    ∃ len u, pageUp length = some len ∧ addr % pageSize = 0 ∧
      (loop (protectPage write) (len / pageSize) (addr / pageSize) (s.mm, s.pd)).state = some u ∧
      (b = true → (loop (protectPage write) (len / pageSize) (addr / pageSize) (s.mm, s.pd)).finished = true) ∧
      s'.mm = u.1 ∧ s'.pd = u.2 ∧ (s'.tbl = s.tbl ∨ ∃ i, s'.tbl = setProt s.tbl i write) := by
  unfold doMprotect at h
  split_ifs at h with hbad
  · exact Or.inl (same_of_pair h)
  obtain ⟨len, hlen, h⟩ := Option.bind_eq_some_iff.mp h
  obtain ⟨region, -, h⟩ := Option.bind_eq_some_iff.mp h
  dsimp only at h
  split_ifs at h
  · exact Or.inl (same_of_pair h)
  obtain ⟨u, hu, h⟩ := Option.map_eq_some_iff.mp h
  refine Or.inr ⟨len, u, hlen, by omega, hu, ?_⟩
  split_ifs at h with hfin hbrk <;> obtain ⟨rfl, rfl⟩ := Prod.mk.inj h
  · exact ⟨fun _ => hfin, rfl, rfl, Or.inl rfl⟩
  · refine ⟨fun _ => hfin, rfl, rfl, ?_⟩
    rcases region with - | i
    · exact Or.inl rfl
    · exact Or.inr ⟨i, rfl⟩
  · exact ⟨nofun, rfl, rfl, Or.inl rfl⟩

/-- **Where `do_mmap` maps**: at a fixed address that passes its checks, or in free space. -/
theorem choosePlace_cases {fixed : Bool} (h : choosePlace t hint length fixed = some (some va)) :
    fixed = true ∧ hint ≠ 0 ∧ va = hint ∧ hint % pageSize = 0 ∧ userSpaceStart ≤ hint ∧
      satAdd hint length ≤ userStackTop ∧ userVaIsSafe hint length = true ∨
    findFreeVa t length = some va ∧ va ≠ 0 := by
  unfold choosePlace at h
  split_ifs at h with hf halign hrange
  · cases Option.some.inj h
  · cases Option.some.inj h
  · obtain rfl := Option.some.inj (Option.some.inj h)
    rw [not_or, not_or, not_or, not_lt, not_lt, Bool.not_eq_false] at hrange
    exact Or.inl ⟨hf.1, hf.2, rfl, not_not.mp halign, hrange.1, hrange.2.2⟩
  · obtain ⟨w, hw, h⟩ := Option.map_eq_some_iff.mp h
    split_ifs at h with h0
    obtain rfl := Option.some.inj h
    exact Or.inr ⟨hw, h0⟩

/-- **What `mapShared` does**: nothing to the pages, or it installs pages and, if it cannot install all,
takes them out again. -/
theorem mapShared_cases {obj off : Nat} (h : mapShared env s va length obj off offset write = some (s', b)) :
    s'.pd = s.pd ∧ s'.tbl = s.tbl ∧ b = false ∨
    ∃ m u, (loop (installShared obj (off / pageSize) va write) (length / pageSize) 0 ((m, s.pd), 0)).state = some u ∧
      s'.tbl = s.tbl ∧
      (b = true ∧ s'.pd = u.1.2 ∧
          (loop (installShared obj (off / pageSize) va write) (length / pageSize) 0 ((m, s.pd), 0)).finished = true ∨
        b = false ∧ s'.pd = ((List.range' (addrToPage va) u.2).foldl clearUserPte u.1).2) := by
  unfold mapShared at h
  dsimp only at h
  split_ifs at h
  · obtain ⟨rfl, rfl⟩ := of_pair h
    exact Or.inl ⟨rfl, rfl, rfl⟩
  · obtain ⟨rfl, rfl⟩ := of_pair h
    exact Or.inl ⟨rfl, rfl, rfl⟩
  obtain ⟨last, -, h⟩ := Option.bind_eq_some_iff.mp h
  split_ifs at h with hgrow hfin
  · obtain ⟨rfl, rfl⟩ := of_pair h
    exact Or.inl ⟨rfl, rfl, rfl⟩
  all_goals
    obtain ⟨u, hu, rfl, rfl⟩ := of_map_pair h
  · exact Or.inr ⟨_, u, hu, rfl, Or.inl ⟨rfl, rfl, hfin⟩⟩
  · exact Or.inr ⟨_, u, hu, rfl, Or.inr ⟨rfl, rfl⟩⟩

/-- **What `mapBacking` does**, by the kind of backing. -/
theorem mapBacking_cases (h : mapBacking env s va length write flags fd offset = some (s', o)) :
    (∃ r, r = vmmMapZero s.mm s.pd va length ∧ s' = ⟨r.1.1, r.1.2, s.tbl⟩ ∧ (o ≠ none → r.2 = true)) ∨
    s' = s ∧ o = none ∨
    (∃ obj off b, mapShared env s va length obj off offset write = some (s', b) ∧ (o ≠ none → b = true)) ∨
    ∃ b, mapFile env s va length fd offset write = some (s', b) ∧ (o ≠ none → b = true) := by
  unfold mapBacking at h
  generalize (if flags.shared then env.resolve fd offset length else none) = object at h
  split_ifs at h
  · obtain ⟨rfl, rfl⟩ := of_pair h
    exact Or.inl ⟨_, rfl, rfl, by simp⟩
  · obtain ⟨rfl, rfl⟩ := of_pair h
    exact Or.inr (Or.inl ⟨rfl, rfl⟩)
  · rcases object with - | ⟨obj, off⟩ <;>
      (obtain ⟨⟨r, b⟩, hr, h⟩ := Option.map_eq_some_iff.mp h; obtain ⟨rfl, rfl⟩ := Prod.mk.inj h)
    · exact Or.inr (Or.inr (Or.inr ⟨b, hr, by simp⟩))
    · exact Or.inr (Or.inr (Or.inl ⟨obj, off, b, hr, by simp⟩))

/-- **What `do_mmap` does**: nothing, or it chooses a place and a slot, builds the backing there and, if that
succeeds, records the region. -/
theorem doMmap_cases (h : doMmap env s hint length write flags fd offset = some (s', o)) :
    s' = s ∧ o = none ∨
    ∃ len va i s₁ o₁, 0 < length ∧ pageUp length = some len ∧
      choosePlace s.tbl hint len flags.fixed = some (some va) ∧ allocRegionSlot s.tbl = some i ∧
      mapBacking env s va len write flags fd offset = some (s₁, o₁) ∧
      (s' = s₁ ∧ o₁ = none ∧ o = none ∨
        ∃ obj, o₁ = some obj ∧ o = some va ∧
          s' = ⟨s₁.mm, s₁.pd, recordRegion s₁.tbl i (newRegion va len write flags fd offset obj)⟩) := by
  unfold doMmap at h
  split_ifs at h with hbad
  · exact Or.inl (same_of_pair h)
  obtain ⟨len, hlen, h⟩ := Option.bind_eq_some_iff.mp h
  obtain ⟨place, hp, h⟩ := Option.bind_eq_some_iff.mp h
  rcases place with - | va
  · exact Or.inl (same_of_pair h)
  rcases hslot : allocRegionSlot s.tbl with - | i <;> simp only [hslot] at h
  · exact Or.inl (same_of_pair h)
  obtain ⟨⟨s₁, o₁⟩, hb, h⟩ := Option.map_eq_some_iff.mp h
  refine Or.inr ⟨len, va, i, s₁, o₁, by omega, hlen, hp, rfl, hb, ?_⟩
  rcases o₁ with - | obj <;> obtain ⟨rfl, rfl⟩ := Prod.mk.inj h
  · exact Or.inl ⟨rfl, rfl, rfl⟩
  · exact Or.inr ⟨obj, rfl, rfl, rfl⟩

end Cases

end CactKernel
