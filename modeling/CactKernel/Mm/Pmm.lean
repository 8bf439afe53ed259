/-
CactKernel/Mm/Pmm.lean

The physical memory manager (`rust_mm/src/pmm.rs`, `pmm_math.rs`): a bitmap
of used frames, a 16-bit reference count for each frame and a first-fit hint.

The bitmap is a function from frame numbers to `Bool` (`true` = in use); the
byte/mask indexing of the source touches exactly that one bit.  `RAM_END` and
`BOOT_RESERVED_END` are written once at boot and are fields of the state.

`kallocScan` is one pass of the allocation loop under `PAGE_LOCK`.  The
reclaim rounds of `kalloc`, which run only after a pass that found no frame,
are in `PmmLaw`, where the frames they release are part of the call history.

Main results: what a pass returns (`kallocScan_spec`), that it fails exactly
when no frame at or above the hint is clear (`kallocScan_eq_none_iff`), and
the boot invariant `PmmInv` (`bootPmm_inv`) with its preservation
by the three operations.
-/
import CactKernel.Lib.Run
import CactKernel.Mm.Layout
import Mathlib.Order.MinMax

namespace CactKernel

open Function Runs

/-! ### State -/

/-- The state of the physical memory manager. -/
structure Pmm where
  bitmap : Nat → Bool
  refcounts : Nat → Nat
  firstAvailablePage : Nat
  ramEnd : Nat
  reservedEnd : Nat

namespace Pmm

/-- End of the kernel heap window that follows the reservation, clipped to the
PCI hole. -/
def heapEnd (s : Pmm) : Nat := min (satAdd s.reservedEnd heapSize) pciHoleStart

/-- First frame `kalloc` does not look at. -/
def limit (s : Pmm) : Nat := addrToPage s.ramEnd

/-- A frame above the reservation and the heap window: reference counts of
such frames are kept, and `free_page` gives them back. -/
def Managed (s : Pmm) (f : Nat) : Prop :=
  s.reservedEnd ≤ pageToAddr f ∧ s.heapEnd ≤ pageToAddr f ∧ f < totalPages

end Pmm

/-- The largest `u16`: a reference count saturates here. -/
@[irreducible] def refcountMax : Nat := 65535

/-! ### Boot -/

/-- An entry of the Multiboot2 memory map. -/
structure Mb2MmapFlat where
  base : Nat
  len : Nat
  ty : Nat
deriving DecidableEq, Repr

def mb2MmapMaxEntries : Nat := 128
def mb2MmapTypeAvailable : Nat := 1

/-- `u64::saturating_add`. -/
def satAdd64 (a b : Nat) : Nat := min (a + b) 0xFFFFFFFFFFFFFFFF

/-- Clip `[base, base+len)` to `[.., lim)`. -/
def clipToLimit (base len lim : Nat) : Option (Nat × Nat) :=
  if len = 0 then none
  else if min (satAdd64 base len) lim ≤ base then none
  else some (base, min (satAdd64 base len) lim)

/-- Half-open page range of `[base, last)`, with the source's 32-bit truncation. -/
def alignedPageRange (base last : Nat) : Nat × Nat :=
  (addrToPage (alignUp pageSize base % u32Size), addrToPage (last / pageSize * pageSize % u32Size))

def ramEndFromCandidate (candidate reservedEnd lim : Nat) : Option Nat :=
  if candidate = 0 then none
  else
    let re := alignUp pageSize candidate
    let re := if lim ≤ re then lim - pageSize else re
    if reservedEnd ≤ re then some re else none

/-- Granularity of the boot reservation. -/
@[irreducible] def bootAlign : Nat := 0x200000

/-- The boundary for an end of images rounded to `v`; it only moves up, and an
overflow leaves it alone. -/
def bootReservedEnd : Option Nat → Nat
  | some v => max (v / bootAlign * bootAlign) reservedEndMin
  | none => reservedEndMin

/-- Reserve the RAM of the bootloader's module images, which end at `last`;
the value is the boundary then in use. -/
def pmmReserveBootImages (last : Nat) : Nat := bootReservedEnd (checkedAdd last (bootAlign - 1))

/-- Copy the boot map, clipped to `USER_FRAME_CEIL`. -/
def pmmInitFromMmap (mmap : List Mb2MmapFlat) : List Mb2MmapFlat :=
  (mmap.take mb2MmapMaxEntries).map fun e =>
    match clipToLimit e.base e.len userFrameCeil with
    | some (base, last) => { e with base := base, len := last - base }
    | none => { e with len := 0 }

/-- Mark a half-open range of frames. -/
def markRange (bm : Nat → Bool) (first last : Nat) (used : Bool) : Nat → Bool := fun pg =>
  if first ≤ pg ∧ pg < last then used else bm pg

/-- The install loop over one map entry: the bitmap and the RAM-top candidate. -/
def installEntry (acc : (Nat → Bool) × Nat) (e : Mb2MmapFlat) : (Nat → Bool) × Nat :=
  if e.ty ≠ mb2MmapTypeAvailable ∨ e.len = 0 ∨
      min (satAdd64 e.base e.len) pmmMaxAddr ≤ e.base then acc
  else
    (markRange acc.1 (alignedPageRange e.base (min (satAdd64 e.base e.len) pmmMaxAddr)).1
        (min (alignedPageRange e.base (min (satAdd64 e.base e.len) pmmMaxAddr)).2 totalPages) false,
      max (min (satAdd64 e.base e.len) pmmMaxAddr) acc.2)

/-- The frames the boot map offers, before the reservation and the heap window
are taken out, and the top of available RAM (0 without a map). -/
def bootFrames (reservedEnd : Nat) (mmap : List Mb2MmapFlat) : (Nat → Bool) × Nat :=
  if mmap ≠ [] then mmap.foldl installEntry (fun _ => true, 0)
  else (markRange (fun _ => true) (addrToPage reservedEnd) (addrToPage pciHoleStart) false, 0)

/-- End of the heap window that follows a reservation up to `reservedEnd`. -/
def bootHeapEnd (reservedEnd : Nat) : Nat := min (satAdd reservedEnd heapSize) pciHoleStart

/-- Build the PMM from the clipped boot map. -/
def initMemoryManager (reservedEnd : Nat) (mmap : List Mb2MmapFlat) : Pmm where
  bitmap :=
    markRange (markRange (bootFrames reservedEnd mmap).1 0 (addrToPage reservedEnd) true)
      (addrToPage reservedEnd) (addrToPage (bootHeapEnd reservedEnd)) true
  refcounts := fun _ => 0
  firstAvailablePage := addrToPage (bootHeapEnd reservedEnd)
  ramEnd :=
    (ramEndFromCandidate (bootFrames reservedEnd mmap).2 reservedEnd userFrameCeil).getD pciHoleStart
  reservedEnd := reservedEnd

/-- The boot sequence of `kernel.c`: reserve, copy the map, build the PMM. -/
def bootPmm (modulesEnd : Nat) (mmap : List Mb2MmapFlat) : Pmm :=
  initMemoryManager (pmmReserveBootImages modulesEnd) (pmmInitFromMmap mmap)

/-- A machine with 2 GiB of RAM and no boot modules. -/
def plainMap : List Mb2MmapFlat := [⟨0, 0x80000000, 1⟩]

/-! ### The three operations -/

/-- First clear bit among the `n` frames from `i` on. -/
def scan (bm : Nat → Bool) (i : Nat) : Nat → Option Nat
  | 0 => none
  | n + 1 => if bm i = false then some i else scan bm (i + 1) n

/-- One pass of `kalloc` under `PAGE_LOCK`: first fit from the hint. -/
def kallocScan (s : Pmm) : Option (Nat × Pmm) :=
  (scan s.bitmap s.firstAvailablePage (s.limit - s.firstAvailablePage)).map fun i =>
    (i, { s with
      bitmap := update s.bitmap i true
      refcounts := update s.refcounts i 1
      firstAvailablePage := i + 1 })

/-- Give one reference back; the last one clears the frame's bit. -/
def freePage (s : Pmm) (addr : Nat) : Pmm :=
  if addr = 0 then s
  else if addr % pageSize ≠ 0 then s
  else if totalPages ≤ addrToPage addr then s
  else if addr < s.reservedEnd then s
  -- the heap window is not tracked like kalloc pages
  else if s.reservedEnd ≤ addr ∧ addr < s.heapEnd then s
  else if 1 < s.refcounts (addrToPage addr) then
    { s with refcounts := update s.refcounts (addrToPage addr) (s.refcounts (addrToPage addr) - 1) }
  else
    { s with
      bitmap := update s.bitmap (addrToPage addr) false
      refcounts := update s.refcounts (addrToPage addr) 0
      firstAvailablePage := min (addrToPage addr) s.firstAvailablePage }

/-- Take one more reference, saturating at `u16::MAX`. -/
def pageRefInc (s : Pmm) (addr : Nat) : Pmm :=
  if addr < s.reservedEnd then s
  else if totalPages ≤ addrToPage addr then s
  else
    { s with refcounts :=
        update s.refcounts (addrToPage addr) (min (s.refcounts (addrToPage addr) + 1) refcountMax) }

/-- Read a reference count (`page_ref_get`, `page_ref_get_locked`). -/
def pageRefGet (s : Pmm) (addr : Nat) : Nat :=
  if addr < s.reservedEnd then 0
  else if totalPages ≤ addrToPage addr then 0
  else s.refcounts (addrToPage addr)

/-! ### The scan -/

variable {bm : Nat → Bool}

theorem scan_some {i n f : Nat} (h : scan bm i n = some f) :
    i ≤ f ∧ f < i + n ∧ bm f = false ∧ ∀ k, i ≤ k → k < f → bm k = true := by
  induction n generalizing i with
  | zero => cases h
  | succ n ih =>
    unfold scan at h
    by_cases hi : bm i = false
    · rw [if_pos hi] at h
      obtain rfl := Option.some.inj h
      exact ⟨le_rfl, by omega, hi, fun k h₁ h₂ => absurd h₁ (by omega)⟩
    · rw [if_neg hi] at h
      obtain ⟨h₁, h₂, h₃, h₄⟩ := ih h
      refine ⟨by omega, by omega, h₃, fun k hk₁ hk₂ => ?_⟩
      by_cases hk : k = i
      · subst hk
        simpa using hi
      · exact h₄ k (by omega) hk₂

theorem scan_eq_none_iff {i n : Nat} :
    scan bm i n = none ↔ ∀ k, i ≤ k → k < i + n → bm k = true := by
  induction n generalizing i with
  | zero =>
    refine ⟨fun _ k h₁ h₂ => absurd h₁ (by omega), fun _ => rfl⟩
  | succ n ih =>
    unfold scan
    by_cases hi : bm i = false
    · rw [if_pos hi]
      refine ⟨fun h => by simp at h, fun h => ?_⟩
      have := h i le_rfl (by omega)
      simp [hi] at this
    · rw [if_neg hi, ih]
      refine ⟨fun h k h₁ h₂ => ?_, fun h k h₁ h₂ => h k (by omega) (by omega)⟩
      by_cases hk : k = i
      · subst hk
        simpa using hi
      · exact h k (by omega) (by omega)

variable {s s' : Pmm} {f : Nat}

/-- **What a pass of `kalloc` returns**: the lowest clear frame from the hint
on; its bit is set, its count is one, everything else is unchanged. -/
theorem kallocScan_spec (h : kallocScan s = some (f, s')) :
    s.bitmap f = false ∧ s.firstAvailablePage ≤ f ∧ f < s.limit ∧
    (∀ k, s.firstAvailablePage ≤ k → k < f → s.bitmap k = true) ∧
    s' = { s with
      bitmap := update s.bitmap f true
      refcounts := update s.refcounts f 1
      firstAvailablePage := f + 1 } := by
  obtain ⟨i, hi, rfl, rfl⟩ := of_map_pair h
  obtain ⟨h₁, h₂, h₃, h₄⟩ := scan_some hi
  exact ⟨h₃, h₁, by omega, h₄, rfl⟩

/-- A pass fails exactly when no frame between the hint and the limit is clear. -/
theorem kallocScan_eq_none_iff :
    kallocScan s = none ↔ ∀ k, s.firstAvailablePage ≤ k → k < s.limit → s.bitmap k = true := by
  unfold kallocScan
  rw [Option.map_eq_none_iff, scan_eq_none_iff]
  refine ⟨fun h k h₁ h₂ => h k h₁ (by omega), fun h k h₁ h₂ => h k h₁ (by omega)⟩

/-- A clear frame at the hint is the one that is returned. -/
theorem kallocScan_of_hint_clear (h : s.bitmap s.firstAvailablePage = false)
    (hlt : s.firstAvailablePage < s.limit) :
    kallocScan s = some (s.firstAvailablePage, { s with
      bitmap := update s.bitmap s.firstAvailablePage true
      refcounts := update s.refcounts s.firstAvailablePage 1
      firstAvailablePage := s.firstAvailablePage + 1 }) := by
  obtain ⟨m, hm⟩ : ∃ m, s.limit - s.firstAvailablePage = m + 1 :=
    ⟨s.limit - s.firstAvailablePage - 1, by omega⟩
  rw [kallocScan, hm, scan, if_pos h]
  rfl

/-! ### The invariant of the allocator -/

/-- What boot establishes and the three operations keep: a clear bit is an
unreferenced frame above the heap window that the next pass can reach. -/
structure PmmInv (s : Pmm) : Prop where
  clear_unreferenced : ∀ f, s.bitmap f = false → s.refcounts f = 0
  clear_hint : ∀ f, s.bitmap f = false → s.firstAvailablePage ≤ f
  clear_managed : ∀ f, s.bitmap f = false → s.Managed f
  reserved_pos : 0 < s.reservedEnd

/-- The end of an entry for the install loop. -/
def Mb2MmapFlat.top (e : Mb2MmapFlat) : Nat := min (satAdd64 e.base e.len) pmmMaxAddr

/-- The install loop marks the frame `f` free for the entry. -/
structure Mb2MmapFlat.Offers (e : Mb2MmapFlat) (f : Nat) : Prop where
  available : e.ty = mb2MmapTypeAvailable
  base_lt : e.base < e.top
  first : (alignedPageRange e.base e.top).1 ≤ f
  last : f < min (alignedPageRange e.base e.top).2 totalPages

theorem le_foldl_installEntry (mmap : List Mb2MmapFlat) (acc : (Nat → Bool) × Nat) :
    acc.2 ≤ (mmap.foldl installEntry acc).2 := by
  induction mmap generalizing acc with
  | nil => exact le_rfl
  | cons e es ih =>
    refine le_trans ?_ (ih _)
    unfold installEntry
    split_ifs
    · exact le_rfl
    · exact le_max_right ..

/-- A frame that the loop leaves clear was clear before, or some entry offers it; the top of that entry
counts for the top of RAM. -/
theorem foldl_installEntry_clear (mmap : List Mb2MmapFlat) {acc : (Nat → Bool) × Nat}
    (hf : (mmap.foldl installEntry acc).1 f = false) :
    acc.1 f = false ∨ ∃ e ∈ mmap, e.Offers f ∧ e.top ≤ (mmap.foldl installEntry acc).2 := by
  induction mmap generalizing acc with
  | nil => exact Or.inl hf
  | cons e es ih =>
    have htop := le_foldl_installEntry es (installEntry acc e)
    rcases ih hf with hacc | ⟨e', he', hoff⟩
    · rw [installEntry] at hacc
      split_ifs at hacc with hskip
      · exact Or.inl hacc
      · -- an available entry: the frame is in its range or was clear before
        simp only [markRange] at hacc
        split_ifs at hacc with hr
        · refine Or.inr ⟨e, List.mem_cons_self, ?_, le_trans ?_ htop⟩
          · rw [not_or, not_or, not_not, not_le] at hskip
            exact ⟨hskip.1, hskip.2.2, hr.1, hr.2⟩
          · rw [installEntry, if_neg hskip]
            exact le_max_left ..
        · exact Or.inl hacc
    · exact Or.inr ⟨e', List.mem_cons_of_mem _ he', hoff⟩

/-- What is clear stays clear, and what an entry offers becomes clear. -/
theorem foldl_installEntry_offers (mmap : List Mb2MmapFlat) {acc : (Nat → Bool) × Nat}
    (h : acc.1 f = false ∨ ∃ e ∈ mmap, e.Offers f) : (mmap.foldl installEntry acc).1 f = false := by
  induction mmap generalizing acc with
  | nil => exact h.resolve_right fun ⟨_, he, _⟩ => by cases he
  | cons e es ih =>
    refine ih ?_
    have hkeep : acc.1 f = false → (installEntry acc e).1 f = false := fun hf => by
      unfold installEntry markRange
      split_ifs
      · exact hf
      · show (if _ then false else acc.1 f) = false
        rw [hf, ite_self]
    rcases h with h | ⟨e', he', hoff⟩
    · exact Or.inl (hkeep h)
    rcases List.mem_cons.mp he' with rfl | he'
    · left
      obtain ⟨hty, hlt, hfirst, hlast⟩ := hoff
      have hlen : e'.len ≠ 0 := fun h0 => by
        simp only [Mb2MmapFlat.top, h0, satAdd64] at hlt
        omega
      rw [installEntry, if_neg (by simp only [not_or, not_not, not_le]; exact ⟨hty, hlen, hlt⟩)]
      exact if_pos ⟨hfirst, hlast⟩
    · exact Or.inr ⟨e', he', hoff⟩

theorem bootFrames_clear_lt (r : Nat) (mmap : List Mb2MmapFlat) :
    ∀ f, (bootFrames r mmap).1 f = false → f < totalPages := by
  intro f hf
  unfold bootFrames at hf
  split_ifs at hf with he
  · rcases foldl_installEntry_clear mmap hf with h | ⟨e, -, hoff, -⟩
    · cases h
    · exact lt_of_lt_of_le hoff.last (min_le_right _ _)
  · simp only [markRange] at hf
    split_ifs at hf with hr
    exact lt_trans hr.2 (by simp [addrToPage, pciHoleStart, pageSize, totalPages])

theorem bootReservedEnd_mod (o : Option Nat) : bootReservedEnd o % pageSize = 0 := by
  have hmin : reservedEndMin % pageSize = 0 := by simp [reservedEndMin, pageSize]
  rcases o with - | v
  · exact hmin
  · have hdvd : pageSize ∣ bootAlign := ⟨512, by simp [pageSize, bootAlign]⟩
    show max (v / bootAlign * bootAlign) reservedEndMin % pageSize = 0
    rcases max_choice (v / bootAlign * bootAlign) reservedEndMin with h | h <;> rw [h]
    · exact Nat.mod_eq_zero_of_dvd (Nat.dvd_mul_left_of_dvd hdvd _)
    · exact hmin

theorem le_bootReservedEnd (o : Option Nat) : reservedEndMin ≤ bootReservedEnd o := by
  rcases o with - | v
  · exact le_rfl
  · exact le_max_right _ _

/-- A page-aligned boundary gives a page-aligned end of the heap window. -/
theorem bootHeapEnd_mod {r : Nat} (h : r % pageSize = 0) : bootHeapEnd r % pageSize = 0 := by
  simp only [bootHeapEnd, satAdd, heapSize, pciHoleStart, u32Size, pageSize] at *
  omega

/-- The frames left clear by boot are those of the map above the reservation and the heap window. -/
theorem initMemoryManager_clear_iff {r f : Nat} {mmap : List Mb2MmapFlat} :
    (initMemoryManager r mmap).bitmap f = false ↔
      addrToPage r ≤ f ∧ addrToPage (bootHeapEnd r) ≤ f ∧ (bootFrames r mmap).1 f = false := by
  simp only [initMemoryManager, markRange]
  split_ifs with h₁ h₂
  · exact iff_of_false nofun fun h => by omega
  · exact iff_of_false nofun fun h => by omega
  · exact ⟨fun hf => ⟨by omega, by omega, hf⟩, fun h => h.2.2⟩

theorem initMemoryManager_clear {r f : Nat} {mmap : List Mb2MmapFlat}
    (hf : (initMemoryManager r mmap).bitmap f = false) :
    addrToPage r ≤ f ∧ addrToPage (bootHeapEnd r) ≤ f ∧ (bootFrames r mmap).1 f = false :=
  initMemoryManager_clear_iff.mp hf

/-- **Boot establishes the allocator invariant**, for every memory map. -/
theorem bootPmm_inv (modulesEnd : Nat) (mmap : List Mb2MmapFlat) :
    PmmInv (bootPmm modulesEnd mmap) := by
  unfold bootPmm pmmReserveBootImages
  have hmod := bootReservedEnd_mod (checkedAdd modulesEnd (bootAlign - 1))
  have hpos := le_bootReservedEnd (checkedAdd modulesEnd (bootAlign - 1))
  generalize bootReservedEnd (checkedAdd modulesEnd (bootAlign - 1)) = r at hmod hpos ⊢
  refine ⟨fun _ _ => rfl, fun f hf => (initMemoryManager_clear hf).2.1, fun f hf => ?_, ?_⟩
  · obtain ⟨h₁, h₂, h₃⟩ := initMemoryManager_clear hf
    have hend := bootHeapEnd_mod hmod
    refine ⟨?_, ?_, bootFrames_clear_lt r _ f h₃⟩
    · show r ≤ pageToAddr f
      simp only [addrToPage, pageToAddr, pageSize] at *
      omega
    · show bootHeapEnd r ≤ pageToAddr f
      simp only [addrToPage, pageToAddr, pageSize] at *
      omega
  · exact lt_of_lt_of_le (by simp [reservedEndMin]) hpos

/-- The heap window after boot: whole pages below the PCI hole. -/
theorem bootPmm_window (modulesEnd : Nat) (mmap : List Mb2MmapFlat) :
    0 < (bootPmm modulesEnd mmap).reservedEnd ∧
    (bootPmm modulesEnd mmap).reservedEnd % pageSize = 0 ∧
    (bootPmm modulesEnd mmap).heapEnd % pageSize = 0 ∧
    (bootPmm modulesEnd mmap).heapEnd < u32Size := by
  have hmod := bootReservedEnd_mod (checkedAdd modulesEnd (bootAlign - 1))
  have hpos := le_bootReservedEnd (checkedAdd modulesEnd (bootAlign - 1))
  refine ⟨lt_of_lt_of_le (by simp [reservedEndMin]) hpos, hmod, bootHeapEnd_mod hmod, ?_⟩
  exact lt_of_le_of_lt (min_le_right _ _) (by simp [pciHoleStart, u32Size])

/-! ### The operations keep the invariant -/

theorem kallocScan_inv (hs : PmmInv s)
    (h : kallocScan s = some (f, s')) : PmmInv s' := by
  obtain ⟨-, -, -, hlow, rfl⟩ := kallocScan_spec h
  have hne : ∀ k, update s.bitmap f true k = false → k ≠ f ∧ s.bitmap k = false := by
    intro k hk
    by_cases hkf : k = f
    · subst hkf
      simp at hk
    · exact ⟨hkf, by simpa [hkf] using hk⟩
  refine ⟨fun k hk => ?_, fun k hk => ?_, fun k hk => ?_, hs.reserved_pos⟩
  · obtain ⟨h₁, h₂⟩ := hne k hk
    simp [h₁, hs.clear_unreferenced k h₂]
  · -- below the new hint every frame is in use: the pass took the lowest clear one
    obtain ⟨h₁, h₂⟩ := hne k hk
    have h₃ := hs.clear_hint k h₂
    by_contra hlt
    have := hlow k h₃ (by simp only at hlt; omega)
    rw [h₂] at this
    cases this
  · exact hs.clear_managed k (hne k hk).2

/-- The guards of `free_page` pass for a managed frame. -/
theorem freePage_managed (hpos : 0 < s.reservedEnd) (h : s.Managed f) :
    freePage s (pageToAddr f) =
      if 1 < s.refcounts f then { s with refcounts := update s.refcounts f (s.refcounts f - 1) }
      else
        { s with
          bitmap := update s.bitmap f false
          refcounts := update s.refcounts f 0
          firstAvailablePage := min f s.firstAvailablePage } := by
  obtain ⟨h₁, h₂, h₃⟩ := h
  unfold freePage
  rw [addrToPage_pageToAddr, if_neg (by omega), if_neg (by simp [pageToAddr_mod]),
    if_neg (by omega), if_neg (by omega), if_neg (by omega)]

theorem pageRefInc_managed (h : s.Managed f) :
    pageRefInc s (pageToAddr f) =
      { s with refcounts := update s.refcounts f (min (s.refcounts f + 1) refcountMax) } := by
  obtain ⟨h₁, -, h₃⟩ := h
  unfold pageRefInc
  rw [addrToPage_pageToAddr, if_neg (by omega), if_neg (by omega)]

/-- A call of `free_page` is ignored, or its argument is a frame above the
reservation and the heap window. -/
theorem freePage_cases (s : Pmm) (addr : Nat) :
    freePage s addr = s ∨ ∃ f, addr = pageToAddr f ∧ s.Managed f := by
  unfold freePage
  by_cases h₁ : addr = 0
  · exact Or.inl (if_pos h₁)
  by_cases h₂ : addr % pageSize ≠ 0
  · exact Or.inl (by rw [if_neg h₁, if_pos h₂])
  by_cases h₃ : totalPages ≤ addrToPage addr
  · exact Or.inl (by rw [if_neg h₁, if_neg h₂, if_pos h₃])
  by_cases h₄ : addr < s.reservedEnd
  · exact Or.inl (by rw [if_neg h₁, if_neg h₂, if_neg h₃, if_pos h₄])
  by_cases h₅ : s.reservedEnd ≤ addr ∧ addr < s.heapEnd
  · exact Or.inl (by rw [if_neg h₁, if_neg h₂, if_neg h₃, if_neg h₄, if_pos h₅])
  have hup : addr = pageToAddr (addrToPage addr) := by
    simp only [pageToAddr, addrToPage, pageSize] at *
    omega
  exact Or.inr ⟨addrToPage addr, hup, by omega, by omega, by omega⟩

theorem freePage_inv (hs : PmmInv s) (addr : Nat) : PmmInv (freePage s addr) := by
  rcases freePage_cases s addr with h | ⟨f, rfl, hf⟩
  · rw [h]
    exact hs
  rw [freePage_managed hs.reserved_pos hf]
  by_cases h₄ : 1 < s.refcounts f
  · rw [if_pos h₄]
    refine ⟨fun k hk => ?_, hs.clear_hint, hs.clear_managed, hs.reserved_pos⟩
    have := hs.clear_unreferenced k hk
    by_cases hk' : k = f
    · subst hk'
      omega
    · simpa [hk'] using this
  · rw [if_neg h₄]
    have hne : ∀ k, k ≠ f → update s.bitmap f false k = false → s.bitmap k = false :=
      fun k hk h => by simpa [hk] using h
    refine ⟨fun k hk => ?_, fun k hk => ?_, fun k hk => ?_, hs.reserved_pos⟩
    all_goals by_cases hk' : k = f
    · simp [hk']
    · simpa [hk'] using hs.clear_unreferenced k (hne k hk' hk)
    · exact hk' ▸ min_le_left _ _
    · exact le_trans (min_le_right _ _) (hs.clear_hint k (hne k hk' hk))
    · subst hk'
      exact hf
    · exact hs.clear_managed k (hne k hk' hk)

/-- Taking a reference on a used frame keeps the invariant. -/
theorem pageRefInc_inv (hs : PmmInv s) {addr : Nat}
    (h : s.bitmap (addrToPage addr) = true) : PmmInv (pageRefInc s addr) := by
  unfold pageRefInc
  split_ifs
  · exact hs
  · exact hs
  · refine ⟨fun k hk => ?_, hs.clear_hint, hs.clear_managed, hs.reserved_pos⟩
    by_cases hk' : k = addrToPage addr
    · subst hk'
      rw [h] at hk
      cases hk
    · simpa [hk'] using hs.clear_unreferenced k hk

end CactKernel
