/-
CactKernel/Mm/BootLaw.lean

What boot leaves free, and whether `kalloc` can find it.

A frame that is clear after boot was offered by an available entry of the
boot map (`bootPmm_clear`); the copy of the map is clipped to
`USER_FRAME_CEIL` first, so no rounding or truncation of the install loop
takes it out of its entry.  The entries are not compared with each other:
a frame is free of the entries of another type if these share no byte with
the frames that an available one offers, and not otherwise
(`boot_map_sound_iff`, `reserved_frame_free`).

`RAM_END` is one page below the ceiling when RAM reaches up to it, and the
install loop stops at the ceiling itself.  So `kalloc` finds every clear
frame if RAM ends lower (`kalloc_complete`), and never the last frame
below the ceiling (`last_frame_lost`).
-/
import CactKernel.Mm.Pmm

namespace CactKernel

variable {modulesEnd f : Nat} {mmap : List Mb2MmapFlat} {s : Pmm}

/-! ### Frames and entries -/

/-- The entry covers the frame `f`. -/
def Mb2MmapFlat.Covers (e : Mb2MmapFlat) (f : Nat) : Prop :=
  e.base ≤ pageToAddr f ∧ pageToAddr f + pageSize ≤ satAdd64 e.base e.len

/-- The entries share a byte. -/
def Mb2MmapFlat.Meets (e e' : Mb2MmapFlat) : Prop :=
  max e.base e'.base < min (satAdd64 e.base e.len) (satAdd64 e'.base e'.len)

/-- The frame `f` as an entry. -/
def frameEntry (f : Nat) : Mb2MmapFlat := ⟨pageToAddr f, pageSize, mb2MmapTypeAvailable⟩

/-- An entry of the clipped map offers frames that the entry of the boot map covers below the ceiling. -/
theorem clipped_offers {e : Mb2MmapFlat} (he : e ∈ pmmInitFromMmap mmap) (hoff : e.Offers f) :
    ∃ e₀ ∈ mmap, e₀.ty = mb2MmapTypeAvailable ∧ e₀.Covers f ∧ pageToAddr f + pageSize ≤ e.top ∧
      e.top ≤ userFrameCeil := by
  obtain ⟨e₀, he₀, rfl⟩ := List.mem_map.mp he
  obtain ⟨hty, hlt, hfirst, hlast⟩ := hoff
  refine ⟨e₀, List.mem_of_mem_take he₀, ?_⟩
  unfold clipToLimit Mb2MmapFlat.top Mb2MmapFlat.Covers alignedPageRange at *
  split_ifs at * with h₁ h₂
  · simp only [satAdd64] at hlt
    omega
  · simp only [satAdd64] at hlt
    omega
  · refine ⟨hty, ?_⟩
    simp only [satAdd64, alignUp, addrToPage, pageToAddr, userFrameCeil, pmmMaxAddr, totalPages, u32Size,
      pageSize] at *
    omega

/-- The clipped map offers each frame that one of its entries covers below the ceiling. -/
theorem offers_of_covers {e : Mb2MmapFlat} (he : e ∈ mmap.take mb2MmapMaxEntries)
    (hty : e.ty = mb2MmapTypeAvailable) (hcov : e.Covers f) (hceil : pageToAddr f + pageSize ≤ userFrameCeil) :
    ∃ c ∈ pmmInitFromMmap mmap, c.Offers f := by
  refine ⟨_, List.mem_map_of_mem he, ?_⟩
  obtain ⟨h₁, h₂⟩ := hcov
  unfold clipToLimit
  split_ifs with h₃ h₄
  · simp only [satAdd64, pageSize] at *
    omega
  · simp only [satAdd64, pageSize] at *
    omega
  · refine ⟨hty, ?_, ?_, ?_⟩ <;>
      simp only [Mb2MmapFlat.top, alignedPageRange, satAdd64, alignUp, addrToPage, pageToAddr, userFrameCeil,
        pmmMaxAddr, totalPages, u32Size, pageSize] at * <;>
      omega

/-- **A clear frame was offered by the boot map.** -/
theorem bootPmm_clear (hmap : mmap ≠ []) (hf : (bootPmm modulesEnd mmap).bitmap f = false) :
    ∃ e ∈ mmap, e.ty = mb2MmapTypeAvailable ∧ e.Covers f ∧ pageToAddr f + pageSize ≤ userFrameCeil ∧
      pageToAddr f + pageSize ≤ (bootFrames (pmmReserveBootImages modulesEnd) (pmmInitFromMmap mmap)).2 := by
  obtain ⟨-, -, hf⟩ := initMemoryManager_clear hf
  have hne : pmmInitFromMmap mmap ≠ [] := by
    obtain ⟨e, es, rfl⟩ := List.exists_cons_of_ne_nil hmap
    exact List.cons_ne_nil _ _
  unfold bootFrames at hf ⊢
  rw [if_pos hne] at hf ⊢
  rcases foldl_installEntry_clear _ hf with h | ⟨e, he, hoff, htop⟩
  · cases h
  · obtain ⟨e₀, he₀, hty, hcov, hend, hceil⟩ := clipped_offers he hoff
    exact ⟨e₀, he₀, hty, hcov, hend.trans hceil, hend.trans htop⟩

/-! ### Soundness of the boot map -/

/-- `mmio_window_base`: the greater of the RAM top and the PCI hole, rounded up to 2 MiB. -/
def mmioWindowBase (ramEnd holeStart : Nat) : Option Nat :=
  (checkedAdd (if holeStart < ramEnd then ramEnd else holeStart) (bootAlign - 1)).map fun x =>
    x / bootAlign * bootAlign

theorem ramEnd_le (r : Nat) (mmap : List Mb2MmapFlat) : (initMemoryManager r mmap).ramEnd ≤ pciHoleStart := by
  have hceil : userFrameCeil ≤ pciHoleStart := by decide +kernel
  simp only [initMemoryManager, ramEndFromCandidate]
  split_ifs <;> simp only [Option.getD_some, Option.getD_none] <;> omega

/-- **Boot-map soundness.**  Each frame that boot leaves clear lies inside an available entry, or inside
the window of a boot without map; it meets no entry of another type, and lies above the heap window and
below the ceiling.  The MMIO window starts on a 2 MiB boundary at or above the RAM top. -/
structure BootSound (modulesEnd : Nat) (mmap : List Mb2MmapFlat) : Prop where
  inside : ∀ f, (bootPmm modulesEnd mmap).bitmap f = false →
    (∃ e ∈ mmap, e.ty = mb2MmapTypeAvailable ∧ e.Covers f) ∨
      mmap = [] ∧ (bootPmm modulesEnd mmap).reservedEnd ≤ pageToAddr f ∧ pageToAddr f + pageSize ≤ pciHoleStart
  typed : ∀ f, (bootPmm modulesEnd mmap).bitmap f = false →
    ∀ e ∈ mmap, e.ty ≠ mb2MmapTypeAvailable → ¬e.Meets (frameEntry f)
  above : ∀ f, (bootPmm modulesEnd mmap).bitmap f = false → (bootPmm modulesEnd mmap).heapEnd ≤ pageToAddr f
  below : ∀ f, (bootPmm modulesEnd mmap).bitmap f = false → pageToAddr f + pageSize ≤ userFrameCeil
  window : ∃ w, mmioWindowBase (bootPmm modulesEnd mmap).ramEnd pciHoleStart = some w ∧ w % bootAlign = 0 ∧
    (bootPmm modulesEnd mmap).ramEnd ≤ w

/-- Where an available entry covers a frame between the heap window and the ceiling, the frame has no
byte of an entry of another type; without a map the heap window ends at the PCI hole. -/
def BootApart (modulesEnd : Nat) (mmap : List Mb2MmapFlat) : Prop :=
  (mmap = [] → (bootPmm modulesEnd mmap).heapEnd = pciHoleStart) ∧
    ∀ e ∈ mmap, ∀ e' ∈ mmap, e.ty = mb2MmapTypeAvailable → e'.ty ≠ mb2MmapTypeAvailable →
      ∀ f, e.Covers f → (bootPmm modulesEnd mmap).heapEnd ≤ pageToAddr f →
        pageToAddr f + pageSize ≤ userFrameCeil → ¬e'.Meets (frameEntry f)

theorem mmioWindow_sound (modulesEnd : Nat) (mmap : List Mb2MmapFlat) :
    ∃ w, mmioWindowBase (bootPmm modulesEnd mmap).ramEnd pciHoleStart = some w ∧ w % bootAlign = 0 ∧
      (bootPmm modulesEnd mmap).ramEnd ≤ w := by
  have hle : (bootPmm modulesEnd mmap).ramEnd ≤ pciHoleStart := ramEnd_le ..
  have hfit : pciHoleStart + (bootAlign - 1) < u32Size := by simp only [pciHoleStart, bootAlign, u32Size]; omega
  refine ⟨_, by rw [mmioWindowBase, if_neg (not_lt.mpr hle), checkedAdd_of_lt hfit]; rfl, Nat.mul_mod_left _ _, ?_⟩
  simp only [pciHoleStart, bootAlign] at *
  omega

/-- Below the PCI hole the heap window follows the reservation. -/
theorem reserved_le_of_heapEnd_lt (h : s.heapEnd < pciHoleStart) : s.reservedEnd ≤ s.heapEnd := by
  simp only [Pmm.heapEnd, satAdd, heapSize, pciHoleStart, u32Size] at *
  omega

/-- A frame that an available entry covers, between the heap window and the ceiling, is left clear. -/
theorem bootPmm_clear_of_covers (hlen : mmap.length ≤ mb2MmapMaxEntries) {e : Mb2MmapFlat} (he : e ∈ mmap)
    (hty : e.ty = mb2MmapTypeAvailable) (hcov : e.Covers f)
    (hheap : (bootPmm modulesEnd mmap).heapEnd ≤ pageToAddr f)
    (hceil : pageToAddr f + pageSize ≤ userFrameCeil) : (bootPmm modulesEnd mmap).bitmap f = false := by
  have hres := (reserved_le_of_heapEnd_lt (hheap.trans_lt (by
    simp only [userFrameCeil, pciHoleStart, pageSize] at *
    omega))).trans hheap
  refine initMemoryManager_clear_iff.mpr ⟨?_, ?_, ?_⟩
  · change pmmReserveBootImages modulesEnd ≤ _ at hres
    simp only [addrToPage, pageToAddr, pageSize] at *
    omega
  · change bootHeapEnd (pmmReserveBootImages modulesEnd) ≤ _ at hheap
    simp only [addrToPage, pageToAddr, pageSize] at *
    omega
  obtain ⟨c, hc, hoff⟩ := offers_of_covers ((List.take_of_length_le hlen).symm ▸ he) hty hcov hceil
  rw [bootFrames, if_pos (List.ne_nil_of_mem hc)]
  exact foldl_installEntry_offers _ (Or.inr ⟨c, hc, hoff⟩)

/-- Without a map the frames between the heap window and the PCI hole are clear. -/
theorem bootPmm_clear_nil : (bootPmm modulesEnd []).bitmap f = false ↔
    (bootPmm modulesEnd []).reservedEnd ≤ pageToAddr f ∧ (bootPmm modulesEnd []).heapEnd ≤ pageToAddr f ∧
      pageToAddr f + pageSize ≤ pciHoleStart := by
  have hmod := bootReservedEnd_mod (checkedAdd modulesEnd (bootAlign - 1))
  have hend := bootHeapEnd_mod hmod
  refine initMemoryManager_clear_iff.trans ?_
  show _ ↔ pmmReserveBootImages modulesEnd ≤ _ ∧ bootHeapEnd (pmmReserveBootImages modulesEnd) ≤ _ ∧ _
  unfold pmmReserveBootImages
  generalize bootReservedEnd (checkedAdd modulesEnd (bootAlign - 1)) = r at *
  simp only [pmmInitFromMmap, List.take_nil, List.map_nil, bootFrames, ne_eq, not_true_eq_false, if_false,
    markRange]
  split_ifs <;> simp only [addrToPage, pageToAddr, pciHoleStart, pageSize] at * <;>
    simp only [and_false, and_true, false_iff] <;> omega

/-- Without a map some frame above the ceiling is clear, unless no frame is. -/
theorem boot_sound_nil_iff : BootSound modulesEnd [] ↔ (bootPmm modulesEnd []).heapEnd = pciHoleStart := by
  obtain ⟨-, -, hmod, -⟩ := bootPmm_window modulesEnd []
  have hle : (bootPmm modulesEnd []).heapEnd ≤ pciHoleStart := Nat.min_le_right ..
  constructor
  · intro h
    by_contra hne
    have hlt : (bootPmm modulesEnd []).heapEnd < pciHoleStart := lt_of_le_of_ne hle hne
    have hres := reserved_le_of_heapEnd_lt hlt
    -- the last frame below the PCI hole
    have hclear : (bootPmm modulesEnd []).bitmap 0xBFFFF = false := by
      refine bootPmm_clear_nil.mpr ?_
      simp only [pageToAddr, pciHoleStart, pageSize] at *
      omega
    have := h.below _ hclear
    simp only [pageToAddr, userFrameCeil, pageSize] at this
    omega
  · intro h
    have hnone : ∀ f, ¬(bootPmm modulesEnd []).bitmap f = false := fun f hf => by
      have := pageSize_pos
      obtain ⟨-, h₁, h₂⟩ := bootPmm_clear_nil.mp hf
      omega
    exact ⟨fun f hf => absurd hf (hnone f), fun f hf => absurd hf (hnone f), fun f hf => absurd hf (hnone f),
      fun f hf => absurd hf (hnone f), mmioWindow_sound ..⟩

/-- **When the boot map is sound**: for every map of up to 128 entries, exactly if no frame that an
available entry offers above the heap window has a byte of an entry of another type, and if there is a
map or nothing is left free without it. -/
theorem boot_map_sound_iff (modulesEnd : Nat) (mmap : List Mb2MmapFlat)
    (hlen : mmap.length ≤ mb2MmapMaxEntries) : BootSound modulesEnd mmap ↔ BootApart modulesEnd mmap := by
  by_cases hmap : mmap = []
  · subst hmap
    exact boot_sound_nil_iff.trans ⟨fun h => ⟨fun _ => h, nofun⟩, fun h => h.1 rfl⟩
  constructor
  · intro h
    refine ⟨fun hno => absurd hno hmap, fun e he e' he' hty hty' f hcov hheap hceil => ?_⟩
    exact h.typed f (bootPmm_clear_of_covers hlen he hty hcov hheap hceil) e' he' hty'
  · rintro ⟨-, hapart⟩
    have habove : ∀ f, (bootPmm modulesEnd mmap).bitmap f = false →
        (bootPmm modulesEnd mmap).heapEnd ≤ pageToAddr f := fun f hf =>
      ((bootPmm_inv modulesEnd mmap).clear_managed f hf).2.1
    refine ⟨fun f hf => ?_, fun f hf e' he' hty' => ?_, habove, fun f hf => ?_, mmioWindow_sound ..⟩ <;>
      obtain ⟨e, he, hty, hcov, hceil, -⟩ := bootPmm_clear hmap hf
    · exact Or.inl ⟨e, he, hty, hcov⟩
    · exact hapart e he e' he' hty hty' f hcov (habove f hf) hceil
    · exact hceil

/-- A machine with a reserved entry between two available ones, and above 4 GiB with an entry that is
both. -/
def splitMap : List Mb2MmapFlat :=
  [⟨0, 0x9FC00, 1⟩, ⟨0x9FC00, 0x400, 2⟩, ⟨0x100000, 0x3FF00000, 1⟩, ⟨0x100000000, 0x1000, 1⟩,
    ⟨0x100000000, 0x1000, 2⟩]

theorem boot_map_sound_iff_split : splitMap.length ≤ mb2MmapMaxEntries ∧ BootSound 0 splitMap := by
  refine ⟨by decide, (boot_map_sound_iff 0 splitMap (by decide)).mpr ⟨nofun, ?_⟩⟩
  rintro e - e' he' - hty' f - hheap hceil
  have hheap : 0x20000000 ≤ pageToAddr f := le_trans (by decide +kernel) hheap
  -- the heap window lies above the one entry of another type, the ceiling below the other
  simp only [splitMap, List.mem_cons, List.not_mem_nil, or_false] at he'
  rcases he' with rfl | rfl | rfl | rfl | rfl
  all_goals try exact absurd rfl hty'
  all_goals
    simp only [Mb2MmapFlat.Meets, frameEntry, satAdd64, userFrameCeil, pageSize] at *
    omega

/-- **A reserved frame is left free** if an available entry covers it too; and without a map the frames
above the ceiling are free. -/
theorem reserved_frame_free :
    (bootPmm 0 [⟨0, 0x40000000, 1⟩, ⟨0x30000000, 0x1000, 2⟩]).bitmap 0x30000 = false ∧
      ¬BootSound 0 [⟨0, 0x40000000, 1⟩, ⟨0x30000000, 0x1000, 2⟩] ∧
      (bootPmm 0 []).bitmap 0x80000 = false ∧ ¬BootSound 0 [] := by
  have hreserved : (bootPmm 0 [⟨0, 0x40000000, 1⟩, ⟨0x30000000, 0x1000, 2⟩]).bitmap 0x30000 = false := by
    decide +kernel
  have hnone : (bootPmm 0 []).bitmap 0x80000 = false := by decide +kernel
  refine ⟨hreserved, fun h => ?_, hnone, fun h => absurd (h.below _ hnone) (by decide +kernel)⟩
  refine h.typed _ hreserved ⟨0x30000000, 0x1000, 2⟩ (by simp) (by decide) ?_
  unfold Mb2MmapFlat.Meets
  decide +kernel

/-! ### Completeness of `kalloc` -/

/-- `pmm_free_frames`: the clear bits of the bitmap. -/
def pmmFreeFrames (s : Pmm) : Nat := (List.range totalPages).countP fun f => !s.bitmap f

/-- The calls of the page allocator, without reclaim. -/
inductive PmmCall where
  | kalloc
  | freePage (addr : Nat)

def pmmCall (s : Pmm) : PmmCall → Pmm
  | .kalloc => ((kallocScan s).map Prod.snd).getD s
  | .freePage addr => freePage s addr

/-- The state after boot and a sequence of calls. -/
def pmmRun (modulesEnd : Nat) (mmap : List Mb2MmapFlat) (calls : List PmmCall) : Pmm :=
  calls.foldl pmmCall (bootPmm modulesEnd mmap)

/-- `kalloc` looks at every clear frame. -/
structure InReach (ramEnd : Nat) (s : Pmm) : Prop extends PmmInv s where
  ram : s.ramEnd = ramEnd
  below : ∀ f, s.bitmap f = false → f < addrToPage ramEnd

variable {ramEnd : Nat}

/-- **One call.** -/
theorem InReach.call (h : InReach ramEnd s) {c : PmmCall}
    (hc : ∀ addr, c = .freePage addr → addrToPage addr < addrToPage ramEnd) : InReach ramEnd (pmmCall s c) := by
  cases c with
  | kalloc =>
    rcases hk : kallocScan s with - | ⟨f, s'⟩
    · rwa [pmmCall, hk]
    · have hinv := kallocScan_inv h.toPmmInv hk
      obtain ⟨-, -, -, -, rfl⟩ := kallocScan_spec hk
      rw [pmmCall, hk]
      refine ⟨hinv, h.ram, fun g hg => h.below g ?_⟩
      by_cases hgf : g = f
      · rw [hgf] at hg
        cases (Function.update_self ..).symm.trans hg
      · exact (Function.update_of_ne hgf ..).symm.trans hg
  | freePage addr =>
    have hinv := freePage_inv h.toPmmInv addr
    show InReach ramEnd (freePage s addr)
    rcases freePage_cases s addr with he | ⟨f, rfl, hf⟩
    · rwa [he]
    have hlt := hc _ rfl
    rw [addrToPage_pageToAddr] at hlt
    rw [freePage_managed h.reserved_pos hf] at hinv ⊢
    split_ifs at hinv ⊢
    · exact ⟨hinv, h.ram, h.below⟩
    · refine ⟨hinv, h.ram, fun g hg => ?_⟩
      by_cases hgf : g = f
      · rwa [hgf]
      · exact h.below g ((Function.update_of_ne hgf ..).symm.trans hg)

/-- **A run of calls.** -/
theorem InReach.calls (calls : List PmmCall) (h : InReach ramEnd s)
    (hc : ∀ addr, .freePage addr ∈ calls → addrToPage addr < addrToPage ramEnd) :
    InReach ramEnd (calls.foldl pmmCall s) :=
  List.foldlRecOn calls pmmCall h fun _ hs _ hmem => hs.call fun addr he => hc addr (he ▸ hmem)

/-- Boot leaves every clear frame in reach, if RAM ends a page below the ceiling. -/
theorem bootPmm_inReach
    (htop : (bootFrames (pmmReserveBootImages modulesEnd) (pmmInitFromMmap mmap)).2 + pageSize ≤ userFrameCeil) :
    InReach (bootPmm modulesEnd mmap).ramEnd (bootPmm modulesEnd mmap) := by
  refine ⟨bootPmm_inv modulesEnd mmap, rfl, fun f hf => ?_⟩
  by_cases hmap : mmap = []
  · subst hmap
    obtain ⟨-, -, hf⟩ := initMemoryManager_clear hf
    simp only [pmmInitFromMmap, List.take_nil, List.map_nil, bootFrames, ne_eq, not_true_eq_false, if_false,
      markRange] at hf
    split_ifs at hf with hr
    exact hr.2
  · obtain ⟨-, -, -, -, hceil, hend⟩ := bootPmm_clear hmap hf
    show f < addrToPage (initMemoryManager _ _).ramEnd
    simp only [initMemoryManager, ramEndFromCandidate] at *
    split_ifs <;> simp only [Option.getD_some, Option.getD_none, alignUp, addrToPage, pageToAddr, userFrameCeil,
      pciHoleStart, pageSize] at * <;> omega

theorem pmmFreeFrames_eq_zero (h : PmmInv s) : pmmFreeFrames s = 0 ↔ ∀ f, s.bitmap f = true := by
  rw [pmmFreeFrames, List.countP_eq_zero]
  refine ⟨fun hall f => ?_, fun hall f _ => by simp [hall f]⟩
  by_contra hf
  rw [Bool.not_eq_true] at hf
  exact hall f (List.mem_range.mpr (h.clear_managed f hf).2.2) (by simp [hf])

/-- **`kalloc` is complete.**  For every boot map whose RAM ends a page below the ceiling and every
sequence of `kalloc` and `free_page`, where no frame at or above the RAM top is freed: `kalloc` fails
exactly if no bit is clear, that is if there are no free frames, and no clear frame lies below the hint
or above the scan. -/
theorem kalloc_complete (modulesEnd : Nat) (mmap : List Mb2MmapFlat) (calls : List PmmCall)
    (htop : (bootFrames (pmmReserveBootImages modulesEnd) (pmmInitFromMmap mmap)).2 + pageSize ≤ userFrameCeil)
    (hfree : ∀ addr, .freePage addr ∈ calls → addrToPage addr < (bootPmm modulesEnd mmap).limit) :
    (kallocScan (pmmRun modulesEnd mmap calls) = none ↔ ∀ f, (pmmRun modulesEnd mmap calls).bitmap f = true) ∧
    (kallocScan (pmmRun modulesEnd mmap calls) = none ↔ pmmFreeFrames (pmmRun modulesEnd mmap calls) = 0) ∧
    ∀ f, (pmmRun modulesEnd mmap calls).bitmap f = false →
      (pmmRun modulesEnd mmap calls).firstAvailablePage ≤ f ∧ f < (pmmRun modulesEnd mmap calls).limit := by
  have h : InReach _ (pmmRun modulesEnd mmap calls) := (bootPmm_inReach htop).calls calls hfree
  generalize pmmRun modulesEnd mmap calls = s at *
  have hreach : ∀ f, s.bitmap f = false → s.firstAvailablePage ≤ f ∧ f < s.limit := fun f hf =>
    ⟨h.clear_hint f hf, by rw [Pmm.limit, h.ram]; exact h.below f hf⟩
  have hnone : kallocScan s = none ↔ ∀ f, s.bitmap f = true := by
    rw [kallocScan_eq_none_iff]
    refine ⟨fun hall f => ?_, fun hall k _ _ => hall k⟩
    by_contra hf
    obtain ⟨h₁, h₂⟩ := hreach f (by simpa using hf)
    exact hf (hall f h₁ h₂)
  exact ⟨hnone, hnone.trans (pmmFreeFrames_eq_zero h.toPmmInv).symm, hreach⟩

/-- One frame is taken and given back on a machine with 1 GiB of RAM. -/
theorem kalloc_complete_small :
    kallocScan (pmmRun 0 [⟨0, 0x40000000, 1⟩] [.kalloc, .freePage 0x21000000]) = none ↔
      pmmFreeFrames (pmmRun 0 [⟨0, 0x40000000, 1⟩] [.kalloc, .freePage 0x21000000]) = 0 :=
  (kalloc_complete 0 [⟨0, 0x40000000, 1⟩] [.kalloc, .freePage 0x21000000] (by decide +kernel)
    (by simp; decide +kernel)).2.1

/-- **The last frame below the ceiling is never handed out**: it is the only free one, and `kalloc` fails. -/
theorem last_frame_lost :
    kallocScan (bootPmm 0 [⟨0x7FFFF000, 0x1000, 1⟩]) = none ∧
      (bootPmm 0 [⟨0x7FFFF000, 0x1000, 1⟩]).bitmap 0x7FFFF = false ∧
      pmmFreeFrames (bootPmm 0 [⟨0x7FFFF000, 0x1000, 1⟩]) ≠ 0 := by
  have hclear : (bootPmm 0 [⟨0x7FFFF000, 0x1000, 1⟩]).bitmap 0x7FFFF = false := by decide +kernel
  refine ⟨kallocScan_eq_none_iff.mpr fun k _ hk => ?_, hclear, fun hzero => ?_⟩
  · by_contra hf
    obtain ⟨e, he, -, hcov, -⟩ := bootPmm_clear (List.cons_ne_nil _ _) (Bool.not_eq_true _ ▸ hf)
    obtain rfl := List.mem_singleton.mp he
    have hlimit : (bootPmm 0 [⟨0x7FFFF000, 0x1000, 1⟩]).limit = 0x7FFFF := by decide +kernel
    have := hcov.1
    simp only [pageToAddr, pageSize] at this
    omega
  · have := (pmmFreeFrames_eq_zero (bootPmm_inv ..)).mp hzero 0x7FFFF
    rw [hclear] at this
    cases this

end CactKernel
