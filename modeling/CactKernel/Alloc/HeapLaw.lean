/-
CactKernel/Alloc/HeapLaw.lean

The kernel heap over whole runs.

`HeapRep h cells` says that the block list of the heap is the tiling `cells`
of its window.  The calls rewrite it in two ways, each stated once: a free
cell is taken (`Granted`) or a used one is given back (`Released`); in both,
all other used cells and their payloads stay as they are.  Runs carry the
list of live allocations next to the heap, and let their owners write to
them, so the contents of payloads are arbitrary.

Main result: `kernel_heap_tiled`.  Along every run from `init_heap` the block
list tiles the window, no two neighbours are free, live allocations are
disjoint and large enough, and no call gets stuck.
-/
import CactKernel.Alloc.Heap
import CactKernel.Mm.Pmm
import Mathlib.Algebra.Group.Nat.Defs

namespace CactKernel

open Function Tiling Runs HeapBlock

/-! ### The block list as a tiling -/

/-- **The block list of `h` is the tiling `cells` of the window.** -/
structure HeapRep (h : Heap) (cells : List Cell) : Prop where
  head : h.head = h.start
  pos : 0 < h.start
  aligned : h.start % 8 = 0
  top : h.last < u32Size
  seg : Seg h.mem h.start cells 0
  ne : cells ≠ []
  extent : h.start + span hdrSize cells = h.last
  whole : ∀ c ∈ cells, 8 ∣ c.size
  apart : cells.IsChain NotBothFree

variable {w : Words}

theorem initHeap_rep {start last : Nat} {h : Heap} (hpos : 0 < start) (hstart : start % 8 = 0)
    (hlast : last % 8 = 0) (htop : last < u32Size) (hinit : initHeap w start last = some h) :
    HeapRep h [⟨last - start - hdrSize, true⟩] := by
  unfold initHeap at hinit
  split_ifs at hinit with hsize
  obtain rfl := Option.some.inj hinit
  refine ⟨rfl, hpos, hstart, htop, ⟨⟨?_, ?_, ?_, ?_⟩, trivial⟩, by simp, ?_, ?_, .singleton _⟩
  all_goals simp only [put, magic, size, isFree, next, linkTo, hdrSize] at *
  · simp
  · simp
  · simp
  · simp
  · simp only [span_cons, span_nil]
    omega
  · intro c hc
    obtain rfl := List.mem_singleton.mp hc
    dsimp only
    omega

namespace HeapRep

variable {h : Heap} {cells : List Cell}

section

variable (hr : HeapRep h cells) {c : Cell}
include hr

theorem length_le_fuel : cells.length ≤ h.fuel := by
  have := mul_length_le_span hdrSize cells
  have := hr.extent
  unfold Heap.fuel hdrSize at *
  omega

theorem linkTo_head : linkTo h.start 0 cells = h.head := by
  rw [hr.head]
  rcases cells with - | ⟨c, cs⟩
  · exact absurd rfl hr.ne
  · rfl

/-- Where a cell lies. -/
theorem bounds {y : Nat} (hy : At hdrSize h.start cells y c) :
    h.start ≤ y ∧ y + hdrSize + c.size ≤ h.last ∧ y % 8 = 0 := by
  have hb := hy.bounds
  have := hr.extent
  obtain ⟨pre, post, rfl, rfl⟩ := hy.split
  have hdvd : 8 ∣ span hdrSize pre := dvd_span (by decide) fun d hd => hr.whole d (by simp [hd])
  have := hr.aligned
  refine ⟨hb.1, by omega, by omega⟩

/-- Writing to a payload leaves the list alone. -/
theorem write {y x v : Nat} (hy : At hdrSize h.start cells y c) (h₁ : y + hdrSize ≤ x)
    (h₂ : x < y + hdrSize + c.size) : HeapRep { h with mem := update h.mem x v } cells := by
  refine { hr with seg := ?_ }
  refine hr.seg.congr fun z d hz u hu₁ hu₂ => update_of_ne ?_ ..
  rcases hz.apart hy with ⟨rfl, rfl⟩ | hle | hle <;> unfold hdrSize at * <;> omega

end

end HeapRep

/-! ### Taking a cell -/

variable {h h' : Heap} {cells cells' : List Cell} {n k b : Nat} {c : Cell}

/-- A free cell was taken for `k` bytes at `p`; the other used cells are as
they were. -/
structure Granted (h : Heap) (cells : List Cell) (k : Nat) (h' : Heap) (cells' : List Cell)
    (p : Nat) : Prop where
  rep : HeapRep h' cells'
  start : h'.start = h.start
  last : h'.last = h.last
  hdr_le : hdrSize ≤ p
  was_free : ∃ c, At hdrSize h.start cells (p - hdrSize) c ∧ c.free = true
  block : ∃ u, At hdrSize h.start cells' (p - hdrSize) u ∧ u.free = false ∧ k ≤ u.size
  keep : ∀ y d, At hdrSize h.start cells y d → d.free = false → At hdrSize h.start cells' y d
  frame : ∀ y d, At hdrSize h.start cells y d → d.free = false →
    ∀ x, y ≤ x → x < y + hdrSize + d.size → h'.mem x = h.mem x

theorem roundSize_spec (h : roundSize n = some k) : n + 4 ≤ k ∧ 8 ∣ k ∧ n + 16 ≤ u32Size := by
  obtain ⟨x, hx, h⟩ := Option.bind_eq_some_iff.mp h
  obtain ⟨y, hy, h⟩ := Option.bind_eq_some_iff.mp h
  obtain ⟨z, hz, rfl⟩ := Option.map_eq_some_iff.mp h
  obtain ⟨-, rfl⟩ := checkedAdd_eq_some.mp hx
  obtain ⟨-, rfl⟩ := checkedAdd_eq_some.mp hy
  obtain ⟨hlt, rfl⟩ := checkedAdd_eq_some.mp hz
  simp only [u32Size] at *
  exact ⟨by omega, Nat.dvd_mul_left _ _, by omega⟩

/-- A request is rounded unless a sum overflows. -/
theorem roundSize_isSome (h : n + 16 ≤ u32Size) : ∃ k, roundSize n = some k := by
  simp only [u32Size] at h
  refine ⟨((n + 7) / 8 * 8 + 4 + 7) / 8 * 8, ?_⟩
  simp only [roundSize, checkedAdd, u32Size]
  rw [if_pos (by omega), Option.bind_some, if_pos (by omega), Option.bind_some, if_pos (by omega)]
  rfl

/-- Taking the free cell at `b` for `k` bytes. -/
theorem takeBlock_granted (hr : HeapRep h cells) (hb : At hdrSize h.start cells b c)
    (hfree : c.free = true) (hk : k ≤ c.size) (hk4 : 4 ≤ k) (hk8 : 8 ∣ k) :
    ∃ w cells', takeBlock h.mem b k = some w ∧
      Granted h cells k { h with mem := w } cells' (b + hdrSize) := by
  obtain ⟨hlow, hhigh, -⟩ := hr.bounds hb
  obtain ⟨pre, post, rfl, rfl⟩ := hb.split
  have hpos := hr.pos
  have hal := hr.aligned
  have htop := hr.top
  obtain ⟨w, u, mid, htake, hseg, huk, hmid, hout⟩ :=
    takeBlock_spec hr.seg hk hk4 (by omega)
  obtain ⟨hpre, hrest⟩ := List.forall_mem_append.mp hr.whole
  obtain ⟨hc8, hpost⟩ := List.forall_mem_cons.mp hrest
  -- the new cells fill the old one
  have hspan : span hdrSize (u :: mid) = span hdrSize [c] := by
    rcases hmid with hmid | ⟨hle, hmid⟩ <;> rw [hmid]
    · rfl
    · simp only [span_cons]
      omega
  have hu : u.free = false := by
    rcases hmid with hmid | ⟨-, hmid⟩ <;> rw [(List.cons.inj hmid).1]
  have hsize : ∀ d ∈ u :: mid, 8 ∣ d.size := by
    rcases hmid with hmid | ⟨hle, hmid⟩ <;> rw [hmid]
    · simpa using hc8
    · simp only [List.mem_cons, List.not_mem_nil, or_false, forall_eq_or_imp, forall_eq, hdrSize]
      exact ⟨hk8, by omega⟩
  have hchain : (pre ++ (u :: mid ++ post)).IsChain NotBothFree := by
    rcases hmid with hmid | ⟨-, hmid⟩ <;> rw [hmid]
    · exact isChain_take hr.apart rfl
    · exact isChain_take_front hr.apart hfree rfl
  refine ⟨w, pre ++ (u :: mid ++ post), htake, ?_, rfl, rfl, by omega, ?_, ?_, ?_, ?_⟩
  · refine ⟨hr.head, hpos, hal, htop, hseg, by simp, ?_, ?_, hchain⟩
    · rw [← hr.extent]
      simp only [span_append, hspan, span_cons, span_nil]
      omega
    · exact List.forall_mem_append.mpr ⟨hpre, List.forall_mem_append.mpr ⟨hsize, hpost⟩⟩
  · exact ⟨c, at_mid, hfree⟩
  · exact ⟨u, at_mid, hu, huk⟩
  · intro y d hd hused
    rcases hd.replace _ hspan with ⟨-, rfl⟩ | hkeep
    · simp [hfree] at hused
    · exact hkeep
  · intro y d hd hused x h₁ h₂
    refine hout x ?_
    rcases hd.apart at_mid with ⟨rfl, rfl⟩ | hle | hle
    · simp [hfree] at hused
    · exact Or.inl (by omega)
    · exact Or.inr (by omega)

/-- **What `kmalloc` does**: nothing, or it takes a free cell. -/
theorem kmalloc_spec (hr : HeapRep h cells) (hk : roundSize n = some k) :
    ∃ h' p, kmalloc h n = some (h', p) ∧
      (p = 0 ∧ h' = h ∨ 0 < p ∧ ∃ cells', Granted h cells k h' cells' p) := by
  unfold kmalloc
  by_cases h0 : n = 0
  · exact ⟨h, 0, if_pos h0, Or.inl ⟨rfl, rfl⟩⟩
  obtain ⟨hk4, hk8, -⟩ := roundSize_spec hk
  obtain ⟨r, hbest, hcase⟩ := findBest_spec k 0 hr.seg hr.pos hr.length_le_fuel
  rw [hr.linkTo_head] at hbest
  rw [if_neg h0, hk, Option.bind_some, if_neg (by rw [hr.head]; omega), hbest, Option.bind_some]
  rcases hcase with rfl | ⟨c, hc, hfree, hle⟩
  · exact ⟨h, 0, rfl, Or.inl ⟨rfl, rfl⟩⟩
  · obtain ⟨w, cells', htake, hgrant⟩ := takeBlock_granted hr hc hfree hle (by omega) hk8
    have hr0 : r ≠ 0 := by
      have := (hr.bounds hc).1
      have := hr.pos
      omega
    refine ⟨{ h with mem := w }, r + hdrSize, ?_, Or.inr ⟨by omega, cells', hgrant⟩⟩
    dsimp only
    rw [if_neg hr0, htake]
    rfl

/-- Writing into the new block changes nothing else. -/
theorem Granted.write {p x v : Nat} {u : Cell} (hg : Granted h cells k h' cells' p)
    (hu : At hdrSize h.start cells' (p - hdrSize) u) (h₁ : p ≤ x) (h₂ : x < p + u.size) :
    Granted h cells k { h' with mem := update h'.mem x v } cells' p := by
  have hle := hg.hdr_le
  have hu' : At hdrSize h'.start cells' (p - hdrSize) u := hg.start ▸ hu
  refine ⟨hg.rep.write hu' (by omega) (by omega), hg.start, hg.last, hle, hg.was_free, hg.block,
    hg.keep, fun y d hd hused z h₃ h₄ => ?_⟩
  obtain ⟨c, hc, hfree⟩ := hg.was_free
  have hne : z ≠ x := by
    rcases (hg.keep y d hd hused).apart hu with ⟨rfl, -⟩ | hle | hle
    · -- the cell at `p` was free, so it is not the used one
      rw [hd.unique (by decide) hc, hfree] at hused
      cases hused
    · omega
    · omega
  exact (update_of_ne hne ..).trans (hg.frame y d hd hused z h₃ h₄)

/-! ### Giving a cell back -/

/-- The used cell at `b` was given back; the other used cells are as they were. -/
structure Released (h : Heap) (cells : List Cell) (b : Nat) (h' : Heap) (cells' : List Cell) :
    Prop where
  rep : HeapRep h' cells'
  start : h'.start = h.start
  last : h'.last = h.last
  keep : ∀ y d, At hdrSize h.start cells y d → d.free = false → y ≠ b →
    At hdrSize h.start cells' y d
  frame : ∀ y d, At hdrSize h.start cells y d →
    ∀ x, y + hdrSize ≤ x → x < y + hdrSize + d.size → h'.mem x = h.mem x

/-- Setting the free flag of a cell. -/
theorem seg_setFree {a : Nat} {pre post : List Cell} (h : Seg w a (pre ++ c :: post) 0) :
    Seg (update w (a + span hdrSize pre + 8) 1) a (pre ++ ⟨c.size, true⟩ :: post) 0 := by
  have hmid := seg_append.mp h
  refine Seg.replace [c] [⟨c.size, true⟩] h (fun x hx => update_of_ne ?_ ..) ?_ rfl
    (by simp) (by simp)
  · simp only [span_cons] at hx
    unfold hdrSize at *
    omega
  · obtain ⟨-, ⟨h₁, h₂, -, h₄⟩, -⟩ := hmid
    refine ⟨⟨?_, ?_, ?_, ?_⟩, trivial⟩
    all_goals simp only [magic, size, isFree, next] at *
    · rw [update_of_ne (by omega), h₁]
    · rw [update_of_ne (by omega), h₂]
    · simp
    · rw [update_of_ne (by omega), h₄]
      simp [linkTo, Nat.add_assoc]

/-- Giving back the cell at `b`: it is marked free, then one pass merges
neighbours. -/
theorem coalesceLoop_released (hr : HeapRep h cells) (hc : At hdrSize h.start cells b c) :
    ∃ w cells', coalesceLoop (update h.mem (b + 8) 1) h.fuel h.head = some w ∧
      Released h cells b { h with mem := w } cells' := by
  obtain ⟨pre, post, rfl, rfl⟩ := hc.split
  have hspan : span hdrSize (pre ++ ⟨c.size, true⟩ :: post) = span hdrSize (pre ++ c :: post) := by
    simp
  obtain ⟨w, hloop, hseg, hframe⟩ := coalesceLoop_spec h.fuel []
    (pre ++ ⟨c.size, true⟩ :: post) (seg_setFree hr.seg) hr.pos
    (by rw [List.nil_append, hspan, hr.extent]; exact hr.top)
    (by simpa using hr.length_le_fuel)
  have hlink : linkTo (h.start + span hdrSize []) 0 (pre ++ ⟨c.size, true⟩ :: post) = h.head := by
    rw [hr.head]
    rcases pre with - | ⟨e, pre⟩ <;> rfl
  rw [hlink] at hloop
  refine ⟨w, coalesce hdrSize (pre ++ ⟨c.size, true⟩ :: post), hloop, ?_, rfl, rfl, ?_, ?_⟩
  · refine ⟨hr.head, hr.pos, hr.aligned, hr.top, hseg, ?_, ?_, ?_, coalesce_isChain⟩
    · intro hnil
      have := congrArg (span hdrSize) hnil
      rw [span_coalesce] at this
      simp only [span_append, span_cons, span_nil] at this
      unfold hdrSize at this
      omega
    · rw [span_coalesce, hspan, hr.extent]
    · obtain ⟨hpre, hrest⟩ := List.forall_mem_append.mp hr.whole
      obtain ⟨hc8, hpost⟩ := List.forall_mem_cons.mp hrest
      refine dvd_size_coalesce (by decide) (List.forall_mem_append.mpr ⟨hpre, ?_⟩)
      exact List.forall_mem_cons.mpr ⟨hc8, hpost⟩
  · intro y d hd hused hne
    refine At.coalesce ?_ hused
    rcases hd.replace [⟨c.size, true⟩] rfl with ⟨rfl, -⟩ | hkeep
    · exact absurd rfl hne
    · exact hkeep
  · -- a word of a payload is in no header, before and after the flag is set
    intro y d hd x h₁ h₂
    have hpayload : ∀ z e, At hdrSize h.start (pre ++ c :: post) z e → x < z ∨ z + hdrSize ≤ x := by
      intro z e hz
      rcases hz.apart hd with ⟨rfl, rfl⟩ | hle | hle <;> omega
    show w x = h.mem x
    rw [hframe x fun z e hz => ?_]
    · have hflag := hpayload _ c at_mid
      generalize h.start + span hdrSize pre = b at hflag ⊢
      exact update_of_ne (by unfold hdrSize at hflag; omega) ..
    · rcases hz.replace [c] rfl with ⟨rfl, -⟩ | hold
      · exact hpayload _ c at_mid
      · exact hpayload z e hold

/-- **What `kfree_impl` does**: nothing, or it gives back the cell in front of
the pointer. -/
theorem kfreeImpl_spec (ptr : Nat) (hr : HeapRep h cells) :
    ∃ h', kfreeImpl h ptr = some h' ∧
      (h' = h ∨ (∃ c, At hdrSize h.start cells (ptr - hdrSize) c) ∧
        ∃ cells', Released h cells (ptr - hdrSize) h' cells') := by
  unfold kfreeImpl
  by_cases h0 : ptr = 0 ∨ h.inRange (ptr - hdrSize) = false
  · exact ⟨h, if_pos h0, Or.inl rfl⟩
  obtain ⟨found, hfound, hiff⟩ := linked_spec hr.seg le_rfl hr.pos hr.extent.le
    hr.length_le_fuel
  rw [hr.linkTo_head] at hfound
  rw [if_neg h0, hfound, Option.bind_some]
  by_cases hskip : found = false ∨ freeable h.mem (ptr - hdrSize) = false
  · exact ⟨h, if_pos hskip, Or.inl rfl⟩
  obtain ⟨c, hc⟩ := hiff.mp (by simpa using fun hf => hskip (Or.inl hf))
  obtain ⟨w, cells', hloop, hrel⟩ := coalesceLoop_released hr hc
  exact ⟨_, by rw [if_neg hskip, hloop]; rfl, Or.inr ⟨⟨c, hc⟩, cells', hrel⟩⟩

/-! ### Live allocations -/

/-- An allocation: the pointer handed out, the raw pointer of its block and the
size that was asked for. -/
structure Alloc where
  ptr : Nat
  raw : Nat
  requested : Nat
deriving DecidableEq, Repr

/-- End of the block of an allocation, canary included. -/
def Alloc.blockEnd (h : Heap) (x : Alloc) : Nat := x.raw + size h.mem (x.raw - hdrSize)

/-- The allocation lies in a used cell, with room for the canary; an aligned
one has the raw pointer in front of it. -/
structure AllocOk (h : Heap) (cells : List Cell) (x : Alloc) : Prop where
  hdr_le : hdrSize ≤ x.raw
  block : ∃ c, At hdrSize h.start cells (x.raw - hdrSize) c ∧ c.free = false ∧
    x.ptr + x.requested + 4 ≤ x.raw + c.size
  back : x.ptr = x.raw ∨ x.raw + 4 ≤ x.ptr ∧ h.mem (x.ptr - 4) = x.raw
  aligned : x.ptr % 4 = 0

variable {x y : Alloc}

theorem hdrSize_pos : 0 < hdrSize := by decide

theorem AllocOk.raw_le (hx : AllocOk h cells x) : x.raw ≤ x.ptr := by
  rcases hx.back with heq | ⟨hlt, -⟩ <;> omega

/-- An allocation stays good while its cell and its payload stay. -/
theorem AllocOk.keep (hx : AllocOk h cells x) (hstart : h'.start = h.start)
    (hkeep : ∀ d, At hdrSize h.start cells (x.raw - hdrSize) d → d.free = false →
      At hdrSize h.start cells' (x.raw - hdrSize) d)
    (hframe : ∀ d, At hdrSize h.start cells (x.raw - hdrSize) d → d.free = false →
      ∀ a, x.raw ≤ a → a < x.ptr → a < x.raw + d.size → h'.mem a = h.mem a) :
    AllocOk h' cells' x := by
  obtain ⟨c, hc, hused, hle⟩ := hx.block
  refine ⟨hx.hdr_le, ⟨c, hstart ▸ hkeep c hc hused, hused, hle⟩, ?_, hx.aligned⟩
  rcases hx.back with heq | ⟨h₁, h₂⟩
  · exact Or.inl heq
  · exact Or.inr ⟨h₁, by rw [hframe c hc hused _ (by omega) (by omega) (by omega), h₂]⟩

/-- The heap and its live allocations. -/
structure HeapTrace where
  heap : Heap
  live : List Alloc

/-- The invariant of a run. -/
structure HeapInv (t : HeapTrace) (cells : List Cell) : Prop where
  rep : HeapRep t.heap cells
  ok : ∀ x ∈ t.live, AllocOk t.heap cells x
  distinct : t.live.Pairwise fun x y => x.raw ≠ y.raw

variable {t : HeapTrace} {align : Nat}

section

variable (ht : HeapInv t cells)
include ht

/-- Different live allocations have different blocks. -/
theorem HeapInv.raw_ne (hx : x ∈ t.live) (hy : y ∈ t.live)
    (hne : x ≠ y) : x.raw ≠ y.raw :=
  have : Std.Symm fun x y : Alloc => x.raw ≠ y.raw := ⟨fun _ _ h => h.symm⟩
  ht.distinct.forall hx hy hne

/-- A grant adds a live allocation. -/
theorem HeapInv.grant (hg : Granted t.heap cells k h' cells' x.raw)
    (hx : AllocOk h' cells' x) : HeapInv ⟨h', x :: t.live⟩ cells' := by
  obtain ⟨c, hc, hfree⟩ := hg.was_free
  refine ⟨hg.rep, List.forall_mem_cons.mpr ⟨hx, fun y hy => ?_⟩,
    List.pairwise_cons.mpr ⟨fun y hy heq => ?_, ht.distinct⟩⟩
  · exact (ht.ok y hy).keep hg.start (fun d hd hused => hg.keep _ d hd hused)
      fun d hd hused a h₁ h₂ h₃ => hg.frame _ d hd hused a (by omega) (by omega)
  · -- the cell of a live allocation is not free
    obtain ⟨e, he, hused, -⟩ := (ht.ok y hy).block
    rw [← heq] at he
    rw [he.unique hdrSize_pos hc, hfree] at hused
    cases hused

/-- Giving back the cell of a live allocation takes the allocation off the list. -/
theorem HeapInv.release (hx : x ∈ t.live)
    (hrel : Released t.heap cells (x.raw - hdrSize) h' cells') :
    HeapInv ⟨h', t.live.filter fun y => y.ptr ≠ x.ptr⟩ cells' := by
  refine ⟨hrel.rep, fun y hy => ?_, ht.distinct.filter _⟩
  obtain ⟨hy, hne⟩ := List.mem_filter.mp hy
  have hok := ht.ok y hy
  have hle := hok.hdr_le
  have hle' := (ht.ok x hx).hdr_le
  -- another live allocation has another block
  have hraw : y.raw ≠ x.raw := by
    refine ht.raw_ne hy hx ?_
    rintro rfl
    simp at hne
  exact hok.keep hrel.start (fun d hd hused => hrel.keep _ d hd hused (by omega))
    fun d hd hused a h₁ h₂ h₃ => hrel.frame _ d hd a (by omega) (by omega)

/-- Forgetting an allocation whose block is not given back. -/
theorem HeapInv.forget (p : Alloc → Bool) :
    HeapInv ⟨t.heap, t.live.filter p⟩ cells :=
  ⟨ht.rep, fun y hy => ht.ok y (List.mem_filter.mp hy).1, ht.distinct.filter _⟩

/-- The owner of an allocation writes to it. -/
theorem HeapInv.write {a v : Nat} (hx : x ∈ t.live) (h₁ : x.ptr ≤ a)
    (h₂ : a < x.ptr + x.requested) :
    HeapInv ⟨{ t.heap with mem := update t.heap.mem a v }, t.live⟩ cells := by
  obtain ⟨c, hc, hused, hle⟩ := (ht.ok x hx).block
  have hhdr := (ht.ok x hx).hdr_le
  have hraw := (ht.ok x hx).raw_le
  refine ⟨ht.rep.write hc (by omega) (by omega), fun y hy => ?_, ht.distinct⟩
  have hok := ht.ok y hy
  have hhdr' := hok.hdr_le
  refine hok.keep rfl (fun _ hd _ => hd) fun d hd _ z h₃ h₄ h₅ => update_of_ne ?_ ..
  by_cases hyx : y = x
  · subst hyx
    omega
  · have hne := ht.raw_ne hy hx hyx
    rcases hd.apart hc with ⟨heq, -⟩ | hle | hle <;> omega

/-- **What `kfree` does to a live pointer**: nothing, or it gives back its block. -/
theorem kfree_spec (hx : x ∈ t.live) :
    ∃ h', kfree t.heap x.ptr = some h' ∧
      (h' = t.heap ∨ ∃ cells', Released t.heap cells (x.raw - hdrSize) h' cells') := by
  obtain ⟨c, hc, hused, hle⟩ := (ht.ok x hx).block
  obtain ⟨nxt, hheader⟩ := ht.rep.seg.header hc
  obtain ⟨hlow, hhigh, -⟩ := ht.rep.bounds hc
  have hpos := ht.rep.pos
  have himpl : ∃ h', kfreeImpl t.heap x.raw = some h' ∧
      (h' = t.heap ∨ ∃ cells', Released t.heap cells (x.raw - hdrSize) h' cells') := by
    obtain ⟨h', hfree, hcase⟩ := kfreeImpl_spec x.raw ht.rep
    exact ⟨h', hfree, hcase.imp_right And.right⟩
  have hin : ∀ a, t.heap.start ≤ a → a < t.heap.last → t.heap.inRange a = true := by
    intro a h₁ h₂
    simp [Heap.inRange, h₁, h₂]
  unfold kfree
  rcases (ht.ok x hx).back with heq | ⟨hlt, hback⟩
  · rw [heq, if_neg (by omega), if_pos ⟨hin _ hlow (by omega), hheader.magic⟩]
    exact himpl
  · rw [if_neg (by omega)]
    split_ifs with h₁ h₂
    · -- a stale magic word inside the block: no cell starts there
      obtain ⟨h', hfree, hcase⟩ := kfreeImpl_spec x.ptr ht.rep
      refine ⟨h', hfree, Or.inl (hcase.resolve_right ?_)⟩
      rintro ⟨⟨d, hd⟩, -⟩
      rcases hd.apart hc with ⟨h, -⟩ | h | h <;> unfold hdrSize at * <;> omega
    · rw [hback]
      exact himpl
    · exact ⟨t.heap, rfl, Or.inl rfl⟩

end

/-! ### Runs -/

/-- The calls of a run; `write` is a store by the owner of an allocation. -/
inductive HeapCall where
  | kmalloc (n : Nat)
  | kmallocAligned (n align : Nat)
  | kfree (ptr : Nat)
  | write (ptr off v : Nat)

def heapStep (t : HeapTrace) : HeapCall → Option HeapTrace
  | .kmalloc n =>
    (kmalloc t.heap n).map fun r => ⟨r.1, if r.2 = 0 then t.live else ⟨r.2, r.2, n⟩ :: t.live⟩
  | .kmallocAligned n align =>
    (kmallocAligned t.heap n align).map fun r =>
      ⟨r.1, if r.2 = 0 then t.live else ⟨r.2, r.1.mem (r.2 - 4), n⟩ :: t.live⟩
  | .kfree ptr => (kfree t.heap ptr).map fun h => ⟨h, t.live.filter fun y => y.ptr ≠ ptr⟩
  | .write ptr off v => some ⟨{ t.heap with mem := update t.heap.mem (ptr + off) v }, t.live⟩

/-- Alignments are powers of two, live pointers are freed, and owners write
inside what they asked for. -/
def HeapCall.Proper (t : HeapTrace) : HeapCall → Prop
  | .kmalloc _ => True
  | .kmallocAligned _ align => ∃ k, align = 2 ^ k
  | .kfree ptr => ∃ x ∈ t.live, x.ptr = ptr
  | .write ptr off _ => ∃ x ∈ t.live, x.ptr = ptr ∧ off < x.requested

/-- The sums in the rounding of a request stay below 4 GiB; otherwise the kernel
panics before it changes anything. -/
def HeapCall.Fits : HeapCall → Prop
  | .kmalloc n => n + 16 ≤ u32Size
  | .kmallocAligned n align => n + max align 4 + 20 ≤ u32Size
  | _ => True

/-- A run keeps the invariant, in the same window. -/
def HeapRun (h : Heap) (t : HeapTrace) : Prop :=
  (∃ cells, HeapInv t cells) ∧ t.heap.start = h.start ∧ t.heap.last = h.last

/-- `kmalloc` keeps the invariant. -/
theorem kmalloc_run (ht : HeapRun h t) (hn : n + 16 ≤ u32Size) :
    ∃ t', heapStep t (.kmalloc n) = some t' ∧ HeapRun h t' := by
  obtain ⟨⟨cells, hinv⟩, hstart, hlast⟩ := ht
  obtain ⟨k, hk⟩ := roundSize_isSome hn
  obtain ⟨h', p, hcall, hcase⟩ := kmalloc_spec hinv.rep hk
  refine ⟨_, by rw [heapStep, hcall]; rfl, ?_⟩
  rcases hcase with ⟨rfl, rfl⟩ | ⟨hp, cells', hg⟩
  · exact ⟨⟨cells, hinv⟩, hstart, hlast⟩
  · refine ⟨⟨cells', ?_⟩, hg.start.trans hstart, hg.last.trans hlast⟩
    dsimp only
    rw [if_neg (by omega)]
    obtain ⟨u, hu, hused, hle⟩ := hg.block
    have hle' := hg.hdr_le
    have hal := (hg.rep.bounds (hg.start ▸ hu)).2.2
    have := (roundSize_spec hk).1
    exact hinv.grant hg ⟨hle', ⟨u, hg.start ▸ hu, hused, by dsimp only; omega⟩, Or.inl rfl,
      by unfold hdrSize at *; dsimp only; omega⟩

/-- Rounding up to a power of two. -/
theorem align_spec {y : Nat} (hk : ∃ k, align = 2 ^ k) :
    (y + max align 4 - 1) / max align 4 * max align 4 % 4 = 0 ∧
    y ≤ (y + max align 4 - 1) / max align 4 * max align 4 ∧
    (y + max align 4 - 1) / max align 4 * max align 4 < y + max align 4 := by
  have hdvd : 4 ∣ max align 4 := by
    obtain ⟨k, rfl⟩ := hk
    rcases Nat.lt_or_ge k 2 with hlt | hge
    · obtain rfl | rfl : k = 0 ∨ k = 1 := by omega
      · decide
      · decide
    · have h4 : 4 ∣ 2 ^ k := Nat.pow_dvd_pow 2 hge
      rcases max_choice (2 ^ k) 4 with hm | hm
      · exact hm.symm ▸ h4
      · exact hm.symm ▸ Nat.dvd_refl 4
  have hpos : 0 < max align 4 := by omega
  generalize max align 4 = a at *
  have hdm := Nat.div_add_mod (y + a - 1) a
  have hlt := Nat.mod_lt (y + a - 1) hpos
  rw [Nat.mul_comm] at hdm
  refine ⟨Nat.mod_eq_zero_of_dvd (Nat.dvd_mul_left_of_dvd hdvd _), by omega, by omega⟩

/-- `kmalloc_aligned` keeps the invariant. -/
theorem kmallocAligned_run (ht : HeapRun h t) (hk : ∃ k, align = 2 ^ k)
    (hn : n + max align 4 + 20 ≤ u32Size) :
    ∃ t', heapStep t (.kmallocAligned n align) = some t' ∧ HeapRun h t' := by
  obtain ⟨⟨cells, hinv⟩, hstart, hlast⟩ := ht
  obtain ⟨k, hround⟩ := roundSize_isSome (by omega)
  obtain ⟨h', p, hcall, hcase⟩ := kmalloc_spec hinv.rep hround
  simp only [heapStep, kmallocAligned]
  rw [checkedAdd_of_lt (by omega), Option.bind_some,
    checkedAdd_of_lt (by omega), Option.bind_some, hcall, Option.bind_some]
  rcases hcase with ⟨rfl, rfl⟩ | ⟨hp, cells', hg⟩
  · exact ⟨_, rfl, ⟨cells, hinv⟩, hstart, hlast⟩
  · obtain ⟨u, hu, hused, hle⟩ := hg.block
    have hle' := hg.hdr_le
    have hsize := (roundSize_spec hround).1
    have hhigh := (hg.rep.bounds (hg.start ▸ hu)).2.1
    have htop := hg.rep.top
    obtain ⟨hmod, h₁, h₂⟩ := align_spec hk
    rw [if_neg (by omega), checkedAdd_of_lt (by omega)]
    dsimp only [Option.map_some]
    generalize (p + 4 + max align 4 - 1) / max align 4 * max align 4 = q at *
    refine ⟨_, rfl, ⟨cells', ?_⟩, hg.start.trans hstart, hg.last.trans hlast⟩
    have hg' := hg.write (v := p) hu (show p ≤ q - 4 by omega) (by omega)
    rw [if_neg (by omega), update_self]
    exact hinv.grant hg' ⟨hle', ⟨u, hg.start ▸ hu, hused, by dsimp only; omega⟩,
      Or.inr ⟨h₁, update_self ..⟩, hmod⟩

/-- One call keeps the invariant, and does not get stuck. -/
theorem heapStep_run {c : HeapCall} (ht : HeapRun h t) (hc : c.Proper t)
    (hfits : c.Fits) : ∃ t', heapStep t c = some t' ∧ HeapRun h t' := by
  cases c with
  | kmalloc n => exact kmalloc_run ht hfits
  | kmallocAligned n align => exact kmallocAligned_run ht hc hfits
  | kfree ptr =>
    obtain ⟨x, hx, rfl⟩ := hc
    obtain ⟨⟨cells, hinv⟩, hstart, hlast⟩ := ht
    obtain ⟨h', hcall, hcase⟩ := kfree_spec hinv hx
    refine ⟨_, by rw [heapStep, hcall]; rfl, ?_⟩
    rcases hcase with rfl | ⟨cells', hrel⟩
    · exact ⟨⟨cells, hinv.forget _⟩, hstart, hlast⟩
    · exact ⟨⟨cells', hinv.release hx hrel⟩, hrel.start.trans hstart, hrel.last.trans hlast⟩
  | write ptr off v =>
    obtain ⟨x, hx, rfl, hoff⟩ := hc
    obtain ⟨⟨cells, hinv⟩, hstart, hlast⟩ := ht
    exact ⟨_, rfl, ⟨cells, hinv.write hx (by omega) (by omega)⟩, hstart, hlast⟩

/-- A call that returns had sizes that fit. -/
theorem kmalloc_fits {r : Heap × Nat} (hcall : kmalloc h n = some r) : n + 16 ≤ u32Size := by
  unfold kmalloc at hcall
  by_cases h0 : n = 0
  · simp [h0, u32Size]
  · rw [if_neg h0] at hcall
    obtain ⟨k, hk, -⟩ := Option.bind_eq_some_iff.mp hcall
    exact (roundSize_spec hk).2.2

theorem heapStep_fits {t' : HeapTrace} {c : HeapCall} (h : heapStep t c = some t') : c.Fits := by
  cases c with
  | kmalloc n =>
    obtain ⟨r, hr, -⟩ := Option.map_eq_some_iff.mp h
    exact kmalloc_fits hr
  | kmallocAligned n align =>
    obtain ⟨r, hr, -⟩ := Option.map_eq_some_iff.mp h
    obtain ⟨x, hx, hr⟩ := Option.bind_eq_some_iff.mp hr
    obtain ⟨n', hn', hr⟩ := Option.bind_eq_some_iff.mp hr
    obtain ⟨q, hq, -⟩ := Option.bind_eq_some_iff.mp hr
    obtain ⟨-, rfl⟩ := checkedAdd_eq_some.mp hx
    obtain ⟨-, rfl⟩ := checkedAdd_eq_some.mp hn'
    exact kmalloc_fits hq
  | kfree ptr => trivial
  | write ptr off v => trivial

/-- `init_heap` starts a run. -/
theorem initHeap_run {modulesEnd : Nat} {mmap : List Mb2MmapFlat}
    (hinit : initHeap w (bootPmm modulesEnd mmap).reservedEnd (bootPmm modulesEnd mmap).heapEnd = some h) :
    HeapRun h ⟨h, []⟩ := by
  obtain ⟨hpos, hmod, hmod', htop⟩ := bootPmm_window modulesEnd mmap
  simp only [pageSize] at hmod hmod'
  have hrep := initHeap_rep hpos (by omega) (by omega) htop hinit
  exact ⟨⟨_, hrep, fun _ hx => absurd hx List.not_mem_nil, .nil⟩, rfl, rfl⟩

/-- Where a live allocation ends. -/
theorem HeapInv.blockEnd_eq (ht : HeapInv t cells)
    (hc : At hdrSize t.heap.start cells (x.raw - hdrSize) c) :
    x.blockEnd t.heap = x.raw + c.size := by
  obtain ⟨nxt, hheader⟩ := ht.rep.seg.header hc
  rw [Alloc.blockEnd, hheader.size]

/-- Two live allocations do not meet: their blocks do not. -/
theorem HeapInv.disjoint (ht : HeapInv t cells) (hx : x ∈ t.live) (hy : y ∈ t.live)
    (hne : x.raw ≠ y.raw) : x.blockEnd t.heap ≤ y.ptr ∨ y.blockEnd t.heap ≤ x.ptr := by
  have hle := (ht.ok x hx).hdr_le
  have hle' := (ht.ok y hy).hdr_le
  obtain ⟨c, hc, -⟩ := (ht.ok x hx).block
  obtain ⟨d, hd, -⟩ := (ht.ok y hy).block
  rw [ht.blockEnd_eq hc, ht.blockEnd_eq hd]
  have hx' := (ht.ok x hx).raw_le
  have hy' := (ht.ok y hy).raw_le
  rcases hc.apart hd with ⟨heq, -⟩ | h | h <;> omega

/-- **The kernel heap is a tiling of its window.**  Along every run of calls
from `init_heap`, whatever the payloads hold: the block list lies back to back
in `[heap_start, heap_end)` and fills it, all sizes are multiples of 8, no two
neighbours are free, each live allocation has the bytes that were asked for
and a canary behind them, two live allocations do not meet, and the next call
returns unless the size overflows. -/
theorem kernel_heap_tiled {modulesEnd : Nat} {mmap : List Mb2MmapFlat} {w : Words} {h : Heap}
    {calls : List HeapCall} {t : HeapTrace}
    (hinit : initHeap w (bootPmm modulesEnd mmap).reservedEnd (bootPmm modulesEnd mmap).heapEnd = some h)
    (hproper : MeetsAll heapStep (fun t c => c.Proper t) ⟨h, []⟩ calls)
    (hrun : run heapStep ⟨h, []⟩ calls = some t) :
    (∃ cells, Seg t.heap.mem t.heap.head cells 0 ∧ cells ≠ [] ∧ t.heap.head = h.start ∧
      h.start + span hdrSize cells = h.last ∧ (∀ c ∈ cells, 8 ∣ c.size) ∧
      cells.IsChain NotBothFree) ∧
    (∀ x ∈ t.live, x.ptr + x.requested + 4 ≤ x.blockEnd t.heap) ∧
    (t.live.Pairwise fun x y => x.blockEnd t.heap ≤ y.ptr ∨ y.blockEnd t.heap ≤ x.ptr) ∧
    ∀ c : HeapCall, c.Proper t → c.Fits → (heapStep t c).isSome := by
  have hstep : ∀ {t c t'}, HeapRun h t → c.Proper t → heapStep t c = some t' → HeapRun h t' := by
    intro t c t' ht hc hstep
    obtain ⟨t₁, h₁, hrun₁⟩ := heapStep_run ht hc (heapStep_fits hstep)
    rw [h₁] at hstep
    exact Option.some.inj hstep ▸ hrun₁
  have hend : HeapRun h t := run_invariant hstep (initHeap_run hinit) hproper hrun
  obtain ⟨⟨cells, hinv⟩, hstart, hlast⟩ := hend
  have hrep := hinv.rep
  refine ⟨⟨cells, hrep.head ▸ hrep.seg, hrep.ne, hrep.head.trans hstart, ?_, hrep.whole, hrep.apart⟩,
    fun x hx => ?_, ?_, fun c hc hfits => ?_⟩
  · rw [← hstart, ← hlast]
    exact hrep.extent
  · obtain ⟨c, hc, -, hle⟩ := (hinv.ok x hx).block
    rwa [hinv.blockEnd_eq hc]
  · exact hinv.distinct.imp_of_mem fun hx hy hne => hinv.disjoint hx hy hne
  · obtain ⟨t', ht', -⟩ := heapStep_run ⟨⟨cells, hinv⟩, hstart, hlast⟩ hc hfits
    rw [ht']
    rfl

/-- The heap of a machine with 2 GiB of RAM, over zeroed memory. -/
def plainHeap : Heap := ⟨put (fun _ => 0) 0x20000000 0xFFFFF0 1 0, 0x20000000, 0x20000000, 0x21000000⟩

/-- An allocation, its release, and an aligned allocation. -/
def plainCalls : List HeapCall := [.kmalloc 100, .kfree 0x20000010, .kmallocAligned 64 32]

theorem kernel_heap_tiled_plain :
    ∃ t, run heapStep ⟨plainHeap, []⟩ plainCalls = some t ∧
      (∃ cells, Seg t.heap.mem t.heap.head cells 0 ∧ cells ≠ [] ∧ t.heap.head = plainHeap.start ∧
        plainHeap.start + span hdrSize cells = plainHeap.last ∧ (∀ c ∈ cells, 8 ∣ c.size) ∧
        cells.IsChain NotBothFree) ∧
      (∀ x ∈ t.live, x.ptr + x.requested + 4 ≤ x.blockEnd t.heap) ∧
      (t.live.Pairwise fun x y => x.blockEnd t.heap ≤ y.ptr ∨ y.blockEnd t.heap ≤ x.ptr) ∧
      ∀ c : HeapCall, c.Proper t → c.Fits → (heapStep t c).isSome := by
  have hinit : initHeap (fun _ => 0) (bootPmm 0 plainMap).reservedEnd (bootPmm 0 plainMap).heapEnd =
      some plainHeap := by
    have hwindow : (bootPmm 0 plainMap).reservedEnd = 0x20000000 ∧
        (bootPmm 0 plainMap).heapEnd = 0x21000000 := by decide +kernel
    rw [hwindow.1, hwindow.2]
    rfl
  have hlive : (heapStep ⟨plainHeap, []⟩ (.kmalloc 100)).map (fun t => t.live) =
      some [⟨0x20000010, 0x20000010, 100⟩] := by
    decide +kernel
  obtain ⟨t, ht⟩ := Option.isSome_iff_exists.mp
    (show (run heapStep ⟨plainHeap, []⟩ plainCalls).isSome = true by decide +kernel)
  have hproper : MeetsAll heapStep (fun t c => c.Proper t) ⟨plainHeap, []⟩ plainCalls := by
    refine ⟨trivial, fun s hs => ⟨⟨⟨0x20000010, 0x20000010, 100⟩, ?_, rfl⟩, fun _ _ =>
      ⟨⟨5, rfl⟩, fun _ _ => trivial⟩⟩⟩
    rw [hs] at hlive
    simp [Option.some.inj hlive]
  exact ⟨t, ht, kernel_heap_tiled hinit hproper ht⟩

end CactKernel
