/-
CactKernel/Mm/PmmLaw.lean

The frame lifetime law of the physical memory manager.

A call history is a list of `Call`s, the newest first, and `bal` reads the
balance of a frame off it: one for the `kalloc` that handed the frame out,
one more for each `page_ref_inc` since and one less for each `free_page`.
The history knows nothing of bitmaps, counts or hints, so `bal` is the
specification and the allocator state the implementation.

`Traced` runs the two side by side.  A reference is taken on a frame that
has one, and given back by a holder (`0 < bal`); any other order of calls is
allowed.  `kalloc` is the whole loop of the source: a pass under the lock
and, after a pass that found nothing, up to `MAX_RECLAIM_ROUNDS` rounds in
which `swap_evict_page` or `oom_kill` makes holders release frames.

Main results: `Lawful` ties the count, the bitmap and the hint to the
balance and is kept by every call except a `page_ref_inc` on a frame with
65535 references (`step_lawful`), so the law holds along all runs that make
no such call (`frame_lifetime_law`); the 65536th reference breaks it
(`saturated_frame_handed_out_twice`).
-/
import CactKernel.Mm.Pmm
import Mathlib.Data.List.Infix

namespace CactKernel

open Function

/-! ### Call histories -/

/-- A completed call of the page allocator, with the frame it concerns. -/
inductive Call where
  | kalloc (result : Option Nat)
  | pageRefInc (f : Nat)
  | freePage (f : Nat)
deriving DecidableEq, Repr

/-- References to `f` outstanding after a history, the newest call first. -/
def bal : List Call → Nat → Nat
  | [], _ => 0
  | .kalloc r :: l, f => if r = some f then 1 else bal l f
  | .pageRefInc g :: l, f => if g = f then bal l f + 1 else bal l f
  | .freePage g :: l, f => if g = f then bal l f - 1 else bal l f

/-- Some `kalloc` of the history returned `f`. -/
def HandedOut (l : List Call) (f : Nat) : Prop := Call.kalloc (some f) ∈ l

@[simp] theorem bal_nil (f : Nat) : bal [] f = 0 := rfl

theorem bal_kalloc (r : Option Nat) (l : List Call) (f : Nat) :
    bal (.kalloc r :: l) f = if r = some f then 1 else bal l f := rfl

theorem bal_pageRefInc (g : Nat) (l : List Call) (f : Nat) :
    bal (.pageRefInc g :: l) f = if g = f then bal l f + 1 else bal l f := rfl

theorem bal_freePage (g : Nat) (l : List Call) (f : Nat) :
    bal (.freePage g :: l) f = if g = f then bal l f - 1 else bal l f := rfl

/-! ### Calls on a traced allocator -/

/-- The allocator with the history of its calls. -/
structure Traced where
  pmm : Pmm
  log : List Call

/-- The allocator as boot leaves it. -/
def Traced.boot (modulesEnd : Nat) (mmap : List Mb2MmapFlat) : Traced := ⟨bootPmm modulesEnd mmap, []⟩

/-- A holder gives one reference to `f` back. -/
def release (t : Traced) (f : Nat) : Option Traced :=
  if 0 < bal t.log f then some ⟨freePage t.pmm (pageToAddr f), .freePage f :: t.log⟩ else none

/-- One more reference to a frame that is referenced. -/
def retain (t : Traced) (f : Nat) : Option Traced :=
  if 0 < bal t.log f then some ⟨pageRefInc t.pmm (pageToAddr f), .pageRefInc f :: t.log⟩ else none

/-- The loop of `kalloc`.  The list holds, for each reclaim round that
succeeds, the frames its victims release; where it ends the next round fails
or the rounds are used up. -/
def kallocLoop (t : Traced) : List (List Nat) → Option Traced
  | [] =>
    match kallocScan t.pmm with
    | some (f, p) => some ⟨p, .kalloc (some f) :: t.log⟩
    | none => some ⟨t.pmm, .kalloc none :: t.log⟩
  | freed :: rounds =>
    match kallocScan t.pmm with
    | some (f, p) => some ⟨p, .kalloc (some f) :: t.log⟩
    | none => (Runs.run release t freed).bind fun t' => kallocLoop t' rounds

def maxReclaimRounds : Nat := 4

/-- The calls the rest of the kernel makes. -/
inductive Event where
  | kalloc (reclaim : List (List Nat))
  | pageRefInc (f : Nat)
  | freePage (f : Nat)
deriving DecidableEq, Repr

/-- One call; `none` when the caller does not hold the reference it uses. -/
def Traced.step (t : Traced) : Event → Option Traced
  | .kalloc reclaim => kallocLoop t (reclaim.take maxReclaimRounds)
  | .pageRefInc f => retain t f
  | .freePage f => release t f

/-- The 16-bit count of the frame has room for the reference. -/
def Traced.CountFits (t : Traced) : Event → Prop
  | .pageRefInc f => bal t.log f < refcountMax
  | _ => True

instance (t : Traced) : (e : Event) → Decidable (t.CountFits e)
  | .pageRefInc f => inferInstanceAs (Decidable (bal t.log f < refcountMax))
  | .kalloc _ => isTrue trivial
  | .freePage _ => isTrue trivial

/-! ### The law -/

/-- A frame the next `kalloc` can return: clear, and inside the scanned range. -/
def Pmm.Free (s : Pmm) (f : Nat) : Prop :=
  s.bitmap f = false ∧ s.firstAvailablePage ≤ f ∧ f < s.limit

/-- The allocator implements its history. -/
structure Lawful (t : Traced) : Prop where
  inv : PmmInv t.pmm
  /-- The count of a frame is its balance. -/
  count : ∀ f, t.pmm.refcounts f = bal t.log f
  /-- A frame that was handed out is one `free_page` accepts and `kalloc` scans. -/
  managed : ∀ f, HandedOut t.log f → t.pmm.Managed f ∧ f < t.pmm.limit
  /-- A frame that was handed out is clear exactly when nobody refers to it. -/
  clear_iff : ∀ f, HandedOut t.log f → (t.pmm.bitmap f = false ↔ bal t.log f = 0)
  handedOut : ∀ f, 0 < bal t.log f → HandedOut t.log f
  /-- No `kalloc` of the history returned a referenced frame. -/
  fresh : ∀ l f, Call.kalloc (some f) :: l <:+ t.log → bal l f = 0

theorem boot_lawful (modulesEnd : Nat) (mmap : List Mb2MmapFlat) :
    Lawful (.boot modulesEnd mmap) where
  inv := bootPmm_inv modulesEnd mmap
  count _ := rfl
  managed _ h := absurd h List.not_mem_nil
  clear_iff _ h := absurd h List.not_mem_nil
  handedOut _ h := absurd h (lt_irrefl 0)
  fresh _ _ h := absurd (List.suffix_nil.mp h) (List.cons_ne_nil _ _)

variable {t t' : Traced} {f b k : Nat}

theorem handedOut_cons {c : Call} {log : List Call}
    (hc : c ≠ .kalloc (some f)) : HandedOut (c :: log) f ↔ HandedOut log f := by
  simp [HandedOut, hc.symm]

section

variable {p : Pmm} {e : Event} (ht : Lawful t)
include ht

/-- **A call about one frame** keeps the law if it does for this frame. -/
theorem Lawful.call {c : Call} (hinv : PmmInv p)
    (hman : ∀ g, t.pmm.Managed g ∧ g < t.pmm.limit → p.Managed g ∧ g < p.limit)
    (hrest : ∀ g, g ≠ f → p.refcounts g = t.pmm.refcounts g ∧ p.bitmap g = t.pmm.bitmap g ∧
      bal (c :: t.log) g = bal t.log g ∧ c ≠ .kalloc (some g))
    (hcount : p.refcounts f = bal (c :: t.log) f) (hf : t.pmm.Managed f ∧ f < t.pmm.limit)
    (hclear : p.bitmap f = false ↔ bal (c :: t.log) f = 0) (hout : HandedOut (c :: t.log) f)
    (hfresh : c = .kalloc (some f) → bal t.log f = 0) : Lawful ⟨p, c :: t.log⟩ := by
  -- every clause is about one frame: `f`, or one the call leaves alone
  have hother : ∀ {g}, g ≠ f → (HandedOut (c :: t.log) g ↔ HandedOut t.log g) :=
    fun hg => handedOut_cons (hrest _ hg).2.2.2
  refine ⟨hinv, fun g => ?_, fun g hg => hman g ?_, fun g hg => ?_, fun g hg => ?_, fun l g hl => ?_⟩
  · by_cases hgf : g = f
    · rwa [hgf]
    · rw [(hrest g hgf).1, (hrest g hgf).2.2.1]
      exact ht.count g
  · by_cases hgf : g = f
    · rwa [hgf]
    · exact ht.managed g ((hother hgf).mp hg)
  · by_cases hgf : g = f
    · rwa [hgf]
    · rw [(hrest g hgf).2.1, (hrest g hgf).2.2.1]
      exact ht.clear_iff g ((hother hgf).mp hg)
  · by_cases hgf : g = f
    · rwa [hgf]
    · rw [(hrest g hgf).2.2.1] at hg
      exact (hother hgf).mpr (ht.handedOut g hg)
  · rcases List.suffix_cons_iff.mp hl with he | hl'
    · obtain ⟨h₁, rfl⟩ := List.cons.inj he
      by_cases hgf : g = f
      · rw [hgf] at h₁ ⊢
        exact hfresh h₁.symm
      · exact absurd h₁.symm (hrest g hgf).2.2.2
    · exact ht.fresh l g hl'

/-- **A successful pass keeps the law**: the frame it returns has balance 0. -/
theorem grant_lawful (h : kallocScan t.pmm = some (f, p)) : Lawful ⟨p, .kalloc (some f) :: t.log⟩ := by
  have hinv := kallocScan_inv ht.inv h
  obtain ⟨hclear, -, hlim, -, rfl⟩ := kallocScan_spec h
  refine ht.call hinv (fun _ => id) (fun g hg => ?_) ?_ ⟨ht.inv.clear_managed f hclear, hlim⟩ ?_
    List.mem_cons_self fun _ => ?_
  · simp [bal_kalloc, hg, hg.symm]
  · simp [bal_kalloc]
  · simp [bal_kalloc]
  · rw [← ht.count f]
    exact ht.inv.clear_unreferenced f hclear

/-- A pass that finds nothing leaves everything as it is. -/
theorem refuse_lawful : Lawful ⟨t.pmm, .kalloc none :: t.log⟩ := by
  have hout : ∀ f, HandedOut (.kalloc none :: t.log) f ↔ HandedOut t.log f :=
    fun f => handedOut_cons (by simp)
  refine ⟨ht.inv, ht.count, fun f hf => ht.managed f ((hout f).mp hf),
    fun f hf => ht.clear_iff f ((hout f).mp hf), fun f hf => (hout f).mpr (ht.handedOut f hf), fun l f hl => ?_⟩
  rcases List.suffix_cons_iff.mp hl with he | hl'
  · cases (List.cons.inj he).1
  · exact ht.fresh l f hl'

/-- A frame with a reference was handed out, and its bit is set. -/
theorem Lawful.referenced (hpos : 0 < bal t.log f) :
    (t.pmm.Managed f ∧ f < t.pmm.limit) ∧ HandedOut t.log f ∧ t.pmm.bitmap f = true := by
  have hf := ht.handedOut f hpos
  exact ⟨ht.managed f hf, hf, by simpa using mt (ht.clear_iff f hf).mp (by omega)⟩

/-- **Giving a reference back keeps the law**: the bit is cleared exactly when
the balance drops to 0. -/
theorem release_lawful (h : release t f = some t') : Lawful t' := by
  unfold release at h
  split_ifs at h with hpos
  obtain rfl := Option.some.inj h
  obtain ⟨hman, hf, hused⟩ := ht.referenced hpos
  have hinv := freePage_inv ht.inv (pageToAddr f)
  have hcount := ht.count f
  rw [freePage_managed ht.inv.reserved_pos hman.1] at hinv ⊢
  split_ifs at hinv ⊢ with hone
  all_goals
    refine ht.call hinv (fun _ => id) (fun g hg => ?_) ?_ hman ?_ (List.mem_cons_of_mem _ hf) (by simp)
  -- another holder remains
  · simp [bal_freePage, hg, hg.symm]
  · simp [bal_freePage, hcount]
  · simp only [bal_freePage, if_pos, hused, Bool.true_eq_false, false_iff]
    omega
  -- the last reference: the frame becomes free
  all_goals have hlast : bal t.log f = 1 := by omega
  · simp [bal_freePage, hg, hg.symm]
  · simp [bal_freePage, hlast]
  · simp [bal_freePage, hlast]

/-- **Taking a reference keeps the law** while the 16-bit count has room. -/
theorem retain_lawful (hfit : bal t.log f < refcountMax)
    (h : retain t f = some t') : Lawful t' := by
  unfold retain at h
  split_ifs at h with hpos
  obtain rfl := Option.some.inj h
  obtain ⟨hman, hf, hused⟩ := ht.referenced hpos
  have hinv : PmmInv (pageRefInc t.pmm (pageToAddr f)) :=
    pageRefInc_inv ht.inv (by rw [addrToPage_pageToAddr]; exact hused)
  rw [pageRefInc_managed hman.1] at hinv ⊢
  refine ht.call hinv (fun _ => id) (fun g hg => ?_) ?_ hman ?_ (List.mem_cons_of_mem _ hf) (by simp)
  · simp [bal_pageRefInc, hg, hg.symm]
  · simp only [bal_pageRefInc, if_pos, update_self, ht.count f]
    omega
  · simp [bal_pageRefInc, hused]

theorem kallocLoop_lawful {rounds : List (List Nat)}
    (h : kallocLoop t rounds = some t') : Lawful t' := by
  induction rounds generalizing t with
  | nil =>
    unfold kallocLoop at h
    rcases hs : kallocScan t.pmm with - | ⟨f, p⟩ <;> rw [hs] at h <;>
      obtain rfl := Option.some.inj h
    · exact refuse_lawful ht
    · exact grant_lawful ht hs
  | cons freed rounds ih =>
    unfold kallocLoop at h
    rcases hs : kallocScan t.pmm with - | ⟨f, p⟩ <;> rw [hs] at h
    · -- a reclaim round: its victims are holders
      obtain ⟨t₁, h₁, h₂⟩ := Option.bind_eq_some_iff.mp h
      exact ih (Runs.run_invariant (fun hl _ hr => release_lawful hl hr) ht
        (Runs.meetsAll_true t freed) h₁) h₂
    · obtain rfl := Option.some.inj h
      exact grant_lawful ht hs

/-- **Every call keeps the law**, as long as the count has room. -/
theorem step_lawful (hfit : t.CountFits e)
    (h : t.step e = some t') : Lawful t' := by
  cases e with
  | kalloc reclaim => exact kallocLoop_lawful ht h
  | pageRefInc f => exact retain_lawful ht hfit h
  | freePage f => exact release_lawful ht h

end

/-- **Frame lifetime law.**  From every boot map, along every run of calls in
which no reference is taken on a frame that already has 65535 of them: no
`kalloc` returned a frame that was still referenced, and a frame that was
handed out can be handed out again exactly when its balance is 0. -/
theorem frame_lifetime_law (modulesEnd : Nat) (mmap : List Mb2MmapFlat) (es : List Event)
    (t : Traced)
    (hfit : Runs.MeetsAll Traced.step Traced.CountFits (.boot modulesEnd mmap) es)
    (hrun : Runs.run Traced.step (.boot modulesEnd mmap) es = some t) :
    (∀ l f, Call.kalloc (some f) :: l <:+ t.log → bal l f = 0) ∧
    ∀ f, HandedOut t.log f → (t.pmm.Free f ↔ bal t.log f = 0) := by
  have ht : Lawful t :=
    Runs.run_invariant step_lawful
      (boot_lawful modulesEnd mmap) hfit hrun
  refine ⟨ht.fresh, fun f hf => ?_⟩
  rw [← ht.clear_iff f hf]
  refine ⟨fun h => h.1, fun h => ⟨h, ht.inv.clear_hint f h, (ht.managed f hf).2⟩⟩

/-- A frame that is shared, released by both holders and handed out again. -/
theorem frame_lifetime_law_shared :
    ∃ t, Runs.run Traced.step (.boot 0 plainMap)
        [.kalloc [], .pageRefInc 135168, .freePage 135168, .freePage 135168, .kalloc []] = some t ∧
      (∀ l f, Call.kalloc (some f) :: l <:+ t.log → bal l f = 0) ∧
      ∀ f, HandedOut t.log f → (t.pmm.Free f ↔ bal t.log f = 0) := by
  refine Runs.exists_of_check (p := fun _ => True) (by decide +kernel) fun t ht _ => ?_
  exact frame_lifetime_law 0 plainMap _ t (by decide +kernel) ht

/-! ### The 65536th reference -/

/-- `f` was the last frame handed out, its count is `k` and its balance `b`. -/
structure Holding (t : Traced) (f k b : Nat) : Prop where
  pos : 0 < t.pmm.reservedEnd
  managed : t.pmm.Managed f
  lt_limit : f < t.pmm.limit
  hint : t.pmm.firstAvailablePage = f + 1
  count : t.pmm.refcounts f = k
  bal_eq : bal t.log f = b

section

variable (h : Holding t f k b)
include h

theorem Holding.retain (hb : 0 < b) :
    ∃ t', t.step (.pageRefInc f) = some t' ∧ Holding t' f (min (k + 1) refcountMax) (b + 1) := by
  refine ⟨_, if_pos (h.bal_eq ▸ hb), ?_⟩
  rw [pageRefInc_managed h.managed]
  exact { h with count := by simp [h.count], bal_eq := by simp [bal_pageRefInc, h.bal_eq] }

theorem Holding.release (hb : 0 < b)
    (hk : 1 < k) : ∃ t', t.step (.freePage f) = some t' ∧ Holding t' f (k - 1) (b - 1) := by
  refine ⟨_, if_pos (h.bal_eq ▸ hb), ?_⟩
  rw [freePage_managed h.pos h.managed, if_pos (h.count ▸ hk)]
  exact { h with count := by simp [h.count], bal_eq := by simp [bal_freePage, h.bal_eq] }

theorem Holding.retain_many (hb : 0 < b) (hk : k ≤ refcountMax) (n : Nat) :
    ∃ t', Runs.run Traced.step t (List.replicate n (.pageRefInc f)) = some t' ∧
      Holding t' f (min (k + n) refcountMax) (b + n) := by
  induction n generalizing t k b with
  | zero => exact ⟨t, rfl, by simpa [min_eq_left hk] using h⟩
  | succ n ih =>
    obtain ⟨t₁, h₁, hold₁⟩ := h.retain hb
    obtain ⟨t₂, h₂, hold₂⟩ := ih hold₁ (by omega) (min_le_right _ _)
    refine ⟨t₂, by rw [List.replicate_succ, Runs.run_cons, h₁]; exact h₂, ?_⟩
    rw [show min (k + (n + 1)) refcountMax = min (min (k + 1) refcountMax + n) refcountMax by omega,
      show b + (n + 1) = b + 1 + n by omega]
    exact hold₂

theorem Holding.release_many {n : Nat} (hb : n ≤ b)
    (hk : n < k) : ∃ t', Runs.run Traced.step t (List.replicate n (.freePage f)) = some t' ∧
      Holding t' f (k - n) (b - n) := by
  induction n generalizing t k b with
  | zero => exact ⟨t, rfl, h⟩
  | succ n ih =>
    obtain ⟨t₁, h₁, hold₁⟩ := h.release (by omega) (by omega)
    obtain ⟨t₂, h₂, hold₂⟩ := ih hold₁ (by omega) (by omega)
    refine ⟨t₂, by rw [List.replicate_succ, Runs.run_cons, h₁]; exact h₂, ?_⟩
    rw [show k - (n + 1) = k - 1 - n by omega, show b - (n + 1) = b - 1 - n by omega]
    exact hold₂

end

/-- With a count of one the frame is cleared and handed out again, whatever its
balance. -/
theorem Holding.regrant (h : Holding t f 1 b) (hb : 0 < b) :
    ∃ t', Runs.run Traced.step t [.freePage f, .kalloc []] = some t' ∧
      ∃ l, t'.log = .kalloc (some f) :: l ∧ bal l f = b - 1 := by
  have hfree : t.step (.freePage f) =
      some ⟨{ t.pmm with
        bitmap := update t.pmm.bitmap f false
        refcounts := update t.pmm.refcounts f 0
        firstAvailablePage := f }, .freePage f :: t.log⟩ := by
    refine (if_pos (h.bal_eq ▸ hb)).trans ?_
    rw [freePage_managed h.pos h.managed, if_neg (by simp [h.count]), h.hint,
      min_eq_left (Nat.le_succ f)]
  obtain ⟨p, hp⟩ : ∃ p, kallocLoop ⟨{ t.pmm with
        bitmap := update t.pmm.bitmap f false
        refcounts := update t.pmm.refcounts f 0
        firstAvailablePage := f }, .freePage f :: t.log⟩ [] =
      some ⟨p, .kalloc (some f) :: .freePage f :: t.log⟩ := by
    rw [kallocLoop, kallocScan_of_hint_clear (update_self f false t.pmm.bitmap) h.lt_limit]
    exact ⟨_, rfl⟩
  refine ⟨⟨p, .kalloc (some f) :: .freePage f :: t.log⟩, ?_, .freePage f :: t.log, rfl,
    by simp [bal_freePage, h.bal_eq]⟩
  rw [Runs.run_cons, hfree, Option.bind_some, Runs.run_cons, Traced.step, List.take_nil, hp]
  rfl

/-- The first frame `plainMap` gives out is the one above the heap window. -/
theorem plainMap_first :
    ∃ t, (Traced.boot 0 plainMap).step (.kalloc []) = some t ∧ Holding t 135168 1 1 := by
  have h : ((Traced.boot 0 plainMap).step (.kalloc [])).map (fun t =>
      (t.pmm.reservedEnd, t.pmm.heapEnd, t.pmm.limit, t.pmm.firstAvailablePage,
        t.pmm.refcounts 135168, bal t.log 135168)) =
      some (0x20000000, 0x21000000, 0x7FFFF, 135169, 1, 1) := by
    decide +kernel
  obtain ⟨t, ht, he⟩ := Option.map_eq_some_iff.mp h
  simp only [Prod.mk.injEq] at he
  obtain ⟨h₁, h₂, h₃, h₄, h₅, h₆⟩ := he
  refine ⟨t, ht, ?_, ⟨?_, ?_, ?_⟩, ?_, h₄, h₅, h₆⟩
  all_goals simp only [h₁, h₂, h₃, pageToAddr, pageSize, totalPages]
  all_goals omega

/-- **The law fails at the 65536th reference**: `page_ref_inc` saturates, so
after 65535 references are given back the count runs out while one holder is
left, and the next `kalloc` returns that holder's frame. -/
theorem saturated_frame_handed_out_twice :
    ∃ t l, Runs.run Traced.step (.boot 0 plainMap)
        (.kalloc [] :: (List.replicate 65535 (.pageRefInc 135168) ++
          (List.replicate 65534 (.freePage 135168) ++ [.freePage 135168, .kalloc []]))) = some t ∧
      t.log = .kalloc (some 135168) :: l ∧ bal l 135168 = 1 := by
  obtain ⟨t₁, h₁, hold₁⟩ := plainMap_first
  obtain ⟨t₂, h₂, hold₂⟩ := hold₁.retain_many Nat.one_pos (by simp [refcountMax]) 65535
  -- the count stops at 65535, the balance goes on to 65536
  rw [show min (1 + 65535) refcountMax = 65535 by simp [refcountMax]] at hold₂
  obtain ⟨t₃, h₃, hold₃⟩ := hold₂.release_many (n := 65534) (by omega) (by omega)
  obtain ⟨t₄, h₄, l, hl, hbal⟩ := hold₃.regrant (by omega)
  refine ⟨t₄, l, ?_, hl, hbal⟩
  rw [Runs.run_cons, h₁, Option.bind_some, Runs.run_append, h₂, Option.bind_some, Runs.run_append,
    h₃]
  exact h₄

end CactKernel
