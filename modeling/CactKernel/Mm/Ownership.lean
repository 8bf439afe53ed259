/-
CactKernel/Mm/Ownership.lean

Who names which frame: the abstract view under private-memory isolation.

A `Book` is the page table entries of all processes as one table (process by
page), the frame allocator, and for each page whether it belongs to an
attached segment or a `MAP_SHARED` region.  An entry is private if neither.

`Book.Inv` is the copy-on-write discipline: reference counts cover the
entries that name a frame (up to the saturation of the counter), frames of
private entries are named by private entries only, and as soon as two of
these name one frame both are copy-on-write.  The operations of the memory
manager are built from a few moves on a book (allocate, count, overwrite,
share, retag, release), and each keeps the invariant; nothing here mentions
page directories.
-/
import CactKernel.Lib.Count
import CactKernel.Mm.PageDir
import CactKernel.Mm.Pmm

namespace CactKernel

open Function Count

/-- The entries of `n` processes over one allocator. -/
structure Book where
  pmm : Pmm
  n : Nat
  entry : Nat → Nat → Pte
  /-- The page belongs to an attached segment. -/
  shm : Nat → Nat → Bool
  /-- The page belongs to a `MAP_SHARED` region. -/
  shared : Nat → Nat → Prop

namespace Book

/-- A counted reference to `f`: a user entry outside the segments. -/
def Counts (f : Nat) (x : Pte × Bool) : Prop := x.1.Names f ∧ x.2 = false
deriving Decidable

variable (b : Book)

/-- The number of counted references to `f`. -/
def refs (f : Nat) : Nat :=
  countOf₂ b.n userPages (Counts f) fun p v => (b.entry p v, b.shm p v)

/-- Process `p` has a user page at `v`. -/
def User (p v : Nat) : Prop := p < b.n ∧ (b.entry p v).IsUser

/-- Process `p` has a private page at `v`. -/
def Priv (p v : Nat) : Prop := b.User p v ∧ b.shm p v = false ∧ ¬b.shared p v

/-- Overwrite one entry. -/
def set (p v : Nat) (e : Pte) : Book := { b with entry := setCell b.entry p v e }

/-- **The copy-on-write discipline.** -/
structure Inv : Prop where
  pos : 0 < b.pmm.reservedEnd
  clear : ∀ f, b.pmm.bitmap f = false → b.pmm.Managed f
  low : ∀ p v, b.User p v → v < userPages
  used : ∀ p v, b.User p v → b.pmm.bitmap (b.entry p v).frame = true
  managed : ∀ p v, b.User p v → b.pmm.Managed (b.entry p v).frame
  count : ∀ f, min (b.refs f) refcountMax ≤ b.pmm.refcounts f
  pure : ∀ p v q w, b.Priv p v → b.User q w → (b.entry q w).frame = (b.entry p v).frame → b.Priv q w
  cow : ∀ p v q w, b.Priv p v → b.Priv q w → (b.entry q w).frame = (b.entry p v).frame →
    (q, w) ≠ (p, v) → (b.entry p v).cow = true ∧ (b.entry p v).rw = false
  shm_cow : ∀ p v, b.User p v → b.shm p v = true → (b.entry p v).cow = false

variable {b} {p v q w f : Nat} {e : Pte} {s : Pmm}

/-! ### Counting -/

theorem refs_eq_zero (h : ∀ p v, b.User p v → (b.entry p v).frame ≠ f) : b.refs f = 0 :=
  countOf₂_eq_zero.mpr fun p v hp _ hc => h p v ⟨hp, hc.1.1⟩ hc.1.2

theorem two_le_refs (hb : b.Inv) (hp : b.User p v) (hps : b.shm p v = false) (hq : b.User q w)
    (hqs : b.shm q w = false) (hf : (b.entry q w).frame = (b.entry p v).frame)
    (hne : (q, w) ≠ (p, v)) : 2 ≤ b.refs (b.entry p v).frame :=
  two_le_countOf₂ hq.1 (hb.low q w hq) hp.1 (hb.low p v hp) hne ⟨⟨hq.2, hf⟩, hqs⟩ ⟨⟨hp.2, rfl⟩, hps⟩

/-- The table of a book after one entry is overwritten. -/
theorem set_cells : (fun i j => ((b.set p v e).entry i j, b.shm i j)) =
    setCell (fun i j => (b.entry i j, b.shm i j)) p v (e, b.shm p v) := by
  funext i j
  by_cases h : (i, j) = (p, v)
  · obtain ⟨rfl, rfl⟩ := Prod.mk.inj h
    rw [setCell_self]
    exact congrArg (·, b.shm i j) setCell_self
  · rw [setCell_of_ne h]
    exact congrArg (·, b.shm i j) (setCell_of_ne h)

section

variable (hp : p < b.n)
include hp

section

variable (hv : v < userPages)
include hv

theorem refs_set :
    (b.set p v e).refs f + one (Counts f (b.entry p v, b.shm p v)) =
      b.refs f + one (Counts f (e, b.shm p v)) := by
  unfold refs
  rw [show (b.set p v e).shm = b.shm from rfl, set_cells]
  exact countOf₂_setCell hp hv

theorem refs_set_le : (b.set p v e).refs f ≤ b.refs f + 1 := by
  have h := refs_set (e := e) (f := f) hp hv
  have hone := one_le (p := Counts f (e, b.shm p v))
  omega

theorem refs_set_le_of_not (hc : ¬Counts f (e, b.shm p v)) :
    (b.set p v e).refs f ≤ b.refs f := by
  have h := refs_set (e := e) (f := f) hp hv
  rw [one_neg hc, Nat.add_zero] at h
  exact h ▸ Nat.le_add_right _ _

/-- An entry with the same frame counts the same. -/
theorem refs_set_eq (hu : (b.entry p v).IsUser) (he : e.IsUser)
    (hframe : e.frame = (b.entry p v).frame) : (b.set p v e).refs f = b.refs f := by
  have hsame : Counts f (e, b.shm p v) ↔ Counts f (b.entry p v, b.shm p v) := by
    unfold Counts Pte.Names
    simp [he, hu, hframe]
  have hone : one (Counts f (e, b.shm p v)) = one (Counts f (b.entry p v, b.shm p v)) :=
    if_congr hsame rfl rfl
  have := refs_set (e := e) (f := f) hp hv
  omega

end

end

theorem set_entry_self : (b.set p v e).entry p v = e := setCell_self

theorem set_entry_of_ne (h : (q, w) ≠ (p, v)) : (b.set p v e).entry q w = b.entry q w :=
  setCell_of_ne h

/-- A user page after an overwrite is the new one or an old one. -/
theorem user_set (h : (b.set p v e).User q w) :
    q = p ∧ w = v ∧ (b.set p v e).entry q w = e ∨
      (q, w) ≠ (p, v) ∧ b.User q w ∧ (b.set p v e).entry q w = b.entry q w := by
  by_cases hqw : (q, w) = (p, v)
  · obtain ⟨rfl, rfl⟩ := Prod.mk.inj hqw
    exact Or.inl ⟨rfl, rfl, set_entry_self⟩
  · have heq : (b.set p v e).entry q w = b.entry q w := set_entry_of_ne hqw
    exact Or.inr ⟨hqw, ⟨h.1, heq ▸ h.2⟩, heq⟩

/-- Without user pages the allocator's own invariant is enough. -/
theorem inv_of_no_user (hp : PmmInv b.pmm) (h : ∀ p v, ¬b.User p v) : b.Inv where
  pos := hp.reserved_pos
  clear := hp.clear_managed
  low p v hu := absurd hu (h p v)
  used p v hu := absurd hu (h p v)
  managed p v hu := absurd hu (h p v)
  count f := by
    rw [refs_eq_zero fun p v hu => absurd hu (h p v)]
    exact (min_le_left _ _).trans (Nat.zero_le _)
  pure p v q w hu := absurd hu.1 (h p v)
  cow p v q w hu := absurd hu.1 (h p v)
  shm_cow p v hu := absurd hu (h p v)

/-! ### Moves of the allocator -/

section

variable (hb : b.Inv)
include hb

/-- Only the counts and the bits of a book change. -/
theorem Inv.of_pmm (hres : s.reservedEnd = b.pmm.reservedEnd)
    (hclear : ∀ f, s.bitmap f = false → b.pmm.bitmap f = false)
    (hcount : ∀ f, min (b.refs f) refcountMax ≤ s.refcounts f) : Inv { b with pmm := s } := by
  have hman : ∀ f, b.pmm.Managed f → s.Managed f := by
    intro f hf
    unfold Pmm.Managed Pmm.heapEnd at *
    rwa [hres]
  refine ⟨?_, fun f hf => hman f (hb.clear f (hclear f hf)), hb.low, fun p v hu => ?_,
    fun p v hu => hman _ (hb.managed p v hu), hcount, hb.pure, hb.cow, hb.shm_cow⟩
  · rw [hres]
    exact hb.pos
  · by_contra hc
    have := hclear _ (by simpa using hc)
    rw [hb.used p v hu] at this
    cases this

/-- **Allocate**: the frame was named by nobody. -/
theorem Inv.alloc (h : kallocScan b.pmm = some (f, s)) :
    Inv { b with pmm := s } ∧ s.bitmap f = true ∧ s.refcounts f = 1 ∧ s.Managed f ∧
      ∀ p v, b.User p v → (b.entry p v).frame ≠ f := by
  obtain ⟨hclear, -, -, -, rfl⟩ := kallocScan_spec h
  have hfresh : ∀ p v, b.User p v → (b.entry p v).frame ≠ f := by
    rintro p v hu rfl
    rw [hb.used p v hu] at hclear
    cases hclear
  refine ⟨hb.of_pmm rfl (fun g hg => ?_) fun g => ?_, update_self .., update_self ..,
    hb.clear f hclear, hfresh⟩
  · by_cases hgf : g = f
    · subst hgf
      simp at hg
    · simpa [hgf] using hg
  · by_cases hgf : g = f
    · subst hgf
      rw [refs_eq_zero hfresh]
      simp
    · simpa [hgf] using hb.count g

/-- **Count**: one more reference never hurts. -/
theorem Inv.inc (f : Nat) : Inv { b with pmm := pageRefInc b.pmm (pageToAddr f) } := by
  unfold pageRefInc
  split_ifs
  · exact hb
  · exact hb
  · refine hb.of_pmm rfl (fun _ h => h) fun g => ?_
    have := hb.count g
    rw [addrToPage_pageToAddr]
    dsimp only
    by_cases hg : g = f
    · subst hg
      rw [update_self]
      omega
    · rwa [update_of_ne hg]

/-- A frame that was counted has a reference to spare. -/
theorem Inv.inc_count (hf : b.pmm.Managed f) :
    min (b.refs f + 1) refcountMax ≤ (pageRefInc b.pmm (pageToAddr f)).refcounts f := by
  have := hb.count f
  rw [pageRefInc_managed hf]
  dsimp only
  rw [update_self]
  omega

/-- **Release** a reference that no entry stands for. -/
theorem Inv.free (hf : b.pmm.Managed f) (hrc : 1 < b.pmm.refcounts f)
    (hrefs : b.refs f + 1 ≤ b.pmm.refcounts f) :
    Inv { b with pmm := freePage b.pmm (pageToAddr f) } := by
  rw [freePage_managed hb.pos hf, if_pos hrc]
  refine hb.of_pmm rfl (fun _ h => h) fun g => ?_
  have := hb.count g
  dsimp only
  by_cases hg : g = f
  · subst hg
    rw [update_self]
    omega
  · rwa [update_of_ne hg]

end

/-! ### Moves of entries -/

/-- The page `(p, v)` of `b'` was a user page of `b`, with the same frame and of the same kind. -/
structure Old (b b' : Book) (p v : Nat) : Prop where
  user : b.User p v
  frame : (b'.entry p v).frame = (b.entry p v).frame
  shm : b'.shm p v = b.shm p v
  shared : b'.shared p v = b.shared p v

theorem Old.priv {b' : Book} (h : Old b b' p v) (hp : b'.Priv p v) : b.Priv p v :=
  ⟨h.user, h.shm ▸ hp.2.1, h.shared ▸ hp.2.2⟩

section

variable (hb : b.Inv)
include hb

/-- **No new user pages.**  The flags of a page change only if they become copy-on-write, or if the
page is the only private one of its frame. -/
theorem Inv.of_old {b' : Book} (hpmm : b'.pmm = b.pmm) (hrefs : ∀ f, b'.refs f ≤ b.refs f)
    (hold : ∀ {p v}, b'.User p v → Old b b' p v)
    (hflags : ∀ {p v}, b'.User p v → b'.entry p v = b.entry p v ∨
      (b.shm p v = true → (b'.entry p v).cow = false) ∧
        ((b'.entry p v).cow = true ∧ (b'.entry p v).rw = false ∨ (b.Priv p v → ∀ q w, b.Priv q w →
          (b.entry q w).frame = (b.entry p v).frame → (q, w) = (p, v)))) : b'.Inv := by
  refine ⟨hpmm ▸ hb.pos, hpmm ▸ hb.clear, fun p v hu => hb.low p v (hold hu).user, fun p v hu => ?_,
    fun p v hu => ?_, fun f => ?_, fun p v q w hp hq hf => ?_, fun p v q w hp hq hf hne => ?_,
    fun p v hu hs => ?_⟩
  · rw [hpmm, (hold hu).frame]
    exact hb.used p v (hold hu).user
  · rw [hpmm, (hold hu).frame]
    exact hb.managed p v (hold hu).user
  · rw [hpmm]
    exact (min_le_min_right _ (hrefs f)).trans (hb.count f)
  · have hq' := hold hq
    rw [hq'.frame, (hold hp.1).frame] at hf
    have := hb.pure p v q w ((hold hp.1).priv hp) hq'.user hf
    exact ⟨hq, hq'.shm ▸ this.2.1, hq'.shared ▸ this.2.2⟩
  · rw [(hold hq.1).frame, (hold hp.1).frame] at hf
    have hp' := (hold hp.1).priv hp
    have hq' := (hold hq.1).priv hq
    rcases hflags hp.1 with heq | ⟨-, hflags | hsole⟩
    · rw [heq]
      exact hb.cow p v q w hp' hq' hf hne
    · exact hflags
    · exact absurd (hsole hp' q w hq' hf) hne
  · have hs' := (hold hu).shm ▸ hs
    rcases hflags hu with heq | ⟨hshm, -⟩
    · rw [heq]
      exact hb.shm_cow p v (hold hu).user hs'
    · exact hshm hs'

/-- **Overwrite**: entries may be replaced by entries without a user frame. -/
theorem Inv.forget {entry : Nat → Nat → Pte}
    (h : ∀ p v, entry p v = b.entry p v ∨ ¬(entry p v).IsUser) : Inv { b with entry := entry } := by
  have heq : ∀ {p v}, (entry p v).IsUser → entry p v = b.entry p v :=
    fun hu => (h _ _).resolve_right fun hn => hn hu
  refine hb.of_old rfl (fun f => countOf₂_mono fun p v _ _ hc => ?_) (fun {p v} hu => ?_)
    fun hu => Or.inl (heq hu.2)
  · rw [← heq hc.1.1]
    exact hc
  · exact ⟨⟨hu.1, heq hu.2 ▸ hu.2⟩, congrArg Pte.frame (heq hu.2), rfl, rfl⟩

theorem Inv.set_forget (he : ¬e.IsUser) : (b.set p v e).Inv := by
  refine hb.forget fun q w => ?_
  by_cases h : (q, w) = (p, v)
  · obtain ⟨rfl, rfl⟩ := Prod.mk.inj h
    rw [setCell_self]
    exact Or.inr he
  · exact Or.inl (setCell_of_ne h)

/-- **Retag**: new flags for a user entry.  They are copy-on-write, or the page is
the only private one of its frame. -/
theorem Inv.retag (hu : b.User p v) (he : e.IsUser)
    (hframe : e.frame = (b.entry p v).frame) (hshm : b.shm p v = true → e.cow = false)
    (hflags : e.cow = true ∧ e.rw = false ∨ (b.Priv p v → ∀ q w, b.Priv q w →
      (b.entry q w).frame = (b.entry p v).frame → (q, w) = (p, v))) : (b.set p v e).Inv := by
  refine hb.of_old rfl (fun f => (refs_set_eq hu.1 (hb.low p v hu) hu.2 he hframe).le)
    (fun {q w} h => ?_) fun {q w} h => ?_
  · rcases user_set h with ⟨rfl, rfl, heq⟩ | ⟨-, h, heq⟩
    · exact ⟨hu, (congrArg Pte.frame heq).trans hframe, rfl, rfl⟩
    · exact ⟨h, congrArg Pte.frame heq, rfl, rfl⟩
  · rcases user_set h with ⟨rfl, rfl, heq⟩ | ⟨-, -, heq⟩
    · right
      rw [heq]
      exact ⟨hshm, hflags⟩
    · exact Or.inl heq

/-- **Put** a new user entry.  Its frame is used and has a reference to spare,
and if other entries name it, the entry fits in with them: it is private
exactly if they are, and then all are copy-on-write. -/
theorem Inv.put (hp : p < b.n) (hv : v < userPages) (he : e.IsUser)
    (hused : b.pmm.bitmap e.frame = true) (hman : b.pmm.Managed e.frame)
    (hcount : b.shm p v = false → min (b.refs e.frame + 1) refcountMax ≤ b.pmm.refcounts e.frame)
    (hshm : b.shm p v = true → e.cow = false)
    (hfit : ∀ q w, b.User q w → (b.entry q w).frame = e.frame → (q, w) ≠ (p, v) →
      (b.Priv q w ↔ b.shm p v = false ∧ ¬b.shared p v) ∧
      (b.Priv q w → (e.cow = true ∧ e.rw = false) ∧
        (b.entry q w).cow = true ∧ (b.entry q w).rw = false)) : (b.set p v e).Inv := by
  -- each clause compares the entry written with every other one, so split on which is which
  have hself : (b.set p v e).Priv p v ↔ b.shm p v = false ∧ ¬b.shared p v :=
    ⟨fun h => h.2, fun h => ⟨⟨hp, by rw [set_entry_self]; exact he⟩, h⟩⟩
  have hother : ∀ q w, (q, w) ≠ (p, v) → ((b.set p v e).Priv q w ↔ b.Priv q w) := by
    intro q w hne
    refine and_congr_left' (and_congr_right fun _ => ?_)
    rw [set_entry_of_ne hne]
  refine ⟨hb.pos, hb.clear, fun q w h => ?_, fun q w h => ?_, fun q w h => ?_, fun f => ?_,
    fun q w q' w' h h' hf => ?_, fun q w q' w' h h' hf hne => ?_, fun q w h hs => ?_⟩
  · rcases user_set h with ⟨-, rfl, -⟩ | ⟨-, h, -⟩
    · exact hv
    · exact hb.low q w h
  · rcases user_set h with ⟨-, -, heq⟩ | ⟨-, h, heq⟩ <;> rw [heq]
    · exact hused
    · exact hb.used q w h
  · rcases user_set h with ⟨-, -, heq⟩ | ⟨-, h, heq⟩ <;> rw [heq]
    · exact hman
    · exact hb.managed q w h
  · by_cases hc : Counts f (e, b.shm p v)
    · have hs : b.shm p v = false := hc.2
      obtain rfl : e.frame = f := hc.1.2
      exact le_trans (min_le_min_right _ (refs_set_le hp hv)) (hcount hs)
    · exact le_trans (min_le_min_right _ (refs_set_le_of_not hp hv hc)) (hb.count f)
  · by_cases hqw : (q, w) = (p, v)
    · obtain ⟨rfl, rfl⟩ := Prod.mk.inj hqw
      rcases user_set h' with ⟨rfl, rfl, -⟩ | ⟨hne, h', heq⟩
      · exact h
      · rw [set_entry_self, heq] at hf
        exact (hother q' w' hne).mpr ((hfit q' w' h' hf hne).1.mpr (hself.mp h))
    · rcases user_set h' with ⟨rfl, rfl, heq⟩ | ⟨hne, h', heq⟩
      · rw [heq, set_entry_of_ne hqw] at hf
        have hq := (hother q w hqw).mp h
        exact hself.mpr ((hfit q w hq.1 hf.symm hqw).1.mp hq)
      · rw [heq, set_entry_of_ne hqw] at hf
        exact (hother q' w' hne).mpr (hb.pure q w q' w' ((hother q w hqw).mp h) h' hf)
  · by_cases hqw : (q, w) = (p, v)
    · obtain ⟨rfl, rfl⟩ := Prod.mk.inj hqw
      rw [set_entry_self, set_entry_of_ne hne] at hf
      have hq' := (hother q' w' hne).mp h'
      rw [set_entry_self]
      exact ((hfit q' w' hq'.1 hf hne).2 hq').1
    · have hq := (hother q w hqw).mp h
      by_cases hqw' : (q', w') = (p, v)
      · obtain ⟨rfl, rfl⟩ := Prod.mk.inj hqw'
        rw [set_entry_self, set_entry_of_ne hqw] at hf
        rw [set_entry_of_ne hqw]
        exact ((hfit q w hq.1 hf.symm hqw).2 hq).2
      · rw [set_entry_of_ne hqw', set_entry_of_ne hqw] at hf
        rw [set_entry_of_ne hqw]
        exact hb.cow q w q' w' hq ((hother q' w' hqw').mp h') hf hne
  · rcases user_set h with ⟨rfl, rfl, heq⟩ | ⟨-, h, heq⟩ <;> rw [heq]
    · exact hshm hs
    · exact hb.shm_cow q w h hs

/-- **Join**: one more entry for the frame of `(p, v)`, private exactly if that page is. -/
theorem Inv.join (hu : b.User p v) (hq : q < b.n) (hw : w < userPages) (he : e.IsUser)
    (hframe : e.frame = (b.entry p v).frame)
    (hcount : min (b.refs e.frame + 1) refcountMax ≤ b.pmm.refcounts e.frame)
    (hshm : b.shm q w = false) (hkind : b.Priv p v ↔ ¬b.shared q w)
    (hcow : b.Priv p v →
      (e.cow = true ∧ e.rw = false) ∧ (b.entry p v).cow = true ∧ (b.entry p v).rw = false) :
    (b.set q w e).Inv := by
  refine hb.put hq hw he (hframe ▸ hb.used p v hu) (hframe ▸ hb.managed p v hu) (fun _ => hcount)
    (fun h => by rw [hshm] at h; cases h) fun i j hi hf _ => ?_
  have hf' : (b.entry i j).frame = (b.entry p v).frame := hf.trans hframe
  have hiff : b.Priv i j ↔ b.Priv p v :=
    ⟨fun h => hb.pure i j p v h hu hf'.symm, fun h => hb.pure p v i j h hi hf'⟩
  refine ⟨hiff.trans (hkind.trans (and_iff_right hshm).symm), fun h => ?_⟩
  have hp := hiff.mp h
  refine ⟨(hcow hp).1, ?_⟩
  by_cases hij : (i, j) = (p, v)
  · obtain ⟨rfl, rfl⟩ := Prod.mk.inj hij
    exact (hcow hp).2
  · exact hb.cow i j p v h hp hf'.symm (Ne.symm hij)

end

/-! ### A new process -/

/-- A process more, which has no user pages yet. -/
def extend (b : Book) (row : Nat → Pte) (shm : Nat → Bool) (shared : Nat → Prop) : Book where
  pmm := b.pmm
  n := b.n + 1
  entry := update b.entry b.n row
  shm := update b.shm b.n shm
  shared := update b.shared b.n shared

theorem Inv.extend (hb : b.Inv) {row : Nat → Pte} {shm : Nat → Bool} {shared : Nat → Prop}
    (hrow : ∀ v, ¬(row v).IsUser) : (b.extend row shm shared).Inv := by
  have hold : ∀ {p v}, (b.extend row shm shared).User p v → p < b.n := by
    intro p v hu
    have hlt : p < b.n + 1 := hu.1
    by_contra hge
    obtain rfl : p = b.n := by omega
    exact hrow v ((congrFun (update_self ..) v : (b.extend row shm shared).entry b.n v = row v) ▸ hu.2)
  have hkeep : ∀ {α : Type} {g : Nat → α} {x : α} {p : Nat}, p < b.n → update g b.n x p = g p :=
    fun hp => update_of_ne hp.ne ..
  have hentry : ∀ {p v}, p < b.n → (b.extend row shm shared).entry p v = b.entry p v :=
    fun hp => congrFun (hkeep hp) _
  refine hb.of_old rfl (fun f => ?_) (fun {p v} hu => ?_) fun hu => Or.inl (hentry (hold hu))
  · show countOf₂ (b.n + 1) _ _ _ ≤ _
    rw [countOf₂_succ, countOf_eq_zero.mpr fun v _ hc => absurd (hold ⟨Nat.lt_succ_self _, hc.1.1⟩) (lt_irrefl _)]
    refine (countOf₂_congr fun p v hp _ => ?_).le
    rw [hentry hp, show (b.extend row shm shared).shm p v = b.shm p v from congrFun (hkeep hp) v]
  · have hp := hold hu
    exact ⟨⟨hp, hentry hp ▸ hu.2⟩, congrArg Pte.frame (hentry hp), congrFun (hkeep hp) v, congrFun (hkeep hp) v⟩

/-! ### Spare frames -/

/-- `f` is allocated and no entry names it yet. -/
structure Spare (b : Book) (f : Nat) : Prop where
  used : b.pmm.bitmap f = true
  managed : b.pmm.Managed f
  counted : 1 ≤ b.pmm.refcounts f
  unnamed : ∀ p v, b.User p v → (b.entry p v).frame ≠ f

theorem Inv.alloc_spare (hb : b.Inv) (h : kallocScan b.pmm = some (f, s)) :
    Inv { b with pmm := s } ∧ Spare { b with pmm := s } f := by
  obtain ⟨hb', h₁, h₂, h₃, h₄⟩ := hb.alloc h
  exact ⟨hb', h₁, h₃, h₂.ge, h₄⟩

/-- Another allocation leaves a spare frame alone. -/
theorem Spare.alloc (hs : b.Spare f) {g : Nat} (h : kallocScan b.pmm = some (g, s)) :
    Spare { b with pmm := s } f := by
  obtain ⟨hclear, -, -, -, rfl⟩ := kallocScan_spec h
  have hne : f ≠ g := by
    rintro rfl
    rw [hs.used] at hclear
    cases hclear
  refine ⟨(update_of_ne hne ..).trans hs.used, hs.managed, ?_, hs.unnamed⟩
  show 1 ≤ update b.pmm.refcounts g 1 f
  rw [update_of_ne hne]
  exact hs.counted

/-- **A spare frame gets its first entry.** -/
theorem Inv.put_spare (hb : b.Inv) (hs : b.Spare e.frame) (hp : p < b.n) (hv : v < userPages) (he : e.IsUser)
    (hcow : e.cow = false) : (b.set p v e).Inv := by
  refine hb.put hp hv he hs.used hs.managed (fun _ => ?_) (fun _ => hcow)
    fun q w hu hf _ => absurd hf (hs.unnamed q w hu)
  rw [refs_eq_zero hs.unnamed]
  exact (min_le_left _ _).trans hs.counted

end Book

end CactKernel
