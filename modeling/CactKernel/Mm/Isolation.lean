/-
CactKernel/Mm/Isolation.lean

Private memory over `fork`, write faults and `mprotect`.

`System.book` reads the page tables of all processes as a `Book`, and every
operation is a few moves on it: an operation of one process works on
`spaceBook`, a fork on `forkBook`, where the child is one more row.  The
copy-on-write discipline (`Book.Inv`) is kept by each `ForkStep`, by
`vmm_handle_cow` and by every page of `do_mprotect`, under the condition
`System.Clean`.

The condition on `do_mprotect` is the one that matters: it rewrites the flags
of a present page from the protection alone and drops `PAGE_COW`, so a page
shared with a child becomes writable (`mprotect_breaks_cow`).
**Main result** `private_memory_isolated`.
-/
import CactKernel.Mm.Fault
import CactKernel.Mm.Ownership
import CactKernel.Mm.System

namespace CactKernel

open Function Runs Count Loops

/-! ### The book of a system -/

/-- Books with the same rows are equal. -/
theorem Book.ext_rows {b b' : Book} (hpmm : b.pmm = b'.pmm) (hn : b.n = b'.n)
    (hrow : ∀ i, b.entry i = b'.entry i ∧ b.shm i = b'.shm i ∧ b.shared i = b'.shared i) : b = b' := by
  obtain ⟨pmm, n, entry, shm, shared⟩ := b
  obtain ⟨pmm', n', entry', shm', shared'⟩ := b'
  obtain rfl : pmm = pmm' := hpmm
  obtain rfl : n = n' := hn
  obtain rfl : entry = entry' := funext fun i => (hrow i).1
  obtain rfl : shm = shm' := funext fun i => (hrow i).2.1
  obtain rfl : shared = shared' := funext fun i => (hrow i).2.2
  rfl

namespace System

/-- The page tables of all processes as one table. -/
def book (s : System) : Book where
  pmm := s.mm.pmm
  n := s.procs.length
  entry p v := s.procs[p]?.elim .empty fun q => q.pd.pte v
  shm p v := s.procs[p]?.elim false fun q => q.shm v
  shared p v := ∃ q, s.procs[p]? = some q ∧ q.tbl.Covered true v

/-- The book while process `p` works on the directory `pd`. -/
def spaceBook (s : System) (p : Nat) (m : Mm) (pd : PageDir) : Book :=
  { s.book with pmm := m.pmm, entry := update s.book.entry p pd.pte }

/-- The book while process `p`, with the regions `t`, forks: the child is the last row. -/
def forkBook (s : System) (p : Nat) (t : MmapTable) (r : Fork) : Book where
  pmm := r.mm.pmm
  n := s.procs.length + 1
  entry := update (update s.book.entry p r.src.pte) s.procs.length r.dst.pte
  shm := update s.book.shm s.procs.length fun _ => false
  shared := update s.book.shared s.procs.length (t.Covered true)

variable {s s' : System} {p v f i w : Nat} {q : Proc} {m m' : Mm} {pd pd' dst : PageDir} {e : Pte}
  {t : MmapTable} {r r' : Fork} {write : Bool}

section

variable (hq : s.procs[p]? = some q)
include hq

theorem lt_of_proc : p < s.procs.length :=
  (List.getElem?_eq_some_iff.mp hq).1

theorem book_entry : s.book.entry p = q.pd.pte := by
  funext v
  show s.procs[p]?.elim _ _ = _
  rw [hq]
  rfl

theorem book_shm : s.book.shm p = q.shm := by
  funext v
  show s.procs[p]?.elim _ _ = _
  rw [hq]
  rfl

theorem book_shared : s.book.shared p = q.tbl.Covered true := by
  funext v
  refine propext ⟨?_, fun h => ⟨q, hq, h⟩⟩
  rintro ⟨q', hq', h⟩
  rw [hq] at hq'
  obtain rfl := Option.some.inj hq'
  exact h

end

/-- The rows of a process that both systems have. -/
theorem book_congr (h : s'.procs[p]? = s.procs[p]?) : s'.book.entry p = s.book.entry p ∧
    s'.book.shm p = s.book.shm p ∧ s'.book.shared p = s.book.shared p := by
  unfold book
  dsimp only
  rw [h]
  exact ⟨rfl, rfl, rfl⟩

theorem spaceBook_entry : (s.spaceBook p m pd).entry p = pd.pte := by
  show update s.book.entry p pd.pte p = _
  rw [update_self]

theorem spaceBook_entry_of_ne (hi : i ≠ p) : (s.spaceBook p m pd).entry i = s.book.entry i := by
  show update s.book.entry p pd.pte i = _
  rw [update_of_ne hi]

/-- The row of the child. -/
theorem forkBook_child : (s.forkBook p t r).entry s.procs.length = r.dst.pte ∧
    (s.forkBook p t r).shm s.procs.length = (fun _ => false) ∧
    (s.forkBook p t r).shared s.procs.length = t.Covered true := by
  unfold forkBook
  dsimp only
  rw [update_self, update_self, update_self]
  exact ⟨rfl, rfl, rfl⟩

/-- The row of the forking process. -/
theorem forkBook_self (hq : s.procs[p]? = some q) : (s.forkBook p t r).entry p = r.src.pte ∧
    (s.forkBook p t r).shm p = q.shm ∧ (s.forkBook p t r).shared p = q.tbl.Covered true := by
  have hp : p ≠ s.procs.length := (lt_of_proc hq).ne
  unfold forkBook
  dsimp only
  rw [update_of_ne hp, update_of_ne hp, update_of_ne hp, update_self]
  exact ⟨rfl, book_shm hq, book_shared hq⟩

/-- The other rows. -/
theorem forkBook_other (hn : i ≠ s.procs.length) (hi : i ≠ p) :
    (s.forkBook p t r).entry i = s.book.entry i ∧ (s.forkBook p t r).shm i = s.book.shm i ∧
    (s.forkBook p t r).shared i = s.book.shared i := by
  unfold forkBook
  dsimp only
  rw [update_of_ne hn, update_of_ne hn, update_of_ne hn, update_of_ne hi]
  exact ⟨rfl, rfl, rfl⟩

section

variable (hq : s.procs[p]? = some q)
include hq

/-- A process starts an operation with its own directory. -/
theorem spaceBook_start : s.spaceBook p s.mm q.pd = s.book := by
  unfold spaceBook
  rw [← book_entry hq, update_eq_self]
  rfl

/-- **The book after an operation of process `p`** that leaves the shared regions as they are. -/
theorem book_onSpace {x : Proc} (hs : s' = ⟨m, s.procs.set p x⟩)
    (hshm : x.shm = q.shm) (ht : ∀ v, x.tbl.Covered true v ↔ q.tbl.Covered true v) :
    s'.book = s.spaceBook p m x.pd := by
  have hself : s'.procs[p]? = some x := by
    rw [hs, List.getElem?_set_self (lt_of_proc hq)]
  have hother : ∀ i, i ≠ p → s'.procs[i]? = s.procs[i]? := fun i hi => by
    rw [hs, List.getElem?_set_ne (Ne.symm hi)]
  refine Book.ext_rows (congrArg (·.mm.pmm) hs) (by rw [hs]; exact List.length_set) fun i => ?_
  by_cases hi : i = p
  · subst hi
    refine ⟨(book_entry hself).trans spaceBook_entry.symm, ((book_shm hself).trans hshm).trans (book_shm hq).symm, ?_⟩
    exact (book_shared hself).trans ((funext fun v => propext (ht v)).trans (book_shared hq).symm)
  · obtain ⟨h₁, h₂, h₃⟩ := book_congr (hother i hi)
    exact ⟨h₁.trans (spaceBook_entry_of_ne hi).symm, h₂, h₃⟩

/-- **The book after a fork.** -/
theorem book_fork
    (hs : s' = ⟨r.mm, s.procs.set p { q with pd := r.src } ++
      [⟨r.dst, cloneTable q.tbl .fresh, fun _ => false⟩]⟩) : s'.book = s.forkBook p q.tbl r := by
  have hp := lt_of_proc hq
  have hchild : s'.procs[s.procs.length]? = some ⟨r.dst, cloneTable q.tbl .fresh, fun _ => false⟩ := by
    simp [hs]
  have hself : s'.procs[p]? = some { q with pd := r.src } := by
    rw [hs, List.getElem?_append_left (by simpa using hp), List.getElem?_set_self hp]
  have hother : ∀ i, i ≠ s.procs.length → i ≠ p → s'.procs[i]? = s.procs[i]? := by
    intro i hn hi
    rw [hs]
    rcases Nat.lt_or_ge i s.procs.length with hlt | hge
    · rw [List.getElem?_append_left (by simpa using hlt), List.getElem?_set_ne (Ne.symm hi)]
    · rw [List.getElem?_eq_none (by simp; omega), List.getElem?_eq_none hge]
  refine Book.ext_rows (congrArg (·.mm.pmm) hs) (by rw [hs]; simp [book, forkBook]) fun i => ?_
  -- the child, the parent, everybody else
  by_cases hn : i = s.procs.length
  · subst hn
    obtain ⟨h₁, h₂, h₃⟩ := forkBook_child
    rw [h₁, h₂, h₃]
    exact ⟨book_entry hchild, book_shm hchild,
      (book_shared hchild).trans (funext fun v => propext cloneTable_covered)⟩
  by_cases hi : i = p
  · subst hi
    obtain ⟨h₁, h₂, h₃⟩ := forkBook_self hq
    rw [h₁, h₂, h₃]
    refine ⟨book_entry hself, ?_, ?_⟩
    · rw [book_shm hself]
    · rw [book_shared hself]
  · obtain ⟨h₁, h₂, h₃⟩ := forkBook_other hn hi
    rw [h₁, h₂, h₃]
    exact book_congr (hother i hn hi)

end

/-! ### Operations of one process -/

theorem spaceBook_setPte (hv : pd.Private v) :
    s.spaceBook p m (pd.setPte v e) = (s.spaceBook p m pd).set p v e := by
  unfold spaceBook Book.set setCell
  dsimp only
  rw [update_self, update_idem, PageDir.setPte_of_private hv]

theorem spaceBook_user (hp : p < s.procs.length) : (s.spaceBook p m pd).User p v ↔ (pd.pte v).IsUser := by
  unfold Book.User
  rw [spaceBook_entry]
  exact and_iff_right hp

theorem spaceBook_privatized (hb : (s.spaceBook p m pd).Inv) (h : Privatized m pd i m' pd') :
    (s.spaceBook p m' pd').Inv := by
  cases h with
  | same => exact hb
  | fresh _ _ hk =>
    have := (hb.alloc (Mm.kalloc_spec hk).2.2.1).1
    unfold spaceBook at *
    rwa [PageDir.makePriv_pte]

/-- **A fresh frame gets an entry.** -/
theorem spaceBook_put (hp : p < s.procs.length) (hb : (s.spaceBook p m pd).Inv) (hk : m.kalloc = some (f, m'))
    (hv : pd.Private v) (he : e.IsUser) (hf : e.frame = f) (hcow : e.cow = false) :
    (s.spaceBook p m' (pd.setPte v e)).Inv := by
  obtain ⟨hb', hspare⟩ := hb.alloc_spare (Mm.kalloc_spec hk).2.2.1
  rw [spaceBook_setPte hv]
  exact Book.Inv.put_spare hb' (hf ▸ hspare) hp hv.lt_userPages he hcow

theorem pageRefGet_managed (h : m.pmm.Managed f) : m.pageRefGet f = m.pmm.refcounts f := by
  obtain ⟨h₁, -, h₃⟩ := h
  unfold Mm.pageRefGet CactKernel.pageRefGet
  rw [addrToPage_pageToAddr, if_neg (by omega), if_neg (by omega)]

section

variable (hp : p < s.procs.length)
include hp

section

variable (hb : (s.spaceBook p m pd).Inv)
include hb

/-- **`vmm_handle_cow`** of a user page whose frame has few references. -/
theorem handleCow_inv (hpres : (pd.pte v).present = true)
    (hcond : (pd.pte v).cow = true →
      (pd.pte v).user = true ∧ (s.spaceBook p m pd).refs (pd.pte v).frame ≤ refcountMax)
    (h : handleCow m pd v = some (m', pd')) : (s.spaceBook p m' pd').Inv := by
  unfold handleCow at h
  dsimp only at h
  split at h
  · cases h
  next hcow =>
  have hcow : (pd.pte v).cow = true := by simpa using (not_or.mp hcow).2
  obtain ⟨huser, hfew⟩ := hcond hcow
  have hu : (pd.pte v).IsUser := ⟨hpres, huser⟩
  have hbu : (s.spaceBook p m pd).User p v := (spaceBook_user hp).mpr hu
  have hentry : (s.spaceBook p m pd).entry p v = pd.pte v := congrFun spaceBook_entry v
  have hv : pd.Private v := PageDir.private_of_isUser hu
  -- segments are never copy-on-write
  have hshm : (s.spaceBook p m pd).shm p v = false := by
    by_contra hs
    have := hb.shm_cow p v hbu (by simpa using hs)
    rw [hentry, hcow] at this
    cases this
  have hman : m.pmm.Managed (pd.pte v).frame := hentry ▸ hb.managed p v hbu
  have hcount : min ((s.spaceBook p m pd).refs (pd.pte v).frame) refcountMax ≤ m.pmm.refcounts (pd.pte v).frame :=
    hb.count _
  rw [pageRefGet_managed hman] at h
  split at h
  · next hsole =>
    obtain ⟨rfl, rfl⟩ := of_pair h
    rw [spaceBook_setPte hv]
    refine hb.retag hbu ⟨rfl, huser⟩ (by rw [hentry]) (fun _ => rfl) (Or.inr fun hpriv q w hq hf => ?_)
    by_contra hne
    have := Book.two_le_refs hb hbu hshm hq.1 hq.2.1 hf hne
    rw [hentry] at this
    omega
  · next hshared =>
    obtain ⟨⟨f, m₁⟩, hk, rfl, rfl⟩ := of_map_pair h
    obtain ⟨-, -, -, -, hrc, -, -⟩ := Mm.kalloc_spec hk
    obtain ⟨hb₁, -, -, -, hfresh⟩ := hb.alloc (Mm.kalloc_spec hk).2.2.1
    have hne : (pd.pte v).frame ≠ f := hentry ▸ hfresh p v hbu
    have hput := spaceBook_put hp hb hk hv
      (e := { pd.pte v with frame := f, cow := false, rw := true, present := true }) ⟨rfl, huser⟩ rfl rfl
    -- the entry has left the old frame
    have hrefs : (s.spaceBook p m₁ (pd.setPte v { pd.pte v with
        frame := f, cow := false, rw := true, present := true })).refs (pd.pte v).frame + 1 =
        (s.spaceBook p m pd).refs (pd.pte v).frame := by
      have := Book.refs_set (b := s.spaceBook p m₁ pd) (f := (pd.pte v).frame)
        (e := { pd.pte v with frame := f, cow := false, rw := true, present := true }) hp hv.lt_userPages
      rw [Count.one_pos, one_neg, ← spaceBook_setPte hv] at this
      · exact this
      · exact fun hc => hne hc.1.2.symm
      · exact ⟨⟨hbu.2, congrArg Pte.frame hentry⟩, hshm⟩
    have hrc' : m₁.pmm.refcounts (pd.pte v).frame = m.pmm.refcounts (pd.pte v).frame := by
      rw [hrc, update_of_ne hne]
    refine hput.free (hentry ▸ hb₁.managed p v hbu) ?_ ?_
    · show 1 < m₁.pmm.refcounts _
      omega
    · show _ ≤ m₁.pmm.refcounts _
      omega

/-- **`vmm_map` of a fresh frame**, over an entry that is not copy-on-write. -/
theorem vmmMap_inv (va : Nat) (hspare : (s.spaceBook p m pd).Spare f)
    (hcow : (pd.pte (addrToPage va)).cow = false) (rw : Bool) :
    (s.spaceBook p (vmmMap m pd va (pageToAddr f) rw).1 (vmmMap m pd va (pageToAddr f) rw).2).Inv := by
  rcases vmmMap_cases m pd va (pageToAddr f) rw with h | ⟨m₁, pd₁, -, hv, hr, h⟩
  · rw [h]
    exact hb
  rw [h]
  simp only [addrToPage_pageToAddr, hcow, Bool.false_eq_true, false_and, and_false, if_false] at hv hr ⊢
  rw [spaceBook_setPte (hr.isPrivate hv)]
  have hbook : s.spaceBook p m₁ pd₁ = { s.spaceBook p m pd with pmm := m₁.pmm } := by
    unfold spaceBook
    rw [hr.pte]
  rw [hbook]
  cases hr with
  | kept => exact hb.put_spare hspare hp hv ⟨rfl, rfl⟩ rfl
  | fresh _ hk =>
    have hk' := (Mm.kalloc_spec hk).2.2.1
    exact Book.Inv.put_spare (hb.alloc hk').1 (hspare.alloc hk') hp hv ⟨rfl, rfl⟩ rfl

theorem growStack_inv (hcow : (pd.pte v).cow = false)
    (h : growStack m pd v = some (m', pd')) : (s.spaceBook p m' pd').Inv := by
  obtain ⟨⟨f, m₁⟩, hk, he⟩ := Option.map_eq_some_iff.mp h
  obtain ⟨hb', hspare⟩ := hb.alloc_spare (Mm.kalloc_spec hk).2.2.1
  have := vmmMap_inv (m := m₁.setPage f zeroPage) hp hb' (pageToAddr v) hspare
    (by rwa [addrToPage_pageToAddr]) true
  rw [he] at this
  exact this

/-- **A refused write** to a present page. -/
theorem handleDenied_inv (hpres : (pd.pte v).present = true)
    (hcond : (pd.pte v).cow = true →
      (pd.pte v).user = true ∧ (s.spaceBook p m pd).refs (pd.pte v).frame ≤ refcountMax) :
    (s.spaceBook p (handleDenied m pd v true true).1.1 (handleDenied m pd v true true).1.2).Inv := by
  unfold handleDenied
  rw [if_pos rfl]
  rcases hc : handleCow m pd v with - | ⟨m₁, pd₁⟩
  · dsimp only
    split
    · next hgrow =>
      have hcow : (pd.pte v).cow = false := by
        by_contra hne
        have := (hcond (by simpa using hne)).1
        rw [hgrow.2.2.2] at this
        cases this
      rcases hg : growStack m pd v with - | ⟨m₁, pd₁⟩
      · exact hb
      · exact growStack_inv hp hb hcow hg
    · exact hb
  · exact handleCow_inv hp hb hpres hcond hc

end

/-- **One page of `mprotect`**, if it is not present or a user page that is not copy-on-write. -/
theorem protectPage_inv {x x' : Mm × PageDir}
    (hb : (s.spaceBook p x.1 x.2).Inv)
    (hcond : (x.2.pte v).present = true → (x.2.pte v).user = true ∧ (x.2.pte v).cow = false)
    (h : (protectPage write x v).state = some x') : (s.spaceBook p x'.1 x'.2).Inv := by
  unfold protectPage at h
  split at h
  · cases h
  split at h
  · obtain rfl := Option.some.inj h
    exact hb
  · obtain rfl := Option.some.inj h
    exact hb
  next m₁ pd₁ he =>
  have hpriv := ensurePdePrivate_ok he
  have hb₁ := spaceBook_privatized hb hpriv
  rw [← hpriv.pte] at hcond
  split at h <;> obtain rfl := Option.some.inj h
  · next hpres =>
    obtain ⟨huser, hcow⟩ := hcond hpres
    have hbu : (s.spaceBook p m₁ pd₁).User p v := (spaceBook_user hp).mpr ⟨hpres, huser⟩
    have hentry : (s.spaceBook p m₁ pd₁).entry p v = pd₁.pte v := congrFun spaceBook_entry v
    rw [spaceBook_setPte hpriv.isPrivate]
    refine hb₁.retag hbu ⟨rfl, rfl⟩ (congrArg Pte.frame hentry).symm (fun _ => rfl)
      (Or.inr fun hpv q w hq hf => ?_)
    by_contra hne
    have := (hb₁.cow p v q w hpv hq hf hne).1
    rw [hentry, hcow] at this
    cases this
  · exact hb₁

end

/-- A page of `mprotect` rewrites its own entry, if it is present. -/
theorem protectPage_pte {x x' : Mm × PageDir} (h : (protectPage write x v).state = some x') :
    x'.2.pte = x.2.pte ∨ (x.2.pte v).present = true ∧
      x'.2.pte = update x.2.pte v (.mapped (x.2.pte v).frame write) := by
  unfold protectPage at h
  split at h
  · cases h
  split at h
  · obtain rfl := Option.some.inj h
    exact Or.inl rfl
  · obtain rfl := Option.some.inj h
    exact Or.inl rfl
  next m₁ pd₁ he =>
  have hpriv := ensurePdePrivate_ok he
  rw [← hpriv.pte]
  split at h <;> obtain rfl := Option.some.inj h
  · next hpres => exact Or.inr ⟨hpres, PageDir.setPte_of_private hpriv.isPrivate⟩
  · exact Or.inl rfl

theorem protectPage_pte_of_ne {x x' : Mm × PageDir} (h : (protectPage write x v).state = some x')
    (hw : w ≠ v) : x'.2.pte w = x.2.pte w := by
  rcases protectPage_pte h with heq | ⟨-, heq⟩ <;> rw [heq]
  exact update_of_ne hw ..

/-- **The loop of `mprotect`.** -/
theorem protect_inv (hp : p < s.procs.length) {lo n : Nat} {x : Mm × PageDir}
    (hb : (s.spaceBook p m pd).Inv)
    (hcond : ∀ v, lo ≤ v → v < lo + n → (pd.pte v).present = true →
      (pd.pte v).user = true ∧ (pd.pte v).cow = false)
    (h : (loop (protectPage write) n lo (m, pd)).state = some x) : (s.spaceBook p x.1 x.2).Inv := by
  -- the pages the loop has yet to reach are as they were
  refine (loop_indexed
    (P := fun j y => (s.spaceBook p y.1 y.2).Inv ∧ ∀ w, j ≤ w → y.2.pte w = pd.pte w)
    (fun j y y' h₁ h₂ hy hst => ⟨?_, fun w hw => ?_⟩) ⟨hb, fun _ _ => rfl⟩ h).elim fun _ hx => hx.2.1
  · exact protectPage_inv hp hy.1 (hy.2 j le_rfl ▸ hcond j h₁ h₂) hst
  rw [protectPage_pte_of_ne hst (by omega)]
  exact hy.2 w (by omega)

/-- The protection of a region says nothing about what it covers. -/
theorem setProt_covered {shared : Bool} :
    (setProt t i write).Covered shared w ↔ t.Covered shared w := by
  unfold setProt
  rcases hi : t.regions[i]? with - | x
  · rfl
  have hlt : i < t.regions.length := (List.getElem?_eq_some_iff.mp hi).1
  constructor
  · rintro ⟨j, y, hy, hf, hc⟩
    rcases MmapTable.used_set hy with ⟨rfl, rfl, hu⟩ | ⟨-, hy⟩
    · exact ⟨j, x, ⟨hi, hu⟩, hf, hc⟩
    · exact ⟨j, y, hy, hf, hc⟩
  · rintro ⟨j, y, ⟨hy, hu⟩, hf, hc⟩
    by_cases hj : j = i
    · subst hj
      rw [hi] at hy
      obtain rfl := Option.some.inj hy
      exact ⟨j, { x with write := write }, ⟨List.getElem?_set_self hlt, hu⟩, hf, hc⟩
    · exact ⟨j, y, ⟨(List.getElem?_set_ne (Ne.symm hj)).trans hy, hu⟩, hf, hc⟩

/-- **`mprotect`** of pages that are not present, or user pages that are not copy-on-write. -/
theorem doMprotect_inv (hp : p < s.procs.length) {addr length brkStart brkEnd : Nat} {ok : Bool} {y : Space}
    (hb : (s.spaceBook p m pd).Inv)
    (hcond : ∀ v, addr ≤ pageToAddr v → pageToAddr v < addr + length → (pd.pte v).present = true →
      (pd.pte v).user = true ∧ (pd.pte v).cow = false)
    (h : doMprotect ⟨m, pd, t⟩ addr length write brkStart brkEnd = some (y, ok)) :
    (s.spaceBook p y.mm y.pd).Inv ∧ ∀ v, y.tbl.Covered true v ↔ t.Covered true v := by
  obtain ⟨rfl, -⟩ | ⟨len, u, hlen, haddr, hu, -, hmm, hpd, htbl⟩ := doMprotect_cases h
  · exact ⟨hb, fun _ => Iff.rfl⟩
  rw [hmm, hpd]
  refine ⟨protect_inv hp hb (fun v h₁ h₂ => hcond v ?_ ?_) hu, fun v => ?_⟩
  · simp only [pageToAddr, pageSize] at *
    omega
  · obtain ⟨-, h₃, h₄, -⟩ := pageUp_spec hlen
    simp only [pageToAddr, pageSize] at *
    omega
  · rcases htbl with htbl | ⟨i, htbl⟩ <;> rw [htbl]
    exact setProt_covered

/-! ### Fork -/

theorem forkBook_setDst {src : PageDir} (hv : dst.Private v) :
    s.forkBook p t ⟨m, src, dst.setPte v e⟩ = (s.forkBook p t ⟨m, src, dst⟩).set s.procs.length v e := by
  unfold forkBook Book.set setCell
  dsimp only
  rw [update_self, update_idem, PageDir.setPte_of_private hv]

theorem forkBook_setSrc {src : PageDir} (hp : p < s.procs.length) (hv : src.Private v) :
    s.forkBook p t ⟨m, src.setPte v e, dst⟩ = (s.forkBook p t ⟨m, src, dst⟩).set p v e := by
  unfold forkBook Book.set setCell
  dsimp only
  rw [update_of_ne hp.ne, update_self, update_comm hp.ne', update_idem, PageDir.setPte_of_private hv]

/-- Entries of the child are replaced by entries without a user frame. -/
theorem forkBook_forget (hb : (s.forkBook p t r).Inv)
    (h : ∀ v, dst.pte v = r.dst.pte v ∨ ¬(dst.pte v).IsUser) :
    (s.forkBook p t { r with dst := dst }).Inv := by
  refine Book.Inv.forget hb fun i v => ?_
  unfold forkBook
  dsimp only
  by_cases hn : i = s.procs.length
  · subst hn
    rw [update_self, update_self]
    exact h v
  · rw [update_of_ne hn, update_of_ne hn]
    exact Or.inl rfl

/-- A new process without user pages. -/
theorem forkBook_start (hq : s.procs[p]? = some q) (hb : s.book.Inv) {d : Nat} (hk : s.mm.kalloc = some (d, m)) :
    (s.forkBook p q.tbl ⟨m, q.pd, .template d⟩).Inv := by
  have hbook : s.forkBook p q.tbl ⟨m, q.pd, .template d⟩ =
      Book.extend { s.book with pmm := m.pmm } kernelPte (fun _ => false) (q.tbl.Covered true) := by
    unfold forkBook Book.extend
    rw [← book_entry hq, update_eq_self]
    rfl
  rw [hbook]
  exact (hb.alloc (Mm.kalloc_spec hk).2.2.1).1.extend not_isUser_kernelPte

/-- A segment is attached where the fork does not share pages copy-on-write. -/
def ShmApart (q : Proc) : Prop :=
  ∀ v, q.shm v = true → inMmapWindow (pdIndex v) = true ∧ ¬q.tbl.Covered false v

theorem forkBook_user (hq : s.procs[p]? = some q) (h : (r.src.pte v).IsUser) : (s.forkBook p t r).User p v := by
  refine ⟨Nat.lt_succ_of_lt (lt_of_proc hq), ?_⟩
  rw [(forkBook_self hq).1]
  exact h

theorem forkBook_managed (hq : s.procs[p]? = some q) (hb : (s.forkBook p t r).Inv) (h : (r.src.pte v).IsUser) :
    (s.forkBook p t r).pmm.Managed (r.src.pte v).frame := by
  have := hb.managed p v (forkBook_user hq h)
  rwa [(forkBook_self hq).1] at this

section Pages

variable (hq : s.procs[p]? = some q) (hb : (s.forkBook p q.tbl r).Inv) (hd : r.dst.Private v)
  (hu : (r.src.pte v).IsUser)
include hq hb hd hu

/-- **A page is shared as it is.** -/
theorem forkBook_share (hcov : q.tbl.Covered true v) :
    (s.forkBook p q.tbl ⟨r.mm.pageRefInc (r.src.pte v).frame, r.src, r.dst.setPte v (r.src.pte v)⟩).Inv := by
  have hb₁ : (s.forkBook p q.tbl ⟨r.mm.pageRefInc (r.src.pte v).frame, r.src, r.dst⟩).Inv := hb.inc _
  have hbu : (s.forkBook p q.tbl ⟨r.mm.pageRefInc (r.src.pte v).frame, r.src, r.dst⟩).User p v :=
    forkBook_user hq hu
  obtain ⟨hself, -, hshared⟩ := forkBook_self hq
  obtain ⟨-, hshm', hshared'⟩ := forkBook_child
  have hnot : ¬(s.forkBook p q.tbl ⟨r.mm.pageRefInc (r.src.pte v).frame, r.src, r.dst⟩).Priv p v := by
    intro hpriv
    have := hpriv.2.2
    rw [hshared] at this
    exact this hcov
  rw [forkBook_setDst hd]
  refine hb₁.join hbu (Nat.lt_succ_self _) hd.lt_userPages hu (congrArg Pte.frame (congrFun hself v)).symm
    (hb.inc_count (forkBook_managed hq hb hu)) (congrFun hshm' v) (iff_of_false hnot ?_)
    fun h => absurd h hnot
  rw [hshared']
  exact not_not.mpr hcov

/-- **A page becomes copy-on-write on both sides.** -/
theorem forkBook_cow (hshm : q.shm v = false) (hs : r.src.Private v) :
    (s.forkBook p q.tbl ⟨r.mm.pageRefInc (r.src.pte v).frame, r.src.setPte v (r.src.pte v).markCow,
      r.dst.setPte v (r.src.pte v).markCow⟩).Inv := by
  have hp := lt_of_proc hq
  have hb₁ : (s.forkBook p q.tbl ⟨r.mm.pageRefInc (r.src.pte v).frame, r.src, r.dst⟩).Inv := hb.inc _
  have hbu : (s.forkBook p q.tbl ⟨r.mm.pageRefInc (r.src.pte v).frame, r.src, r.dst⟩).User p v :=
    forkBook_user hq hu
  obtain ⟨hself, hshm₁, -⟩ := forkBook_self
    (r := ⟨r.mm.pageRefInc (r.src.pte v).frame, r.src, r.dst⟩) hq
  have hentry := congrFun hself v
  -- first the parent's entry, then the child's
  have hb₂ := hb₁.retag (e := (r.src.pte v).markCow) hbu hu (congrArg Pte.frame hentry).symm
    (fun h => by rw [hshm₁, hshm] at h; cases h) (Or.inl ⟨rfl, rfl⟩)
  have hrefs := Book.refs_set_eq (f := (r.src.pte v).frame) (e := (r.src.pte v).markCow) hbu.1
    (hb₁.low p v hbu) hbu.2 hu (congrArg Pte.frame hentry).symm
  rw [← forkBook_setSrc hp hs] at hb₂ hrefs
  obtain ⟨hself₂, hshm₂, hshared₂⟩ := forkBook_self
    (r := ⟨r.mm.pageRefInc (r.src.pte v).frame, r.src.setPte v (r.src.pte v).markCow, r.dst⟩) hq
  obtain ⟨-, hshm', hshared'⟩ := forkBook_child
  have hentry₂ := congrFun hself₂ v
  have hpte : (r.src.setPte v (r.src.pte v).markCow).pte v = (r.src.pte v).markCow := by
    rw [PageDir.setPte_of_private hs, update_self]
  rw [hpte] at hentry₂
  have hbu₂ : (s.forkBook p q.tbl ⟨r.mm.pageRefInc (r.src.pte v).frame,
      r.src.setPte v (r.src.pte v).markCow, r.dst⟩).User p v := by
    refine forkBook_user hq ?_
    rw [hpte]
    exact hu
  rw [forkBook_setDst hd]
  refine hb₂.join hbu₂ (Nat.lt_succ_self _) hd.lt_userPages hu (congrArg Pte.frame hentry₂).symm ?_
    (congrFun hshm' v) ?_ fun _ => ⟨⟨rfl, rfl⟩, ?_⟩
  · rw [Pte.markCow_frame, hrefs]
    exact hb.inc_count (forkBook_managed hq hb hu)
  · rw [hshared']
    unfold Book.Priv
    rw [hshm₂, hshared₂]
    exact ⟨fun h => h.2.2, fun h => ⟨hbu₂, hshm, h⟩⟩
  · rw [hentry₂]
    exact ⟨rfl, rfl⟩

end Pages

/-- **One action of a fork keeps the discipline.** -/
theorem forkStep_inv (hq : s.procs[p]? = some q) (hshm : ShmApart q)
    (hb : (s.forkBook p q.tbl r).Inv) (h : ForkStep q.tbl r r') : (s.forkBook p q.tbl r').Inv := by
  have hp := lt_of_proc hq
  cases h with
  | @copy v hd hu =>
    rw [forkBook_setDst hd]
    exact hb.set_forget hu
  | @share v hcov hd hpres =>
    by_cases hu : (r.src.pte v).IsUser
    · exact forkBook_share hq hb hd hu hcov
    · rw [forkBook_setDst hd]
      exact Book.Inv.set_forget (hb.inc _) hu
  -- a segment's page is in the window and in no private region: neither case takes it
  | @cow v hcase hd hs hpres =>
    by_cases hu : (r.src.pte v).IsUser
    · refine forkBook_cow hq hb hd hu ?_ hs
      by_contra hne
      obtain ⟨h₁, h₂⟩ := hshm v (by simpa using hne)
      rcases hcase with hcov | ⟨hw, -⟩
      · exact h₂ hcov
      · rw [h₁] at hw
        cases hw
    · rw [forkBook_setDst hd, forkBook_setSrc hp hs]
      exact Book.Inv.set_forget (Book.Inv.set_forget (hb.inc _) hu) hu
  | @clone v f m hst hd hu hk =>
    obtain ⟨hb₁, hspare⟩ := hb.alloc_spare (Mm.kalloc_spec hk).2.2.1
    rw [forkBook_setDst hd]
    exact Book.Inv.put_spare hb₁ hspare (Nat.lt_succ_self _) hd.lt_userPages hu rfl
  | @table i f m rw user hi hnp hk =>
    exact forkBook_forget (r := { r with mm := m }) (hb.alloc (Mm.kalloc_spec hk).2.2.1).1
      fun w => Or.inl (congrFun PageDir.makePriv_pte w)
  | @srcTable i f m rw user hi hnp hk =>
    have := (hb.alloc (Mm.kalloc_spec hk).2.2.1).1
    unfold forkBook at *
    rwa [PageDir.makePriv_pte]
  -- the rest only lets entries of the child go, which cannot break an account
  | @install i f m rw user hi hw hk =>
    refine forkBook_forget (r := { r with mm := m }) (hb.alloc (Mm.kalloc_spec hk).2.2.1).1 fun w => ?_
    rw [PageDir.install_pte hi]
    dsimp only
    split
    · exact Or.inr Pte.not_isUser_empty
    · exact Or.inl rfl
  | @shareSlot i rw user hw =>
    refine forkBook_forget hb fun w => ?_
    rw [PageDir.share_pte]
    dsimp only
    split
    · exact Or.inr (not_isUser_kernelPte w)
    · exact Or.inl rfl
  | @clearSlot i hi hw =>
    refine forkBook_forget hb fun w => ?_
    rw [PageDir.clear_pte hi]
    dsimp only
    split
    · exact Or.inr Pte.not_isUser_empty
    · exact Or.inl rfl
  | @shobj h =>
    have hpmm : (memfdMapInc r.mm h).1.pmm = r.mm.pmm := by
      unfold memfdMapInc
      split <;> rfl
    unfold forkBook at *
    rwa [hpmm]

/-- **`fork` keeps the discipline.** -/
theorem fork_inv (hb : s.book.Inv) (hshm : ∀ q, s.procs[p]? = some q → ShmApart q) (h : s.fork p = some s') :
    s'.book.Inv := by
  obtain ⟨q, d, m, r, hq, hk, hsteps, rfl⟩ := fork_spec h
  rw [book_fork hq rfl]
  exact Fork.steps_invariant (P := fun r => (s.forkBook p q.tbl r).Inv)
    (fun _ _ hr hstep => forkStep_inv hq (hshm q hq) hr hstep) hsteps (forkBook_start hq hb hk)

end System

/-! ### Runs -/

/-- What the processes do; `writeFault` is a store from ring 3 that a present page refuses. -/
inductive IsoEvent where
  | fork (p : Nat)
  | writeFault (p v : Nat)
  | mprotect (p addr length : Nat) (write : Bool) (brkStart brkEnd : Nat)
deriving DecidableEq, Repr

/-- The process an event belongs to. -/
def IsoEvent.proc : IsoEvent → Nat
  | .fork p => p
  | .writeFault p _ => p
  | .mprotect p .. => p

/-- The memory of a process after a refused store; without a present page there is no such fault. -/
def storeFault (v : Nat) (x : Space) : Option Space :=
  if accessErr x.pd v true = ⟨true, true, true⟩ then
    some { x with
      mm := (pageFaultHandler x.mm x.pd v ⟨true, true, true⟩ true true).1.1
      pd := (pageFaultHandler x.mm x.pd v ⟨true, true, true⟩ true true).1.2 }
  else none

def isoStep (s : System) : IsoEvent → Option System
  | .fork p => s.fork p
  | .writeFault p v => s.onSpace p (storeFault v)
  | .mprotect p addr length write brkStart brkEnd =>
    s.onSpace p fun x => (doMprotect x addr length write brkStart brkEnd).map Prod.fst

namespace System

/-- **The condition** on an operation of a process with the memory `q`. -/
def CleanAt (s : System) (q : Proc) : IsoEvent → Prop
  | .fork _ => ShmApart q
  | .writeFault _ v => (q.pd.pte v).cow = true →
      (q.pd.pte v).user = true ∧ s.book.refs (q.pd.pte v).frame ≤ refcountMax
  | .mprotect _ addr length _ _ _ => ∀ v, addr ≤ pageToAddr v → pageToAddr v < addr + length →
      (q.pd.pte v).present = true → (q.pd.pte v).user = true ∧ (q.pd.pte v).cow = false

def Clean (s : System) (e : IsoEvent) : Prop := ∀ q, s.procs[e.proc]? = some q → s.CleanAt q e

/-- **Isolation**: a frame that two processes have as a private page is writable in neither. -/
def Isolated (s : System) : Prop :=
  ∀ p v q w, p ≠ q → s.book.Priv p v → s.book.Priv q w → (s.book.entry q w).frame = (s.book.entry p v).frame →
    ∀ u, s.book.User p u → (s.book.entry p u).frame = (s.book.entry p v).frame → (s.book.entry p u).rw = false

end System

open CactKernel.System

variable {s s' : System}

/-- **One step.** -/
theorem isoStep_inv {e : IsoEvent} (hb : s.book.Inv) (hc : s.Clean e) (h : isoStep s e = some s') : s'.book.Inv := by
  cases e with
  | fork p => exact fork_inv hb hc h
  | writeFault p v =>
    obtain ⟨q, x, hq, hx, hs⟩ := onSpace_spec h
    unfold storeFault at hx
    split at hx
    · next herr =>
      obtain rfl := Option.some.inj hx
      have hpres : (q.pd.pte v).present = true := by
        simp only [accessErr, FaultErr.mk.injEq, Bool.and_eq_true, and_true] at herr
        exact herr.2
      rw [book_onSpace hq hs rfl fun _ => Iff.rfl]
      have hstart := spaceBook_start hq
      exact handleDenied_inv (lt_of_proc hq) (hstart ▸ hb) hpres (hstart ▸ hc q hq)
    · cases hx
  | mprotect p addr length write brkStart brkEnd =>
    simp only [isoStep] at h
    obtain ⟨q, x, hq, hx, hs⟩ := onSpace_spec h
    obtain ⟨⟨y, ok⟩, hy, rfl⟩ := Option.map_eq_some_iff.mp hx
    have hstart := spaceBook_start hq
    obtain ⟨hinv, hcov⟩ := doMprotect_inv (lt_of_proc hq) (hstart ▸ hb) (hc q hq) hy
    rw [book_onSpace hq hs rfl hcov]
    exact hinv

theorem Book.Inv.isolated (hb : s.book.Inv) : s.Isolated := by
  intro p v q w hne _ hq hf u hu hfu
  have hpu := hb.pure q w p u hq hu (hfu.trans hf.symm)
  refine (hb.cow p u q w hpu hq (hf.trans hfu.symm) fun h => ?_).2
  exact hne (Prod.mk.inj h).1.symm

/-- Nothing is mapped after boot. -/
theorem booted_inv (modulesEnd : Nat) (mmap : List Mb2MmapFlat) : (System.booted modulesEnd mmap).book.Inv := by
  unfold System.booted vmmCreateAddressSpace
  rcases hk : (Mm.boot modulesEnd mmap).kalloc with - | ⟨d, m⟩
  · exact Book.inv_of_no_user (bootPmm_inv modulesEnd mmap) fun p v hu => absurd hu.1 (Nat.not_lt_zero p)
  · refine Book.inv_of_no_user (kallocScan_inv (bootPmm_inv modulesEnd mmap) (Mm.kalloc_spec hk).2.2.1)
      fun p v hu => ?_
    obtain rfl : p = 0 := Nat.lt_one_iff.mp hu.1
    exact not_isUser_kernelPte v hu.2

theorem booted_pte {modulesEnd p : Nat} {mmap : List Mb2MmapFlat} {q : Proc}
    (hq : (System.booted modulesEnd mmap).procs[p]? = some q) : q.pd.pte = kernelPte := by
  unfold System.booted vmmCreateAddressSpace at hq
  rcases hk : (Mm.boot modulesEnd mmap).kalloc with - | ⟨d, m⟩ <;> rw [hk] at hq
  · cases List.mem_of_getElem? hq
  · obtain rfl := List.mem_singleton.mp (List.mem_of_getElem? hq)
    rfl

/-- **Private memory is isolated.**  From a state under the copy-on-write discipline, in every run whose
operations meet the condition, no frame that two processes have as a private page is writable in
either. -/
theorem private_memory_isolated (start : System) (hstart : start.book.Inv) (es : List IsoEvent) (s : System)
    (hc : MeetsAll isoStep System.Clean start es) (hrun : run isoStep start es = some s) : s.Isolated :=
  (run_invariant (P := fun s : System => s.book.Inv) isoStep_inv hstart hc hrun).isolated

/-- A process without segments. -/
theorem shmApart_of_none {q : Proc} (h : q.shm = fun _ => false) : ShmApart q := fun v hv => by
  rw [h] at hv
  cases hv

/-- The call that maps a page of a file at 0x90000000, writable and private. -/
def mapOnePage (x : Space) : Option (Space × Option Nat) :=
  doMmap ⟨fun _ _ _ => none, fun _ _ => zeroPage, true⟩ x 0x90000000 4096 true ⟨false, true, true, false⟩ 3 0

/-- The first process with such a page. -/
def System.onePage : Option System :=
  (System.booted 0 plainMap).onSpace 0 fun x => (mapOnePage x).map Prod.fst

/-- No used region is shared. -/
theorem not_covered_of_all {t : MmapTable} {v : Nat}
    (h : (t.regions.all fun r => !(r.isUsed && r.flags.shared)) = true) : ¬t.Covered true v := by
  rintro ⟨i, r, ⟨hr, hu⟩, hf, -⟩
  have := List.all_eq_true.mp h r (List.mem_of_getElem? hr)
  rw [hu, hf] at this
  cases this

/-- One page of a private file mapping, where nothing is copy-on-write. -/
theorem installFile_inv {env : MmapEnv} {fd : Int} {offset va p k : Nat} {write : Bool}
    {u u' : (Mm × PageDir) × Nat} (hp : p < s.procs.length)
    (hu : (s.spaceBook p u.1.1 u.1.2).Inv ∧ ∀ v, (u.1.2.pte v).cow = false)
    (h : (installFile env fd offset va write u k).state = some u') :
    (s.spaceBook p u'.1.1 u'.1.2).Inv ∧ ∀ v, (u'.1.2.pte v).cow = false := by
  unfold installFile at h
  rcases hk : u.1.1.kalloc with - | ⟨f, m⟩ <;> rw [hk] at h
  · obtain rfl := Option.some.inj h
    exact hu
  dsimp only at h
  split_ifs at h
  · exact nomatch h
  obtain rfl := Option.some.inj h
  obtain ⟨hb, hspare⟩ := hu.1.alloc_spare (Mm.kalloc_spec hk).2.2.1
  refine ⟨vmmMap_inv (m := m.setPage f _) hp hb _ hspare (hu.2 _) write, fun v => ?_⟩
  obtain he | ⟨m₁, pd₁, -, hlt, hr, he⟩ := vmmMap_cases (m.setPage f (env.readVfs fd (offset + k * pageSize)))
    u.1.2 (va + k * pageSize) (pageToAddr f) write <;> rw [he]
  · exact hu.2 v
  · rw [PageDir.setPte_of_private (hr.isPrivate hlt), hr.pte]
    by_cases hv : v = addrToPage (va + k * pageSize)
    · subst hv
      rw [update_self]
      rfl
    · rw [update_of_ne hv]
      exact hu.2 v

/-- A private file mapping, where nothing is copy-on-write. -/
theorem mapFile_inv {env : MmapEnv} {fd : Int} {offset va length p : Nat} {write : Bool} {x y : Space}
    (hp : p < s.procs.length) (hx : (s.spaceBook p x.mm x.pd).Inv ∧ ∀ v, (x.pd.pte v).cow = false)
    (h : mapFile env x va length fd offset write = some (y, true)) : (s.spaceBook p y.mm y.pd).Inv := by
  obtain ⟨u, hloop, h⟩ := Option.bind_eq_some_iff.mp h
  split_ifs at h
  · obtain ⟨rfl, -⟩ := of_pair h
    refine (loop_invariant (P := fun u => (s.spaceBook p u.1.1 u.1.2).Inv ∧ ∀ v, (u.1.2.pte v).cow = false)
      (fun _ _ _ _ _ hu hstep => installFile_inv hp hu hstep) hx hloop).1
  · obtain ⟨-, -, -, hfail⟩ := of_map_pair h
    cases hfail

/-- The first process with its page is under the discipline. -/
theorem onePage_inv (h : System.onePage = some s) : s.book.Inv := by
  obtain ⟨q, x, hq, hx, hs⟩ := onSpace_spec h
  obtain ⟨⟨x, o⟩, hcall, rfl⟩ := Option.map_eq_some_iff.mp hx
  -- the call succeeds, and the region it records is private
  have hview : ((System.booted 0 plainMap).procs[0]?.bind fun q =>
      (mapOnePage ⟨(System.booted 0 plainMap).mm, q.pd, q.tbl⟩).map fun r =>
        (r.2.isSome, r.1.tbl.regions.all fun r => !(r.isUsed && r.flags.shared))) = some (true, true) := by
    decide +kernel
  rw [hq, Option.bind_some, hcall, Option.map_some] at hview
  obtain ⟨ho, hreg⟩ := of_pair hview
  have hfresh : (MmapTable.fresh.regions.all fun r => !(r.isUsed && r.flags.shared)) = true := by decide +kernel
  rw [book_onSpace hq hs rfl fun v => iff_of_false (not_covered_of_all hreg)
    ((System.ofFirst_proc hq).1 ▸ not_covered_of_all hfresh)]
  obtain ⟨-, rfl⟩ | ⟨len, va, i, y, o', -, -, -, -, hback, ⟨-, -, rfl⟩ | ⟨obj, rfl, -, rfl⟩⟩ := doMmap_cases hcall
  · cases ho
  · cases ho
  obtain ⟨⟨z, b⟩, hfile, rfl, hz⟩ := of_map_pair
    (show (mapFile _ _ va len 3 0 true).map (fun r => (r.1, if r.2 then some 0 else none)) = _ from hback)
  obtain rfl : b = true := by
    cases b
    · cases hz
    · rfl
  have hstart : ((System.booted 0 plainMap).spaceBook 0 (System.booted 0 plainMap).mm q.pd).Inv :=
    spaceBook_start hq ▸ booted_inv 0 plainMap
  exact mapFile_inv (x := ⟨_, q.pd, q.tbl⟩) (y := z) (lt_of_proc hq) ⟨hstart, fun v => by rw [booted_pte hq]; rfl⟩ hfile

/-- The first process forks, and the child stores to the page it then shares
copy-on-write: it gets a frame of its own, and the parent keeps the other. -/
theorem private_memory_isolated_forked :
    ∃ start s, System.onePage = some start ∧
      run isoStep start [.fork 0, .writeFault 1 0x90000] = some s ∧
      (s.procs.map fun q => ((q.pd.pte 0x90000).frame, (q.pd.pte 0x90000).cow)) =
        [(135169, true), (135173, false)] ∧ s.Isolated := by
  have hview : (System.onePage.bind fun start =>
      (run isoStep start [.fork 0, .writeFault 1 0x90000]).map fun s =>
        s.procs.map fun q => ((q.pd.pte 0x90000).frame, (q.pd.pte 0x90000).cow)) =
      some [(135169, true), (135173, false)] := by
    decide +kernel
  obtain ⟨start, hstart, hview⟩ := Option.bind_eq_some_iff.mp hview
  obtain ⟨s, hs, hview⟩ := Option.map_eq_some_iff.mp hview
  have hinv := onePage_inv hstart
  have hapart : start.Clean (.fork 0) := by
    intro q hq
    obtain ⟨q', x, hq', -, rfl⟩ := onSpace_spec hstart
    obtain rfl := Option.some.inj ((List.getElem?_set_self (lt_of_proc hq')).symm.trans hq)
    exact shmApart_of_none (System.ofFirst_proc hq').2
  refine ⟨start, s, hstart, hs, hview, private_memory_isolated start hinv _ s ?_ hs⟩
  refine ⟨hapart, fun s₁ h₁ => ⟨fun q hq hcow => ?_, fun _ _ => trivial⟩⟩
  -- two entries name the frame, as its counter says
  have hfork : (System.onePage.bind fun start => (isoStep start (.fork 0)).map fun s => (s.procs[1]?.map fun q =>
      ((q.pd.pte 0x90000).user, (q.pd.pte 0x90000).frame), s.mm.pmm.refcounts 135169)) =
      some (some (true, 135169), 2) := by
    decide +kernel
  rw [hstart, Option.bind_some, h₁, Option.map_some, show s₁.procs[1]? = some q from hq] at hfork
  obtain ⟨hpte, hcount⟩ := of_pair hfork
  obtain ⟨huser, hframe⟩ := of_pair hpte
  have hle := (isoStep_inv hinv hapart h₁).count 135169
  rw [show s₁.book.pmm.refcounts 135169 = 2 from hcount] at hle
  rw [show (q.pd.pte 0x90000).frame = 135169 from hframe]
  refine ⟨huser, ?_⟩
  simp only [refcountMax] at *
  omega

/-- **`mprotect` makes a page writable that a child shares copy-on-write.**  With one process nothing is
shared; after `fork` and `mprotect` both processes name the frame, and the parent can store to it. -/
theorem mprotect_breaks_cow :
    ∃ start s, System.onePage = some start ∧ start.procs.length = 1 ∧
      run isoStep start [.fork 0, .mprotect 0 0x90000000 4096 true 0 0] = some s ∧ ¬s.Isolated := by
  -- all that is evaluated: the entries and regions of the two processes
  have hview : (System.onePage.bind fun start =>
      (run isoStep start [.fork 0, .mprotect 0 0x90000000 4096 true 0 0]).map fun s =>
        (start.procs.length, s.procs.map fun q => (q.pd.pte 0x90000, q.shm 0x90000,
          q.tbl.regions.all fun r => !(r.isUsed && r.flags.shared)))) =
      some (1, [(.mapped 135169 true, false, true), ((Pte.mapped 135169 true).markCow, false, true)]) := by
    decide +kernel
  obtain ⟨start, hstart, hview⟩ := Option.bind_eq_some_iff.mp hview
  obtain ⟨s, hs, hlen, hview⟩ := of_map_pair hview
  refine ⟨start, s, hstart, hlen, hs, fun hiso => ?_⟩
  obtain ⟨q₀, q₁, hprocs⟩ : ∃ q₀ q₁, s.procs = [q₀, q₁] :=
    List.length_eq_two.mp (by simpa using congrArg List.length hview)
  rw [hprocs] at hview
  obtain ⟨h₀, hview⟩ := List.cons.inj hview
  obtain ⟨h₁, -⟩ := List.cons.inj hview
  obtain ⟨hpte₀, h₀⟩ := Prod.mk.inj h₀
  obtain ⟨hshm₀, hreg₀⟩ := Prod.mk.inj h₀
  obtain ⟨hpte₁, h₁⟩ := Prod.mk.inj h₁
  obtain ⟨hshm₁, hreg₁⟩ := Prod.mk.inj h₁
  have hq₀ : s.procs[0]? = some q₀ := by rw [hprocs]; rfl
  have hq₁ : s.procs[1]? = some q₁ := by rw [hprocs]; rfl
  have he₀ : s.book.entry 0 0x90000 = .mapped 135169 true := (congrFun (book_entry hq₀) _).trans hpte₀
  have he₁ : s.book.entry 1 0x90000 = (Pte.mapped 135169 true).markCow := (congrFun (book_entry hq₁) _).trans hpte₁
  have hp₀ : s.book.Priv 0 0x90000 := by
    refine ⟨⟨lt_of_proc hq₀, by rw [he₀]; decide⟩, (congrFun (book_shm hq₀) _).trans hshm₀, ?_⟩
    rw [book_shared hq₀]
    exact not_covered_of_all hreg₀
  have hp₁ : s.book.Priv 1 0x90000 := by
    refine ⟨⟨lt_of_proc hq₁, by rw [he₁]; decide⟩, (congrFun (book_shm hq₁) _).trans hshm₁, ?_⟩
    rw [book_shared hq₁]
    exact not_covered_of_all hreg₁
  have hrw := hiso 0 0x90000 1 0x90000 (by decide) hp₀ hp₁ (by rw [he₀, he₁]; rfl) 0x90000 hp₀.1 rfl
  rw [he₀] at hrw
  cases hrw

end CactKernel
