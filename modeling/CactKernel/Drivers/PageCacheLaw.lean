/-
CactKernel/Drivers/PageCacheLaw.lean

When the page cache shows the disk.

`Index` says that hash table, LRU list and page flags tell the same story.
`Coherent` is what makes a hit right: every cached page was read from the device
that its id still names, has not been stored into unless `stored` says so, and
covers sectors that no other page covers.

Nothing in the cache enforces the last two: the key does not hold the block size,
the device table changes without the cache being told, an unknown id reads from
the boot device, and failed reads and writes go unnoticed (`size_not_in_key`).
**`page_cache_refines_disk`** is what holds where the callers take care of them.
-/
import CactKernel.Drivers.PageCache

namespace CactKernel

open Function Runs

namespace PcSys

variable {s s' : PcSys} {i j x dev block n : Nat} {p : PcPage} {rdOk wrOk : Nat → Bool}
  {keep : Bool}

/-! ### Hash table and LRU list -/

structure Index (s : PcSys) : Prop where
  lt : ∀ i, (s.page i).valid = true → i < pcMaxPages
  hash : ∀ b i, i ∈ s.hash b ↔ (s.page i).valid = true ∧ pcHash (s.page i).dev (s.page i).block = b
  hash_nodup : ∀ b, (s.hash b).Nodup
  lru : ∀ i, i ∈ s.lru ↔ (s.page i).valid = true
  lru_nodup : s.lru.Nodup

section

variable (h : Index s)
include h

theorem Index.find_some (hf : s.hashFind dev block = some i) :
    (s.page i).valid = true ∧ (s.page i).dev = dev ∧ (s.page i).block = block := by
  have hkey := List.find?_some hf
  rw [Bool.and_eq_true, decide_eq_true_iff, decide_eq_true_iff] at hkey
  exact ⟨((h.hash _ i).mp (List.mem_of_find?_eq_some hf)).1, hkey⟩

theorem Index.find_none (hf : s.hashFind dev block = none)
    (hv : (s.page i).valid = true) : ¬((s.page i).dev = dev ∧ (s.page i).block = block) := by
  rintro ⟨hd, hb⟩
  have := List.find?_eq_none.mp hf i ((h.hash _ i).mpr ⟨hv, by rw [hd, hb]⟩)
  simp [hd, hb] at this

/-- The index looks at the keys of valid pages only. -/
theorem Index.keys (hhash : s'.hash = s.hash) (hlru : s'.lru = s.lru)
    (hpage : ∀ j, (s'.page j).valid = (s.page j).valid ∧ ((s.page j).valid = true →
      (s'.page j).dev = (s.page j).dev ∧ (s'.page j).block = (s.page j).block)) : Index s' := by
  refine ⟨fun j hj => h.lt j ((hpage j).1 ▸ hj), fun b j => ?_, hhash ▸ h.hash_nodup, fun j => ?_,
    hlru ▸ h.lru_nodup⟩
  · rw [hhash, h.hash b j, (hpage j).1]
    refine and_congr_right fun hj => ?_
    rw [((hpage j).2 hj).1, ((hpage j).2 hj).2]
  · rw [hlru, h.lru j, (hpage j).1]

theorem Index.same (hhash : s'.hash = s.hash) (hlru : s'.lru = s.lru)
    (hpage : s'.page = s.page) : Index s' :=
  h.keys hhash hlru fun j => by rw [hpage]; exact ⟨rfl, fun _ => ⟨rfl, rfl⟩⟩

/-- A page changes in what the index does not look at. -/
theorem Index.setPage (hv : p.valid = (s.page i).valid)
    (hkey : p.valid = true → p.dev = (s.page i).dev ∧ p.block = (s.page i).block) :
    Index (s.setPage i p) := by
  refine h.keys rfl rfl ((forall_update_iff s.page fun j q => q.valid = (s.page j).valid ∧
    ((s.page j).valid = true → q.dev = (s.page j).dev ∧ q.block = (s.page j).block)).mpr ⟨?_, fun j _ => ?_⟩)
  · exact ⟨hv, fun hj => hkey (hv.trans hj)⟩
  · exact ⟨rfl, fun _ => ⟨rfl, rfl⟩⟩

end

theorem mem_lruTouch (hi : i ∈ s.lru) : j ∈ (s.lruTouch i).lru ↔ j ∈ s.lru := by
  unfold lruTouch
  split_ifs
  · rfl
  · by_cases hj : j = i
    · simp [hj, hi]
    · rw [List.mem_cons, List.mem_erase_of_ne hj]
      exact or_iff_right hj

theorem nodup_lruTouch (h : s.lru.Nodup) : (s.lruTouch i).lru.Nodup := by
  unfold lruTouch
  split_ifs
  · exact h
  · exact List.nodup_cons.mpr ⟨h.not_mem_erase, h.erase i⟩

theorem lruTouch_eq : s.lruTouch i = { s with lru := (s.lruTouch i).lru } := by
  unfold lruTouch
  split_ifs <;> rfl

theorem Index.lruTouch (h : Index s) (hv : (s.page i).valid = true) : Index (s.lruTouch i) := by
  rw [lruTouch_eq]
  refine { h with lru := fun j => ?_, lru_nodup := nodup_lruTouch h.lru_nodup }
  exact (mem_lruTouch ((h.lru i).mpr hv)).trans (h.lru j)

theorem dropPage_other (hj : j ≠ i) : (s.dropPage i keep).page j = s.page j :=
  update_of_ne hj ..

theorem dropPage_self : ((s.dropPage i keep).page i).valid = false ∧
    ((s.dropPage i keep).page i).used = false ∧ ((s.dropPage i keep).page i).dirty = false := by
  rw [show (s.dropPage i keep).page i = _ from update_self ..]
  exact ⟨rfl, rfl, rfl⟩

/-- **A page leaves** hash table and list. -/
theorem Index.dropPage (h : Index s) (keep : Bool) (hv : (s.page i).valid = true) :
    Index (s.dropPage i keep) := by
  have hvalid : ∀ j, ((s.dropPage i keep).page j).valid = true ↔ j ≠ i ∧ (s.page j).valid = true := by
    intro j
    by_cases hj : j = i
    · rw [hj, dropPage_self.1]
      simp
    · rw [dropPage_other hj]
      exact (and_iff_right hj).symm
  have hmem : ∀ b j, j ∈ (s.dropPage i keep).hash b ↔ j ≠ i ∧ j ∈ s.hash b := fun b j => by
    show j ∈ update s.hash (pcHash (s.page i).dev (s.page i).block) _ b ↔ _
    by_cases hb : b = pcHash (s.page i).dev (s.page i).block
    · rw [hb, update_self]
      exact (h.hash_nodup _).mem_erase_iff
    · rw [update_of_ne hb]
      refine (and_iff_right_of_imp ?_).symm
      rintro hj rfl
      exact hb ((h.hash b j).mp hj).2.symm
  refine ⟨fun j hj => h.lt j ((hvalid j).mp hj).2, fun b j => ?_, ?_, fun j => ?_, h.lru_nodup.erase i⟩
  · rw [hmem, hvalid, and_assoc, h.hash b j]
    refine and_congr_right fun hj => ?_
    rw [dropPage_other hj]
  · exact (forall_update_iff s.hash fun _ l => l.Nodup).mpr
      ⟨(h.hash_nodup _).erase i, fun b _ => h.hash_nodup b⟩
  · show j ∈ s.lru.erase i ↔ _
    rw [hvalid, h.lru_nodup.mem_erase_iff, h.lru j]

/-- The state after a page was read into slot `i` and entered. -/
def entered (s : PcSys) (i : Nat) (p : PcPage) : PcSys := ((s.setPage i p).hashInsert i).lruTouch i

theorem entered_eq : s.entered i p = { s with
    page := update s.page i p
    hash := (s.entered i p).hash
    lru := (s.entered i p).lru } := by
  unfold entered
  rw [lruTouch_eq]
  rfl

theorem entered_page : (s.entered i p).page = update s.page i p := by
  rw [entered_eq]

/-- **A page enters** hash table and list. -/
theorem Index.entered (h : Index s) (hi : i < pcMaxPages) (hold : (s.page i).valid = false)
    (hp : p.valid = true) : Index (s.entered i p) := by
  -- an invalid slot is on no chain, so pushing it keeps chains free of repeats
  have hnot : ∀ b, i ∉ s.hash b := fun b hmem => by
    have := ((h.hash b i).mp hmem).1
    rw [hold] at this
    cases this
  have hnotlru : i ∉ s.lru := fun hmem => by
    have := (h.lru i).mp hmem
    rw [hold] at this
    cases this
  have hself : (s.entered i p).page i = p := by
    rw [entered_page, update_self]
  have hother : ∀ {j}, j ≠ i → (s.entered i p).page j = s.page j := fun hj => by
    rw [entered_page, update_of_ne hj]
  have hhash : (s.entered i p).hash = update s.hash (pcHash p.dev p.block)
      (i :: s.hash (pcHash p.dev p.block)) := by
    unfold PcSys.entered
    rw [lruTouch_eq]
    unfold hashInsert
    rw [show (s.setPage i p).page i = p from update_self ..]
    rfl
  have hlru : (s.entered i p).lru = i :: s.lru := by
    unfold PcSys.entered PcSys.lruTouch
    rw [if_neg]
    · show i :: s.lru.erase i = _
      rw [List.erase_of_not_mem hnotlru]
    · exact fun hno => hnotlru (List.mem_of_mem_head? hno)
  refine ⟨?_, fun b j => ?_, ?_, fun j => ?_, ?_⟩
  · rw [entered_page]
    exact (forall_update_iff s.page fun j q => q.valid = true → j < pcMaxPages).mpr
      ⟨fun _ => hi, fun j _ => h.lt j⟩
  · have hmem : j ∈ (s.entered i p).hash b ↔ j = i ∧ pcHash p.dev p.block = b ∨ j ∈ s.hash b := by
      rw [hhash]
      by_cases hb : b = pcHash p.dev p.block
      · simp [hb]
      · simp [update_of_ne hb, Ne.symm hb]
    rw [hmem]
    by_cases hji : j = i
    · subst hji
      simp [hself, hp, hnot]
    · rw [hother hji, ← h.hash b j]
      exact or_iff_right fun hno => hji hno.1
  · rw [hhash]
    exact (forall_update_iff s.hash fun _ l => l.Nodup).mpr
      ⟨List.nodup_cons.mpr ⟨hnot _, h.hash_nodup _⟩, fun b _ => h.hash_nodup b⟩
  · rw [hlru, List.mem_cons]
    by_cases hji : j = i
    · subst hji
      rw [hself, hp]
      simp
    · rw [hother hji, ← h.lru j]
      exact or_iff_right hji
  · rw [hlru]
    exact List.nodup_cons.mpr ⟨hnotlru, h.lru_nodup⟩

/-! ### Coherence -/

/-- A block of an accepted size that lies on its device, read from the device that the id names
and, unless it was stored into, as the device has it. -/
structure PageOk (s : PcSys) (p : PcPage) : Prop where
  pos : 0 < p.spb
  size : p.blockSize = p.spb * 512
  fits : p.block * p.spb + p.spb ≤ s.size p.origin
  dev : s.dev p.dev = some p.origin
  data : ∃ d, p.data = some d ∧ (p.stored = false →
    ∀ o < p.blockSize, d o = s.sector p.origin (p.block * p.spb + o / 512) (o % 512))

/-- Two blocks that share no sector. -/
def Apart (p q : PcPage) : Prop := p.dev = q.dev → p.blockSize = q.blockSize ∧ p.block ≠ q.block

theorem Apart.symm {p q : PcPage} (h : Apart p q) : Apart q p :=
  fun hd => ⟨(h hd.symm).1.symm, (h hd.symm).2.symm⟩

structure Coherent (s : PcSys) : Prop where
  used : ∀ i, (s.page i).used = (s.page i).valid
  clean : ∀ i, (s.page i).dirty = false
  page : ∀ i, (s.page i).valid = true → s.PageOk (s.page i)
  apart : ∀ i j, i ≠ j → (s.page i).valid = true → (s.page j).valid = true →
    Apart (s.page i) (s.page j)
  /-- Ids name different devices, and none that is still to come. -/
  inst : ∀ a b x, s.dev a = some x → s.dev b = some x → a = b
  fresh : ∀ a x, s.dev a = some x → x < s.nextDev
  small : ∀ x, s.size x < u32Size

/-- What the records promise. -/
structure Records (s : PcSys) : Prop where
  gots : ∀ g ∈ s.gots, ∃ c, g.disk = some c ∧ ∀ o < g.size, g.page o = c o
  marks : ∀ m ∈ s.marks, m.dirty = true ∨ ∃ c, m.disk = some c ∧ ∀ o < m.size, m.page o = c o
  writes : ∀ w ∈ s.writes, w.1 = w.2

structure Inv (s : PcSys) : Prop where
  index : Index s
  coherent : Coherent s
  records : Records s

theorem Inv.start : Inv PcSys.start where
  index := ⟨(fun _ h => by cases h), fun _ _ => ⟨(fun h => by cases h), fun h => by cases h.1⟩,
    fun _ => List.nodup_nil, fun _ => ⟨(fun h => by cases h), fun h => by cases h⟩, List.nodup_nil⟩
  coherent := ⟨fun _ => rfl, fun _ => rfl, (fun _ h => by cases h), (fun _ _ _ h => by cases h),
    (fun _ _ _ h => by cases h), (fun _ _ h => by cases h), fun _ => by simp [PcSys.start, u32Size]⟩
  records := ⟨(fun _ h => by cases h), (fun _ h => by cases h), fun _ h => by cases h⟩

/-- **A coherent page** holds what its device holds. -/
theorem PageOk.contents (h : s.PageOk p) (hstored : p.stored = false) :
    ∃ d c, p.data = some d ∧ s.contents p.dev p.block p.blockSize = some c ∧
      ∀ o < p.blockSize, d o = c o := by
  obtain ⟨d, hd, hsame⟩ := h.data
  refine ⟨d, _, hd, ?_, hsame hstored⟩
  unfold PcSys.contents
  rw [h.dev]
  exact if_pos h.fits

section

variable (h : Coherent s)
include h

/-- **One page changes.**  The others are still as their devices have them. -/
theorem Coherent.change (hpage : s'.page = update s.page i p)
    (hdev : s'.dev = s.dev) (hsize : s'.size = s.size) (hnext : s'.nextDev = s.nextDev)
    (hused : p.used = p.valid) (hclean : p.dirty = false)
    (hkept : ∀ j, j ≠ i → (s.page j).valid = true → s'.PageOk (s.page j))
    (hp : p.valid = true → s'.PageOk p ∧ ∀ j, j ≠ i → (s.page j).valid = true → Apart p (s.page j)) :
    Coherent s' := by
  have hself : s'.page i = p := by rw [hpage, update_self]
  have hother : ∀ {j}, j ≠ i → s'.page j = s.page j := fun hj => by rw [hpage, update_of_ne hj]
  refine ⟨?_, ?_, ?_, fun a b hab ha hb => ?_, ?_, ?_, ?_⟩
  · rw [hpage]
    exact (forall_update_iff s.page fun _ q => q.used = q.valid).mpr ⟨hused, fun j _ => h.used j⟩
  · rw [hpage]
    exact (forall_update_iff s.page fun _ q => q.dirty = false).mpr ⟨hclean, fun j _ => h.clean j⟩
  · rw [hpage]
    exact (forall_update_iff s.page fun _ q => q.valid = true → s'.PageOk q).mpr
      ⟨fun hv => (hp hv).1, hkept⟩
  -- two pages, of which at most one is the changed one
  · by_cases hai : a = i
    · have hbi : b ≠ i := fun hbi => hab (hai.trans hbi.symm)
      rw [hai, hself] at ha ⊢
      rw [hother hbi] at hb ⊢
      exact (hp ha).2 b hbi hb
    · by_cases hbi : b = i
      · rw [hbi, hself] at hb ⊢
        rw [hother hai] at ha ⊢
        exact ((hp hb).2 a hai ha).symm
      · rw [hother hai] at ha ⊢
        rw [hother hbi] at hb ⊢
        exact h.apart a b hab ha hb
  · rw [hdev]
    exact h.inst
  · rw [hdev, hnext]
    exact h.fresh
  · rw [hsize]
    exact h.small

/-- One page changes, the devices do not. -/
theorem Coherent.update (hpage : s'.page = update s.page i p)
    (hdev : s'.dev = s.dev) (hsize : s'.size = s.size) (hsector : s'.sector = s.sector)
    (hnext : s'.nextDev = s.nextDev) (hused : p.used = p.valid) (hclean : p.dirty = false)
    (hp : p.valid = true → s.PageOk p ∧ ∀ j, j ≠ i → (s.page j).valid = true → Apart p (s.page j)) :
    Coherent s' := by
  have hok : ∀ {q}, s.PageOk q → s'.PageOk q := fun hq =>
    ⟨hq.pos, hq.size, by rw [hsize]; exact hq.fits, by rw [hdev]; exact hq.dev, by
      rw [hsector]; exact hq.data⟩
  exact h.change hpage hdev hsize hnext hused hclean (fun j _ hj => hok (h.page j hj))
    fun hv => ⟨hok (hp hv).1, (hp hv).2⟩

theorem Coherent.same (hpage : s'.page = s.page) (hdev : s'.dev = s.dev)
    (hsize : s'.size = s.size) (hsector : s'.sector = s.sector) (hnext : s'.nextDev = s.nextDev) :
    Coherent s' :=
  h.update (hpage.trans (update_eq_self ..).symm) hdev hsize hsector hnext (h.used 0) (h.clean 0)
    fun hv => ⟨h.page 0 hv, fun j hj hjv => h.apart 0 j (Ne.symm hj) hv hjv⟩

/-- A page changes in its pins only. -/
theorem Coherent.setPin {k : Nat} : Coherent (s.setPage i { s.page i with pinCount := k }) :=
  h.update rfl rfl rfl rfl rfl (h.used i) (h.clean i) fun hv =>
    ⟨{ h.page i hv with }, fun j hj hjv => h.apart i j (Ne.symm hj) hv hjv⟩

theorem Coherent.lruTouch : Coherent (s.lruTouch i) := by
  rw [lruTouch_eq]
  exact h.same rfl rfl rfl rfl rfl

end

theorem Records.of_eq (h : Records s) (hg : s'.gots = s.gots) (hm : s'.marks = s.marks)
    (hw : s'.writes = s.writes) : Records s' :=
  ⟨hg ▸ h.gots, hm ▸ h.marks, hw ▸ h.writes⟩

/-! ### Returning, dropping, entering -/

/-- A hit is noted. -/
theorem Inv.returns (h : Inv s) (hv : (s.page i).valid = true) (hd : (s.page i).dev = dev)
    (hb : (s.page i).block = block) (hn : (s.page i).blockSize = n) (hst : (s.page i).stored = false) :
    Inv (s.returns dev block n i) := by
  obtain ⟨d, c, hdata, hcont, hsame⟩ := (h.coherent.page i hv).contents hst
  rw [hd, hb, hn] at hcont
  unfold PcSys.returns
  rw [hdata]
  refine ⟨h.index.same rfl rfl rfl, h.coherent.same rfl rfl rfl rfl rfl, ?_, h.records.marks, h.records.writes⟩
  exact List.forall_mem_append.mpr
    ⟨h.records.gots, List.forall_mem_singleton.mpr ⟨c, hcont, hn ▸ hsame⟩⟩

theorem Inv.pinned (h : Inv s) (hv : (s.page i).valid = true) : Inv (s.pinned i) := by
  have hset : Index (s.setPage i { s.page i with pinCount := (s.page i).pinCount + 1 }) :=
    h.index.setPage rfl fun _ => ⟨rfl, rfl⟩
  refine ⟨hset.lruTouch ?_, h.coherent.setPin.lruTouch, ?_⟩
  · rw [show (s.setPage i _).page i = _ from update_self ..]
    exact hv
  · unfold PcSys.pinned
    rw [lruTouch_eq]
    exact h.records.of_eq rfl rfl rfl

theorem pinned_page : (s.pinned i).page i = { s.page i with pinCount := (s.page i).pinCount + 1 } := by
  unfold PcSys.pinned
  rw [lruTouch_eq]
  exact update_self ..

theorem Inv.dropPage (h : Inv s) (keep : Bool) (hv : (s.page i).valid = true) : Inv (s.dropPage i keep) where
  index := h.index.dropPage keep hv
  coherent := h.coherent.update rfl rfl rfl rfl rfl rfl rfl fun hno => Bool.noConfusion hno
  records := h.records.of_eq rfl rfl rfl

/-- Nothing is dirty, so nothing is written back. -/
theorem Coherent.writeback (h : Coherent s) (wrOk : Nat → Bool) : s.writeback i wrOk = s := by
  unfold PcSys.writeback
  dsimp only
  rw [h.clean i]
  rfl

/-- **A slot for a new page**: it is free, and no page appears by looking for it. -/
theorem Inv.allocPage {o : Option Nat} (h : Inv s) (hs : s.allocPage wrOk = (s', o)) :
    Inv s' ∧ s'.dev = s.dev ∧ s'.size = s.size ∧ (∀ j, (s'.page j).valid = true → s'.page j = s.page j) ∧
      ∀ i ∈ o, i < pcMaxPages ∧ (s'.page i).valid = false := by
  obtain ⟨rfl, rfl⟩ := Prod.mk.inj hs
  split
  · next i hfind =>
    refine ⟨h, rfl, rfl, fun _ _ => rfl, fun j hj => ?_⟩
    obtain rfl := Option.some.inj hj
    have hfree := List.find?_some hfind
    exact ⟨List.mem_range.mp (List.mem_of_find?_eq_some hfind), by
      rw [← h.coherent.used]
      simpa using hfree⟩
  · unfold PcSys.evictOne
    split
    · exact ⟨h, rfl, rfl, fun _ _ => rfl, fun j hj => by cases hj⟩
    · next i hfind =>
      have hv : (s.page i).valid = true :=
        (h.index.lru i).mp (List.mem_reverse.mp (List.mem_of_find?_eq_some hfind))
      rw [h.coherent.writeback wrOk]
      refine ⟨h.dropPage true hv, rfl, rfl, fun j hj => ?_, fun j hj => ?_⟩
      · refine dropPage_other fun hji => ?_
        rw [hji, dropPage_self.1] at hj
        cases hj
      · obtain rfl := Option.some.inj hj
        exact ⟨h.index.lt _ hv, dropPage_self.1⟩

theorem Inv.entered (h : Inv s) (hi : i < pcMaxPages) (hold : (s.page i).valid = false)
    (hp : p.valid = true) (hused : p.used = true) (hclean : p.dirty = false) (hok : s.PageOk p)
    (hapart : ∀ j, (s.page j).valid = true → Apart p (s.page j)) : Inv (s.entered i p) := by
  refine ⟨h.index.entered hi hold hp, ?_, ?_⟩
  all_goals rw [entered_eq]
  · exact h.coherent.update rfl rfl rfl rfl rfl (hused.trans hp.symm) hclean
      fun _ => ⟨hok, fun j _ hj => hapart j hj⟩
  · exact h.records.of_eq rfl rfl rfl

/-! ### Getting a page -/

/-- `pc_get_page` accepts the size. -/
def Accepted (n : Nat) : Prop := n ≠ 0 ∧ n % 512 = 0 ∧ n ≤ pcMaxBlockSize
deriving Decidable

/-- What a caller of `pc_get_page` has to see to. -/
@[mk_iff]
structure GetOk (s : PcSys) (dev block n : Nat) (rdOk : Nat → Bool) : Prop where
  /-- The cached blocks of the device have this size. -/
  size : ∀ i < pcMaxPages, (s.page i).valid = true → (s.page i).dev = dev → (s.page i).blockSize = n
  /-- A page that is there has no stores that were not marked. -/
  hit : ∀ i ∈ s.hashFind dev block, (s.page i).stored = false
  /-- Otherwise the device exists and can be read. -/
  miss : s.hashFind dev block = none → Accepted n →
    s.dev dev ≠ none ∧ ∀ k < n / 512, rdOk k = true

instance decidableGetOk (s : PcSys) (dev block n : Nat) (rdOk : Nat → Bool) :
    Decidable (s.GetOk dev block n rdOk) :=
  decidable_of_iff' _ (getOk_iff ..)

/-- **What a miss reads** is the block as the device has it. -/
theorem readBlock_ok {old : Nat → UInt8} (hacc : Accepted n) (hsmall : s.size x < u32Size)
    (hfits : block * (n / 512) + n / 512 ≤ s.size x) (hread : ∀ k < n / 512, rdOk k = true)
    {o : Nat} (ho : o < n) :
    s.readBlock (some x) ((block * (n / 512)) % u32Size) n rdOk old o =
      s.sector x (block * (n / 512) + o / 512) (o % 512) := by
  obtain ⟨hpos, hmod, -⟩ := hacc
  have hk : o / 512 < n / 512 := by omega
  unfold readBlock
  dsimp only
  rw [if_pos ho, Nat.mod_eq_of_lt (by omega : block * (n / 512) < u32Size),
    Nat.mod_eq_of_lt (by omega : block * (n / 512) + o / 512 < u32Size), hread _ hk, if_pos]
  rw [Bool.true_and, decide_eq_true_iff]
  omega

theorem inRange_some (h : s.inRange (some x) block n = true) : block * n + n ≤ s.size x := by
  unfold inRange at h
  rw [Bool.and_eq_true, Bool.and_eq_true, decide_eq_true_iff, decide_eq_true_iff,
    decide_eq_true_iff] at h
  omega

theorem target_of_dev (hx : s.dev dev = some x) : s.target dev = some x := by
  unfold target
  rw [hx]

theorem Inv.fill (h : Inv s) (hi : i < pcMaxPages) (hold : (s.page i).valid = false)
    (hacc : Accepted n) (hx : s.dev dev = some x) (hfits : block * (n / 512) + n / 512 ≤ s.size x)
    (hread : ∀ k < n / 512, rdOk k = true)
    (hsize : ∀ j, (s.page j).valid = true → (s.page j).dev = dev → (s.page j).blockSize = n)
    (hnone : ∀ j, (s.page j).valid = true → ¬((s.page j).dev = dev ∧ (s.page j).block = block))
    (kallocOk : Bool) (stray : Nat → UInt8) : Inv (s.fill dev block n i kallocOk stray rdOk) := by
  unfold PcSys.fill
  dsimp only
  rw [target_of_dev hx]
  -- a slot whose page does not become valid
  have hfail : ∀ q : PcPage, q.valid = false → q.used = false → q.dirty = false → Inv (s.setPage i q) :=
    fun q hv hu hd =>
      { index := h.index.setPage (hv.trans hold.symm) fun hno => by
          rw [hv] at hno
          cases hno
        coherent := h.coherent.update rfl rfl rfl rfl rfl (hu.trans hv.symm) hd fun hno => by
          rw [hv] at hno
          cases hno
        records := h.records.of_eq rfl rfl rfl }
  split
  · exact hfail _ rfl rfl rfl
  · next old _ _ =>
    set data := s.readBlock (some x) ((block * (n / 512)) % u32Size) n rdOk ((s.page i).data.getD stray)
      with hdata
    set read : PcPage := { s.page i with
      dev := dev, block := block, blockSize := n, used := true, valid := false, dirty := false,
      pinCount := 1, data := some data, origin := x, stored := false } with hreadp
    have hidx : Index (s.setPage i read) := h.index.setPage hold.symm fun hno => by cases hno
    -- the block did not appear meanwhile
    have hfind : (s.setPage i read).hashFind dev block = none := by
      rcases hf : (s.setPage i read).hashFind dev block with - | j
      · rfl
      · obtain ⟨hv, hd, hb⟩ := hidx.find_some hf
        have hji : j ≠ i := by
          rintro rfl
          rw [show (s.setPage j read).page j = read from update_self ..] at hv
          cases hv
        rw [show (s.setPage i read).page j = s.page j from update_of_ne hji ..] at hv hd hb
        exact absurd ⟨hd, hb⟩ (hnone j hv)
    rw [show Option.getD (some x) 0 = x from rfl, hfind]
    have henter : (((s.setPage i read).setPage i { read with valid := true }).hashInsert i).lruTouch i =
        s.entered i { read with valid := true } := by
      unfold PcSys.entered PcSys.setPage
      rw [update_idem]
    rw [henter]
    have hinv : Inv (s.entered i { read with valid := true }) := by
      refine h.entered hi hold rfl rfl rfl ⟨?_, ?_, hfits, hx, data, rfl, fun _ o ho => ?_⟩ fun j hj hd => ?_
      · have := hacc.1
        have := hacc.2.1
        show 0 < n / 512
        omega
      · have := hacc.2.1
        show n = n / 512 * 512
        omega
      · exact readBlock_ok hacc (h.coherent.small x) hfits hread ho
      · exact ⟨(hsize j hj hd.symm).symm, fun hb => hnone j hj ⟨hd.symm, hb.symm⟩⟩
    have hpage : (s.entered i { read with valid := true }).page i = { read with valid := true } := by
      rw [entered_page, update_self]
    exact hinv.returns (by rw [hpage]) (by rw [hpage]) (by rw [hpage]) (by rw [hpage]) (by rw [hpage])

/-- **`pc_get_page`**. -/
theorem Inv.pcGetPage (h : Inv s) (hok : s.GetOk dev block n rdOk) (kallocOk : Bool)
    (stray : Nat → UInt8) (wrOk : Nat → Bool) :
    Inv (s.pcGetPage dev block n kallocOk stray rdOk wrOk) := by
  have hsize : ∀ j, (s.page j).valid = true → (s.page j).dev = dev → (s.page j).blockSize = n :=
    fun j hv => hok.size j (h.index.lt j hv) hv
  unfold PcSys.pcGetPage
  split
  -- a hit answers with the page as it was filled, whatever size is asked
  · next i hfind =>
    obtain ⟨hv, hd, hb⟩ := h.index.find_some hfind
    refine (h.pinned hv).returns ?_ ?_ ?_ ?_ ?_
    all_goals rw [pinned_page]
    · exact hv
    · exact hd
    · exact hb
    · exact hsize i hv hd
    · exact hok.hit i hfind
  · next hfind =>
    by_cases hbad : n = 0 ∨ n % 512 ≠ 0
    · rw [if_pos hbad]
      exact h
    rw [if_neg hbad]
    by_cases hbig : pcMaxBlockSize < n
    · rw [if_pos hbig]
      exact h
    rw [if_neg hbig]
    by_cases hrange : s.inRange (s.target dev) block (n / 512) = false
    · rw [if_pos hrange]
      exact h
    rw [if_neg hrange]
    -- a miss that passes the checks evicts if it must and reads the block
    have hacc : Accepted n := ⟨by omega, by omega, by omega⟩
    obtain ⟨hdev, hread⟩ := hok.miss hfind hacc
    obtain ⟨x, hx⟩ := Option.ne_none_iff_exists'.mp hdev
    rw [target_of_dev hx, Bool.not_eq_false] at hrange
    split
    · next s₁ halloc => exact (h.allocPage halloc).1
    · next s₁ i halloc =>
      obtain ⟨hinv, hdev', hsize', hpages, hslot⟩ := h.allocPage halloc
      obtain ⟨hi, hold⟩ := hslot i rfl
      refine hinv.fill hi hold hacc (by rw [hdev', hx]) ?_ hread (fun j hj => ?_) (fun j hj => ?_) kallocOk stray
      · rw [hsize']
        exact inRange_some hrange
      · have heq := hpages j hj
        rw [heq] at hj ⊢
        exact hsize j hj
      · have heq := hpages j hj
        rw [heq] at hj ⊢
        exact h.index.find_none hfind hj

/-! ### Marking a page dirty -/

/-- What writing `n` sectors does, if all of them can be written. -/
theorem writeSectors_spec {lba : Nat} (origin : Nat) (data : Nat → UInt8)
    (hok : ∀ k < n, wrOk k = true) (hfits : lba + n ≤ s.size x) (hsmall : s.size x < u32Size) :
    (∀ y l, (s.writeSectors origin x lba data wrOk n).sector y l =
      if y = x ∧ lba ≤ l ∧ l < lba + n then fun o => data ((l - lba) * 512 + o) else s.sector y l) ∧
    (s.writeSectors origin x lba data wrOk n).writes = s.writes ++ List.replicate n (origin, x) ∧
    s.writeSectors origin x lba data wrOk n =
      { s with
        sector := (s.writeSectors origin x lba data wrOk n).sector
        writes := (s.writeSectors origin x lba data wrOk n).writes } := by
  -- on the sectors written so far
  induction n with
  | zero =>
    refine ⟨fun y l => ?_, (List.append_nil _).symm, rfl⟩
    rw [if_neg (by omega)]
    rfl
  | succ n ih =>
    obtain ⟨hsec, hwr, hrest⟩ := ih (fun k hk => hok k (by omega)) (by omega)
    have hl : (lba + n) % u32Size = lba + n := Nat.mod_eq_of_lt (by omega)
    unfold PcSys.writeSectors
    rw [hl, hok n (by omega), if_pos (by rw [Bool.true_and, decide_eq_true_iff]; omega)]
    refine ⟨fun y l => ?_, ?_, by rw [hrest]⟩
    · dsimp only
      by_cases hy : y = x
      · subst hy
        rw [update_self]
        by_cases hln : l = lba + n
        · subst hln
          rw [update_self, if_pos ⟨rfl, by omega, by omega⟩, Nat.add_sub_cancel_left]
        · rw [update_of_ne hln, hsec]
          exact if_congr (by omega) rfl rfl
      · rw [update_of_ne hy, hsec, if_neg fun hno => hy hno.1, if_neg fun hno => hy hno.1]
    · rw [hwr, List.append_assoc, List.replicate_succ']

/-- Writing sectors does not look at the pages. -/
theorem writeSectors_setPage {origin lba : Nat} {data : Nat → UInt8} (n : Nat) :
    (s.setPage i p).writeSectors origin x lba data wrOk n =
      (s.writeSectors origin x lba data wrOk n).setPage i p := by
  induction n with
  | zero => rfl
  | succ n ih =>
    unfold PcSys.writeSectors
    rw [ih]
    dsimp only
    rw [show (s.setPage i p).size = s.size from rfl]
    split_ifs <;> rfl

/-- Blocks of one size and of different numbers share no sector. -/
theorem block_apart {b b' m k k' : Nat} (hk : k < m) (hk' : k' < m) (h : b * m + k = b' * m + k') :
    b = b' := by
  have hb : (b * m + k) / m = b := by
    rw [Nat.mul_comm, Nat.mul_add_div (by omega), Nat.div_eq_of_lt hk, Nat.add_zero]
  have hb' : (b' * m + k') / m = b' := by
    rw [Nat.mul_comm, Nat.mul_add_div (by omega), Nat.div_eq_of_lt hk', Nat.add_zero]
  rw [← hb, h, hb']

/-- **A page is written through**: it is as its device has it now, and the other pages still are. -/
theorem Inv.writeThrough (h : Inv s) (hv : (s.page i).valid = true) {d : Nat → UInt8}
    (hd : (s.page i).data = some d) (hwr : ∀ k < (s.page i).spb, wrOk k = true) {t : PcSys}
    (ht : t = (s.writeSectors (s.page i).origin (s.page i).origin ((s.page i).block * (s.page i).spb) d
      wrOk (s.page i).spb).setPage i { s.page i with dirty := false, stored := false }) : Inv t := by
  have hpi := h.coherent.page i hv
  obtain ⟨hsec, hwrites, hrest⟩ := writeSectors_spec (s.page i).origin d hwr hpi.fits
    (h.coherent.small _)
  set w := s.writeSectors (s.page i).origin (s.page i).origin ((s.page i).block * (s.page i).spb) d
    wrOk (s.page i).spb with hw
  obtain rfl : t = { s with
      page := update s.page i { s.page i with dirty := false, stored := false }
      sector := w.sector
      writes := w.writes } := by
    rw [ht, hrest]
    rfl
  refine ⟨?_, h.coherent.change rfl rfl rfl rfl (h.coherent.used i) rfl (fun j hji hj => ?_) fun _ =>
    ⟨?_, fun j hj hjv => h.coherent.apart i j (Ne.symm hj) hv hjv⟩, h.records.gots, h.records.marks, ?_⟩
  · exact (h.index.setPage (p := { s.page i with dirty := false, stored := false }) rfl
      fun _ => ⟨rfl, rfl⟩).same rfl rfl rfl
  · have hpj := h.coherent.page j hj
    obtain ⟨dj, hdj, hsame⟩ := hpj.data
    refine { hpj with data := ⟨dj, hdj, fun hst o ho => ?_⟩ }
    rw [hsame hst o ho, hsec, if_neg]
    -- a sector of another block, or of another device
    rintro ⟨horig, hlo, hhi⟩
    have hids : (s.page i).dev = (s.page j).dev :=
      h.coherent.inst _ _ _ hpi.dev (by rw [← horig]; exact hpj.dev)
    obtain ⟨hbs, hne⟩ := h.coherent.apart i j (Ne.symm hji) hv hj hids
    have hspb : (s.page j).spb = (s.page i).spb := by
      unfold PcPage.spb
      rw [hbs]
    have hbj := hpj.size
    have hlt : o / 512 < (s.page j).spb := by omega
    rw [hspb] at hlo hhi hlt
    have hsame : (s.page i).block * (s.page i).spb +
        ((s.page j).block * (s.page i).spb + o / 512 - (s.page i).block * (s.page i).spb) =
          (s.page j).block * (s.page i).spb + o / 512 := by omega
    exact hne (block_apart (by omega) hlt hsame)
  · refine { hpi with data := ⟨d, hd, fun _ o ho => ?_⟩ }
    have ho : o < (s.page i).blockSize := ho
    have hbs := hpi.size
    show d o = w.sector (s.page i).origin ((s.page i).block * (s.page i).spb + o / 512) (o % 512)
    rw [hsec, if_pos ⟨rfl, by omega, by omega⟩]
    congr 1
    omega
  · rw [hwrites]
    exact List.forall_mem_append.mpr ⟨h.records.writes, fun y hy => by rw [List.eq_of_mem_replicate hy]⟩

/-- **`pc_mark_dirty`**, if the device takes every sector. -/
theorem Inv.pcMarkDirty (h : Inv s)
    (hwr : ∀ i ∈ s.hashFind dev block, ∀ k < (s.page i).spb, wrOk k = true) :
    Inv (s.pcMarkDirty dev block wrOk) := by
  unfold PcSys.pcMarkDirty
  split
  · exact h
  · next i hfind =>
    obtain ⟨hv, hdev, hblock⟩ := h.index.find_some hfind
    have hpi := h.coherent.page i hv
    obtain ⟨d, hd, -⟩ := hpi.data
    have hlba : (s.page i).block * (s.page i).spb % u32Size = (s.page i).block * (s.page i).spb :=
      Nat.mod_eq_of_lt (by have := h.coherent.small (s.page i).origin; have := hpi.fits; omega)
    set t := (s.writeSectors (s.page i).origin (s.page i).origin ((s.page i).block * (s.page i).spb) d
      wrOk (s.page i).spb).setPage i { s.page i with dirty := false, stored := false } with ht
    have hinv : Inv t := h.writeThrough hv hd (hwr i hfind) ht
    -- the page is written as it was before the mark
    have hback : ∀ q : PcPage, q = { s.page i with dirty := true } → (s.setPage i q).writeback i wrOk = t := by
      intro q hq
      have hpage : (s.setPage i q).page i = q := update_self ..
      have hdirty : q.dirty = true := by rw [hq]
      have hqd : q.data = some d := by rw [hq]; exact hd
      have hqdev : s.dev q.dev = some (s.page i).origin := by rw [hq]; exact hpi.dev
      have hspb : q.spb = (s.page i).spb := by rw [hq]; rfl
      have hqblock : q.block = (s.page i).block := by rw [hq]
      unfold PcSys.writeback
      dsimp only
      rw [hpage, hdirty, if_neg (by simp), hqd, show (s.setPage i q).dev q.dev = _ from hqdev]
      dsimp only
      rw [hspb, hqblock, hlba, writeSectors_setPage, ht, hq]
      unfold PcSys.setPage
      rw [update_idem, ← hd]
    dsimp only
    rw [hback _ rfl, hd]
    have hself : t.page i = { s.page i with dirty := false, stored := false } := update_self ..
    have hvt : (t.page i).valid = true := by rw [hself]; exact hv
    obtain ⟨d', c, hd', hcont, hsame⟩ := (hinv.coherent.page i hvt).contents (by rw [hself])
    rw [hself] at hd' hcont hsame
    obtain rfl := Option.some.inj (hd.symm.trans hd')
    refine ⟨hinv.index.same rfl rfl rfl, hinv.coherent.same rfl rfl rfl rfl rfl, hinv.records.gots,
      ?_, hinv.records.writes⟩
    refine List.forall_mem_append.mpr
      ⟨hinv.records.marks, List.forall_mem_singleton.mpr (Or.inr ⟨c, ?_, hsame⟩)⟩
    rw [← hdev, ← hblock]
    exact hcont

/-! ### The other calls -/

theorem Inv.pcPutPage (h : Inv s) (dev block : Nat) : Inv (s.pcPutPage dev block) := by
  unfold PcSys.pcPutPage
  split
  · exact h
  · dsimp only
    split_ifs
    · exact h
    · exact ⟨h.index.setPage rfl fun _ => ⟨rfl, rfl⟩, h.coherent.setPin, h.records.of_eq rfl rfl rfl⟩

/-- With nothing dirty a flush does nothing. -/
theorem Coherent.pcFlushDev (h : Coherent s) (dev : Nat) (wrOk : Nat → Bool) :
    s.pcFlushDev dev wrOk = s := by
  unfold PcSys.pcFlushDev
  induction List.range pcMaxPages with
  | nil => rfl
  | cons i l ih =>
    rw [List.foldl_cons, if_neg]
    · exact ih
    · rw [h.clean i]
      simp

theorem Inv.pcInvalidateBlock (h : Inv s) (dev block : Nat) (wrOk : Nat → Bool) :
    Inv (s.pcInvalidateBlock dev block wrOk) := by
  unfold PcSys.pcInvalidateBlock
  split
  · exact h
  · next i hfind =>
    split_ifs
    · exact h
    · rw [h.coherent.writeback wrOk]
      exact h.dropPage false (h.index.find_some hfind).1
    · exact h.dropPage false (h.index.find_some hfind).1

theorem Inv.pcInvalidateDev (h : Inv s) (dev : Nat) (wrOk : Nat → Bool) :
    Inv (s.pcInvalidateDev dev wrOk) := by
  unfold PcSys.pcInvalidateDev
  rw [h.coherent.pcFlushDev]
  refine List.foldlRecOn _ _ h fun s h i _ => ?_
  split_ifs with hcond
  · rw [Bool.and_eq_true, Bool.and_eq_true] at hcond
    exact h.dropPage false hcond.1.1
  · exact h

/-- A store leaves the page marked as stored into. -/
theorem Inv.store (h : Inv s) (i off : Nat) (v : UInt8) : Inv (s.store i off v) := by
  refine ⟨h.index.setPage rfl fun _ => ⟨rfl, rfl⟩, ?_, h.records.of_eq rfl rfl rfl⟩
  refine h.coherent.update rfl rfl rfl rfl rfl (h.coherent.used i) (h.coherent.clean i) fun hv => ?_
  have hp := h.coherent.page i hv
  obtain ⟨d, hd, -⟩ := hp.data
  refine ⟨{ hp with data := ⟨Function.update d off v, ?_, fun hno => Bool.noConfusion hno⟩ },
    fun j hj hjv => h.coherent.apart i j (Ne.symm hj) hv hjv⟩
  rw [hd]
  rfl

/-- **The device table changes** at an id of which nothing is cached. -/
theorem Inv.setDevice (h : Inv s) {id : Nat} {x : Option (Nat × (Nat → Sector))}
    (hx : ∀ y ∈ x, y.1 < u32Size) (hnone : ∀ i, (s.page i).valid = true → (s.page i).dev ≠ id) :
    Inv (s.setDevice id x) := by
  -- a page belongs to a device already seen, never to the number the new one takes
  have hlt : ∀ i, (s.page i).valid = true → (s.page i).origin < s.nextDev :=
    fun i hv => h.coherent.fresh _ _ (h.coherent.page i hv).dev
  cases x with
  | none =>
    have hdev : ∀ a y, (s.setDevice id none).dev a = some y → s.dev a = some y :=
      (forall_update_iff s.dev fun a o => ∀ y, o = some y → s.dev a = some y).mpr
        ⟨nofun, fun _ _ _ hy => hy⟩
    refine ⟨h.index.same rfl rfl rfl,
      { h.coherent with
        page := fun i hv => ?_
        inst := fun a b y ha hb => h.coherent.inst a b y (hdev a y ha) (hdev b y hb)
        fresh := fun a y ha => h.coherent.fresh a y (hdev a y ha) }, h.records.of_eq rfl rfl rfl⟩
    have hp := h.coherent.page i hv
    exact { hp with dev := (update_of_ne (hnone i hv) ..).trans hp.dev }
  | some y =>
    obtain ⟨size, sectors⟩ := y
    have hdev : ∀ a y, (s.setDevice id (some (size, sectors))).dev a = some y →
        a = id ∧ y = s.nextDev ∨ a ≠ id ∧ s.dev a = some y :=
      (forall_update_iff s.dev fun a o => ∀ y, o = some y →
        a = id ∧ y = s.nextDev ∨ a ≠ id ∧ s.dev a = some y).mpr
        ⟨fun _ hy => Or.inl ⟨rfl, (Option.some.inj hy).symm⟩, fun _ ha _ hy => Or.inr ⟨ha, hy⟩⟩
    refine ⟨h.index.same rfl rfl rfl,
      ⟨h.coherent.used, h.coherent.clean, fun i hv => ?_, h.coherent.apart, fun a b y ha hb => ?_,
        fun a y ha => ?_, fun y => ?_⟩, h.records.of_eq rfl rfl rfl⟩
    · have hp := h.coherent.page i hv
      have hne : (s.page i).origin ≠ s.nextDev := Nat.ne_of_lt (hlt i hv)
      refine ⟨hp.pos, hp.size, ?_, (update_of_ne (hnone i hv) ..).trans hp.dev, ?_⟩
      · show _ ≤ Function.update s.size s.nextDev size (s.page i).origin
        rw [update_of_ne hne]
        exact hp.fits
      · obtain ⟨d, hd, hsame⟩ := hp.data
        refine ⟨d, hd, fun hno o ho => (hsame hno o ho).trans ?_⟩
        show _ = Function.update s.sector s.nextDev sectors (s.page i).origin _ _
        rw [update_of_ne hne]
        rfl
    · rcases hdev a y ha with ⟨rfl, rfl⟩ | ⟨-, ha⟩
      · rcases hdev b _ hb with ⟨rfl, -⟩ | ⟨-, hb⟩
        · rfl
        · exact absurd (h.coherent.fresh b _ hb) (Nat.lt_irrefl _)
      · rcases hdev b y hb with ⟨-, rfl⟩ | ⟨-, hb⟩
        · exact absurd (h.coherent.fresh a _ ha) (Nat.lt_irrefl _)
        · exact h.coherent.inst a b y ha hb
    · rcases hdev a y ha with ⟨-, rfl⟩ | ⟨-, ha⟩
      · exact Nat.lt_succ_self _
      · exact Nat.lt_succ_of_lt (h.coherent.fresh a y ha)
    · exact (forall_update_iff s.size fun _ n => n < u32Size).mpr ⟨hx _ rfl, fun y _ => h.coherent.small y⟩ y

/-! ### Runs -/

/-- What a run has to keep to. -/
def Clean (s : PcSys) : Event → Prop
  | .get dev block n _ _ rdOk _ => s.GetOk dev block n rdOk
  | .markDirty dev block wrOk => ∀ i ∈ s.hashFind dev block, ∀ k < (s.page i).spb, wrOk k = true
  | .device id _ => ∀ i < pcMaxPages, (s.page i).valid = true → (s.page i).dev ≠ id
  | _ => True

instance decidableClean (s : PcSys) (e : Event) : Decidable (Clean s e) := by
  unfold Clean
  split <;> infer_instance

theorem Inv.step {ev : Event} (h : Inv s) (hc : Clean s ev) (hs : step s ev = some s') : Inv s' := by
  cases ev
  case store i off v =>
    obtain ⟨-, rfl⟩ := of_guard hs
    exact h.store i off v
  case device id x =>
    obtain ⟨hx, rfl⟩ := of_guard hs
    exact h.setDevice hx fun i hv => hc i (h.index.lt i hv) hv
  all_goals obtain rfl := Option.some.inj hs
  case get dev block n kallocOk stray rdOk wrOk => exact h.pcGetPage hc kallocOk stray wrOk
  case markDirty dev block wrOk => exact h.pcMarkDirty hc
  case put dev block => exact h.pcPutPage dev block
  case flushDev dev wrOk =>
    rw [h.coherent.pcFlushDev]
    exact h
  case invalidateBlock dev block wrOk => exact h.pcInvalidateBlock dev block wrOk
  case invalidateDev dev wrOk => exact h.pcInvalidateDev dev wrOk
  case boot id =>
    exact ⟨{ h.index with },
      { h.coherent with page := fun i hv => { h.coherent.page i hv with } }, h.records.of_eq rfl rfl rfl⟩

/-- **The page cache refines the disk** in every run in which the callers use one block size for
a device, name devices that exist, mark what they store before they get the page again, empty the
cache of a device before its id changes hands, and in which no sector fails. -/
theorem page_cache_refines_disk (es : List Event) (s : PcSys) (hclean : MeetsAll step Clean start es)
    (hrun : run step start es = some s) :
    (∀ g ∈ s.gots, ∃ c, g.disk = some c ∧ ∀ o < g.size, g.page o = c o) ∧
    (∀ m ∈ s.marks, m.dirty = true ∨ ∃ c, m.disk = some c ∧ ∀ o < m.size, m.page o = c o) ∧
    ∀ w ∈ s.writes, w.1 = w.2 := by
  have hinv := run_invariant Inv.step Inv.start hclean hrun
  exact ⟨hinv.records.gots, hinv.records.marks, hinv.records.writes⟩

/-! ### Runs that do and do not keep to it -/

def always : Nat → Bool := fun _ => true

/-- A device of `n` sectors in which every byte of sector `l` is `l`. -/
def counting (n : Nat) : Option (Nat × (Nat → Sector)) := some (n, fun l _ => l.toUInt8)

def tidyRun : List Event :=
  [.device 3 (counting 16), .get 3 1 1024 true (fun _ => 0) always always, .store 0 0 9,
    .markDirty 3 1 always, .put 3 1, .get 3 1 1024 true (fun _ => 0) always always, .put 3 1,
    .invalidateDev 3 always, .device 3 none]

theorem page_cache_refines_disk_tidyRun :
    MeetsAll step Clean start tidyRun ∧
      ∃ s, run step start tidyRun = some s ∧
        ((∀ g ∈ s.gots, ∃ c, g.disk = some c ∧ ∀ o < g.size, g.page o = c o) ∧
          (∀ m ∈ s.marks, m.dirty = true ∨ ∃ c, m.disk = some c ∧ ∀ o < m.size, m.page o = c o) ∧
          ∀ w ∈ s.writes, w.1 = w.2) ∧
        s.gots.map (fun g => (g.page 0, g.page 512)) = [(2, 3), (9, 3)] ∧ s.writes = [(0, 0), (0, 0)] := by
  have hclean : MeetsAll step Clean start tidyRun := by decide +kernel
  exact ⟨hclean, exists_of_check (by decide +kernel) fun s hs hview =>
    ⟨page_cache_refines_disk tidyRun s hclean hs, hview⟩⟩

/-- Block 1 is got with 512 bytes, then with 1024. -/
def mixedSizes : List Event :=
  [.device 3 (counting 16), .get 3 1 512 true (fun _ => 0) always always,
    .get 3 1 1024 true (fun _ => 0) always always]

/-- A page whose first byte is not that of its sectors. -/
theorem got_differs {s : PcSys} (n : Nat) (v w : UInt8) (hn : 0 < n) (hne : v ≠ w)
    {l : List (Nat × UInt8 × Option UInt8)} (hmem : (n, v, some w) ∈ l)
    (hl : s.gots.map (fun g => (g.size, g.page 0, g.disk.map fun c => c 0)) = l) :
    ¬∀ g ∈ s.gots, ∃ c, g.disk = some c ∧ ∀ o < g.size, g.page o = c o := by
  intro h
  rw [← hl] at hmem
  obtain ⟨g, hg, hval⟩ := List.mem_map.mp hmem
  obtain ⟨c, hdisk, hpage⟩ := h g hg
  simp only [Prod.mk.injEq, hdisk, Option.map_some, Option.some.injEq] at hval
  obtain ⟨rfl, rfl, rfl⟩ := hval
  exact hne (hpage 0 hn)

/-- **The key does not hold the block size**: block 1 of 1024 bytes begins at sector 2, and the page
that is returned for it holds sector 1. -/
theorem size_not_in_key :
    ∃ s, run step start mixedSizes = some s ∧
      (¬∀ g ∈ s.gots, ∃ c, g.disk = some c ∧ ∀ o < g.size, g.page o = c o) ∧
      s.gots.map (fun g => (g.size, g.page 0, g.disk.map fun c => c 0)) =
        [(512, 1, some 1), (1024, 1, some 2)] :=
  exists_of_check (by decide +kernel) fun s _ hview =>
    ⟨got_differs 1024 1 2 (by decide) (by decide) (by decide) hview, hview⟩

end PcSys

end CactKernel
