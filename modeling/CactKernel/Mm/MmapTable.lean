/-
CactKernel/Mm/MmapTable.lean

The region table of a process (`vmm/mmap.rs`, `sync/src/kernel_types.rs`):
256 slots, each free or holding one mapped range, and a bump pointer.

The functions here are the ones that only look at the table; `Mmap` builds
the system calls on them.  Of the flag and protection words the table keeps
the bits some function tests.  `find_free_va` is a loop whose passes are
bounded by the number of slots; the bound is its fuel, and
`freeVaLoop_fuel` shows that more of it never changes the result.

Main results: `TableInv`, the representation invariant of the table, with
the two ways in which it is kept: a region that shrinks
(`TableInv.shrink`) and a region put where no other is (`TableInv.insert`);
and `findFreeVa_spec`, which makes `find_free_va` an instance of the second.
-/
import CactKernel.Mm.Layout
import CactKernel.Lib.Cover

namespace CactKernel

/-! ### Regions and tables -/

/-- The bits of the `flags` word of `mmap`. -/
structure MapFlags where
  shared : Bool
  priv : Bool
  fixed : Bool
  anon : Bool
deriving DecidableEq, Repr

/-- One slot of the table. -/
structure MmapRegion where
  base : Nat
  length : Nat
  flags : MapFlags
  write : Bool
  fd : Int
  fileOff : Nat
  isUsed : Bool
  shobj : Nat
deriving DecidableEq, Repr

def mmapMaxRegions : Nat := 256

/-- The table of a process. -/
structure MmapTable where
  regions : List MmapRegion
  nextBase : Nat
  length_eq : regions.length = mmapMaxRegions

namespace MmapTable

/-- Overwrite one slot. -/
def set (t : MmapTable) (i : Nat) (r : MmapRegion) : MmapTable where
  regions := t.regions.set i r
  nextBase := t.nextBase
  length_eq := by rw [List.length_set, t.length_eq]

/-- Slot `i` holds the used region `r`. -/
def Used (t : MmapTable) (i : Nat) (r : MmapRegion) : Prop :=
  t.regions[i]? = some r ∧ r.isUsed = true

theorem used_set {t : MmapTable} {i j : Nat} {r q : MmapRegion} :
    (t.set i q).Used j r → j = i ∧ r = q ∧ q.isUsed = true ∨ j ≠ i ∧ t.Used j r := by
  rintro ⟨h, hu⟩
  rw [set, List.getElem?_set] at h
  by_cases hij : i = j
  · subst hij
    rw [if_pos rfl] at h
    split_ifs at h
    obtain rfl := Option.some.inj h
    exact Or.inl ⟨rfl, rfl, hu⟩
  · rw [if_neg hij] at h
    exact Or.inr ⟨Ne.symm hij, h, hu⟩

end MmapTable

/-- `mmap_table_init`. -/
def mmapTableInit (t : MmapTable) : MmapTable where
  regions := t.regions.map fun r => { r with isUsed := false, fd := -1, shobj := 0 }
  nextBase := mmapBase
  length_eq := by rw [List.length_map, t.length_eq]

/-- `mmap_find_region` from slot `i` on: the slot whose region holds `addr`. -/
def findRegionFrom (addr : Nat) : List MmapRegion → Nat → Option (Option Nat)
  | [], _ => some none
  | r :: rs, i =>
    if r.isUsed = true ∧ r.base ≤ addr then
      (checkedAdd r.base r.length).bind fun last =>
        if addr < last then some (some i) else findRegionFrom addr rs (i + 1)
    else findRegionFrom addr rs (i + 1)

def mmapFindRegion (t : MmapTable) (addr : Nat) : Option (Option Nat) :=
  findRegionFrom addr t.regions 0

/-- `alloc_region_slot`: the first free slot. -/
def allocRegionSlot (t : MmapTable) : Option Nat := t.regions.findIdx? fun r => !r.isUsed

/-! ### Placing a mapping -/

/-- `(x + PAGE_SIZE - 1) & !(PAGE_SIZE - 1)` under overflow checks. -/
def pageUp (x : Nat) : Option Nat :=
  (checkedAdd x pageSize).map fun y => (y - 1) / pageSize * pageSize

/-- The used region `r` meets `[candidate, candidate + length)`. -/
def clashes (length candidate : Nat) (r : MmapRegion) : Bool :=
  r.isUsed && decide (candidate < satAdd r.base r.length) &&
    decide (r.base < satAdd candidate length)

/-- The placement loop: skip past a clashing region and look again. -/
def freeVaLoop (regions : List MmapRegion) (length : Nat) : Nat → Nat → Option Nat
  | 0, _ => some 0
  | fuel + 1, candidate =>
    if mmapLimit < (candidate + length) % u32Size ∨ (candidate + length) % u32Size < candidate then
      some 0
    else
      match regions.find? (clashes length candidate) with
      | none => some candidate
      | some r => (pageUp (satAdd r.base r.length)).bind (freeVaLoop regions length fuel)

/-- An address in the mmap window for `length` bytes, 0 if there is none. -/
def findFreeVa (t : MmapTable) (length : Nat) : Option Nat :=
  (pageUp t.nextBase).bind (freeVaLoop t.regions length (mmapMaxRegions + 1))

theorem pageUp_spec {x y : Nat} (h : pageUp x = some y) :
    x ≤ y ∧ y < x + pageSize ∧ y % pageSize = 0 ∧ x + pageSize < u32Size := by
  obtain ⟨z, hz, rfl⟩ := Option.map_eq_some_iff.mp h
  obtain ⟨hlt, rfl⟩ := checkedAdd_eq_some.mp hz
  refine ⟨?_, ?_, Nat.mul_mod_left _ _, hlt⟩ <;> simp only [pageSize] <;> omega

/-- Regions that still lie ahead of the candidate. -/
def ahead (regions : List MmapRegion) (candidate : Nat) : Nat :=
  regions.countP fun r => r.isUsed && decide (candidate < satAdd r.base r.length)

variable {regions : List MmapRegion} {length : Nat}

/-- Skipping past a clashing region leaves fewer of them ahead. -/
theorem ahead_lt {c c' : Nat} {r : MmapRegion} (hr : r ∈ regions)
    (hclash : clashes length c r = true) (hc : c ≤ c')
    (hr' : satAdd r.base r.length ≤ c') : ahead regions c' < ahead regions c := by
  simp only [clashes, Bool.and_eq_true] at hclash
  refine Cover.countP_lt hr (fun q hq => ?_) (by simp [hclash.1]) (by simp; omega)
  simp only [Bool.and_eq_true, decide_eq_true_eq] at hq ⊢
  exact ⟨hq.1, by omega⟩

/-- More fuel than regions ahead never changes the result of the loop. -/
theorem freeVaLoop_fuel {fuel c : Nat} (h : ahead regions c < fuel) :
    freeVaLoop regions length fuel c = freeVaLoop regions length (fuel + 1) c := by
  induction fuel generalizing c with
  | zero => omega
  | succ n ih =>
    rw [freeVaLoop, freeVaLoop]
    split
    · rfl
    · rcases hf : regions.find? (clashes length c) with - | r
      · rfl
      · refine Option.bind_congr fun c' hp => ih ?_
        obtain ⟨hle, -⟩ := pageUp_spec hp
        have hclash := List.find?_some hf
        have hc : c < satAdd r.base r.length := by
          simp only [clashes, Bool.and_eq_true, decide_eq_true_eq] at hclash
          exact hclash.1.2
        have hlt := ahead_lt (List.mem_of_find?_eq_some hf) hclash (hc.le.trans hle) hle
        omega

/-- The loop's own bound is enough. -/
theorem ahead_le (t : MmapTable) (c : Nat) : ahead t.regions c < mmapMaxRegions + 1 := by
  have := List.countP_le_length (p := fun r => r.isUsed && decide (c < satAdd r.base r.length))
    (l := t.regions)
  rw [t.length_eq] at this
  unfold ahead
  omega

/-! ### The representation invariant -/

/-- A mapped range: whole pages inside user space. -/
structure RegionOk (r : MmapRegion) : Prop where
  aligned : r.base % pageSize = 0
  pos : 0 < r.length
  whole : r.length % pageSize = 0
  low : userSpaceStart ≤ r.base
  high : r.base + r.length ≤ userStackTop

/-- Two ranges that do not meet. -/
def Apart (r r' : MmapRegion) : Prop :=
  r.base + r.length ≤ r'.base ∨ r'.base + r'.length ≤ r.base

/-- `addr` lies in the region. -/
def MmapRegion.Holds (r : MmapRegion) (addr : Nat) : Prop :=
  r.base ≤ addr ∧ addr < r.base + r.length

/-- **The representation invariant of a region table.** -/
structure TableInv (t : MmapTable) : Prop where
  ok : ∀ i r, t.Used i r → RegionOk r
  apart : ∀ i j r r', i ≠ j → t.Used i r → t.Used j r' → Apart r r'
  next_low : userSpaceStart ≤ t.nextBase

/-- A fresh table has no used region. -/
theorem mmapTableInit_not_used (t : MmapTable) (i : Nat) (r : MmapRegion) :
    ¬(mmapTableInit t).Used i r := by
  rintro ⟨h, hu⟩
  rw [mmapTableInit, List.getElem?_map] at h
  obtain ⟨q, -, rfl⟩ := Option.map_eq_some_iff.mp h
  cases hu

theorem mmapTableInit_inv (t : MmapTable) : TableInv (mmapTableInit t) := by
  refine ⟨fun i r h => absurd h (mmapTableInit_not_used t i r),
    fun i j r r' _ h => absurd h (mmapTableInit_not_used t i r), ?_⟩
  simp [mmapTableInit, userSpaceStart, mmapBase]

/-- At most one used region holds an address. -/
theorem TableInv.holds_unique {t : MmapTable} (ht : TableInv t) {i j : Nat} {r r' : MmapRegion}
    {addr : Nat} (hi : t.Used i r) (hj : t.Used j r') (h : r.Holds addr) (h' : r'.Holds addr) :
    i = j := by
  by_contra hij
  rcases ht.apart i j r r' hij hi hj with hle | hle
  · exact absurd (lt_of_lt_of_le h.2 (hle.trans h'.1)) (lt_irrefl _)
  · exact absurd (lt_of_lt_of_le h'.2 (hle.trans h.1)) (lt_irrefl _)

variable {t : MmapTable} {i : Nat} {r q : MmapRegion}

/-- A slot may take a range that is apart from all the others. -/
theorem TableInv.set (ht : TableInv t)
    (hq : q.isUsed = true → RegionOk q ∧ ∀ j r, j ≠ i → t.Used j r → Apart q r) :
    TableInv (t.set i q) := by
  refine ⟨fun j s hs => ?_, fun j k s s' hjk hs hs' => ?_, ht.next_low⟩
  · rcases MmapTable.used_set hs with ⟨-, rfl, hu⟩ | ⟨-, hs⟩
    · exact (hq hu).1
    · exact ht.ok j s hs
  · rcases MmapTable.used_set hs with ⟨rfl, rfl, hu⟩ | ⟨-, hold⟩ <;>
      rcases MmapTable.used_set hs' with ⟨rfl, rfl, hu'⟩ | ⟨-, hold'⟩
    · exact absurd rfl hjk
    · exact (hq hu).2 k s' hjk.symm hold'
    · exact ((hq hu').2 j s hjk hold).symm
    · exact ht.apart j k s s' hjk hold hold'

/-- **A region may shrink or go.** -/
theorem TableInv.shrink (ht : TableInv t) (hr : t.Used i r) (hq : q.isUsed = true → RegionOk q ∧
    r.base ≤ q.base ∧ q.base + q.length ≤ r.base + r.length) : TableInv (t.set i q) := by
  refine ht.set fun hu => ⟨(hq hu).1, fun j s hj hs => ?_⟩
  -- whatever was apart from the old range is apart from a part of it
  have := ht.apart i j r s hj.symm hr hs
  have := hq hu
  unfold Apart at *
  omega

/-- **A region may be put into a free slot** if its range is apart from all
used ones. -/
theorem TableInv.insert (ht : TableInv t) (hq : RegionOk q) (hapart : ∀ j r, t.Used j r → Apart q r) :
    TableInv (t.set i q) :=
  ht.set fun _ => ⟨hq, fun j r _ => hapart j r⟩

/-! ### `find_free_va` finds free space -/

/-- A candidate the loop accepts is a free, in-window place for the mapping. -/
theorem freeVaLoop_spec {fuel c va : Nat} (hc : c % pageSize = 0) (hcu : c < u32Size)
    (h : freeVaLoop regions length fuel c = some va) (hva : va ≠ 0) :
    c ≤ va ∧ va % pageSize = 0 ∧ va < u32Size ∧
    (va + length) % u32Size ≤ mmapLimit ∧ va ≤ (va + length) % u32Size ∧
    ∀ r ∈ regions, clashes length va r = false := by
  induction fuel generalizing c with
  | zero =>
    obtain rfl := Option.some.inj h
    exact absurd rfl hva
  | succ n ih =>
    rw [freeVaLoop] at h
    split_ifs at h with hend
    · obtain rfl := Option.some.inj h
      exact absurd rfl hva
    · rcases hf : regions.find? (clashes length c) with - | r <;> rw [hf] at h
      · obtain rfl := Option.some.inj h
        refine ⟨le_rfl, hc, hcu, by omega, by omega, fun r hr => ?_⟩
        simpa using List.find?_eq_none.mp hf r hr
      · obtain ⟨c', hp, hloop⟩ := Option.bind_eq_some_iff.mp h
        obtain ⟨hle, hup, hmod, hlt⟩ := pageUp_spec hp
        have hclash := List.find?_some hf
        simp only [clashes, Bool.and_eq_true, decide_eq_true_eq] at hclash
        obtain ⟨h₁, h₂⟩ := ih hmod (hup.trans hlt) hloop
        exact ⟨by omega, h₂⟩

/-- **`find_free_va` returns free space**: whole pages of the mmap window that
no used region meets. -/
theorem findFreeVa_spec (ht : TableInv t) {va : Nat} (hlen : length < u32Size)
    (h : findFreeVa t length = some va) (hva : va ≠ 0) :
    va % pageSize = 0 ∧ userSpaceStart ≤ va ∧ va + length ≤ mmapLimit ∧
    ∀ i r, t.Used i r → va + length ≤ r.base ∨ r.base + r.length ≤ va := by
  obtain ⟨c, hp, hloop⟩ := Option.bind_eq_some_iff.mp h
  obtain ⟨hle, hc, hmod, hlt⟩ := pageUp_spec hp
  obtain ⟨h₁, h₂, h₃, h₄, h₅, h₆⟩ := freeVaLoop_spec hmod (hc.trans hlt) hloop hva
  have hlow := ht.next_low
  have hnowrap : va + length < u32Size := by
    simp only [u32Size, pageSize] at *
    omega
  rw [Nat.mod_eq_of_lt hnowrap] at h₄
  refine ⟨h₂, by omega, h₄, fun i r hr => ?_⟩
  have hfree := h₆ r (List.mem_of_getElem? hr.1)
  have hok := ht.ok i r hr
  have hhigh := hok.high
  simp only [clashes, hr.2, Bool.true_and, Bool.and_eq_false_iff, decide_eq_false_iff_not] at hfree
  simp only [satAdd, u32Size, userStackTop] at *
  omega

end CactKernel
