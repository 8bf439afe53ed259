/-
CactKernel/Alloc/SlabLaw.lean

The invariant of a slab cache.

`FreeObjects s p l` says that `l` is the free list of the slab in page `p`: it
is the chain in memory, it repeats nothing, and it consists of the objects of
the slab that are not live.  `SlabInv` adds that each slab is on the one list
its counters call for.  An allocation first gets a slab with room onto the
partial list (`HasRoom`), whichever of three ways it takes, and then takes an
object from it; a free and a shrink are one step each.

The counters are compared by an `else if`: a slab that was full goes to the
partial list, also when it is empty now.  This is a slab with room for one
object, and such slabs there are from 2033 bytes on.  **Main result**
`slab_cache_lawful_iff`.
-/
import CactKernel.Alloc.Slab
import CactKernel.Lib.Chain
import Mathlib.Data.List.Perm.Subperm

namespace CactKernel

open Function Runs Places Chain

/-! ### Objects -/

namespace SlabCache

variable {c : SlabCache} {p p' a i j : Nat}

/-- What `slab_cache_create` establishes: objects fit into the page. -/
structure Sound (c : SlabCache) : Prop where
  size : 0 < c.objSize
  some : 1 ≤ c.objsPerSlab
  fits : slabHeader + c.objsPerSlab * c.objSize ≤ pageSize

/-- The constructor leaves the links alone. -/
def KeepsLinks (c : SlabCache) : Prop := ∀ a w, c.construct a w = w

/-- The objects of the slab in page `p`. -/
def slots (c : SlabCache) (p : Nat) : List Nat := (List.range c.objsPerSlab).map (c.slot p)

theorem mem_slots : a ∈ c.slots p ↔ ∃ i < c.objsPerSlab, c.slot p i = a := by
  simp [slots]

theorem slots_length : (c.slots p).length = c.objsPerSlab := by
  simp [slots]

theorem slot_ne_zero : c.slot p i ≠ 0 := by
  unfold slot slabHeader
  omega

section

variable (hc : c.Sound)
include hc

theorem slot_injective (h : c.slot p i = c.slot p j) : i = j := by
  unfold slot at h
  exact Nat.eq_of_mul_eq_mul_right hc.size (by omega)

theorem slots_nodup : (c.slots p).Nodup :=
  List.nodup_range.map fun _ _ => slot_injective hc

/-- **An object lies inside its page.** -/
theorem slot_inside (hi : i < c.objsPerSlab) :
    pageToAddr p ≤ c.slot p i ∧ c.slot p i + c.objSize ≤ pageToAddr p + pageSize := by
  have hfits := hc.fits
  have hle : (i + 1) * c.objSize ≤ c.objsPerSlab * c.objSize := Nat.mul_le_mul_right _ hi
  rw [Nat.add_mul] at hle
  unfold slot
  omega

theorem addrToPage_of_mem (h : a ∈ c.slots p) : addrToPage a = p := by
  obtain ⟨i, hi, rfl⟩ := mem_slots.mp h
  have hin := slot_inside (p := p) hc hi
  have := hc.size
  refine Nat.div_eq_of_lt_le hin.1 ?_
  rw [Nat.succ_mul]
  exact lt_of_lt_of_le (by omega) hin.2

theorem initObjects_slot {w : Nat → Nat} {n : Nat} (hi : i < n) :
    c.initObjects p w n (c.slot p i) = c.construct (c.slot p i) (c.link p i) := by
  induction n with
  | zero => omega
  | succ n ih =>
    rw [initObjects]
    by_cases hin : i = n
    · subst hin
      rw [update_self]
    · rw [update_of_ne fun h => hin (slot_injective hc h)]
      exact ih (by omega)

end

theorem initObjects_other {w : Nat → Nat} (ha : a ∉ c.slots p) :
    ∀ n ≤ c.objsPerSlab, c.initObjects p w n a = w a
  | 0, _ => rfl
  | n + 1, hn => by
      rw [initObjects, update_of_ne fun h => ha (mem_slots.mpr ⟨n, hn, h.symm⟩)]
      exact initObjects_other ha n (by omega)

end SlabCache

/-! ### The invariant -/

/-- The list a slab belongs on. -/
def Slab.Fits (h : Slab) : SlabList → Prop
  | .partly => 0 < h.inuse ∧ h.inuse < h.capacity
  | .full => h.inuse = h.capacity
  | .free => h.inuse = 0

namespace SlabSys

variable {s s' : SlabSys} {p p' a obj : Nat} {k : SlabList}

/-- `l` is the free list of the slab in page `p`. -/
structure FreeObjects (s : SlabSys) (p : Nat) (l : List Nat) : Prop where
  linked : Linked s.word (s.slab p).freelist l
  nodup : l.Nodup
  mem : ∀ {a}, a ∈ l ↔ a ∈ s.cache.slots p ∧ a ∉ s.live
  length : l.length + (s.slab p).inuse = (s.slab p).capacity
  capacity : (s.slab p).capacity = s.cache.objsPerSlab
  owner : (s.slab p).cache = s.cache.id

/-- The slabs of the cache: `some` list has the page. -/
def Listed (s : SlabSys) (p : Nat) : Prop := ∃ k, p ∈ s.q k

/-- The part of the invariant that a slab out of place does not touch. -/
structure SlabBase (s : SlabSys) : Prop where
  sound : s.cache.Sound
  once : Once s.q
  objects : ∀ {p}, s.Listed p → ∃ l, s.FreeObjects p l
  total : s.totalSlabs = (s.q .partly).length + (s.q .full).length + (s.q .free).length
  live : ∀ {a}, a ∈ s.live → ∃ p, s.Listed p ∧ a ∈ s.cache.slots p
  nodup : s.live.Nodup

structure SlabInv (s : SlabSys) : Prop extends SlabBase s where
  fits : ∀ {p k}, p ∈ s.q k → (s.slab p).Fits k

/-- A slab with room is on the partial list; the others are in place. -/
structure HasRoom (s : SlabSys) (p : Nat) : Prop extends SlabBase s where
  here : p ∈ s.q .partly
  room : (s.slab p).inuse < (s.slab p).capacity
  fits : ∀ {p' k}, p' ≠ p → p' ∈ s.q k → (s.slab p').Fits k

/-! ### Moving a slab between the lists -/

variable {l : List Nat} {k' : SlabList} {page : Option Nat}

theorem FreeObjects.congr (h : s.FreeObjects p l) (hc : s'.cache = s.cache) (hs : s'.slab p = s.slab p)
    (hw : ∀ a ∈ l, s'.word a = s.word a) (hl : ∀ a ∈ s.cache.slots p, a ∈ s'.live ↔ a ∈ s.live) :
    s'.FreeObjects p l where
  linked := hs ▸ h.linked.congr hw
  nodup := h.nodup
  mem {a} := by
    rw [h.mem, hc]
    exact and_congr_right fun ha => not_congr (hl a ha).symm
  length := hs ▸ h.length
  capacity := by rw [hs, hc]; exact h.capacity
  owner := by rw [hs, hc]; exact h.owner

theorem relist_moved (h : Once s.q) (hp : p ∈ s.q k) : Moved s.q (s.relist k k' p).q p (some k') :=
  (Moved.takeOut h hp).putFirst k'

theorem relist_listed (h : Once s.q) (hp : p ∈ s.q k) : (s.relist k k' p).Listed p' ↔ s.Listed p' := by
  have hm : Moved s.q (s.relist k k' p).q p (some k') := relist_moved h hp
  by_cases hpp : p' = p
  · subst hpp
    exact iff_of_true ⟨k', (hm.self k').mpr rfl⟩ ⟨k, hp⟩
  · exact exists_congr fun k => hm.other hpp k

/-- No list grows without another one shrinking. -/
theorem relist_total (hp : p ∈ s.q k) (hk : k ≠ k') :
    ((s.relist k k' p).q .partly).length + ((s.relist k k' p).q .full).length +
        ((s.relist k k' p).q .free).length =
      (s.q .partly).length + (s.q .full).length + (s.q .free).length := by
  have hpos := List.length_pos_of_mem hp
  cases k <;> cases k' <;>
    first
    | exact absurd rfl hk
    | (simp only [relist, putFirst, takeOut, ne_eq, reduceCtorEq, not_false_eq_true, update_of_ne,
        update_self, List.length_cons, List.length_erase_of_mem hp]
       omega)

section

variable (h : s.SlabBase)
include h

theorem SlabBase.relist (hp : p ∈ s.q k) (hk : k ≠ k') : (s.relist k k' p).SlabBase where
  sound := h.sound
  once := (relist_moved h.once hp).once
  objects hl := by
    obtain ⟨l, hl⟩ := h.objects ((relist_listed h.once hp).mp hl)
    exact ⟨l, hl.congr rfl rfl (fun _ _ => rfl) fun _ _ => Iff.rfl⟩
  total := h.total.trans (relist_total hp hk).symm
  live ha := by
    obtain ⟨p', hl, hs⟩ := h.live ha
    exact ⟨p', (relist_listed h.once hp).mpr hl, hs⟩
  nodup := h.nodup

/-- A slab is put where it belongs. -/
theorem SlabBase.place (hp : p ∈ s.q k) (hk : k ≠ k')
    (hothers : ∀ {p' k}, p' ≠ p → p' ∈ s.q k → (s.slab p').Fits k) (hfit : (s.slab p).Fits k') :
    (s.relist k k' p).SlabInv where
  toSlabBase := h.relist hp hk
  fits {p' j} hj := by
    have hm : Moved s.q (s.relist k k' p).q p (some k') := relist_moved h.once hp
    by_cases hpp : p' = p
    · subst hpp
      obtain rfl := Option.some.inj ((hm.self j).mp hj)
      exact hfit
    · exact hothers hpp ((hm.other hpp j).mp hj)

/-- A slab already is where it belongs. -/
theorem SlabBase.stay (hp : p ∈ s.q k)
    (hothers : ∀ {p' k}, p' ≠ p → p' ∈ s.q k → (s.slab p').Fits k) (hfit : (s.slab p).Fits k) :
    s.SlabInv where
  toSlabBase := h
  fits {p' j} hj := by
    by_cases hpp : p' = p
    · subst hpp
      obtain rfl := h.once.unique hp hj
      exact hfit
    · exact hothers hpp hj

/-! ### Allocating -/

/-- An object belongs to one slab. -/
theorem SlabBase.ne_of_mem (hp : p' ≠ p) {b : Nat} (ha : a ∈ s.cache.slots p)
    (hb : b ∈ s.cache.slots p') : b ≠ a := by
  rintro rfl
  exact hp ((SlabCache.addrToPage_of_mem h.sound hb).symm.trans (SlabCache.addrToPage_of_mem h.sound ha))

theorem SlabBase.ne_zero_of_live (ha : a ∈ s.live) : a ≠ 0 := by
  obtain ⟨p, -, hs⟩ := h.live ha
  obtain ⟨i, -, rfl⟩ := SlabCache.mem_slots.mp hs
  exact SlabCache.slot_ne_zero

/-- A change to one slab and its objects. -/
theorem SlabBase.change (hp : s.Listed p) (hcache : s'.cache = s.cache) (hq : s'.q = s.q)
    (htotal : s'.totalSlabs = s.totalSlabs) (hslab : ∀ p', p' ≠ p → s'.slab p' = s.slab p')
    (hword : ∀ a, a ∉ s.cache.slots p → s'.word a = s.word a)
    (hlive : ∀ a, a ∉ s.cache.slots p → (a ∈ s'.live ↔ a ∈ s.live)) (hnodup : s'.live.Nodup)
    (hobj : ∃ l, s'.FreeObjects p l) : s'.SlabBase where
  sound := hcache ▸ h.sound
  once := hq ▸ h.once
  objects {p'} hl := by
    by_cases hpp : p' = p
    · exact hpp ▸ hobj
    · obtain ⟨l, hl⟩ := h.objects (by unfold Listed at hl ⊢; rwa [hq] at hl)
      have hout : ∀ a ∈ s.cache.slots p', a ∉ s.cache.slots p := fun a ha ha' =>
        h.ne_of_mem hpp ha' ha rfl
      exact ⟨l, hl.congr hcache (hslab p' hpp) (fun a ha => hword a (hout a (hl.mem.mp ha).1))
        fun a ha => hlive a (hout a ha)⟩
  total := by rw [htotal, hq]; exact h.total
  live {a} ha := by
    unfold Listed
    rw [hq, hcache]
    by_cases hs : a ∈ s.cache.slots p
    · exact ⟨p, hp, hs⟩
    · exact h.live ((hlive a hs).mp ha)
  nodup := hnodup

end

/-- **An object is taken from a slab with room**: it was not live. -/
theorem takeObject_inv (h : s.HasRoom p) (ht : s.takeObject p = some (s', obj)) :
    s'.SlabInv ∧ s'.cache = s.cache ∧ obj ∉ s.live := by
  obtain ⟨l, hl⟩ := h.objects ⟨.partly, h.here⟩
  have hlen := hl.length
  have hroom := h.room
  rcases l with - | ⟨a, l⟩
  · rw [List.length_nil] at hlen
    omega
  obtain ⟨rfl, -, hnext⟩ := hl.linked
  obtain ⟨hnl, hnd⟩ := List.nodup_cons.mp hl.nodup
  obtain ⟨hslot, hlive⟩ := hl.mem.mp List.mem_cons_self
  obtain ⟨total, -, rfl, rfl⟩ := of_map_pair ht
  -- the state before the slab is moved, if it is
  let s₁ : SlabSys := { s.setSlab p { s.slab p with
      freelist := s.word (s.slab p).freelist, inuse := (s.slab p).inuse + 1 } with
    totalAllocs := total
    live := (s.slab p).freelist :: s.live }
  have hself : s₁.slab p = { s.slab p with
      freelist := s.word (s.slab p).freelist, inuse := (s.slab p).inuse + 1 } := update_self ..
  have hother : ∀ p', p' ≠ p → s₁.slab p' = s.slab p' := fun p' hp => update_of_ne hp ..
  have hobj : s₁.FreeObjects p l := by
    refine ⟨?_, hnd, fun {x} => ?_, ?_, ?_, ?_⟩ <;> (try rw [hself])
    · exact hnext
    · have hx := hl.mem (a := x)
      rw [List.mem_cons] at hx
      rw [List.mem_cons, not_or]
      constructor
      · intro hxl
        obtain ⟨h₁, h₂⟩ := hx.mp (Or.inr hxl)
        exact ⟨h₁, ne_of_mem_of_not_mem hxl hnl, h₂⟩
      · rintro ⟨h₁, h₂, h₃⟩
        exact (hx.mpr ⟨h₁, h₃⟩).resolve_left h₂
    · rw [List.length_cons] at hlen
      show l.length + ((s.slab p).inuse + 1) = (s.slab p).capacity
      omega
    · exact hl.capacity
    · exact hl.owner
  have hbase : s₁.SlabBase := by
    refine h.toSlabBase.change ⟨.partly, h.here⟩ rfl rfl rfl hother (fun _ _ => rfl) (fun a ha => ?_)
      (List.nodup_cons.mpr ⟨hlive, h.nodup⟩) ⟨l, hobj⟩
    refine List.mem_cons.trans (or_iff_right ?_)
    rintro rfl
    exact ha hslot
  have hothers : ∀ {p' k}, p' ≠ p → p' ∈ s₁.q k → (s₁.slab p').Fits k := fun hp hk => by
    rw [hother _ hp]
    exact h.fits hp hk
  refine ⟨?_, by split <;> rfl, hlive⟩
  split
  · next hfull => exact hbase.place h.here nofun hothers (by rw [hself]; exact hfull)
  · next hfull =>
    refine hbase.stay h.here hothers ?_
    rw [hself]
    exact ⟨Nat.succ_pos _, show (s.slab p).inuse + 1 < (s.slab p).capacity by omega⟩

theorem SlabInv.room_of_partly (h : s.SlabInv) (hp : p ∈ s.q .partly) : s.HasRoom p :=
  ⟨h.toSlabBase, hp, (h.fits hp).2, fun _ hk => h.fits hk⟩

/-- An empty slab has room for at least one object. -/
theorem SlabInv.room_of_free (h : s.SlabInv) (hp : p ∈ s.q .free) :
    (s.relist .free .partly p).HasRoom p := by
  have hm : Moved s.q (s.relist .free .partly p).q p (some .partly) := relist_moved h.once hp
  obtain ⟨l, hl⟩ := h.objects ⟨_, hp⟩
  refine ⟨h.toSlabBase.relist hp nofun, (hm.self .partly).mpr rfl, ?_,
    fun hpp hk => h.fits ((hm.other hpp _).mp hk)⟩
  have hempty : (s.slab p).inuse = 0 := h.fits hp
  show (s.slab p).inuse < (s.slab p).capacity
  rw [hempty, hl.capacity]
  exact h.sound.some

/-- A slab as it is set up: all its objects are free. -/
theorem freeObjects_new (hc : s.cache.Sound)
    (hslab : s.slab p = ⟨s.cache.slot p 0, 0, s.cache.objsPerSlab, s.cache.id⟩)
    (hword : ∀ i < s.cache.objsPerSlab, s.word (s.cache.slot p i) = s.cache.link p i)
    (hlive : ∀ a ∈ s.cache.slots p, a ∉ s.live) : s.FreeObjects p (s.cache.slots p) := by
  refine ⟨?_, SlabCache.slots_nodup hc, ⟨fun ha => ⟨ha, hlive _ ha⟩, And.left⟩, ?_, ?_, ?_⟩ <;> rw [hslab]
  · have hchain := linked_slots hword (fun _ => SlabCache.slot_ne_zero) _ 0 (Nat.zero_add _)
    rwa [if_pos (show 0 < s.cache.objsPerSlab from hc.some), ← List.range_eq_range'] at hchain
  · exact (Nat.add_zero _).trans SlabCache.slots_length

/-- A new slab: all its objects are free. -/
theorem SlabInv.room_of_new (h : s.SlabInv) (hkeep : s.cache.KeepsLinks) (hp : ¬s.Listed p)
    (hs : s.slabCreateSlab p = some s') : s'.HasRoom p ∧ s'.live = s.live ∧ s'.cache = s.cache := by
  obtain ⟨total, htotal, rfl⟩ := Option.map_eq_some_iff.mp hs
  obtain ⟨-, rfl⟩ := checkedAdd_eq_some.mp htotal
  have hnot : ∀ k, p ∉ s.q k := fun k hk => hp ⟨k, hk⟩
  have hm : Moved s.q (putFirst s.q .partly p) p (some .partly) :=
    (Moved.absent h.once hnot).putFirst .partly
  have hout : ∀ {p' a}, p' ≠ p → a ∈ s.cache.slots p' → a ∉ s.cache.slots p := fun hpp ha ha' =>
    h.ne_of_mem hpp ha' ha rfl
  -- a new slab is on no list, so none of its objects is live
  have hlive : ∀ a ∈ s.cache.slots p, a ∉ s.live := by
    intro a ha hal
    obtain ⟨p', hl, hs⟩ := h.live hal
    exact hout (fun he => hp (he ▸ hl)) hs ha
  have hlisted : ∀ {p'}, p' ≠ p →
      ((∃ k, p' ∈ putFirst s.q .partly p k) ↔ s.Listed p') := fun hpp =>
    exists_congr fun k => hm.other hpp k
  refine ⟨⟨⟨h.sound, hm.once, fun {p'} hl => ?_, ?_, fun {a} ha => ?_, h.nodup⟩, (hm.self _).mpr rfl,
    ?_, fun {p' k} hpp hk => ?_⟩, rfl, rfl⟩
  · by_cases hpp : p' = p
    · subst hpp
      refine ⟨_, freeObjects_new h.sound (update_self ..) (fun i hi => ?_) hlive⟩
      exact (SlabCache.initObjects_slot h.sound hi).trans (hkeep ..)
    · obtain ⟨l, hl⟩ := h.objects ((hlisted hpp).mp hl)
      refine ⟨l, hl.congr rfl (update_of_ne hpp ..) (fun a ha => ?_) fun _ _ => Iff.rfl⟩
      exact SlabCache.initObjects_other (hout hpp (hl.mem.mp ha).1) _ le_rfl
  · have := h.total
    simp only [putFirst, ne_eq, reduceCtorEq, not_false_eq_true, update_of_ne, update_self,
      List.length_cons]
    omega
  · obtain ⟨p', hl, hs⟩ := h.live ha
    exact ⟨p', (hlisted fun he => hp (he ▸ hl)).mpr hl, hs⟩
  · show (update s.slab p _ p).inuse < (update s.slab p _ p).capacity
    rw [update_self]
    exact h.sound.some
  · show (update s.slab p _ p').Fits k
    rw [update_of_ne hpp]
    exact h.fits ((hm.other hpp k).mp hk)

/-- **`slab_alloc`** keeps the invariant and returns nothing that is live. -/
theorem slabAlloc_inv (h : s.SlabInv) (hkeep : s.cache.KeepsLinks) (hpage : ∀ p ∈ page, ¬s.Listed p)
    (hs : s.slabAlloc page = some (s', obj)) : s'.SlabInv ∧ s'.cache = s.cache ∧ obj ∉ s.live := by
  unfold slabAlloc at hs
  split at hs
  · next p l _ hq =>
    exact takeObject_inv (h.room_of_partly (by rw [hq]; exact List.mem_cons_self)) hs
  · next p l _ hq =>
    have hinv := takeObject_inv (h.room_of_free (by rw [hq]; exact List.mem_cons_self)) hs
    exact hinv
  · split at hs
    · obtain ⟨rfl, rfl⟩ := of_pair hs
      exact ⟨h, rfl, fun hz => h.ne_zero_of_live hz rfl⟩
    · next p =>
      obtain ⟨s₁, hnew, hs⟩ := Option.bind_eq_some_iff.mp hs
      obtain ⟨hroom, hlive, hcache⟩ := h.room_of_new hkeep (hpage p rfl) hnew
      obtain ⟨h₁, h₂, h₃⟩ := takeObject_inv hroom hs
      exact ⟨h₁, h₂.trans hcache, hlive ▸ h₃⟩

/-! ### Freeing -/

/-- A live object is not on the free list, which is therefore shorter than the slab. -/
theorem FreeObjects.inuse_pos (hl : s.FreeObjects p l) (ha : a ∈ s.cache.slots p) (hlive : a ∈ s.live) :
    0 < (s.slab p).inuse := by
  have hnot : a ∉ l := fun hal => (hl.mem.mp hal).2 hlive
  have hsub : (a :: l).Subperm (s.cache.slots p) := by
    refine List.subperm_of_subset (List.nodup_cons.mpr ⟨hnot, hl.nodup⟩) fun b hb => ?_
    rcases List.mem_cons.mp hb with rfl | hb
    · exact ha
    · exact (hl.mem.mp hb).1
  have hle := hsub.length_le
  rw [List.length_cons, SlabCache.slots_length, ← hl.capacity] at hle
  have := hl.length
  omega

section

variable (h : s.SlabInv)
include h

/-- Which list a slab is on follows from its counters. -/
theorem SlabInv.placed (hp : s.Listed p) (hfit : (s.slab p).Fits k) : p ∈ s.q k := by
  obtain ⟨l, hl⟩ := h.objects hp
  obtain ⟨k', hk'⟩ := hp
  have hfit' := h.fits hk'
  have hsome := h.sound.some
  rw [← hl.capacity] at hsome
  cases k <;> cases k' <;> first | exact hk' | (simp only [Slab.Fits] at hfit hfit'; omega)

/-- **`slab_free`** of a live object, if a slab has room for at least two. -/
theorem slabFree_inv (htwo : 2 ≤ s.cache.objsPerSlab) (hobj : obj ∈ s.live)
    (hs : s.slabFree obj = some s') : s'.SlabInv ∧ s'.cache = s.cache := by
  obtain ⟨p, hlisted, hslot⟩ := h.live hobj
  obtain ⟨l, hl⟩ := h.objects hlisted
  have hpos := hl.inuse_pos hslot hobj
  have hnot : obj ∉ l := fun hol => (hl.mem.mp hol).2 hobj
  have hlen := hl.length
  have hcap := hl.capacity
  have hne := h.ne_zero_of_live hobj
  unfold slabFree at hs
  rw [SlabCache.addrToPage_of_mem h.sound hslot] at hs
  rw [if_neg (not_not.mpr hl.owner), if_neg (by omega)] at hs
  obtain ⟨total, -, rfl⟩ := Option.map_eq_some_iff.mp hs
  -- the state before the slab is moved, if it is
  let s₁ : SlabSys := { s.setSlab p { s.slab p with freelist := obj, inuse := (s.slab p).inuse - 1 } with
    word := update s.word obj (s.slab p).freelist
    totalFrees := total
    live := s.live.erase obj }
  have hself : s₁.slab p = { s.slab p with freelist := obj, inuse := (s.slab p).inuse - 1 } :=
    update_self ..
  have hother : ∀ p', p' ≠ p → s₁.slab p' = s.slab p' := fun p' hp => update_of_ne hp ..
  have hobjects : s₁.FreeObjects p (obj :: l) := by
    refine ⟨?_, List.nodup_cons.mpr ⟨hnot, hl.nodup⟩, fun {x} => ?_, ?_, ?_, ?_⟩ <;> (try rw [hself])
    · exact hl.linked.push hne hnot
    · rw [List.mem_cons, hl.mem, h.nodup.mem_erase_iff]
      constructor
      · rintro (rfl | ⟨h₁, h₂⟩)
        · exact ⟨hslot, fun hx => hx.1 rfl⟩
        · exact ⟨h₁, fun hx => h₂ hx.2⟩
      · rintro ⟨h₁, h₂⟩
        by_cases hx : x = obj
        · exact Or.inl hx
        · exact Or.inr ⟨h₁, fun hlive => h₂ ⟨hx, hlive⟩⟩
    · show (obj :: l).length + ((s.slab p).inuse - 1) = (s.slab p).capacity
      rw [List.length_cons]
      omega
    · exact hl.capacity
    · exact hl.owner
  have hbase : s₁.SlabBase := by
    refine h.toSlabBase.change hlisted rfl rfl rfl hother (fun a ha => update_of_ne ?_ ..) (fun a ha => ?_)
      (h.nodup.erase obj) ⟨_, hobjects⟩
    · rintro rfl
      exact ha hslot
    · refine h.nodup.mem_erase_iff.trans (and_iff_right ?_)
      rintro rfl
      exact ha hslot
  have hothers : ∀ {p' k}, p' ≠ p → p' ∈ s₁.q k → (s₁.slab p').Fits k := fun hp hk => by
    rw [hother _ hp]
    exact h.fits hk
  refine ⟨?_, ?_⟩
  · split
    · next hfull =>
      refine hbase.place (h.placed hlisted hfull) nofun hothers ?_
      rw [hself]
      exact ⟨show 0 < (s.slab p).inuse - 1 by omega, show (s.slab p).inuse - 1 < (s.slab p).capacity by omega⟩
    · next hfull =>
      have hk : p ∈ s.q .partly := h.placed hlisted ⟨hpos, by omega⟩
      split
      · next hzero =>
        refine hbase.place hk nofun hothers ?_
        rw [hself]
        exact hzero
      · next hzero =>
        refine hbase.stay hk hothers ?_
        rw [hself]
        exact ⟨show 0 < (s.slab p).inuse - 1 by omega,
          show (s.slab p).inuse - 1 < (s.slab p).capacity by omega⟩
  · split
    · rfl
    · split <;> rfl

/-! ### Shrinking -/

theorem slabCacheShrink_inv (hs : s.slabCacheShrink = some s') :
    s'.SlabInv ∧ s'.cache = s.cache := by
  unfold slabCacheShrink at hs
  split at hs
  · exact nomatch hs
  obtain rfl := Option.some.inj hs
  have hmem : ∀ {p k}, p ∈ update s.q .free [] k ↔ p ∈ s.q k ∧ k ≠ .free := by
    intro p k
    by_cases hk : k = .free
    · subst hk
      simp
    · simp [hk]
  have honce : Once (update s.q .free []) := by
    refine ⟨?_, fun h₁ h₂ => h.once.unique (hmem.mp h₁).1 (hmem.mp h₂).1⟩
    exact (forall_update_iff s.q fun _ l => l.Nodup).mpr ⟨List.nodup_nil, fun k _ => h.once.nodup k⟩
  refine ⟨⟨⟨h.sound, honce, ?_, ?_, fun {a} ha => ?_, h.nodup⟩, fun hp => h.fits (hmem.mp hp).1⟩, rfl⟩
  · rintro p ⟨k, hk⟩
    obtain ⟨l, hl⟩ := h.objects ⟨k, (hmem.mp hk).1⟩
    exact ⟨l, hl.congr rfl rfl (fun _ _ => rfl) fun _ _ => Iff.rfl⟩
  · have := h.total
    simp only [ne_eq, reduceCtorEq, not_false_eq_true, update_of_ne, update_self, List.length_nil]
    omega
  · -- the slab of a live object is not given back
    obtain ⟨p, ⟨k, hk⟩, hslot⟩ := h.live ha
    refine ⟨p, ⟨k, hmem.mpr ⟨hk, ?_⟩⟩, hslot⟩
    rintro rfl
    obtain ⟨l, hl⟩ := h.objects ⟨_, hk⟩
    exact Nat.ne_of_gt (hl.inuse_pos hslot ha) (h.fits hk)

/-! ### Runs -/

/-- The owner of an object writes to it. -/
theorem store_inv {w : Nat} (hobj : obj ∈ s.live) :
    { s with word := update s.word obj w }.SlabInv := by
  refine { h with objects := fun hlisted => ?_ }
  obtain ⟨l, hl⟩ := h.objects hlisted
  refine ⟨l, hl.congr rfl rfl (fun a ha => update_of_ne ?_ ..) fun _ _ => Iff.rfl⟩
  rintro rfl
  exact (hl.mem.mp ha).2 hobj

end

theorem not_listed_of_enabled (h : s.Enabled (.alloc page)) : ∀ p ∈ page, ¬s.Listed p := by
  rintro p hp ⟨k, hk⟩
  obtain ⟨h₁, h₂, h₃⟩ := h p hp
  cases k with
  | partly => exact h₁ hk
  | full => exact h₂ hk
  | free => exact h₃ hk

/-- The invariant of a run, for a cache with room for two objects in a slab. -/
structure Running (c : SlabCache) (s : SlabSys) : Prop extends SlabInv s where
  cache : s.cache = c

theorem slabStep_running {c : SlabCache} {e : SlabEvent} (htwo : 2 ≤ c.objsPerSlab) (hkeep : c.KeepsLinks)
    (h : Running c s) (hs : slabStep s e = some s') : Running c s' := by
  obtain ⟨h, rfl⟩ := h
  unfold slabStep at hs
  split at hs
  case isFalse => exact nomatch hs
  next hen =>
  cases e with
  | alloc page =>
    obtain ⟨⟨s₁, obj⟩, halloc, rfl⟩ := Option.map_eq_some_iff.mp hs
    obtain ⟨h₁, h₂, -⟩ := slabAlloc_inv h hkeep (not_listed_of_enabled hen) halloc
    exact ⟨h₁, h₂⟩
  | free obj =>
    obtain ⟨h₁, h₂⟩ := slabFree_inv h htwo hen hs
    exact ⟨h₁, h₂⟩
  | shrink =>
    obtain ⟨h₁, h₂⟩ := slabCacheShrink_inv h hs
    exact ⟨h₁, h₂⟩
  | store obj w =>
    obtain rfl := Option.some.inj hs
    exact ⟨store_inv h hen, rfl⟩

end SlabSys

/-- **What a cache guarantees.** -/
structure SlabSys.Lawful (s : SlabSys) : Prop where
  nodup : ∀ k, (s.q k).Nodup
  one_list : ∀ p k k', p ∈ s.q k → p ∈ s.q k' → k = k'
  full : ∀ p, s.Listed p → (p ∈ s.q .full ↔ (s.slab p).inuse = (s.slab p).capacity)
  free : ∀ p, s.Listed p → (p ∈ s.q .free ↔ (s.slab p).inuse = 0)
  freelist : ∀ p, s.Listed p → ∃ l, Linked s.word (s.slab p).freelist l ∧ l.Nodup ∧
    l.length = (s.slab p).capacity - (s.slab p).inuse ∧ ∀ a ∈ l, ∃ i < (s.slab p).capacity,
      a = s.cache.slot p i ∧ pageToAddr p ≤ a ∧ a + s.cache.objSize ≤ pageToAddr p + pageSize
  total : s.totalSlabs = (s.q .partly).length + (s.q .full).length + (s.q .free).length
  fresh : ∀ page s' obj, s.Enabled (.alloc page) → s.slabAlloc page = some (s', obj) → obj ∉ s.live

open SlabSys

variable {s : SlabSys}

theorem SlabSys.SlabInv.lawful (h : s.SlabInv) (hkeep : s.cache.KeepsLinks) : s.Lawful := by
  refine ⟨h.once.nodup, fun p k k' => h.once.unique, fun p hp => ⟨h.fits, fun hf => h.placed hp hf⟩,
    fun p hp => ⟨h.fits, fun hf => h.placed hp hf⟩, fun p hp => ?_, h.total,
    fun page s' obj hen hs => (slabAlloc_inv h hkeep (not_listed_of_enabled hen) hs).2.2⟩
  · obtain ⟨l, hl⟩ := h.objects hp
    have hlen := hl.length
    refine ⟨l, hl.linked, hl.nodup, by omega, fun a ha => ?_⟩
    obtain ⟨i, hi, rfl⟩ := SlabCache.mem_slots.mp (hl.mem.mp ha).1
    exact ⟨i, hl.capacity ▸ hi, rfl, SlabCache.slot_inside h.sound hi⟩

/-! ### Object sizes -/

/-- What `slab_cache_create` makes of a size it accepts. -/
theorem slabObjSize_some {size o : Nat} (h : slabObjSize size = some o) :
    size ≤ 2048 ∧ 8 ≤ o ∧ o ≤ 2048 ∧ (o ≤ 2032 ↔ size ≤ 2032) := by
  unfold slabObjSize at h
  dsimp only at h
  split_ifs at h <;> obtain rfl := Option.some.inj h <;>
    simp only [slabMinObjSize, slabMaxObjSize, alignUp] at * <;> omega

theorem calcObjsPerSlab_eq {o : Nat} (h₁ : 8 ≤ o) (h₂ : o ≤ 2048) :
    calcObjsPerSlab o = 4072 / o ∧ 1 ≤ 4072 / o := by
  have hone : 1 ≤ 4072 / o := (Nat.one_le_div_iff (by omega)).mpr (by omega)
  refine ⟨?_, hone⟩
  unfold calcObjsPerSlab pageSize slabHeader
  exact if_neg (Nat.not_lt.mpr hone)

/-- A slab has room for two objects exactly up to 2032 bytes. -/
theorem two_le_calcObjsPerSlab {size o : Nat} (h : slabObjSize size = some o) :
    2 ≤ calcObjsPerSlab o ↔ size ≤ 2032 := by
  obtain ⟨-, h₁, h₂, h₃⟩ := slabObjSize_some h
  rw [(calcObjsPerSlab_eq h₁ h₂).1, Nat.le_div_iff_mul_le (by omega)]
  have hmod : o % 8 = 0 := by
    unfold slabObjSize at h
    dsimp only at h
    split_ifs at h <;> obtain rfl := Option.some.inj h <;> exact Nat.mul_mod_left ..
  omega

theorem slabCacheCreate_running {id size : Nat} {ctor : Option (Nat → Nat → Nat)}
    (h : slabCacheCreate id size ctor = some s) : Running s.cache s := by
  obtain ⟨o, ho, rfl⟩ := Option.map_eq_some_iff.mp h
  obtain ⟨-, h₁, h₂, -⟩ := slabObjSize_some ho
  obtain ⟨hn, hone⟩ := calcObjsPerSlab_eq h₁ h₂
  have hsound : SlabCache.Sound ⟨id, o, calcObjsPerSlab o, ctor⟩ := by
    refine ⟨show 0 < o by omega, hn ▸ hone, ?_⟩
    rw [hn]
    have := Nat.div_mul_le_self 4072 o
    simp only [slabHeader, pageSize]
    omega
  refine ⟨⟨⟨hsound, ⟨fun _ => List.nodup_nil, ?_⟩, ?_, rfl, ?_, List.nodup_nil⟩, ?_⟩, rfl⟩
  · intro _ _ _ _ hx
    cases hx
  · rintro _ ⟨_, hk⟩
    cases hk
  · intro _ hx
    cases hx
  · intro _ _ hx
    cases hx

/-- An object can be allocated from a fresh cache. -/
theorem slabAlloc_fresh (hq : ∀ k, s.q k = []) (hslabs : s.totalSlabs = 0)
    (hallocs : s.totalAllocs = 0) :
    ∃ s₁ obj, s.slabAlloc (some 1) = some (s₁, obj) ∧ obj ∈ s₁.live ∧ s₁.totalFrees = s.totalFrees := by
  have hadd : checkedAdd 0 1 = some 1 := by decide +kernel
  simp only [slabAlloc, hq, slabCreateSlab, takeObject, hslabs, hallocs, hadd, Option.map_some,
    Option.bind_some]
  refine ⟨_, _, rfl, ?_, ?_⟩
  · split <;> exact List.mem_cons_self
  · split <;> rfl

/-- **With one object in a slab**, freeing it leaves an empty slab on the partial list. -/
theorem slabFree_single {obj : Nat} (h : s.SlabInv) (hone : s.cache.objsPerSlab = 1)
    (hobj : obj ∈ s.live) (hfrees : s.totalFrees = 0) : ∃ s', s.slabFree obj = some s' ∧ ¬s'.Lawful := by
  obtain ⟨p, hlisted, hslot⟩ := h.live hobj
  obtain ⟨l, hl⟩ := h.objects hlisted
  have hpos := hl.inuse_pos hslot hobj
  have hlen := hl.length
  have hcap := hl.capacity
  have hadd : checkedAdd 0 1 = some 1 := by decide +kernel
  unfold slabFree
  rw [SlabCache.addrToPage_of_mem h.sound hslot]
  rw [if_neg (not_not.mpr hl.owner), if_neg (by omega), hfrees, hadd, Option.map_some, if_pos (by omega)]
  refine ⟨_, rfl, fun hlaw => ?_⟩
  have hpartly : p ∈ putFirst (takeOut s.q .full p) .partly p .partly := mem_putFirst.mpr (Or.inr ⟨rfl, rfl⟩)
  have hempty : (update s.slab p { s.slab p with freelist := obj, inuse := (s.slab p).inuse - 1 } p).inuse = 0 := by
    rw [update_self]
    show (s.slab p).inuse - 1 = 0
    omega
  have hfree := (hlaw.free p ⟨.partly, hpartly⟩).mpr hempty
  exact SlabList.noConfusion (hlaw.one_list p .partly .free hpartly hfree)

/-- **The invariant of a slab cache** holds in every run, for a constructor that leaves the links alone,
exactly if the size asked for is at most 2032 bytes. -/
theorem slab_cache_lawful_iff {id size : Nat} {ctor : Option (Nat → Nat → Nat)} {s₀ : SlabSys}
    (hcreate : slabCacheCreate id size ctor = some s₀) (hkeep : s₀.cache.KeepsLinks) :
    (∀ es s, run slabStep s₀ es = some s → s.Lawful) ↔ size ≤ 2032 := by
  have hstart := slabCacheCreate_running hcreate
  have hroom : 2 ≤ s₀.cache.objsPerSlab ↔ size ≤ 2032 := by
    obtain ⟨o, ho, rfl⟩ := Option.map_eq_some_iff.mp hcreate
    exact two_le_calcObjsPerSlab ho
  rw [← hroom]
  constructor
  · intro h
    by_contra hlt
    have hone : s₀.cache.objsPerSlab = 1 := by
      have := hstart.sound.some
      omega
    obtain ⟨hq, hslabs, hallocs, hfrees⟩ : (∀ k, s₀.q k = []) ∧ s₀.totalSlabs = 0 ∧ s₀.totalAllocs = 0 ∧
        s₀.totalFrees = 0 := by
      obtain ⟨o, -, rfl⟩ := Option.map_eq_some_iff.mp hcreate
      exact ⟨fun _ => rfl, rfl, rfl, rfl⟩
    -- one object a slab: an alloc and a free put the slab on the wrong list
    obtain ⟨s₁, obj, halloc, hlive, hfrees₁⟩ := slabAlloc_fresh hq hslabs hallocs
    have hen : s₀.Enabled (.alloc (some 1)) := fun p _ => by simp [hq]
    obtain ⟨hinv, hcache, -⟩ := slabAlloc_inv hstart.toSlabInv hkeep (not_listed_of_enabled hen) halloc
    obtain ⟨s', hfree, hbad⟩ := slabFree_single hinv (hcache ▸ hone) hlive (hfrees₁.trans hfrees)
    refine hbad (h [.alloc (some 1), .free obj] s' ?_)
    have hen₁ : s₁.Enabled (.free obj) := hlive
    rw [run_cons, slabStep, if_pos hen, halloc, Option.map_some, Option.bind_some, run_cons, slabStep,
      if_pos hen₁, hfree]
    rfl
  · intro htwo es s hrun
    have h : Running s₀.cache s := run_invariant
      (fun h _ hs => slabStep_running htwo hkeep h hs) hstart (meetsAll_true _ _) hrun
    exact h.toSlabInv.lawful (h.cache ▸ hkeep)

/-- A cache of 64-byte objects without a constructor. -/
theorem slab_cache_lawful_iff_64 :
    ∃ s₀, slabCacheCreate 1 64 none = some s₀ ∧
      ∀ es s, run slabStep s₀ es = some s → s.Lawful :=
  ⟨_, rfl, (slab_cache_lawful_iff rfl fun _ _ => rfl).mpr (by decide : 64 ≤ 2032)⟩

/-- The 2048-byte cache after one allocation and its free: the slab is empty and on the partial list.
A constructor that clears an object cuts the free list: a 64-byte slab with one object in use has no
other object left. -/
theorem empty_slab_kept :
    ((slabCacheCreate 1 2048 none).bind fun s => (run slabStep s [.alloc (some 1), .free 4120]).map
        fun s => ((s.slab 1).inuse, s.q .partly, s.q .free)) = some (0, [1], []) ∧
      ((slabCacheCreate 1 64 (some fun _ _ => 0)).bind fun s => (run slabStep s [.alloc (some 1)]).map
        fun s => ((s.slab 1).freelist, (s.slab 1).inuse, (s.slab 1).capacity)) = some (0, 1, 63) := by
  decide +kernel

end CactKernel
