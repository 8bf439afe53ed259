/-
CactKernel/Alloc/Slab.lean

The slab allocator (`alloc/slab.rs`): one cache of objects of one size.

A slab is a page that starts with a header (`Slab`, 24 bytes on this machine)
and holds as many objects as fit behind it.  Free objects are chained through
their first words; `word` is the memory as far as the first words of objects
are concerned.  The cache keeps its slabs on three lists, modelled as lists of
pages; the source relinks the two neighbours of a slab, which is the same as
long as a slab is only taken off the list it is on.

`kalloc` is asked for a page only when no slab has room; its answer is part of
the event.  `live` lists, for the statements only, the objects that are handed
out, and an event `store` is the owner of an object writing its first word.
The destructor runs on pages that are given back and is left out, as are the
name of the cache and the list of all caches.
-/
import CactKernel.Mm.Layout
import CactKernel.Lib.Places
import CactKernel.Lib.Run

namespace CactKernel

open Function Places

/-- `size_of::<Slab>()`. -/
@[irreducible] def slabHeader : Nat := 24

def slabMinObjSize : Nat := 8
def slabMaxObjSize : Nat := 2048

/-- The header of a slab; 0 is the null pointer. -/
structure Slab where
  freelist : Nat
  inuse : Nat
  capacity : Nat
  cache : Nat
deriving DecidableEq, Repr

/-- What does not change in a cache.  `ctor` is the constructor's effect on the first word of an
object: from its address and the word to the new word. -/
structure SlabCache where
  id : Nat
  objSize : Nat
  objsPerSlab : Nat
  ctor : Option (Nat → Nat → Nat)

inductive SlabList where
  | partly
  | full
  | free
deriving DecidableEq, Repr

structure SlabSys where
  cache : SlabCache
  slab : Nat → Slab
  word : Nat → Nat
  q : SlabList → List Nat
  totalSlabs : Nat
  totalAllocs : Nat
  totalFrees : Nat
  live : List Nat

def calcObjsPerSlab (objSize : Nat) : Nat :=
  if (pageSize - slabHeader) / objSize < 1 then 1 else (pageSize - slabHeader) / objSize

/-- The object size `slab_cache_create` settles on. -/
def slabObjSize (size : Nat) : Option Nat :=
  let size := if size < slabMinObjSize then slabMinObjSize else size
  if slabMaxObjSize < size then none
  else some (alignUp 8 (if size < 4 then 4 else size))

/-- `slab_cache_create`. -/
def slabCacheCreate (id size : Nat) (ctor : Option (Nat → Nat → Nat)) : Option SlabSys :=
  (slabObjSize size).map fun objSize =>
    { cache := ⟨id, objSize, calcObjsPerSlab objSize, ctor⟩
      slab := fun _ => ⟨0, 0, 0, 0⟩
      word := fun _ => 0
      q := fun _ => []
      totalSlabs := 0
      totalAllocs := 0
      totalFrees := 0
      live := [] }

namespace SlabCache

/-- The address of object `i` of the slab in page `p`. -/
def slot (c : SlabCache) (p i : Nat) : Nat := pageToAddr p + slabHeader + i * c.objSize

/-- What the initialisation writes into object `i`. -/
def link (c : SlabCache) (p i : Nat) : Nat := if i + 1 < c.objsPerSlab then c.slot p (i + 1) else 0

/-- The first word of an object behind its constructor. -/
def construct (c : SlabCache) (a w : Nat) : Nat :=
  match c.ctor with
  | none => w
  | some f => f a w

/-- The loop of `slab_create_slab`: link an object, then construct it. -/
def initObjects (c : SlabCache) (p : Nat) (w : Nat → Nat) : Nat → Nat → Nat
  | 0 => w
  | i + 1 => update (c.initObjects p w i) (c.slot p i) (c.construct (c.slot p i) (c.link p i))

end SlabCache

namespace SlabSys

/-- `list_remove` from the list `k`, `list_push` onto the list `k'`. -/
def relist (s : SlabSys) (k k' : SlabList) (p : Nat) : SlabSys :=
  { s with q := putFirst (takeOut s.q k p) k' p }

def setSlab (s : SlabSys) (p : Nat) (h : Slab) : SlabSys := { s with slab := update s.slab p h }

/-- `slab_create_slab` in the page `p`, then the `list_push` of `slab_alloc`. -/
def slabCreateSlab (s : SlabSys) (p : Nat) : Option SlabSys :=
  (checkedAdd s.totalSlabs 1).map fun total =>
    { s with
      slab := update s.slab p ⟨s.cache.slot p 0, 0, s.cache.objsPerSlab, s.cache.id⟩
      word := s.cache.initObjects p s.word s.cache.objsPerSlab
      q := putFirst s.q .partly p
      totalSlabs := total }

/-- Take the first free object of the slab in page `p`. -/
def takeObject (s : SlabSys) (p : Nat) : Option (SlabSys × Nat) :=
  let h := s.slab p
  (checkedAdd s.totalAllocs 1).map fun total =>
    let s' := { s.setSlab p { h with freelist := s.word h.freelist, inuse := h.inuse + 1 } with
      totalAllocs := total
      live := h.freelist :: s.live }
    (if h.inuse + 1 = h.capacity then s'.relist .partly .full p else s', h.freelist)

/-- `slab_alloc`; `page` is what `kalloc` answers if it is asked. -/
def slabAlloc (s : SlabSys) (page : Option Nat) : Option (SlabSys × Nat) :=
  match s.q .partly, s.q .free with
  | p :: _, _ => s.takeObject p
  | [], p :: _ => (s.relist .free .partly p).takeObject p
  | [], [] =>
    match page with
    | none => some (s, 0)
    | some p => (s.slabCreateSlab p).bind fun s' => s'.takeObject p

/-- `slab_free`. -/
def slabFree (s : SlabSys) (obj : Nat) : Option SlabSys :=
  let p := addrToPage obj
  let h := s.slab p
  if h.cache ≠ s.cache.id then some s
  else if h.inuse = 0 then none
  else
    (checkedAdd s.totalFrees 1).map fun total =>
      let s' := { s.setSlab p { h with freelist := obj, inuse := h.inuse - 1 } with
        word := update s.word obj h.freelist
        totalFrees := total
        live := s.live.erase obj }
      -- a full slab becomes a partial one, even with one object
      if h.inuse = h.capacity then s'.relist .full .partly p
      else if h.inuse - 1 = 0 then s'.relist .partly .free p
      else s'

/-- `slab_cache_shrink`. -/
def slabCacheShrink (s : SlabSys) : Option SlabSys :=
  if s.totalSlabs < (s.q .free).length then none
  else some { s with q := update s.q .free [], totalSlabs := s.totalSlabs - (s.q .free).length }

end SlabSys

inductive SlabEvent where
  | alloc (page : Option Nat)
  | free (obj : Nat)
  | shrink
  | store (obj w : Nat)
deriving DecidableEq, Repr

/-- `kalloc` gives out no page that is in use; only live objects are freed and written. -/
def SlabSys.Enabled (s : SlabSys) : SlabEvent → Prop
  | .alloc page => ∀ p ∈ page, p ∉ s.q .partly ∧ p ∉ s.q .full ∧ p ∉ s.q .free
  | .free obj => obj ∈ s.live
  | .shrink => True
  | .store obj _ => obj ∈ s.live

instance decidableSlabEnabled (s : SlabSys) : (e : SlabEvent) → Decidable (s.Enabled e)
  | .alloc page => inferInstanceAs (Decidable (∀ p ∈ page, _))
  | .free obj => inferInstanceAs (Decidable (obj ∈ s.live))
  | .shrink => isTrue trivial
  | .store obj _ => inferInstanceAs (Decidable (obj ∈ s.live))

def slabStep (s : SlabSys) (e : SlabEvent) : Option SlabSys :=
  if s.Enabled e then
    match e with
    | .alloc page => (s.slabAlloc page).map Prod.fst
    | .free obj => s.slabFree obj
    | .shrink => s.slabCacheShrink
    | .store obj w => some { s with word := update s.word obj w }
  else none

end CactKernel
