/-
CactKernel/Fs/AddrSpace.lean

The page cache of an inode (`fs/rust_vfs/src/addr.rs`).

An address space keeps the pages of one file in a memfd object, with two
bitmaps over them (`present`, `dirty`) and, for a filesystem with a store of
its own, callbacks that read and write that store.  `MemObj` is the memfd
object as its users see it: its size and the bytes of its frames; the functions
on it are those of `process/memfd.rs` with the frames left anonymous
(`Fs/AddrSpaceLaw.lean` compares them with the model of `Mm/Memfd.lean`).  The
callbacks are those of a byte file, given by its list of bytes.

Every allocation may fail: `CacheAlloc` says which ones do.  The loop that looks for
a bitmap size never ends when more than `AS_PAGES_MAX` pages are asked for;
`none` stands for that, and for a 32-bit addition that panics; the counters of the
pages populated and flushed, one each for all files, are kept for the second.
-/
import CactKernel.Lib.ByteFile
import CactKernel.Mm.Memfd

namespace CactKernel

open Function

/-! ### The memfd object -/

structure MemObj where
  size : Nat
  numPages : Nat
  byte : Nat → UInt8

namespace MemObj

/-- `memfd_create`. -/
def new : MemObj := ⟨0, 0, fun _ => 0⟩

/-- Byte `i` of the frames, zero where there is none yet: new frames are zeroed. -/
def raw (o : MemObj) (i : Nat) : UInt8 := if i < o.numPages * pageSize then o.byte i else 0

/-- `grow_locked`; `ok` says whether the frames and the page array can be had. -/
def grow (o : MemObj) (need : Nat) (ok : Bool) : Option MemObj :=
  if need ≤ o.numPages then some o
  else if memfdPagesMax < need then none
  else if ok then some { o with numPages := need, byte := o.raw }
  else none

/-- `memfd_truncate`; no caller here looks at its result. -/
def truncate (o : MemObj) (newSize : Nat) (ok : Bool) : MemObj :=
  if memfdPagesMax < ceilPages newSize then o
  else if o.size < newSize then
    match o.grow (ceilPages newSize) ok with
    | some o' => { o' with size := newSize }
    | none => o
  else { o with size := newSize }

/-- `memfd_write`; `none` is the return value -1. -/
def write (o : MemObj) (off : Nat) (bs : List UInt8) (ok : Bool) : Option MemObj :=
  let last := satAdd off bs.length
  if last < off ∨ memfdPagesMax < ceilPages last then none
  else
    match o.grow (ceilPages last) ok with
    | some o' => some { o' with size := max last o'.size, byte := splice o'.raw off bs }
    | none => none

/-- `memfd_read`. -/
def read (o : MemObj) (off size : Nat) : List UInt8 :=
  if o.size ≤ off then []
  else
    let n := if off + size < u32Size ∧ off + size ≤ o.size then size else o.size - off
    (List.range n).map fun j => o.raw (off + j)

end MemObj

/-! ### The address space -/

/-- `AS_PAGES_INITIAL`; `AS_PAGES_MAX` is `memfdPagesMax`. -/
def asPagesInitial : Nat := 1024

structure AddrSpace where
  /-- The object behind `mfd`. -/
  obj : MemObj
  size : Nat
  capPages : Nat
  present : Nat → Bool
  dirty : Nat → Bool
  /-- `rfn` and `wfn` are registered. -/
  backed : Bool

/-- Which allocations of a call succeed. -/
structure CacheAlloc where
  /-- A table slot and a memfd handle for a new object. -/
  slot : Bool
  /-- The two bitmaps. -/
  bits : Bool
  /-- Frames for the object. -/
  frames : Bool

namespace AddrSpace

/-- The entry `as_of` makes. -/
def new : AddrSpace := ⟨.new, 0, 0, fun _ => false, fun _ => false, false⟩

/-- The loop of `ensure_bits`; 32 doublings reach the maximum from any start,
and a loop that has not ended by then never does. -/
def growBits (need : Nat) : Nat → Nat → Option Nat
  | 0, _ => none
  | n + 1, cap => if cap < need then growBits need n (min (cap * 2) memfdPagesMax) else some cap

/-- `ensure_bits`.  The new bitmaps hold the bits of the old ones. -/
def ensureBits (a : AddrSpace) (need : Nat) (ok : Bool) : Option (AddrSpace × Bool) :=
  if a.capPages ≠ 0 ∧ need ≤ a.capPages then some (a, true)
  else
    (growBits need 32 (if a.capPages = 0 then asPagesInitial else a.capPages)).map fun cap =>
      if cap < need then (a, false)
      else if ok then ({ a with capPages := cap }, true)
      else (a, false)

/-- One pass of the loop of `populate`. -/
def populatePage (store : List UInt8) (tracked ok : Bool) (a : AddrSpace) (p : Nat) : AddrSpace :=
  if tracked && a.present p then a
  else
    let need := (p + 1) * pageSize
    let obj := if toI32 a.obj.size < toI32 need then a.obj.truncate need ok else a.obj
    let obj := if p < obj.numPages then
        { obj with
          byte := splice obj.raw (p * pageSize) (ByteFile.read store (p * pageSize) pageSize) }
      else obj
    { a with
      obj := if a.backed then obj else a.obj
      present := if tracked then update a.present p true else a.present }

/-- `populate`: the pages `first, …, last` of `[off, off + size)`. -/
def populate (a : AddrSpace) (store : List UInt8) (off size : Nat) (al : CacheAlloc) : Option AddrSpace :=
  let first := off / pageSize
  let last := (off + size - 1) / pageSize
  (a.ensureBits (last + 1) al.bits).map fun r =>
    (List.range' first (last + 1 - first)).foldl (populatePage store r.2 al.frames) r.1

/-- `vfs_as_read` of a file with an entry. -/
def vfsAsRead (a : AddrSpace) (store : List UInt8) (off size : Nat) (al : CacheAlloc) :
    Option (AddrSpace × List UInt8) :=
  if size = 0 ∨ a.size ≤ off then some (a, [])
  else
    let n := if a.size - off < size then a.size - off else size
    (a.populate store off n al).map fun a' => (a', a'.obj.read off n)

/-- Set the bits of the pages `first, …, last`. -/
def setBits (bits : Nat → Bool) (first last : Nat) (b : Bool) : Nat → Bool := fun p =>
  if first ≤ p ∧ p ≤ last then b else bits p

/-- `vfs_as_write` of a file with an entry: the entry, the store and the number
of bytes written, `none` for an error. -/
def vfsAsWrite (a : AddrSpace) (store : List UInt8) (off : Nat) (bs : List UInt8) (al : CacheAlloc) :
    Option (AddrSpace × List UInt8 × Option Nat) :=
  match a.obj.write off bs al.frames with
  | none => some (a, store, none)
  | some obj =>
    let fin := off + bs.length
    let a := { a with obj, size := if a.size < fin then fin else a.size }
    let first := off / pageSize
    let last := (fin - 1) / pageSize
    (a.ensureBits (last + 1) al.bits).map fun r =>
      let a := if r.2 then
          { r.1 with present := setBits r.1.present first last true, dirty := setBits r.1.dirty first last true }
        else r.1
      if a.backed then
        -- written through: the pages are clean again
        (if r.2 then { a with dirty := setBits a.dirty first last false } else a,
          ByteFile.write 0 store off bs, some bs.length)
      else (a, store, some bs.length)

/-- `vfs_as_truncate`. -/
def vfsAsTruncate (a : AddrSpace) (length : Nat) (al : CacheAlloc) : AddrSpace :=
  { a with obj := a.obj.truncate length al.frames, size := length }

/-- `vfs_as_setsize`. -/
def vfsAsSetsize (a : AddrSpace) (size : Nat) (al : CacheAlloc) : AddrSpace :=
  { a with
    obj := if a.size < size ∧ toI32 a.obj.size < toI32 size then a.obj.truncate size al.frames else a.obj
    size }

/-- One pass of the loop of `vfs_as_flush`. -/
def flushPage (a : AddrSpace) (store : List UInt8) (p : Nat) : List UInt8 :=
  if a.capPages ≤ p ∨ a.present p = false then store
  else if p < a.obj.numPages then
    let pageOff := p * pageSize
    ByteFile.write 0 store pageOff
      ((List.range (min pageSize (a.size - pageOff))).map fun j => a.obj.raw (pageOff + j))
  else store

/-- `vfs_as_flush`. -/
def vfsAsFlush (a : AddrSpace) (store : List UInt8) (off size : Nat) : Option (AddrSpace × List UInt8) :=
  if a.backed = false ∨ a.size ≤ off ∨ size = 0 then some (a, store)
  else
    (checkedAdd off size).map fun sum =>
      let fin := min sum a.size
      let first := off / pageSize
      let last := (fin - 1) / pageSize
      ({ a with dirty := fun p =>
          if first ≤ p ∧ p ≤ last ∧ p < a.capPages ∧ a.present p = true then false else a.dirty p },
        (List.range' first (last + 1 - first)).foldl a.flushPage store)

/-- How many of the pages of `[off, fin)` satisfy `q`. -/
def countPages (q : Nat → Bool) (off fin : Nat) : Nat :=
  (List.range' (off / pageSize) ((fin - 1) / pageSize + 1 - off / pageSize)).countP q

/-- The pages `vfs_as_read` populates. -/
def populated (a : AddrSpace) (off size : Nat) (al : CacheAlloc) : Nat :=
  let fin := min (off + size) a.size
  let tracked := (a.ensureBits ((fin - 1) / pageSize + 1) al.bits).any Prod.snd
  if size = 0 ∨ a.size ≤ off then 0 else countPages (fun p => !(tracked && a.present p)) off fin

/-- The pages `vfs_as_flush` flushes. -/
def flushed (a : AddrSpace) (off size : Nat) : Nat :=
  if a.backed = false ∨ a.size ≤ off ∨ size = 0 then 0
  else countPages (fun p => decide (p < a.capPages) && a.present p) off (min (off + size) a.size)

/-- `vfs_as_read` with `AS_POPULATES`. -/
def readCounted (a : AddrSpace) (store : List UInt8) (off size : Nat) (al : CacheAlloc) (populates : Nat) :
    Option ((AddrSpace × List UInt8) × Nat) :=
  (a.vfsAsRead store off size al).bind fun r => (checkedAdd populates (a.populated off size al)).map fun p => (r, p)

/-- `vfs_as_flush` with `AS_FLUSHES`. -/
def flushCounted (a : AddrSpace) (store : List UInt8) (off size flushes : Nat) :
    Option ((AddrSpace × List UInt8) × Nat) :=
  (a.vfsAsFlush store off size).bind fun r => (checkedAdd flushes (a.flushed off size)).map fun f => (r, f)

end AddrSpace

/-! ### A file in use -/

inductive CacheOp where
  /-- `vfs_as_set_backing`. -/
  | setBacking
  | read (off size : Nat)
  | write (off : Nat) (bs : List UInt8)
  | truncate (length : Nat)
  | setsize (size : Nat)
  | flush (off size : Nat)
  | release
  /-- Calls for other files count their pages. -/
  | others (populates flushes : Nat)

/-- One `(owner, ino)`: its entry, its store, and beside them the file they are
to stand for. -/
structure CacheSys where
  space : Option AddrSpace
  /-- The filesystem has a store of its own. -/
  hasStore : Bool
  store : List UInt8
  /-- `AS_POPULATES` and `AS_FLUSHES`. -/
  populates : Nat
  flushes : Nat
  /-- The file: its bytes, visible up to `size`. -/
  cells : Nat → UInt8
  size : Nat
  /-- Was the file ever made shorter? -/
  cut : Bool
  /-- What each read returned, and the bytes of the file it asked for. -/
  log : List (List UInt8 × List UInt8)
  /-- The store up to the size of the file after each flush and release, and the file then. -/
  saved : List (List UInt8 × List UInt8)

namespace CacheSys

/-- Byte `i` of a store, zero behind its end. -/
def pad (store : List UInt8) (i : Nat) : UInt8 := (store[i]?).getD 0

/-- A file that is not cached yet, with the bytes of its store if it has one. -/
def initial (store : Option (List UInt8)) : CacheSys :=
  ⟨none, store.isSome, store.getD [], 0, 0, pad (store.getD []), 0, false, [], []⟩

/-- The file as a list of bytes. -/
def file (s : CacheSys) : List UInt8 := ByteFile.image s.size s.cells

/-- `as_of`: find the entry, or make one. -/
def asOf (s : CacheSys) (al : CacheAlloc) : Option AddrSpace :=
  match s.space with
  | some a => some a
  | none => if al.slot then some .new else none

/-- The file takes a new size; what is cut off is gone. -/
def resize (s : CacheSys) (n : Nat) : CacheSys :=
  { s with
    cells := if n < s.size then fun i => if i < n then s.cells i else 0 else s.cells
    size := n
    cut := s.cut || decide (n < s.size) }

/-- Record a flush. -/
def save (s : CacheSys) : CacheSys :=
  { s with saved := (s.store.take s.size, s.file) :: s.saved }

/-- One call.  A call that finds no entry and cannot make one returns an error
and changes nothing. -/
def step (s : CacheSys) (e : CacheOp × CacheAlloc) : Option CacheSys :=
  let al := e.2
  match e.1 with
  | .setBacking =>
    if s.hasStore then
      some (match s.asOf al with
        | some a => { s with space := some { a with backed := true } }
        | none => s)
    else none
  | .read off size =>
    match s.asOf al with
    | none => some s
    | some a => (a.readCounted s.store off size al s.populates).map fun r =>
      { s with
        space := some r.1.1, populates := r.2
        log := (r.1.2, ByteFile.read s.file off size) :: s.log }
  | .write off bs =>
    if bs = [] then some s
    else
      match s.asOf al with
      | none => some s
      | some a => (a.vfsAsWrite s.store off bs al).map fun r =>
        match r.2.2 with
        | none => { s with space := some r.1, store := r.2.1 }
        | some n =>
          { s with
            space := some r.1, store := r.2.1
            cells := splice s.cells off bs, size := max s.size (off + n) }
  | .truncate length =>
    match s.asOf al with
    | none => some s
    | some a => some { s.resize length with space := some (a.vfsAsTruncate length al) }
  | .setsize size =>
    match s.asOf al with
    | none => some s
    | some a => some { s.resize size with space := some (a.vfsAsSetsize size al) }
  | .flush off size =>
    match s.space with
    | none => some s
    | some a => (a.flushCounted s.store off size s.flushes).map fun r =>
      { s with space := some r.1.1, store := r.1.2, flushes := r.2 }.save
  | .release =>
    match s.space with
    | none => some s
    | some a => (a.flushCounted s.store 0 a.size s.flushes).map fun r =>
      -- the entry is given up, and with it everything that is not in the store
      let s := { s with space := none, store := r.1.2, flushes := r.2 }.save
      { s with cells := pad r.1.2, size := 0, cut := false }
  | .others populates flushes =>
    (checkedAdd s.populates populates).bind fun p =>
      (checkedAdd s.flushes flushes).map fun f => { s with populates := p, flushes := f }

end CacheSys

end CactKernel
