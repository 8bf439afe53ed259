/-
CactKernel/Drivers/PageCache.lean

The block page cache (`drivers/block/pagecache/pagecache.c`).

A pool of pages is found through a hash table on (device id, block number) and
evicted in the order of an LRU list.  Pages are written back as soon as they are
marked dirty.

The devices under the cache are arrays of sectors.  An id names, at any moment,
at most one device; every registration makes a new one, so that an id that is
given out again names another device than before.  Sector I/O fails outside the
device, and where the arguments `rdOk` and `wrOk` say so (they are asked for the
number of the sector within the block).

`origin`, the device a page was read from, `stored`, that its buffer was changed
since it was last read or written back, and the three records at the end of
`PcSys` are not part of the cache.
-/
import CactKernel.Lib.Run
import CactKernel.Mm.Layout
import CactKernel.Drivers.Blkdev

namespace CactKernel

open Function

@[irreducible] def pcMaxPages : Nat := 256
def pcMaxBlockSize : Nat := 4096
def pcHashSize : Nat := 64

/-- `_hash`. -/
def pcHash (dev block : Nat) : Nat :=
  let h := dev ^^^ block
  let h := h ^^^ (h >>> 16)
  let h := (h * 0x45d9f3b) % u32Size
  let h := h ^^^ (h >>> 16)
  h % pcHashSize

/-- `struct page`; the links of the hash chains and of the LRU list are in `PcSys`. -/
structure PcPage where
  dev : Nat
  used : Bool
  valid : Bool
  dirty : Bool
  block : Nat
  blockSize : Nat
  pinCount : Nat
  data : Option (Nat → UInt8)
  origin : Nat
  stored : Bool

namespace PcPage

def zero : PcPage := ⟨0, false, false, false, 0, 0, 0, none, 0, false⟩

/-- Sectors per block. -/
def spb (p : PcPage) : Nat := p.blockSize / 512

end PcPage

/-- A page that `pc_get_page` returned: what it held, and what the named device held. -/
structure PcGot where
  dev : Nat
  block : Nat
  size : Nat
  page : Nat → UInt8
  disk : Option (Nat → UInt8)

/-- A page after `pc_mark_dirty`. -/
structure PcMarked where
  size : Nat
  page : Nat → UInt8
  disk : Option (Nat → UInt8)
  dirty : Bool

structure PcSys where
  page : Nat → PcPage
  /-- The chain of each bucket. -/
  hash : Nat → List Nat
  /-- Most recently used first. -/
  lru : List Nat
  /-- Which device an id names. -/
  dev : Nat → Option Nat
  /-- The id of the boot device. -/
  bootDev : Option Nat
  size : Nat → Nat
  sector : Nat → Nat → Sector
  nextDev : Nat
  gots : List PcGot
  marks : List PcMarked
  /-- For each sector written: the device the page was read from, and the device written. -/
  writes : List (Nat × Nat)

namespace PcSys

variable (s : PcSys)

/-- `pc_init`. -/
def start : PcSys where
  page := fun _ => .zero
  hash := fun _ => []
  lru := []
  dev := fun _ => none
  bootDev := none
  size := fun _ => 0
  sector := fun _ _ => zeroSector
  nextDev := 0
  gots := []
  marks := []
  writes := []

/-- The sectors `[block * spb, block * spb + spb)` of the device that `dev` names. -/
def contents (dev block blockSize : Nat) : Option (Nat → UInt8) :=
  match s.dev dev with
  | none => none
  | some x =>
    let spb := blockSize / 512
    if block * spb + spb ≤ s.size x then
      some fun o => s.sector x (block * spb + o / 512) (o % 512)
    else none

def setPage (i : Nat) (p : PcPage) : PcSys := { s with page := update s.page i p }

/-! ### Hash table and LRU list -/

def hashFind (dev block : Nat) : Option Nat :=
  (s.hash (pcHash dev block)).find? fun i =>
    decide ((s.page i).dev = dev) && decide ((s.page i).block = block)

def hashRemove (i : Nat) : PcSys :=
  let b := pcHash (s.page i).dev (s.page i).block
  { s with hash := update s.hash b ((s.hash b).erase i) }

def hashInsert (i : Nat) : PcSys :=
  let b := pcHash (s.page i).dev (s.page i).block
  { s with hash := update s.hash b (i :: s.hash b) }

def lruRemove (i : Nat) : PcSys := { s with lru := s.lru.erase i }

def lruTouch (i : Nat) : PcSys :=
  if s.lru.head? = some i then s else { s with lru := i :: s.lru.erase i }

/-! ### Writing back -/

/-- The first `n` sectors of a block go to the device `x`; a sector that cannot be written is
passed over. -/
def writeSectors (origin x lba : Nat) (data : Nat → UInt8) (wrOk : Nat → Bool) : Nat → PcSys
  | 0 => s
  | n + 1 =>
    let s' := writeSectors origin x lba data wrOk n
    let l := (lba + n) % u32Size
    if wrOk n && decide (l < s.size x) then
      { s' with
        sector := update s'.sector x (update (s'.sector x) l fun o => data (n * 512 + o))
        writes := s'.writes ++ [(origin, x)] }
    else s'

/-- `_writeback`. -/
def writeback (i : Nat) (wrOk : Nat → Bool) : PcSys :=
  let p := s.page i
  if !p.dirty then s
  else
    match p.data, s.dev p.dev with
    | none, _ => s.setPage i { p with dirty := false }
    | some _, none => s.setPage i { p with dirty := false }
    | some data, some x =>
      (s.writeSectors p.origin x ((p.block * p.spb) % u32Size) data wrOk p.spb).setPage i
        { p with dirty := false, stored := false }

/-- Take a page out of hash table and LRU list and free its slot; `keep` keeps its buffer. -/
def dropPage (i : Nat) (keep : Bool) : PcSys :=
  let s' := (s.lruRemove i).hashRemove i
  let p := s.page i
  s'.setPage i { p with
    used := false, valid := false, dirty := false, pinCount := 0
    data := if keep then p.data else none }

/-- `_evict_one`. -/
def evictOne (wrOk : Nat → Bool) : PcSys × Option Nat :=
  match s.lru.reverse.find? fun i => decide ((s.page i).pinCount = 0) with
  | none => (s, none)
  | some i => ((s.writeback i wrOk).dropPage i true, some i)

/-- `_alloc_page`. -/
def allocPage (wrOk : Nat → Bool) : PcSys × Option Nat :=
  match (List.range pcMaxPages).find? fun i => !(s.page i).used with
  | some i => (s, some i)
  | none => s.evictOne wrOk

/-! ### The interface -/

/-- The page that is returned, with one more pin, at the front of the LRU list. -/
def pinned (i : Nat) : PcSys :=
  (s.setPage i { s.page i with pinCount := (s.page i).pinCount + 1 }).lruTouch i

/-- Note what is returned to the caller. -/
def returns (dev block blockSize i : Nat) : PcSys :=
  match (s.page i).data with
  | none => s
  | some data => { s with gots := s.gots ++ [⟨dev, block, blockSize, data, s.contents dev block blockSize⟩] }

/-- The device that a miss reads from: an unknown id means the boot device. -/
def target (dev : Nat) : Option Nat :=
  match s.dev dev with
  | some x => some x
  | none => s.bootDev.bind s.dev

/-- What the reads of a miss put into the buffer. -/
def readBlock (bd : Option Nat) (lba blockSize : Nat) (rdOk : Nat → Bool) (old : Nat → UInt8) :
    Nat → UInt8 := fun o =>
  if o < blockSize then
    match bd with
    | none => 0
    | some x =>
      let l := (lba + o / 512) % u32Size
      if rdOk (o / 512) && decide (l < s.size x) then s.sector x l (o % 512) else 0
  else old o

/-- The LBA checks of a miss, made if there is a device. -/
def inRange (bd : Option Nat) (block spb : Nat) : Bool :=
  match bd with
  | none => true
  | some x =>
    decide (block ≤ (u32Size - 1) / spb) && decide (block * spb ≤ s.size x) &&
      decide (spb ≤ s.size x - block * spb)

/-- The end of a miss: the slot `i` is taken for the block, read and entered. -/
def fill (dev block blockSize i : Nat) (kallocOk : Bool) (stray : Nat → UInt8) (rdOk : Nat → Bool) :
    PcSys :=
  let spb := blockSize / 512
  let p := s.page i
  let bd := s.target dev
  let taken := { p with
    dev := dev, block := block, blockSize := blockSize
    used := true, valid := false, dirty := false, pinCount := 1 }
  match p.data, kallocOk with
  | none, false => s.setPage i { taken with used := false, pinCount := 0 }
  | old, _ =>
    let data := s.readBlock bd ((block * spb) % u32Size) blockSize rdOk (old.getD stray)
    let read := { taken with data := some data, origin := bd.getD 0, stored := false }
    let s' := s.setPage i read
    match s'.hashFind dev block with
    | some j =>
      ((s'.pinned j).setPage i { read with used := false, pinCount := 0 }).returns dev block blockSize j
    | none =>
      (((s'.setPage i { read with valid := true }).hashInsert i).lruTouch i).returns dev block blockSize i

/-- `pc_get_page`. -/
def pcGetPage (dev block blockSize : Nat) (kallocOk : Bool) (stray : Nat → UInt8)
    (rdOk wrOk : Nat → Bool) : PcSys :=
  match s.hashFind dev block with
  | some i => (s.pinned i).returns dev block blockSize i
  | none =>
    if blockSize = 0 ∨ blockSize % 512 ≠ 0 then s
    else if pcMaxBlockSize < blockSize then s
    else if s.inRange (s.target dev) block (blockSize / 512) = false then s
    else
      match s.allocPage wrOk with
      | (s', none) => s'
      | (s', some i) => s'.fill dev block blockSize i kallocOk stray rdOk

/-- `pc_mark_dirty`. -/
def pcMarkDirty (dev block : Nat) (wrOk : Nat → Bool) : PcSys :=
  match s.hashFind dev block with
  | none => s
  | some i =>
    let p := s.page i
    let s' := (s.setPage i { p with dirty := true }).writeback i wrOk
    match p.data with
    | none => s'
    | some data =>
      { s' with marks := s'.marks ++
          [⟨p.blockSize, data, s'.contents dev block p.blockSize, (s'.page i).dirty⟩] }

/-- `pc_put_page`. -/
def pcPutPage (dev block : Nat) : PcSys :=
  match s.hashFind dev block with
  | none => s
  | some i =>
    let p := s.page i
    if p.pinCount = 0 then s else s.setPage i { p with pinCount := p.pinCount - 1 }

/-- `pc_flush_dev`. -/
def pcFlushDev (dev : Nat) (wrOk : Nat → Bool) : PcSys :=
  (List.range pcMaxPages).foldl
    (fun s i =>
      if (s.page i).valid && (s.page i).dirty && decide ((s.page i).dev = dev) then s.writeback i wrOk
      else s)
    s

/-- `pc_invalidate_block`. -/
def pcInvalidateBlock (dev block : Nat) (wrOk : Nat → Bool) : PcSys :=
  match s.hashFind dev block with
  | none => s
  | some i =>
    if 0 < (s.page i).pinCount then s
    else (if (s.page i).dirty then s.writeback i wrOk else s).dropPage i false

/-- `pc_invalidate_dev`. -/
def pcInvalidateDev (dev : Nat) (wrOk : Nat → Bool) : PcSys :=
  (List.range pcMaxPages).foldl
    (fun s i =>
      if (s.page i).valid && decide ((s.page i).dev = dev) && decide ((s.page i).pinCount = 0) then
        s.dropPage i false
      else s)
    (s.pcFlushDev dev wrOk)

/-- A caller stores a byte into a page that it holds. -/
def store (i off : Nat) (v : UInt8) : PcSys :=
  s.setPage i { s.page i with data := (s.page i).data.map fun d => update d off v, stored := true }

/-- The block layer gives an id a new device, or takes its device away. -/
def setDevice (id : Nat) : Option (Nat × (Nat → Sector)) → PcSys
  | none => { s with dev := update s.dev id none }
  | some (size, sectors) =>
    { s with
      dev := update s.dev id (some s.nextDev)
      size := update s.size s.nextDev size
      sector := update s.sector s.nextDev sectors
      nextDev := s.nextDev + 1 }

inductive Event where
  | get (dev block blockSize : Nat) (kallocOk : Bool) (stray : Nat → UInt8) (rdOk wrOk : Nat → Bool)
  | store (i off : Nat) (v : UInt8)
  | markDirty (dev block : Nat) (wrOk : Nat → Bool)
  | put (dev block : Nat)
  | flushDev (dev : Nat) (wrOk : Nat → Bool)
  | invalidateBlock (dev block : Nat) (wrOk : Nat → Bool)
  | invalidateDev (dev : Nat) (wrOk : Nat → Bool)
  | device (id : Nat) (x : Option (Nat × (Nat → Sector)))
  | boot (id : Option Nat)

def step (s : PcSys) : Event → Option PcSys
  | .get dev block blockSize kallocOk stray rdOk wrOk =>
    some (s.pcGetPage dev block blockSize kallocOk stray rdOk wrOk)
  | .store i off v =>
    -- through a pointer that was returned and not yet put
    if 0 < (s.page i).pinCount then some (s.store i off v) else none
  | .markDirty dev block wrOk => some (s.pcMarkDirty dev block wrOk)
  | .put dev block => some (s.pcPutPage dev block)
  | .flushDev dev wrOk => some (s.pcFlushDev dev wrOk)
  | .invalidateBlock dev block wrOk => some (s.pcInvalidateBlock dev block wrOk)
  | .invalidateDev dev wrOk => some (s.pcInvalidateDev dev wrOk)
  | .device id x =>
    -- sector numbers have 32 bits
    if ∀ y ∈ x, y.1 < u32Size then some (s.setDevice id x) else none
  | .boot id => some { s with bootDev := id }

end PcSys

end CactKernel
