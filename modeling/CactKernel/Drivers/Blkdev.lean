/-
CactKernel/Drivers/Blkdev.lean

The block-device table (`drivers/block/blkdev/blkdev.c`) and the partition layer
(`drivers/block/blkdev/part.c`).

The table has a fixed number of slots.  A `blkdev_t *` is the number of a slot:
whole disks carry the callbacks of a driver (`drv` names the driver's disk),
partitions refer to the slot of their disk and to a run of its sectors.  A slot
that is dropped is zeroed and given out again.

`partScanDisk` reads the label of a disk, from the sectors that the disk has,
and refills the table from it.  Every name, limit and range check of the source
is in the model; the /dev nodes, which mirror the table, are not.  The swap
subsystem keeps a pointer to a partition of its own (`swapDev`), which the table
takes away before it drops the slot.
-/
import Mathlib.Data.List.Basic

namespace CactKernel

open Function

/-! ### Limits -/

def blkdevNameMax : Nat := 16
def blkdevPartsPerDisk : Nat := 16

/-- `BLKDEV_SLOTS`: eight disks with their partitions. -/
@[irreducible] def blkdevSlots : Nat := 136

/-- `BLKDEV_MAX_LBA`, the largest 32-bit sector number. -/
@[irreducible] def blkdevMaxLba : Nat := 0xFFFFFFFF

/-- The bytes of a sector. -/
abbrev Sector := Nat → UInt8

def zeroSector : Sector := fun _ => 0

/-! ### Devices -/

structure Blkdev where
  name : List UInt8
  maxLba : Nat
  /-- The slot of the disk; `none` for a whole disk. -/
  parent : Option Nat
  startLba : Nat
  partNo : Nat
  /-- The callbacks: which disk of a driver they reach. -/
  drv : Option Nat

namespace Blkdev

/-- A slot after `memset`. -/
def zero : Blkdev := ⟨[], 0, none, 0, 0, none⟩

end Blkdev

/-- A run of sectors of a disk. -/
structure Extent where
  drv : Option Nat
  start : Nat
  len : Nat
deriving DecidableEq, Repr

/-- A pointer that somebody keeps, with what it denoted when it was obtained. -/
structure BlkHandle where
  slot : Nat
  denoted : Extent
deriving DecidableEq, Repr

structure BlkTable where
  dev : Nat → Blkdev
  used : Nat → Bool
  bootDev : Option Nat
  /-- `swap_backing_dev`. -/
  swapDev : Option BlkHandle
  /-- The sectors of each disk. -/
  media : Nat → Nat → Sector

namespace BlkTable

variable (t : BlkTable)

def empty (media : Nat → Nat → Sector) : BlkTable :=
  ⟨fun _ => .zero, fun _ => false, none, none, media⟩

/-- The sectors that a slot denotes. -/
def extentOf (i : Nat) : Extent :=
  match (t.dev i).parent with
  | none => ⟨(t.dev i).drv, 0, (t.dev i).maxLba⟩
  | some p => ⟨(t.dev p).drv, (t.dev i).startLba, (t.dev i).maxLba⟩

/-- `alloc_slot`. -/
def allocSlot : Option Nat := (List.range blkdevSlots).find? fun i => !t.used i

/-- `blkdev_find`. -/
def blkdevFind (name : List UInt8) : Option Nat :=
  (List.range blkdevSlots).find? fun i => t.used i && decide ((t.dev i).name = name)

/-- `blkdev_by_id`. -/
def blkdevById (id : Nat) : Option Nat :=
  if blkdevSlots ≤ id then none else if t.used id then some id else none

/-- `blkdev_pick_boot`. -/
def pickBoot : BlkTable :=
  { t with
    bootDev := (List.range blkdevSlots).find? fun i => t.used i && (t.dev i).parent.isNone }

/-- `blkdev_part_count`. -/
def partCount (disk : Nat) : Nat :=
  (List.range blkdevSlots).countP fun i => t.used i && decide ((t.dev i).parent = some disk)

/-! ### Sector I/O -/

/-- Where `blkdev_read` and `blkdev_write` of sector `lba` end up: the driver's disk and its sector,
or `none` for -1.  The fuel bounds the walk from a partition to its disk, which has two steps. -/
def reach : Nat → Nat → Nat → Option (Nat × Nat)
  | 0, _, _ => none
  | fuel + 1, i, lba =>
    if (t.dev i).maxLba ≤ lba then none
    else
      match (t.dev i).parent with
      | none => (t.dev i).drv.map fun d => (d, lba)
      | some p =>
        let plba := (t.dev i).startLba + lba
        if blkdevMaxLba < plba then none else reach fuel p plba

/-- `blkdev_read`. -/
def blkdevRead (i lba : Nat) : Option Sector :=
  (t.reach blkdevSlots i lba).map fun x => t.media x.1 x.2

def setSector (d lba : Nat) (data : Sector) : BlkTable :=
  { t with media := update t.media d (update (t.media d) lba data) }

/-- `blkdev_write`. -/
def blkdevWrite (i lba : Nat) (data : Sector) : Option BlkTable :=
  (t.reach blkdevSlots i lba).map fun x => t.setSector x.1 x.2 data

/-! ### Disks and partitions -/

def setDev (i : Nat) (d : Blkdev) : BlkTable :=
  { t with dev := update t.dev i d, used := update t.used i true }

/-- `blkdev_partition_name`: a `p` separates the number from a name that ends in a digit. -/
def partitionName (disk : List UInt8) (partNo : Nat) : List UInt8 :=
  let digit := match disk.getLast? with
    | some c => decide (48 ≤ c ∧ c ≤ 57)
    | none => false
  let base := disk.take (blkdevNameMax - 1) ++ if digit then [112] else []
  let num := (Nat.toDigits 10 partNo).map fun c => c.toNat.toUInt8
  base ++ num.take (blkdevNameMax - 1 - base.length)

/-- `blkdev_add_partition`: the table and the slot of the new device. -/
def addPartition (disk partNo startLba lenLba : Nat) : Option (BlkTable × Nat) :=
  let d := t.dev disk
  if d.parent ≠ none ∨ partNo = 0 ∨ lenLba = 0 then none
  else if blkdevPartsPerDisk ≤ t.partCount disk then none
  else if d.maxLba ≤ startLba ∨ d.maxLba - startLba < lenLba then none
  else
    let name := partitionName d.name partNo
    if t.blkdevFind name ≠ none then none
    else
      match t.allocSlot with
      | none => none
      | some i =>
        some (t.setDev i ⟨name.take (blkdevNameMax - 1), lenLba, some disk, startLba, partNo, none⟩, i)

/-- `swap_notify_device_gone`. -/
def swapNotify (i : Nat) : BlkTable :=
  if t.swapDev.map BlkHandle.slot = some i then { t with swapDev := none } else t

/-- Zero a slot. -/
def dropSlot (i : Nat) : BlkTable :=
  { t with dev := update t.dev i .zero, used := update t.used i false }

/-- `blkdev_clear_partitions`. -/
def clearPartitions (disk : Nat) : BlkTable :=
  (List.range blkdevSlots).foldl
    (fun t i => if t.used i && decide ((t.dev i).parent = some disk) then (t.swapNotify i).dropSlot i else t)
    t

/-- `swap_enable_device`; `ok` is the answer of `swap_enable`. -/
def swapEnable (i : Nat) (ok : Bool) : BlkTable :=
  let d := t.dev i
  if d.parent = none ∨ d.maxLba ≤ 1 then t
  else if (d.maxLba - 1) / 8 = 0 then t
  else if ok then { t with swapDev := some ⟨i, t.extentOf i⟩ }
  else { t with swapDev := none }

/-! ### Labels -/

/-- The `n`-byte little-endian number at `off`. -/
def le (b : Nat → UInt8) : Nat → Nat → Nat
  | _, 0 => 0
  | off, n + 1 => (b off).toNat + 256 * le b (off + 1) n

/-- An entry of a label that describes a partition. -/
structure PartEntry where
  partNo : Nat
  startLba : Nat
  lenLba : Nat
  isSwap : Bool
deriving DecidableEq, Repr

/-- `part_parse_mbr`. -/
def parseMbr (lba0 : Sector) : List PartEntry :=
  (List.range 4).filterMap fun i =>
    let off := 446 + i * 16
    let type := lba0 (off + 4)
    let start := le lba0 (off + 8) 4
    let len := le lba0 (off + 12) 4
    if type = 0 ∨ start = 0 ∨ len = 0 then none
    else if type = 0x05 ∨ type = 0x0F ∨ type = 0x85 ∨ type = 0xEE then none
    else some ⟨i + 1, start, len, decide (type = 0x82)⟩

/-- The loop that reads the entry array: `have` bytes are there, sector `cur` is next. -/
def gptLoad (read : Nat → Option Sector) (maxLba need : Nat) :
    Nat → Nat → Nat → (Nat → UInt8) → Nat → UInt8
  | 0, _, _, buf => buf
  | fuel + 1, hav, cur, buf =>
    if hav < need ∧ cur < maxLba then
      match read cur with
      | none => buf
      | some sec =>
        let take := min (need - hav) 512
        gptLoad read maxLba need fuel (hav + take) (cur + 1) fun o =>
          if hav ≤ o ∧ o < hav + take then sec (o - hav) else buf o
    else buf

def gptSwapGuid : List UInt8 :=
  [0x6D, 0xFD, 0x57, 0x06, 0xAB, 0xA4, 0x43, 0xC4, 0x84, 0xE5, 0x09, 0x33, 0xC8, 0x4B, 0x4F, 0x4F]

/-- `part_parse_gpt`.  `beyond` is the memory behind the entry buffer, which the last entries of an
array of short entries reach into. -/
def parseGpt (read : Nat → Option Sector) (maxLba : Nat) (lba1 : Sector) (memOk : Bool)
    (beyond : Nat → UInt8) : List PartEntry :=
  let headerSize := le lba1 12 4
  let entriesLba := le lba1 72 8
  let numEntries := le lba1 80 4
  let entrySize := le lba1 84 4
  if headerSize < 92 ∨ 512 < headerSize then []
  else if numEntries = 0 ∨ 128 < numEntries then []
  else if entrySize = 0 ∨ 512 < entrySize then []
  else if blkdevMaxLba < entriesLba ∨ entriesLba = 0 then []
  else if memOk = false then []
  else
    let count := min numEntries blkdevPartsPerDisk
    let need := count * entrySize
    let buf := gptLoad read maxLba need need 0 entriesLba fun o => if o < need then 0 else beyond (o - need)
    (List.range count).filterMap fun i =>
      let off := i * entrySize
      let guid := (List.range 16).map fun k => buf (off + k)
      let first := le buf (off + 32) 8
      let last := le buf (off + 40) 8
      if guid = List.replicate 16 0 then none
      else if first = 0 ∨ last < first then none
      else some ⟨i + 1, first, last - first + 1, decide (guid = gptSwapGuid)⟩

/-- What a scan meets besides the disk: `kmalloc`, stray memory, `swap_enable`. -/
structure ScanEnv where
  memOk : Bool
  beyond : Nat → UInt8
  swapOk : Nat → Bool

/-- `part_create`. -/
def partCreate (disk : Nat) (env : ScanEnv) (t : BlkTable) (e : PartEntry) : BlkTable :=
  if blkdevMaxLba < e.startLba ∨ blkdevMaxLba < e.lenLba then t
  else
    match t.addPartition disk e.partNo e.startLba e.lenLba with
    | none => t
    | some (t', i) => if e.isSwap then t'.swapEnable i (env.swapOk e.partNo) else t'

/-- "EFI PART". -/
def gptSignature : List UInt8 := [69, 70, 73, 32, 80, 65, 82, 84]

/-- The entries of the label of a disk. -/
def readLabel (disk : Nat) (env : ScanEnv) : List PartEntry :=
  match t.blkdevRead disk 0, t.blkdevRead disk 1 with
  | some lba0, some lba1 =>
    -- a GPT wins over the MBR that protects it
    if (List.range 8).map lba1 = gptSignature then
      parseGpt (t.blkdevRead disk) (t.dev disk).maxLba lba1 env.memOk env.beyond
    else if lba0 510 = 0x55 ∧ lba0 511 = 0xAA then parseMbr lba0
    else []
  | _, _ => []

/-- `part_scan_disk`. -/
def partScanDisk (disk : Nat) (env : ScanEnv) : BlkTable :=
  if (t.dev disk).parent ≠ none ∨ (t.dev disk).maxLba < 2 then t
  else
    -- slots are zeroed also while pointers to them are out
    let t' := t.clearPartitions disk
    (t'.readLabel disk env).foldl (partCreate disk env) t'

/-- `part_rescan`. -/
def partRescan (name : List UInt8) (env : ScanEnv) : BlkTable :=
  match t.blkdevFind name with
  | none => t
  | some d => t.partScanDisk d env

/-- `register_blkdev`, with the partition layer's hook if it is set. -/
def registerBlkdev (name : List UInt8) (maxLba drv : Nat) (hook : Bool) (env : ScanEnv) : BlkTable :=
  if name = [] ∨ t.blkdevFind name ≠ none ∨ maxLba = 0 then t
  else
    match t.allocSlot with
    | none => t
    | some i =>
      let t' := t.setDev i ⟨name.take (blkdevNameMax - 1), maxLba, none, 0, 0, some drv⟩
      let t'' := { t' with bootDev := t.bootDev.or (some i) }
      if hook then t''.partScanDisk i env else t''

/-- `unregister_blkdev`. -/
def unregisterBlkdev (name : List UInt8) : BlkTable :=
  match t.blkdevFind name with
  | none => t
  | some d =>
    if (t.dev d).parent ≠ none then t else ((t.clearPartitions d).dropSlot d).pickBoot

end BlkTable

end CactKernel
