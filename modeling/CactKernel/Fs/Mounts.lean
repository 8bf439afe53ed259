/-
CactKernel/Fs/Mounts.lean

Mounts of block devices through loadable file-system modules.

Three tables take part: the mount table of the VFS (`fs/rust_vfs/src/vfs.rs`), the
list of the mount manager (`fs/vfs/vfsdev/vfsdev_mount.c`), and the slots of the
module loader with the devices that each module has mounted (`fs/vfs/fs_mod.c`).
The boot file system is mounted by `mntfs_init` (`fs/vfs/mntfs/mntfs.c`).

What lies outside is given by arguments: whether a module image can be loaded,
which modules accept a device, whether `kmalloc` succeeds.  `resolve` is what
`vfs_resolve_parent` answers to a path; it depends on the working directory of
the caller and on the file systems, and changes at any time (`Event.resolves`).

Successful calls of `fs_mount` are numbered; `origin` keeps for each of them
which module was called on which device, and whether its `fs_unmount` has been
called for it since.  The place and the number in `VfsdevMount` are not part of
the source's record either.
-/
import CactKernel.Lib.Run
import CactKernel.Lib.Table
import CactKernel.Drivers.Blkdev

namespace CactKernel

open Function Table

def fsModMax : Nat := 8
def fsModMaxMounts : Nat := 32
def vfsMountMax : Nat := 32

/-- `fs_slot_t`; images are numbered. -/
structure FsSlot where
  used : Bool
  inst : List UInt8
  image : Option Nat
  /-- The module exports `fs_mount`, `fs_unmount`. -/
  mount : Bool
  unmount : Bool
  mounted : List (List UInt8)
deriving DecidableEq

def FsSlot.zero : FsSlot := ⟨false, [], none, false, false, []⟩

/-- An entry of `MOUNT_TABLE`; `target` is the number of the `fs_mount` call that made the node,
if one did. -/
structure VfsMount where
  host : Nat
  name : List UInt8
  target : Option Nat
deriving DecidableEq

namespace VfsMount

def isAt (host : Nat) (name : List UInt8) (m : VfsMount) : Bool :=
  decide (m.host = host) && decide (m.name = name)

def key (m : VfsMount) : Nat × List UInt8 := (m.host, m.name)

end VfsMount

/-- `vfsdev_mount_t`, with the place of the mount and the number of its `fs_mount` call. -/
structure VfsdevMount where
  devname : List UInt8
  target : List UInt8
  host : Nat
  name : List UInt8
  node : Nat
deriving DecidableEq

/-- What `vfs_resolve_parent` returns: a node and the last component. -/
structure PathParent where
  host : Nat
  dir : Bool
  name : List UInt8

/-- A successful call of `fs_mount`. -/
structure FsRoot where
  slot : Nat
  image : Option Nat
  dev : List UInt8
  unmounted : Bool
deriving DecidableEq

structure MountSys where
  slots : Nat → FsSlot
  /-- Images that `kfree` has not got back. -/
  allocated : Nat → Bool
  nextImage : Nat
  table : List VfsMount
  mountList : List VfsdevMount
  /-- The call that made `vfs_root`, if it is not a RAM file system. -/
  vfsRoot : Option Nat
  mntfsReady : Bool
  device : List UInt8 → Bool
  resolve : List UInt8 → Option PathParent
  origin : Nat → Option FsRoot
  nextNode : Nat
  /-- The result of the last call. -/
  ret : Int

/-- `instance_name`: the base name without `.cctk`, blanks replaced. -/
def instanceName (path : List UInt8) : List UInt8 :=
  (go (path.foldl (fun base c => if c = 47 then [] else base ++ [c]) [])).take 63
where
  go : List UInt8 → List UInt8
    | [] => []
    | c :: rest => if c = 46 && suffix rest then [] else (if c = 32 then 95 else c) :: go rest
  suffix : List UInt8 → Bool
    | a :: 99 :: 116 :: 107 :: _ => a = 99 || a = 115
    | _ => false

/-- `blk_name_from_arg`. -/
def blkNameFromArg : List UInt8 → List UInt8
  | 47 :: 100 :: 101 :: 118 :: 47 :: rest => rest
  | 47 :: c :: rest => c :: rest
  | p => p

/-- "auto" and "*". -/
def autoType : List UInt8 := [97, 117, 116, 111]
def anyType : List UInt8 := [42]

namespace FsSlot

/-- `slot_note_mount`. -/
def noteMount (s : FsSlot) (devname : List UInt8) : FsSlot :=
  if devname ∈ s.mounted then s
  else if fsModMaxMounts ≤ s.mounted.length then s
  else { s with mounted := s.mounted ++ [devname.take (blkdevNameMax - 1)] }

/-- The slot has a record of the device. -/
def records (s : FsSlot) (devname : List UInt8) : Bool := s.used && decide (devname ∈ s.mounted)

/-- The body of the loop of `fs_mod_unmount_dev`. -/
def forget (s : FsSlot) (devname : List UInt8) : FsSlot :=
  if s.records devname then { s with mounted := s.mounted.erase devname } else s

end FsSlot

namespace MountSys

variable (s : MountSys)

def start : MountSys where
  slots := fun _ => .zero
  allocated := fun _ => false
  nextImage := 0
  table := []
  mountList := []
  vfsRoot := none
  mntfsReady := false
  device := fun _ => false
  resolve := fun _ => none
  origin := fun _ => none
  nextNode := 0
  ret := 0

def returns (r : Int) : MountSys := { s with ret := r }

def setSlot (i : Nat) (x : FsSlot) : MountSys := { s with slots := update s.slots i x }

/-! ### The mount table -/

/-- `vfs_mount`. -/
def vfsMount (host : Nat) (name : List UInt8) (target : Option Nat) : Option MountSys :=
  if vfsMountMax ≤ s.table.length then none
  else if s.table.any (·.isAt host name) then none
  else some { s with table := s.table ++ [⟨host, name.take 127, target⟩] }

/-- `vfs_umount`. -/
def vfsUmount (host : Nat) (name : List UInt8) : Option MountSys :=
  (swapRemove (·.isAt host name) s.table).map fun table => { s with table := table }

/-- `vfs_resolve_parent` with a buffer of 128 bytes for the last component. -/
def vfsResolveParent (path : List UInt8) : Option PathParent :=
  (s.resolve path).map fun p => { p with name := p.name.take 127 }

/-! ### Modules -/

/-- `slot_by_instance`. -/
def slotByInstance (inst : List UInt8) : Option Nat :=
  (List.range fsModMax).find? fun i => (s.slots i).used && decide ((s.slots i).inst = inst)

/-- `fs_mod_image_errno`. -/
def fsModImageErrno (rc : Int) : Int := if rc = -2 ∨ rc = -12 ∨ rc = -13 then rc else -22

/-- `fs_mod_load`; `image` is what `load_module_image` says: an error, or whether the module
exports `fs_unmount`. -/
def fsModLoad (path : List UInt8) (image : Except Int Bool) : MountSys :=
  match (List.range fsModMax).find? fun i => !(s.slots i).used with
  | none => s.returns (-28)
  | some i =>
    let inst := instanceName path
    if s.slotByInstance inst ≠ none then s.returns (-17)
    else
      match image with
      | .error rc => s.returns (fsModImageErrno rc)
      | .ok unmount =>
        { s with
          slots := update s.slots i ⟨true, inst, some s.nextImage, true, unmount, []⟩
          allocated := update s.allocated s.nextImage true
          nextImage := s.nextImage + 1
          ret := 0 }

/-- `slot_unload`. -/
def slotUnload (i : Nat) : MountSys :=
  if (s.slots i).used = false then s.returns (-22)
  else if (s.slots i).mounted ≠ [] then s.returns (-16)
  else
    { s with
      slots := update s.slots i .zero
      allocated :=
        match (s.slots i).image with
        | none => s.allocated
        | some j => update s.allocated j false
      ret := 0 }

/-- `fs_mod_unload_slot`. -/
def fsModUnloadSlot (i : Nat) : MountSys := if fsModMax ≤ i then s.returns (-22) else s.slotUnload i

/-- `fs_mod_unload`. -/
def fsModUnload (inst : List UInt8) : MountSys :=
  match s.slotByInstance inst with
  | none => s.returns (-2)
  | some i => s.slotUnload i

/-- The slot whose `fs_mount` returns a root to `fs_mod_mount_type`; `accepts` says which do. -/
def fsModPick (fstype : List UInt8) (accepts : Nat → Bool) : Option Nat :=
  if fstype = [] ∨ fstype = autoType ∨ fstype = anyType then
    (List.range fsModMax).find? fun i => (s.slots i).used && (s.slots i).mount && accepts i
  else
    (s.slotByInstance fstype).filter fun i => (s.slots i).mount && accepts i

/-- The module in slot `i` mounts the device. -/
def fsMount (i : Nat) (devname : List UInt8) : MountSys :=
  { s with
    slots := update s.slots i ((s.slots i).noteMount devname)
    origin := update s.origin s.nextNode (some ⟨i, (s.slots i).image, devname, false⟩)
    nextNode := s.nextNode + 1 }

/-- `fs_mod_unmount_dev`. -/
def fsModUnmountDev (devname : List UInt8) : MountSys :=
  { s with
    -- the slots do not touch each other
    slots := fun i => if i < fsModMax then (s.slots i).forget devname else s.slots i
    origin := fun k => (s.origin k).map fun r =>
      if r.slot < fsModMax ∧ (s.slots r.slot).records devname = true ∧ (s.slots r.slot).unmount = true ∧
          r.image = (s.slots r.slot).image ∧ r.dev = devname then
        { r with unmounted := true }
      else r }

/-! ### The mount manager -/

/-- `blkdev_find`; names are cut when a device is registered. -/
def blkdevFind (name : List UInt8) : Bool := s.device name && decide (name.length < blkdevNameMax)

/-- `_find_dev`, `_find_target`. -/
def findDev (devname : List UInt8) : Option VfsdevMount :=
  s.mountList.find? fun m => decide (m.devname = devname)

def findTarget (target : List UInt8) : Option VfsdevMount :=
  s.mountList.find? fun m => decide (m.target = target)

/-- `vfsdev_device_mounted`. -/
def vfsdevDeviceMounted (devname : List UInt8) : Bool := (s.findDev devname).isSome

/-- `vfsdev_mount` once a module has mounted the device. -/
def attach (devname target : List UInt8) (node : Nat) (kmallocOk : Bool) : MountSys :=
  match s.vfsResolveParent target with
  | none => (s.fsModUnmountDev devname).returns (-22)
  | some p =>
    if p.name = [] ∨ p.dir = false then (s.fsModUnmountDev devname).returns (-22)
    else
      match s.vfsMount p.host p.name (some node) with
      | none => (s.fsModUnmountDev devname).returns (-16)
      | some t =>
        if kmallocOk then
          { t with
            mountList := ⟨devname, target.take 127, p.host, p.name, node⟩ :: t.mountList
            ret := 0 }
        else
          -- the results of the two are not looked at
          (((t.vfsUmount p.host p.name).getD t).fsModUnmountDev devname).returns (-1)

/-- `vfsdev_mount`. -/
def vfsdevMount (devarg target fstype : List UInt8) (accepts : Nat → Bool) (kmallocOk : Bool) :
    MountSys :=
  let nm := blkNameFromArg devarg
  if target = [] ∨ fstype = [] ∨ nm = [] then s.returns (-22)
  else if s.blkdevFind nm = false then s.returns (-19)
  else if s.findDev nm ≠ none then s.returns (-16)
  else
    match s.fsModPick fstype accepts with
    | none => s.returns (-19)
    | some i => (s.fsMount i nm).attach nm target s.nextNode kmallocOk

/-- The entry that `vfsdev_umount` works on. -/
def findMount (arg : List UInt8) : Option VfsdevMount :=
  match s.findTarget arg with
  | some m => some m
  | none => if blkNameFromArg arg = [] then none else s.findDev (blkNameFromArg arg)

/-- The `vfs_umount` of `vfsdev_umount`. -/
def detach (m : VfsdevMount) : Option MountSys :=
  (s.vfsResolveParent m.target).bind fun p => if p.name = [] then none else s.vfsUmount p.host p.name

/-- `vfsdev_umount`; the entry goes in any case. -/
def vfsdevUmount (arg : List UInt8) : MountSys :=
  match s.findMount arg with
  | none => s.returns (-1)
  | some m =>
    let t := (s.detach m).getD s
    let t := if t.blkdevFind m.devname then t.fsModUnmountDev m.devname else t
    { t with
      mountList := t.mountList.erase m
      ret := if (s.detach m).isSome then 0 else -1 }

/-! ### Boot -/

/-- One mount of the layout, whose names are short; a failure is only reported. -/
def mountLayout (place : Nat × List UInt8) : MountSys :=
  (s.vfsMount place.1 (place.2.take 127) none).getD s

/-- `mntfs_init` with the boot device, if one is registered, and the places of the layout. -/
def mntfsInit (boot : Option (List UInt8)) (accepts : Nat → Bool) (layout : List (Nat × List UInt8)) :
    MountSys :=
  if s.mntfsReady then s.returns 0
  else
    let t :=
      match boot.filter s.blkdevFind, s.fsModPick [] accepts with
      | some devname, some i => { s.fsMount i devname with vfsRoot := some s.nextNode }
      | _, _ => { s with vfsRoot := none }
    { layout.foldl mountLayout t with mntfsReady := true, ret := 0 }

/-! ### Steps -/

inductive Event where
  | load (path : List UInt8) (image : Except Int Bool)
  | unload (inst : List UInt8)
  | unloadSlot (i : Nat)
  | mount (devarg target fstype : List UInt8) (accepts : Nat → Bool) (kmallocOk : Bool)
  | umount (arg : List UInt8)
  | boot (devname : Option (List UInt8)) (accepts : Nat → Bool) (layout : List (Nat × List UInt8))
  /-- A device comes or goes. -/
  | device (name : List UInt8) (there : Bool)
  /-- The working directory or a file system changes. -/
  | resolves (f : List UInt8 → Option PathParent)

def step (s : MountSys) : Event → Option MountSys
  | .load path image => some (s.fsModLoad path image)
  | .unload inst => some (s.fsModUnload inst)
  | .unloadSlot i => some (s.fsModUnloadSlot i)
  | .mount devarg target fstype accepts kmallocOk =>
    some (s.vfsdevMount devarg target fstype accepts kmallocOk)
  | .umount arg => some (s.vfsdevUmount arg)
  | .boot devname accepts layout => some (s.mntfsInit devname accepts layout)
  | .device name there => some { s with device := update s.device name there, ret := 0 }
  | .resolves f => some { s with resolve := f, ret := 0 }

end MountSys

end CactKernel
