/-
CactKernel/Syscall/FdIo.lean

The file calls of one process (`kernel/core/syscall/io/fd.c`) and the permission
check they rely on (`vfs_check_perm` of `fs/rust_vfs/src/ops.rs`).

The state is what the calls of the process see: the nodes, its descriptors and
its credentials.  How a path or a name is looked up is a parameter (`Lookup`):
the calls are modelled for every way in which mounts, links and the name cache
may answer.  What the filesystem behind a node answers is carried by the call:
the node it allocates for a new name, the number of bytes it transfers, whether
it refuses.

Descriptors are slots that name descriptions (`file_t`), so that duplicates
share one; a description that no slot names has been freed, and its id may be
given out again.  A description also records `granted`, the permissions that were
checked when it was opened.  The source keeps no such field; the calls below
never read it.
-/
import CactKernel.Fs.Tmpfs
import CactKernel.Lib.ByteFile
import CactKernel.Mm.Layout
import Mathlib.Algebra.Group.Nat.Defs

namespace CactKernel

open Function

def permRead : BitVec 32 := 4
def permWrite : BitVec 32 := 2
def permExec : BitVec 32 := 1

def openAccmode : BitVec 32 := 0x3
def openCreat : BitVec 32 := 0x40
def openExcl : BitVec 32 := 0x80
def openTrunc : BitVec 32 := 0x200
def setflMask : BitVec 32 := 0x800 ||| 0x400

/-- The types of `vfs_node_t` that the calls tell apart. -/
inductive VfsType where
  | file
  | directory
  | charDevice
  | blockDevice
  | symlink
deriving DecidableEq, Repr

/-- `vfs_node_t` with the bytes and the entries that the filesystem keeps for it. -/
structure VfsNode where
  type : VfsType
  mode : BitVec 32
  uid : Nat
  gid : Nat
  data : List UInt8
  entries : List (FileName × Nat)
deriving DecidableEq, Repr

structure Cred where
  euid : Nat
  egid : Nat
  isKernel : Bool
deriving DecidableEq, Repr

/-- `file_t`. -/
structure OpenFile where
  node : Nat
  offset : Nat
  flags : BitVec 32
  granted : BitVec 32
deriving DecidableEq, Repr

/-- The nodes by id. -/
abbrev NodeTable := Nat → Option VfsNode

/-- How names are looked up. -/
structure Lookup where
  /-- `_resolve_path`. -/
  resolvePath : NodeTable → FileName → Option Nat
  /-- `_resolve_parent`: the directory and the last component. -/
  resolveParent : NodeTable → FileName → Option (Nat × FileName)
  /-- `finddir_vfs`. -/
  finddir : NodeTable → Nat → FileName → Option Nat

structure FdSys where
  nodes : NodeTable
  fds : Nat → Option Nat
  files : Nat → Option OpenFile
  cred : Cred

/-- What a call gives back: its return value and the bytes it copied out. -/
structure Reply where
  ret : Int
  bytes : List UInt8
deriving DecidableEq, Repr

/-- `vfs_check_perm` for a process that has a `proc`. -/
def vfsCheckPerm (cred : Cred) (node : VfsNode) (perm : BitVec 32) : Bool :=
  if node.mode = 0 then true
  else if cred.isKernel then true
  else if cred.euid = 0 then true
  else
    let shift := if cred.euid = node.uid then 6 else if cred.egid = node.gid then 3 else 0
    let allowed := (node.mode >>> shift) &&& 7
    decide (allowed &&& perm = perm)

/-- What an open with these flags asks for. -/
def openNeed (flags : BitVec 32) : BitVec 32 :=
  let acc := flags &&& openAccmode
  (if acc = 0 ∨ acc = 2 then permRead else 0) ||| (if acc = 1 ∨ acc = 2 then permWrite else 0)

namespace FdSys

/-! ### Nodes -/

def setNode (s : FdSys) (n : Nat) (f : VfsNode → VfsNode) : FdSys :=
  { s with nodes := update s.nodes n ((s.nodes n).map f) }

def checkPerm (s : FdSys) (n : Nat) (perm : BitVec 32) : Bool :=
  (s.nodes n).any fun node => vfsCheckPerm s.cred node perm

def hasType (s : FdSys) (n : Nat) (type : VfsType) : Bool :=
  (s.nodes n).any fun node => decide (node.type = type)

/-- `truncate_vfs`; `ok` is the filesystem's answer. -/
def truncateVfs (s : FdSys) (n len : Nat) (ok : Bool) : FdSys × Int :=
  if ok then (s.setNode n fun node => { node with data := ByteFile.truncate 0 node.data len }, 0)
  else (s, -1)

/-- A new name in a directory, for a new node at an id that is not in use. -/
def makeVfs (s : FdSys) (type : VfsType) (dir : Nat) (name : FileName) (fresh : Option Nat) :
    FdSys × Int :=
  match fresh with
  | none => (s, -1)
  | some n =>
    if s.hasType dir .directory ∧ s.nodes n = none then
      let s' := s.setNode dir fun node => { node with entries := (name, n) :: node.entries }
      ({ s' with nodes := update s'.nodes n (some ⟨type, 0o777, 0, 0, [], []⟩) }, 0)
    else (s, -1)

def createVfs (s : FdSys) := s.makeVfs .file

def mkdirVfs (s : FdSys) := s.makeVfs .directory

/-- `vfs_symlink` mounts a link node under the name. -/
def vfsSymlink (s : FdSys) := s.makeVfs .symlink

/-- `vfs_unlink` and `rmdir_vfs`. -/
def dropVfs (s : FdSys) (dir : Nat) (name : FileName) (ok : Bool) : FdSys × Int :=
  if ok then
    (s.setNode dir fun node =>
      { node with entries := node.entries.filter fun e => decide (e.1 ≠ name) }, 0)
  else (s, -1)

def vfsLink (s : FdSys) (dir : Nat) (name : FileName) (target : Nat) (ok : Bool) : FdSys × Int :=
  if ok then (s.setNode dir fun node => { node with entries := (name, target) :: node.entries }, 0)
  else (s, -1)

def renameVfs (s : FdSys) (dir : Nat) (oldname newname : FileName) (ok : Bool) : FdSys × Int :=
  if ok then
    (s.setNode dir fun node => { node with
      entries := node.entries.map fun e => if e.1 = oldname then (newname, e.2) else e }, 0)
  else (s, -1)

/-- `vfs_rename_at`. -/
def renameAt (s : FdSys) (look : Lookup) (dir : Nat) (oldname : FileName) (newdir : Nat)
    (newname : FileName) (ok : Bool) : FdSys × Int :=
  if dir = newdir then s.renameVfs dir oldname newname ok
  else
    match look.finddir s.nodes dir oldname with
    | none => (s, -2)
    | some n =>
      if (look.finddir s.nodes newdir newname).isSome then (s, -17)
      else if ok then
        (((s.setNode dir fun node =>
            { node with entries := node.entries.filter fun e => decide (e.1 ≠ oldname) }).setNode
          newdir fun node => { node with entries := (newname, n) :: node.entries }), 0)
      else (s, -1)

/-- `mknod_vfs`: create, then set the type and the mode of what the name now gives. -/
def mknodVfs (s : FdSys) (look : Lookup) (dir : Nat) (name : FileName) (mode : BitVec 32)
    (fresh : Option Nat) : FdSys × Int :=
  let made := s.createVfs dir name fresh
  if made.2 < 0 then (s, -1)
  else
    match look.finddir made.1.nodes dir name with
    | none => (made.1, -1)
    | some n =>
      (made.1.setNode n fun node => { node with
        type := if mode &&& 0xF000 = 0x2000 then .charDevice
          else if mode &&& 0xF000 = 0x6000 then .blockDevice else node.type
        mode := mode &&& 0o777 }, 0)

/-! ### Descriptors -/

/-- `_get_file`: the description of a descriptor, with its id. -/
def getFile (s : FdSys) (fd : Nat) : Option (Nat × OpenFile) :=
  if fd < maxFd then (s.fds fd).bind fun k => (s.files k).map fun f => (k, f) else none

/-- The first free slot at or above `low`. -/
def freeSlot (s : FdSys) (low : Nat) : Option Nat :=
  (List.range' low (maxFd - low)).find? fun i => (s.fds i).isNone

def setFd (s : FdSys) (fd : Nat) (k : Option Nat) : FdSys := { s with fds := update s.fds fd k }

def setFile (s : FdSys) (k : Nat) (f : OpenFile) : FdSys :=
  { s with files := update s.files k (some f) }

/-- No slot names the description. -/
def isFree (s : FdSys) (k : Nat) : Bool :=
  (List.range maxFd).all fun fd => decide (s.fds fd ≠ some k)

/-- The return values by which `sys_open` and `openat` differ. -/
structure OpenErrors where
  noent : Int
  exist : Int
  acces : Int
  nomem : Int
  io : Int
  mfile : Int

def sysOpenErrors : OpenErrors := ⟨-1, -1, -1, -1, -1, -1⟩

def openatErrors : OpenErrors := ⟨-2, -17, -13, -12, -5, -24⟩

/-- The answers of the allocator and the filesystem to an open: the node for a
new name, the memory for the description, whether the node can be truncated. -/
structure OpenAnswers where
  fresh : Option Nat
  file : Option Nat
  trunc : Bool
deriving DecidableEq, Repr

/-- The part of an open that both calls share, once the node is found. -/
def openNode (s : FdSys) (err : OpenErrors) (n : Nat) (flags : BitVec 32) (ans : OpenAnswers) :
    FdSys × Int :=
  if s.checkPerm n (openNeed flags) then
    match ans.file.filter fun k => s.isFree k with
    | none => (s, err.nomem)
    | some k =>
      match s.freeSlot 3 with
      | none => (s, err.mfile)
      | some fd =>
        let s' := (s.setFile k ⟨n, 0, flags, openNeed flags⟩).setFd fd (some k)
        if flags &&& openTrunc ≠ 0 ∧
            (flags &&& openAccmode = 1 ∨ flags &&& openAccmode = 2) then
          if (s'.truncateVfs n 0 ans.trunc).2 ≠ 0 then (s, err.io)
          else ((s'.truncateVfs n 0 ans.trunc).1, fd)
        else (s', fd)
  else (s, err.acces)

def sysOpen (s : FdSys) (look : Lookup) (path : FileName) (flags : BitVec 32)
    (ans : OpenAnswers) : FdSys × Int :=
  match look.resolvePath s.nodes path with
  | some n =>
    if flags &&& openCreat ≠ 0 ∧ flags &&& openExcl ≠ 0 then (s, sysOpenErrors.exist)
    else s.openNode sysOpenErrors n flags ans
  | none =>
    if flags &&& openCreat = 0 then (s, sysOpenErrors.noent)
    else
      match look.resolveParent s.nodes path with
      | none => (s, -1)
      | some (parent, basename) =>
        if basename = [] then (s, -1)
        else if s.checkPerm parent (permWrite ||| permExec) then
          let made := s.createVfs parent basename ans.fresh
          if made.2 ≠ 0 then (s, -1)
          else
            match look.resolvePath made.1.nodes path with
            | none => (made.1, -1)
            | some n => made.1.openNode sysOpenErrors n flags ans
        else (s, -1)

/-- `_dir_wx`. -/
def dirWx (s : FdSys) (dir : Nat) : Bool := s.checkPerm dir (permWrite ||| permExec)

def dirctlOpenat (s : FdSys) (look : Lookup) (dir : Nat) (name : FileName) (flags : BitVec 32)
    (ans : OpenAnswers) : FdSys × Int :=
  match look.finddir s.nodes dir name with
  | some n =>
    if flags &&& openCreat ≠ 0 ∧ flags &&& openExcl ≠ 0 then (s, openatErrors.exist)
    else s.openNode openatErrors n flags ans
  | none =>
    if flags &&& openCreat = 0 then (s, openatErrors.noent)
    else if s.dirWx dir then
      let made := s.createVfs dir name ans.fresh
      if made.2 ≠ 0 then (s, openatErrors.io)
      else
        match look.finddir made.1.nodes dir name with
        | none => (made.1, openatErrors.io)
        | some n => made.1.openNode openatErrors n flags ans
    else (s, -13)

/-- `sys_read`; `count` is how much the filesystem gives, `none` for an error. -/
def sysRead (s : FdSys) (fd size : Nat) (count : Option Nat) : FdSys × Reply :=
  if size = 0 then (s, ⟨-1, []⟩)
  else
    match s.getFile fd with
    | none => (s, ⟨-1, []⟩)
    | some (id, f) =>
      match s.nodes f.node, count with
      | some node, some k =>
        let bytes := (ByteFile.read node.data f.offset size).take k
        (s.setFile id { f with offset := (f.offset + bytes.length) % 2 ^ 32 },
          ⟨bytes.length, bytes⟩)
      | _, _ => (s, ⟨-1, []⟩)

/-- `sys_write`; `count` is how many of the bytes the filesystem takes. -/
def sysWrite (s : FdSys) (fd : Nat) (bytes : List UInt8) (count : Option Nat) : FdSys × Int :=
  if bytes = [] then (s, -1)
  else
    match s.getFile fd with
    | none => (s, -1)
    | some (id, f) =>
      match count with
      | none => (s, -1)
      | some k =>
        let written := bytes.take k
        if written = [] then (s, 0)
        else
          ((s.setNode f.node fun node =>
              { node with data := ByteFile.write 0 node.data f.offset written }).setFile id
            { f with offset := (f.offset + written.length) % 2 ^ 32 }, written.length)

def sysClose (s : FdSys) (fd : Nat) : FdSys × Int :=
  match s.getFile fd with
  | none => (s, -1)
  | some _ => (s.setFd fd none, 0)

/-- `sys_dup` and, from `low` on, `F_DUPFD`. -/
def sysDup (s : FdSys) (fd low : Nat) : FdSys × Int :=
  match s.getFile fd with
  | none => (s, -1)
  | some (id, _) =>
    match s.freeSlot low with
    | none => (s, -1)
    | some i => (s.setFd i (some id), i)

/-- `F_SETFL`. -/
def setfl (s : FdSys) (fd : Nat) (arg : BitVec 32) : FdSys × Int :=
  match s.getFile fd with
  | none => (s, -1)
  | some (id, f) =>
    (s.setFile id { f with flags := (f.flags &&& ~~~setflMask) ||| (arg &&& setflMask) }, 0)

/-- `CACT_FDCTL_FTRUNCATE`. -/
def ftruncate (s : FdSys) (fd len : Nat) (ok : Bool) : FdSys × Int :=
  match s.getFile fd with
  | none => (s, -9)
  | some (_, f) => if s.hasType f.node .file then s.truncateVfs f.node len ok else (s, -22)

/-! ### Commands on a directory -/

/-- The descriptor of a `CACT_DIRCTL_*` command has to be a directory. -/
def onDir (s : FdSys) (fd : Nat) (command : Nat → FdSys × Int) : FdSys × Int :=
  match s.getFile fd with
  | none => (s, -9)
  | some (_, f) => if s.hasType f.node .directory then command f.node else (s, -20)

/-- A command that needs write and search permission on the directory. -/
def guarded (s : FdSys) (dir : Nat) (change : FdSys × Int) : FdSys × Int :=
  if s.dirWx dir then change else (s, -13)

/-- A command that makes a name: it must not exist. -/
def ifAbsent (s : FdSys) (look : Lookup) (dir : Nat) (name : FileName) (change : FdSys × Int) :
    FdSys × Int :=
  if (look.finddir s.nodes dir name).isSome then (s, -17) else change

/-- A command on a name that must exist. -/
def ifPresent (s : FdSys) (look : Lookup) (dir : Nat) (name : FileName)
    (change : Nat → FdSys × Int) : FdSys × Int :=
  match look.finddir s.nodes dir name with
  | none => (s, -2)
  | some n => change n

def dirCreate (s : FdSys) (look : Lookup) (dir : Nat) (name : FileName) (fresh : Option Nat) :=
  s.ifAbsent look dir name (s.guarded dir (s.createVfs dir name fresh))

def dirMkdir (s : FdSys) (look : Lookup) (dir : Nat) (name : FileName) (fresh : Option Nat) :=
  s.ifAbsent look dir name (s.guarded dir (s.mkdirVfs dir name fresh))

def dirSymlink (s : FdSys) (look : Lookup) (dir : Nat) (name : FileName) (fresh : Option Nat) :=
  s.ifAbsent look dir name (s.guarded dir (s.vfsSymlink dir name fresh))

/-- `CACT_DIRCTL_MKNOD` is the one command that does not ask `_dir_wx`. -/
def dirMknod (s : FdSys) (look : Lookup) (dir : Nat) (name : FileName) (mode : BitVec 32)
    (fresh : Option Nat) :=
  s.ifAbsent look dir name (s.mknodVfs look dir name mode fresh)

/-- `CACT_DIRCTL_UNLINK` and `CACT_DIRCTL_RMDIR`. -/
def dirUnlink (s : FdSys) (look : Lookup) (dir : Nat) (name : FileName) (ok : Bool) :=
  s.ifPresent look dir name fun _ => s.guarded dir (s.dropVfs dir name ok)

def dirRename (s : FdSys) (look : Lookup) (dir : Nat) (oldname newname : FileName) (ok : Bool) :=
  s.ifPresent look dir oldname fun _ => s.guarded dir (s.renameVfs dir oldname newname ok)

def dirRenameat (s : FdSys) (look : Lookup) (dir : Nat) (oldname newdir newname : FileName)
    (ok : Bool) : FdSys × Int :=
  match look.resolvePath s.nodes newdir with
  | none => (s, -2)
  | some newd => s.guarded dir (s.guarded newd (s.renameAt look dir oldname newd newname ok))

def dirLink (s : FdSys) (look : Lookup) (dir : Nat) (target newname : FileName) (ok : Bool) :=
  s.ifPresent look dir target fun n =>
    s.ifAbsent look dir newname (s.guarded dir (s.vfsLink dir newname n ok))

def dirTruncate (s : FdSys) (look : Lookup) (dir : Nat) (name : FileName) (len : Nat) (ok : Bool) :=
  s.ifPresent look dir name fun n =>
    if s.hasType n .file then
      if s.checkPerm n permWrite then s.truncateVfs n len ok else (s, -13)
    else (s, -22)

def dirChmod (s : FdSys) (look : Lookup) (dir : Nat) (name : FileName) (mode : BitVec 32) :=
  s.ifPresent look dir name fun n =>
    if s.cred.euid ≠ 0 ∧ (s.nodes n).all (fun node => decide (s.cred.euid ≠ node.uid)) then (s, -1)
    else (s.setNode n fun node => { node with mode := mode &&& 0o777 }, 0)

def dirChown (s : FdSys) (look : Lookup) (dir : Nat) (name : FileName) (uid gid : Nat) :=
  if s.cred.euid ≠ 0 then (s, -1)
  else s.ifPresent look dir name fun n =>
    (s.setNode n fun node => { node with
      uid := if uid = 2 ^ 32 - 1 then node.uid else uid
      gid := if gid = 2 ^ 32 - 1 then node.gid else gid }, 0)

/-! ### Calls -/

inductive Call where
  | openPath (path : FileName) (flags : BitVec 32) (ans : OpenAnswers)
  | openat (fd : Nat) (name : FileName) (flags : BitVec 32) (ans : OpenAnswers)
  | read (fd size : Nat) (count : Option Nat)
  | write (fd : Nat) (bytes : List UInt8) (count : Option Nat)
  | close (fd : Nat)
  | dup (fd low : Nat)
  | setfl (fd : Nat) (arg : BitVec 32)
  | ftruncate (fd len : Nat) (ok : Bool)
  | truncate (fd : Nat) (name : FileName) (len : Nat) (ok : Bool)
  | create (fd : Nat) (name : FileName) (fresh : Option Nat)
  | mkdir (fd : Nat) (name : FileName) (fresh : Option Nat)
  | symlink (fd : Nat) (name : FileName) (fresh : Option Nat)
  | mknod (fd : Nat) (name : FileName) (mode : BitVec 32) (fresh : Option Nat)
  | unlink (fd : Nat) (name : FileName) (ok : Bool)
  | rename (fd : Nat) (oldname newname : FileName) (ok : Bool)
  | renameat (fd : Nat) (oldname newdir newname : FileName) (ok : Bool)
  | link (fd : Nat) (target newname : FileName) (ok : Bool)
  | chmod (fd : Nat) (name : FileName) (mode : BitVec 32)
  | chown (fd : Nat) (name : FileName) (uid gid : Nat)
deriving DecidableEq, Repr

/-- The state after a call and what it returned, for the calls that copy no bytes out. -/
def plain (r : FdSys × Int) : FdSys × Reply := (r.1, ⟨r.2, []⟩)

def exec (look : Lookup) (s : FdSys) : Call → FdSys × Reply
  | .openPath path flags ans => plain (s.sysOpen look path flags ans)
  | .openat fd name flags ans => plain (s.onDir fd fun dir => s.dirctlOpenat look dir name flags ans)
  | .read fd size count => s.sysRead fd size count
  | .write fd bytes count => plain (s.sysWrite fd bytes count)
  | .close fd => plain (s.sysClose fd)
  | .dup fd low => plain (s.sysDup fd low)
  | .setfl fd arg => plain (s.setfl fd arg)
  | .ftruncate fd len ok => plain (s.ftruncate fd len ok)
  | .truncate fd name len ok => plain (s.onDir fd fun dir => s.dirTruncate look dir name len ok)
  | .create fd name fresh => plain (s.onDir fd fun dir => s.dirCreate look dir name fresh)
  | .mkdir fd name fresh => plain (s.onDir fd fun dir => s.dirMkdir look dir name fresh)
  | .symlink fd name fresh => plain (s.onDir fd fun dir => s.dirSymlink look dir name fresh)
  | .mknod fd name mode fresh => plain (s.onDir fd fun dir => s.dirMknod look dir name mode fresh)
  | .unlink fd name ok => plain (s.onDir fd fun dir => s.dirUnlink look dir name ok)
  | .rename fd oldname newname ok =>
    plain (s.onDir fd fun dir => s.dirRename look dir oldname newname ok)
  | .renameat fd oldname newdir newname ok =>
    plain (s.onDir fd fun dir => s.dirRenameat look dir oldname newdir newname ok)
  | .link fd target newname ok => plain (s.onDir fd fun dir => s.dirLink look dir target newname ok)
  | .chmod fd name mode => plain (s.onDir fd fun dir => s.dirChmod look dir name mode)
  | .chown fd name uid gid => plain (s.onDir fd fun dir => s.dirChown look dir name uid gid)

/-- One call. -/
def step (look : Lookup) (s : FdSys) (c : Call) : Option FdSys := some (s.exec look c).1

end FdSys

end CactKernel
