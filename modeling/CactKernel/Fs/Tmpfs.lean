/-
CactKernel/Fs/Tmpfs.lean

The RAM filesystem (`fs/vfs/tmpfs/tmpfs.c`): directories, names and inodes.

An inode is the id of its allocation.  The directory entries of all directories
are kept in one list, newest first; the `children` list of a directory is the
sublist of the entries that stand in it.  Freeing an inode drops its list of
entries with it.  The contents of files are those of `Fs/AddrSpace`, and the
copy of the name in the vnode and the inode number are read by no function here.

`opens` counts the handles that `_tmp_open` gave out and `_tmp_close` has not
taken back, and `removals` records what each successful `_tmp_delete` removed.
An operation that returns -1 leaves the tree as it was.  Where the source
allocates, the operation carries what `kmalloc` answered: for an inode any id
that is not in use, so that freed ids are used again.
-/
import CactKernel.Lib.NameTree
import CactKernel.Lib.Run

namespace CactKernel

open Function NameTree

/-- A name without its terminating zero. -/
abbrev FileName := List UInt8

/-- `tmpfs_dirent`, with the directory whose list it is in. -/
abbrev Dirent := Entry Nat FileName

/-- `strlcpy` into a field of `TMPFS_NAME_LEN` bytes. -/
def storedName (name : FileName) : FileName := name.take 127

structure TmpfsNode where
  /-- `type == VFS_DIRECTORY`. -/
  isDir : Bool
  nlink : Nat
  /-- `vnode.refcount`. -/
  refcount : Nat
deriving DecidableEq, Repr

/-- What a `_tmp_delete` removed the name of. -/
structure Removal where
  inode : Nat
  isDir : Bool
  empty : Bool
deriving DecidableEq, Repr

structure Tmpfs where
  node : Nat → Option TmpfsNode
  dirents : List Dirent
  opens : Nat → Nat
  removals : List Removal

namespace Tmpfs

/-- `tmpfs_root_node`. -/
def root : Nat := 0

/-- After `_root_init`. -/
def mounted : Tmpfs where
  node n := if n = root then some ⟨true, 0, 1⟩ else none
  dirents := []
  opens _ := 0
  removals := []

variable (t : Tmpfs)

/-- A live inode of type `VFS_DIRECTORY`. -/
def isDir (n : Nat) : Bool := (t.node n).any (·.isDir)

/-- `children` is null. -/
def isEmpty (n : Nat) : Bool := t.dirents.all fun e => decide (e.dir ≠ n)

/-- The number of entries that name an inode. -/
def linkCount (n : Nat) : Nat := links t.dirents n

/-- The entry `name` of `dir`. -/
def isEntry (dir : Nat) (name : FileName) (e : Dirent) : Bool :=
  decide (e.dir = dir ∧ e.name = name)

def findDirent (dir : Nat) (name : FileName) : Option Dirent :=
  if t.isDir dir then t.dirents.find? (isEntry dir name) else none

/-- An assignment to fields of an inode. -/
def setNode (n : Nat) (f : TmpfsNode → TmpfsNode) : Tmpfs :=
  { t with node := update t.node n ((t.node n).map f) }

/-- `_free_inode`: the root is never freed. -/
def freeInode (n : Nat) : Tmpfs :=
  if n = root then t
  else { t with
    node := update t.node n none
    dirents := t.dirents.filter fun e => decide (e.dir ≠ n) }

/-- `__sync_fetch_and_sub(&refcount, 1) == 1` and what follows from it. -/
def dropRef (n : Nat) : Tmpfs :=
  let t' := t.setNode n fun nd => { nd with refcount := nd.refcount - 1 }
  if (t.node n).any (·.refcount == 1) then t'.freeInode n else t'

/-- `mem` says whether the entry could be allocated.  The name is compared in
full and stored truncated. -/
def addDirent (dir : Nat) (name : FileName) (inode : Nat) (mem : Bool) : Option Tmpfs :=
  if (t.findDirent dir name).isSome then none
  else if mem then
    some { t.setNode inode fun nd => { nd with nlink := nd.nlink + 1, refcount := nd.refcount + 1 } with
      dirents := ⟨dir, storedName name, inode⟩ :: t.dirents }
  else none

/-- `_alloc_inode` and `_init_vnode`. -/
def allocInode (n : Nat) (isDir : Bool) : Tmpfs :=
  { t with node := update t.node n (some ⟨isDir, 0, 0⟩) }

/-- `_tmp_create` and `_tmp_mkdir`; `inode` is the allocation of the inode.  If the
name cannot be added the inode is freed again. -/
def makeNode (isDir : Bool) (dir : Nat) (name : FileName) (inode : Option Nat) (mem : Bool) :
    Option Tmpfs :=
  if t.isDir dir then
    match inode with
    | none => none
    | some n => (t.allocInode n isDir).addDirent dir name n mem
  else none

def tmpCreate := t.makeNode false

def tmpMkdir := t.makeNode true

/-- `_tmp_delete`, whatever the type of the inode. -/
def tmpDelete (dir : Nat) (name : FileName) : Option Tmpfs :=
  (t.findDirent dir name).map fun e =>
    let t' := t.setNode e.target fun nd => { nd with nlink := nd.nlink - 1 }
    { t' with
      dirents := t.dirents.eraseP (isEntry dir name)
      removals := ⟨e.target, t.isDir e.target, t.isEmpty e.target⟩ :: t.removals }.dropRef e.target

def tmpRmdir (dir : Nat) (name : FileName) : Option Tmpfs :=
  match t.findDirent dir name with
  | none => none
  | some e => if t.isDir e.target && t.isEmpty e.target then t.tmpDelete dir name else none

def tmpRename (dir : Nat) (oldname newname : FileName) : Option Tmpfs :=
  match t.findDirent dir oldname with
  | none => none
  | some e =>
    if (t.findDirent dir newname).isSome then none
    else some { t with
      dirents := t.dirents.replaceF fun d =>
        if isEntry dir oldname d then some { e with name := storedName newname } else none }

/-- The reference of the inode moves with the entry. -/
def tmpRename2 (olddir : Nat) (oldname : FileName) (newdir : Nat) (newname : FileName)
    (mem : Bool) : Option Tmpfs :=
  if t.isDir olddir && t.isDir newdir then
    match t.findDirent olddir oldname with
    | none => none
    | some e =>
      if (t.findDirent newdir newname).isSome then none
      else if mem then
        -- the old entry is dropped, the new one counted
        some { t.setNode e.target fun nd => { nd with nlink := nd.nlink - 1 + 1 } with
          dirents := ⟨newdir, storedName newname, e.target⟩ ::
            t.dirents.eraseP (isEntry olddir oldname) }
      else none
  else none

def tmpLink (dir : Nat) (name : FileName) (target : Nat) (mem : Bool) : Option Tmpfs :=
  if t.isDir dir && !t.isDir target then t.addDirent dir name target mem else none

def tmpOpen (n : Nat) : Tmpfs :=
  { t.setNode n fun nd => { nd with refcount := nd.refcount + 1 } with
    opens := update t.opens n (t.opens n + 1) }

def tmpClose (n : Nat) : Tmpfs :=
  let t' := { t with opens := update t.opens n (t.opens n - 1) }
  if (t.node n).any (·.refcount == 0) then t' else t'.dropRef n

/-- The calls that reach the filesystem.  `delete` is what `vfs_unlink` calls. -/
inductive Op where
  | create (dir : Nat) (name : FileName) (inode : Option Nat) (mem : Bool)
  | mkdir (dir : Nat) (name : FileName) (inode : Option Nat) (mem : Bool)
  | delete (dir : Nat) (name : FileName)
  | rmdir (dir : Nat) (name : FileName)
  | rename (dir : Nat) (oldname newname : FileName)
  | rename2 (olddir : Nat) (oldname : FileName) (newdir : Nat) (newname : FileName) (mem : Bool)
  | link (dir : Nat) (name : FileName) (target : Nat) (mem : Bool)
  | openNode (n : Nat)
  | closeNode (n : Nat)
deriving DecidableEq, Repr

/-- The operation can be made: its nodes are live, memory that is handed out is
not in use, and a handle that is closed is open. -/
def possible : Op → Bool
  | .create dir _ inode _ | .mkdir dir _ inode _ =>
    (t.node dir).isSome && inode.all fun n => (t.node n).isNone
  | .delete dir _ | .rmdir dir _ | .rename dir _ _ => (t.node dir).isSome
  | .rename2 olddir _ newdir _ _ => (t.node olddir).isSome && (t.node newdir).isSome
  | .link dir _ target _ => (t.node dir).isSome && (t.node target).isSome
  | .openNode n => (t.node n).isSome
  | .closeNode n => decide (0 < t.opens n)

/-- The result of an operation, `none` where it returns -1. -/
def apply : Op → Option Tmpfs
  | .create dir name inode mem => t.tmpCreate dir name inode mem
  | .mkdir dir name inode mem => t.tmpMkdir dir name inode mem
  | .delete dir name => t.tmpDelete dir name
  | .rmdir dir name => t.tmpRmdir dir name
  | .rename dir oldname newname => t.tmpRename dir oldname newname
  | .rename2 olddir oldname newdir newname mem => t.tmpRename2 olddir oldname newdir newname mem
  | .link dir name target mem => t.tmpLink dir name target mem
  | .openNode n => some (t.tmpOpen n)
  | .closeNode n => some (t.tmpClose n)

/-- One call; one that fails changes nothing. -/
def step (op : Op) : Option Tmpfs :=
  if t.possible op then some ((t.apply op).getD t) else none

end Tmpfs

end CactKernel
