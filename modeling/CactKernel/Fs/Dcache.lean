/-
CactKernel/Fs/Dcache.lean

Name lookup in the VFS with its dentry cache (`fs/rust_vfs/src/dcache.rs`,
`walk_one`, `finddir_vfs` and the name operations of `vfs.rs` and `ops.rs`).

A node is its address; 0 is the null pointer.  The filesystems together are one
list of directory entries, newest first, and the walk of a filesystem is the
first entry of the directory with that name.  What a filesystem is free to
decide comes with the event: the address of a new node (any that is free, so
addresses are used again), a refusal (`none`, or `mem = false`), and whether
something other than a name still keeps a removed node allocated (`held`).  Such a
node goes with its last descriptor (`close`), and nobody tells the cache.

The filesystems below a root that was marked with `vfs_set_nocache` change their
names on their own (`appear`, `vanish`, `reclaim`); their nodes are `dynamic`.
`reached` are the nodes that a lookup has returned since they were allocated,
and `roots` those that were made outside any directory: callers use no others.
-/
import CactKernel.Fs.Tmpfs

namespace CactKernel

open Function

/-! ### The cache -/

/-- An entry of `ENTRIES` in use, with the bucket whose chain it is in. -/
structure DcacheEntry where
  bucket : Nat
  parent : Nat
  name : FileName
  child : Nat
deriving DecidableEq, Repr

structure Dcache where
  /-- The chains of all buckets, newest entry first. -/
  entries : List DcacheEntry
  nocache : List Nat
  /-- `PARENTS`: a directory and the directory it was reached from. -/
  parents : List (Nat × Nat)
deriving DecidableEq, Repr

namespace Dcache

def dcacheMax : Nat := 512

def nocacheMax : Nat := 256

def parentMax : Nat := 256

/-- djb2. -/
def nameHash (name : FileName) : UInt32 := name.foldl (fun h c => h * 33 + c.toUInt32) 5381

def bucketOf (parent : Nat) (name : FileName) : Nat :=
  ((UInt32.ofNat parent ^^^ nameHash name) &&& 127).toNat

/-- The name as an entry stores it. -/
def copyName (name : FileName) : FileName := name.take 127

/-- After `reset`. -/
def empty : Dcache := ⟨[], [], []⟩

variable (d : Dcache)

/-- The test made along the chain of the bucket of `(parent, name)`. -/
def isFor (parent : Nat) (name : FileName) (e : DcacheEntry) : Bool :=
  decide (e.bucket = bucketOf parent name ∧ e.parent = parent ∧ e.name = name)

def lookup (parent : Nat) (name : FileName) : Option Nat :=
  (d.entries.find? (isFor parent name)).map (·.child)

def invalidate (parent : Nat) (name : FileName) : Dcache :=
  { d with entries := d.entries.eraseP (isFor parent name) }

def isNocache (node : Nat) : Bool := decide (node = 0 ∨ node ∈ d.nocache)

/-- A full registry drops the node. -/
def setNocache (node : Nat) : Dcache :=
  if node ∈ d.nocache then d
  else if d.nocache.length < nocacheMax then { d with nocache := d.nocache ++ [node] }
  else d

def insert (parent : Nat) (name : FileName) (child : Nat) : Dcache :=
  if d.isNocache parent then d.setNocache child
  else
    let d' := d.invalidate parent name
    if d'.entries.length < dcacheMax then
      { d' with entries := ⟨bucketOf parent name, parent, copyName name, child⟩ :: d'.entries }
    else d'

/-- `parent_lookup`. -/
def parentOf (node : Nat) : Option Nat := (d.parents.find? (·.1 = node)).map (·.2)

/-- `parent_insert`: overwrite, else append while there is room. -/
def parentInsert (child parent : Nat) : Dcache :=
  if (d.parentOf child).isSome then
    { d with parents := d.parents.replaceF fun p =>
        if p.1 = child then some (child, parent) else none }
  else if d.parents.length < parentMax then { d with parents := d.parents ++ [(child, parent)] }
  else d

def setParent (child parent : Nat) : Dcache :=
  if child = parent then d else d.parentInsert child parent

end Dcache

/-! ### Nodes and names -/

inductive NodeKind where
  | file
  | directory
  | symlink
deriving DecidableEq, Repr

structure NameNode where
  kind : NodeKind
  /-- Below a root marked with `vfs_set_nocache`. -/
  dynamic : Bool
deriving DecidableEq, Repr

structure NameSys where
  node : Nat → Option NameNode
  dirents : List Dirent
  /-- `MOUNT_TABLE`: host, name, target. -/
  mounts : List Dirent
  cache : Dcache
  roots : List Nat
  reached : List Nat

namespace NameSys

def mountMax : Nat := 32

/-- "." -/
def dot : FileName := [46]

/-- ".." -/
def dotdot : FileName := [46, 46]

/-- After `vfs_init`. -/
def init : NameSys := ⟨fun _ => none, [], [], .empty, [], []⟩

variable (s : NameSys)

def isDir (n : Nat) : Bool := (s.node n).any (·.kind == .directory)

def isDynamic (n : Nat) : Bool := (s.node n).any (·.dynamic)

/-- A caller can have this node. -/
def known (n : Nat) : Bool := decide (n ∈ s.roots ∨ n ∈ s.reached)

theorem isEntry_iff {dir : Nat} {name : FileName} {e : Dirent} :
    Tmpfs.isEntry dir name e = true ↔ e.dir = dir ∧ e.name = name := decide_eq_true_iff

/-- The `walk` of the filesystem `dir` is in. -/
def fsWalk (dir : Nat) (name : FileName) : Option Nat :=
  (s.dirents.find? (Tmpfs.isEntry dir name)).map (·.target)

def lookupMount (host : Nat) (name : FileName) : Option Nat :=
  (s.mounts.find? (Tmpfs.isEntry host name)).map (·.target)

/-- A change of the cache only. -/
def mapCache (f : Dcache → Dcache) : NameSys := { s with cache := f s.cache }

def reach (n : Nat) : NameSys := { s with reached := n :: s.reached }

/-- `set_parent` where the child is a directory. -/
def noteParent (child dir : Nat) : NameSys :=
  if s.isDir child then s.mapCache (·.setParent child dir) else s

/-- Mount table, cache, filesystem. -/
def walkOne (dir : Nat) (name : FileName) : Option Nat × NameSys :=
  if s.isDir dir then
    match s.lookupMount dir name with
    | some m => (some m, (s.noteParent m dir).reach m)
    | none =>
      match s.cache.lookup dir name with
      -- a hit does not ask the filesystem
      | some c => (some c, s.reach c)
      | none =>
        match s.fsWalk dir name with
        | some c => (some c, ((s.noteParent c dir).mapCache (·.insert dir name c)).reach c)
        | none => (none, s)
  else (none, s)

def finddirVfs (dir : Nat) (name : FileName) : Option Nat × NameSys :=
  if name = dot then (some dir, s)
  else if name = dotdot then (some ((s.cache.parentOf dir).getD dir), s)
  else s.walkOne dir name

/-! ### The filesystems -/

/-- A directory without entries. -/
def isEmpty (n : Nat) : Bool := s.dirents.all fun e => decide (e.dir ≠ n)

def isNamed (n : Nat) : Bool := s.dirents.any fun e => decide (e.target = n)

/-- A node comes into being at a free address, and with no entries. -/
def alloc (n : Nat) (nd : NameNode) : NameSys :=
  { s with
    node := update s.node n (some nd)
    dirents := s.dirents.filter fun e => decide (e.dir ≠ n) }

/-- The memory of a node is given back, its list of entries with it. -/
def free (n : Nat) : NameSys :=
  { s with
    node := update s.node n none
    dirents := s.dirents.filter fun e => decide (e.dir ≠ n)
    reached := s.reached.filter fun m => decide (m ≠ n) }

def addName (dir : Nat) (name : FileName) (n : Nat) : NameSys :=
  { s with dirents := ⟨dir, storedName name, n⟩ :: s.dirents }

def removeName (dir : Nat) (name : FileName) : NameSys :=
  { s with dirents := s.dirents.eraseP (Tmpfs.isEntry dir name) }

/-- The `create` and `mkdir` of a filesystem, with the address of the new node. -/
def fsMake (kind : NodeKind) (dir : Nat) (name : FileName) (n : Nat) : Option NameSys :=
  if (s.fsWalk dir name).isSome then none
  else some ((s.alloc n ⟨kind, s.isDynamic dir⟩).addName dir name n)

/-- The `unlink` or `delete` of a filesystem: the node is freed with its last name
unless it is held, also when it is a directory with entries. -/
def fsDelete (dir : Nat) (name : FileName) (held : Bool) : Option NameSys :=
  (s.fsWalk dir name).map fun n =>
    let s' := s.removeName dir name
    if s'.isNamed n || held then s' else s'.free n

def fsRmdir (dir : Nat) (name : FileName) (held : Bool) : Option NameSys :=
  match s.fsWalk dir name with
  | none => none
  | some n => if s.isDir n && s.isEmpty n then s.fsDelete dir name held else none

def fsRename (dir : Nat) (oldname newname : FileName) : Option NameSys :=
  match s.fsWalk dir oldname with
  | none => none
  | some n =>
    if (s.fsWalk dir newname).isSome then none
    else some { s with
      dirents := s.dirents.replaceF fun e =>
        if Tmpfs.isEntry dir oldname e then some ⟨dir, storedName newname, n⟩ else none }

/-- `rename2`, between directories of one filesystem. -/
def fsRename2 (olddir : Nat) (oldname : FileName) (newdir : Nat) (newname : FileName)
    (mem : Bool) : Option NameSys :=
  match s.fsWalk olddir oldname with
  | none => none
  | some n =>
    if s.isDir newdir && mem && s.isDynamic olddir == s.isDynamic newdir &&
        (s.fsWalk newdir newname).isNone then
      some ((s.removeName olddir oldname).addName newdir newname n)
    else none

/-- A filesystem links only nodes of its own, and no directories. -/
def fsLink (dir : Nat) (name : FileName) (target : Nat) (mem : Bool) : Option NameSys :=
  if (s.node target).isSome && !s.isDir target && decide (target ∉ s.roots) &&
      s.isDynamic dir == s.isDynamic target && mem && (s.fsWalk dir name).isNone then
    some (s.addName dir name target)
  else none

/-! ### The operations of the VFS -/

/-- What the callers of a filesystem operation do with its answer: drop the cached
name if it succeeded. -/
def invalidated (r : Option NameSys) (dir : Nat) (name : FileName) : Option NameSys :=
  r.map (·.mapCache (·.invalidate dir name))

/-- `create_vfs` and `mkdir_vfs`. -/
def makeVfs (kind : NodeKind) (dir : Nat) (name : FileName) (inode : Option Nat) :
    Option NameSys :=
  if s.isDir dir then inode.bind fun n => invalidated (s.fsMake kind dir name n) dir name
  else none

def createVfs := s.makeVfs .file

def mkdirVfs := s.makeVfs .directory

def rmdirVfs (dir : Nat) (name : FileName) (held : Bool) : Option NameSys :=
  if s.isDir dir then invalidated (s.fsRmdir dir name held) dir name else none

def renameVfs (dir : Nat) (oldname newname : FileName) : Option NameSys :=
  if s.isDir dir then
    invalidated (invalidated (s.fsRename dir oldname newname) dir oldname) dir newname
  else none

def vfsLink (dir : Nat) (name : FileName) (target : Nat) (mem : Bool) : Option NameSys :=
  if s.isDir dir then invalidated (s.fsLink dir name target mem) dir name else none

/-- The name is compared in full and stored truncated. -/
def vfsMount (host : Nat) (name : FileName) (target : Nat) : Option NameSys :=
  if s.mounts.length < mountMax ∧ s.lookupMount host name = none then
    some { s with mounts := s.mounts ++ [⟨host, storedName name, target⟩] }
  else none

/-- The last entry of the table takes the free place. -/
def vfsUmount (host : Nat) (name : FileName) : Option NameSys :=
  match s.mounts.findIdx? (Tmpfs.isEntry host name), s.mounts.getLast? with
  | some i, some last => some { s with mounts := (s.mounts.set i last).dropLast }
  | _, _ => none

/-- A symbolic link that is stored as a mount is removed by unmounting it; the name
below any other mount is removed from the filesystem. -/
def vfsUnlink (dir : Nat) (name : FileName) (held : Bool) : Option NameSys :=
  if s.isDir dir then
    if (s.lookupMount dir name).any fun m => (s.node m).any (·.kind == .symlink) then
      s.vfsUmount dir name
    else invalidated (s.fsDelete dir name held) dir name
  else none

/-- A move by a new name and the removal of the old one, which is taken back if the
old name cannot be removed. -/
def relink (olddir : Nat) (oldname : FileName) (newdir : Nat) (newname : FileName)
    (node : Nat) (mem held : Bool) : NameSys :=
  match s.vfsLink newdir newname node mem with
  | none => s
  | some s₁ =>
    match s₁.vfsUnlink olddir oldname held with
    | some s₂ => s₂
    | none => (s₁.vfsUnlink newdir newname held).getD s₁

/-- `rename2` says whether the filesystem has the operation.  The two lookups leave
their traces in the cache also when the move fails. -/
def vfsRenameAt (rename2 : Bool) (olddir : Nat) (oldname : FileName) (newdir : Nat)
    (newname : FileName) (mem held : Bool) : NameSys :=
  if olddir = newdir then (s.renameVfs olddir oldname newname).getD s
  else
    match s.finddirVfs olddir oldname with
    | (none, s₁) => s₁
    | (some node, s₁) =>
      match s₁.finddirVfs newdir newname with
      | (some _, s₂) => s₂
      | (none, s₂) =>
        -- the parent on record is left as it was
        if rename2 then
          (invalidated (invalidated (s₂.fsRename2 olddir oldname newdir newname mem)
            olddir oldname) newdir newname).getD s₂
        else if s₂.isDir node then s₂
        else s₂.relink olddir oldname newdir newname node mem held

/-! ### Runs -/

inductive Event where
  /-- A node outside any directory: the root of a filesystem, with its
  `vfs_set_nocache` if it is a dynamic one, or a symbolic link to be mounted. -/
  | root (n : Nat) (kind : NodeKind) (dynamic : Bool)
  | find (dir : Nat) (name : FileName)
  | create (dir : Nat) (name : FileName) (inode : Option Nat)
  | mkdir (dir : Nat) (name : FileName) (inode : Option Nat)
  | rmdir (dir : Nat) (name : FileName) (held : Bool)
  | unlink (dir : Nat) (name : FileName) (held : Bool)
  | link (dir : Nat) (name : FileName) (target : Nat) (mem : Bool)
  | rename (rename2 : Bool) (olddir : Nat) (oldname : FileName) (newdir : Nat)
      (newname : FileName) (mem held : Bool)
  | mount (host : Nat) (name : FileName) (target : Nat)
  | umount (host : Nat) (name : FileName)
  /-- The last descriptor of a node without names is closed. -/
  | close (n : Nat)
  /-- A dynamic filesystem makes a name on its own. -/
  | appear (kind : NodeKind) (dir : Nat) (name : FileName) (n : Nat)
  | vanish (dir : Nat) (name : FileName)
  /-- It frees a node it has no name for any more. -/
  | reclaim (n : Nat)
deriving DecidableEq, Repr

/-- Memory handed out is not in use and not null. -/
def isFree (n : Nat) : Bool := decide (n ≠ 0) && (s.node n).isNone

/-- The event can happen: callers have the nodes they name, and only a dynamic
filesystem changes on its own. -/
def possible : Event → Bool
  | .root n _ _ => s.isFree n
  | .find dir _ | .rmdir dir _ _ | .unlink dir _ _ | .umount dir _ => s.known dir
  | .create dir _ inode | .mkdir dir _ inode => s.known dir && inode.all s.isFree
  | .link dir _ target _ => s.known dir && s.known target
  | .rename _ olddir _ newdir _ _ _ => s.known olddir && s.known newdir
  | .mount host _ target => s.known host && s.known target
  | .close n => (s.node n).isSome && !s.isDynamic n && !s.isNamed n && decide (n ∉ s.roots)
  | .appear _ dir _ n => s.isDir dir && s.isDynamic dir && s.isFree n
  | .vanish dir _ => s.isDynamic dir
  | .reclaim n => s.isDynamic n && !s.isNamed n && decide (n ∉ s.roots)

/-- What the event does; one that fails changes nothing but the cache. -/
def apply : Event → NameSys
  | .root n kind dynamic =>
    let s' := { s.alloc n ⟨kind, dynamic⟩ with roots := n :: s.roots }
    if dynamic then s'.mapCache (·.setNocache n) else s'
  | .find dir name => (s.finddirVfs dir name).2
  | .create dir name inode => (s.createVfs dir name inode).getD s
  | .mkdir dir name inode => (s.mkdirVfs dir name inode).getD s
  | .rmdir dir name held => (s.rmdirVfs dir name held).getD s
  | .unlink dir name held => (s.vfsUnlink dir name held).getD s
  | .link dir name target mem => (s.vfsLink dir name target mem).getD s
  | .rename rename2 olddir oldname newdir newname mem held =>
    s.vfsRenameAt rename2 olddir oldname newdir newname mem held
  | .mount host name target => (s.vfsMount host name target).getD s
  | .umount host name => (s.vfsUmount host name).getD s
  | .appear kind dir name n => (s.fsMake kind dir name n).getD s
  | .vanish dir name => s.removeName dir name
  | .close n | .reclaim n => s.free n

def step (e : Event) : Option NameSys := if s.possible e then some (s.apply e) else none

end NameSys

end CactKernel
