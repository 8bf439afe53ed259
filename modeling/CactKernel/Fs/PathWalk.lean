/-
CactKernel/Fs/PathWalk.lean

Path resolution: `vfs_resolve_path`, `canon_abs` and `vfs_make_abs`
(`fs/rust_vfs/src/file.rs`) and `walk_path_follow` (`vfs.rs`).

The mounted filesystems are a finite tree (`PathTree`): the entries of the
directories, the mounts that lie over them (symbolic links among them), and for
every directory the one it is in and how deep it lies.  `walkOne` is the answer
of `walk_one`, mounts first.

Strings are lists of bytes without the terminating zero.  The loop of the walker
takes one segment after the other, so it runs over the pieces of the path: a
segment, and what `p` points at behind it, which a symbolic link needs.  The
directory stack has its top in front.  The links that may still be followed
bound the recursion; the two buffers of the expansions hold one string each.
-/
import CactKernel.Fs.Dcache
import CactKernel.Lib.Pieces

namespace CactKernel

open Pieces

/-- "/" -/
def slash : UInt8 := 47

inductive PathKind where
  | directory
  | symlink (target : List UInt8)
  | other
deriving DecidableEq, Repr

structure PathTree where
  root : Nat
  kind : Nat → PathKind
  dirents : List Dirent
  mounts : List Dirent
  /-- The directory a directory is in; the root is in itself. -/
  parent : Nat → Nat
  depth : Nat → Nat
  rootDir : kind root = .directory
  rootParent : parent root = root
  rootDepth : depth root = 0
  placed : ∀ e ∈ dirents ++ mounts, kind e.target = .directory →
    parent e.target = e.dir ∧ depth e.target = depth e.dir + 1

/-- `cwd` of a process: an absolute path in a buffer of 256 bytes. -/
structure Cwd where
  bytes : List UInt8
  absolute : bytes.head? = some slash
  fits : bytes.length ≤ 255

namespace PathTree

/-- `MAX_PATH_DEPTH`. -/
def maxPathDepth : Nat := 64

variable (T : PathTree)

def isDir (n : Nat) : Bool := T.kind n == .directory

def walkOne (dir : Nat) (name : FileName) : Option Nat :=
  if T.isDir dir then
    ((T.mounts.find? (Tmpfs.isEntry dir name)).or (T.dirents.find? (Tmpfs.isEntry dir name))).map
      (·.target)
  else none

end PathTree

end CactKernel
