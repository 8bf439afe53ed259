/-
CactKernel/Fs/DcacheLaw.lean

The dentry cache is transparent.

`Transparent` is the property: a lookup answers what the mount table or the walk
of the filesystem would answer (`walk`), and the `..` of a directory that a
lookup has returned is the directory it is in (`parent`).

The cache is coherent because every operation that changes what a name means
drops that name.  Between the two it is coherent but for that name, so the
invariant `Inv stale` carries the names that may be out of date, and
`Inv.invalidate` takes one of them away.

The source breaks the property when an `unlink`, or the last `close` after one, frees
a directory that still has entries (their cached names come back with the next
directory at that address),
when a directory is moved to another directory (its recorded parent stays),
when a directory is mounted in several places or on a second host, when the
registry of uncacheable nodes or the table of parents is full, and for names of
more than 127 bytes, which the cache and the filesystem truncate.  `Clean`
excludes them.
-/
import CactKernel.Fs.Dcache

namespace CactKernel

open Function Runs

/-! ### Lists -/

section Lists

variable {α : Type*} {p q : α → Bool} {f : α → Option α} {l : List α} {b : α}

theorem find?_eraseP_of_disjoint (h : ∀ a, q a = true → p a = false) (l : List α) :
    (l.eraseP q).find? p = l.find? p := by
  rcases List.exists_or_eq_self_of_eraseP q l with heq | ⟨a, l₁, l₂, -, ha, hl, heq⟩ <;> rw [heq]
  rw [hl, List.find?_append, List.find?_append, List.find?_cons, h a ha]

theorem find?_replaceF_of_disjoint (h : ∀ a b, f a = some b → p a = false ∧ p b = false)
    (l : List α) : (l.replaceF f).find? p = l.find? p := by
  rcases List.exists_or_eq_self_of_replaceF f l with heq | ⟨a, b, l₁, l₂, -, hfa, rfl, heq⟩ <;> rw [heq]
  obtain ⟨ha, hb⟩ := h a b hfa
  simp only [List.find?_append, List.find?_cons, ha, hb]

/-- Replacing the first element that is looked for by one that is looked for. -/
theorem find?_replaceF_self (hb : p b = true) (hl : (l.find? p).isSome) :
    (l.replaceF fun a => if p a then some b else none).find? p = some b := by
  induction l with
  | nil => cases hl
  | cons a l ih =>
    rw [List.replaceF]
    cases ha : p a
    · rw [List.find?_cons, ha] at hl
      simp only [Bool.false_eq_true, if_false, List.find?_cons, ha]
      exact ih hl
    · simp only [if_true, List.find?_cons, hb]

theorem mem_replaceF (h : b ∈ l.replaceF f) : b ∈ l ∨ ∃ a ∈ l, f a = some b := by
  rcases List.exists_or_eq_self_of_replaceF f l with heq | ⟨a, a', l₁, l₂, -, hfa, rfl, heq⟩ <;> rw [heq] at h
  · exact .inl h
  · rcases List.mem_append.mp h with h | h
    · exact .inl (List.mem_append_left _ h)
    · rcases List.mem_cons.mp h with rfl | h
      · exact .inr ⟨a, List.mem_append_right _ List.mem_cons_self, hfa⟩
      · exact .inl (List.mem_append_right _ (List.mem_cons_of_mem _ h))

/-- Where at most one element passes the test, none is left after removing it. -/
theorem eraseP_gone (h : l.Pairwise fun a b => ¬ (q a = true ∧ q b = true)) {a : α}
    (ha : a ∈ l.eraseP q) : q a = false := by
  induction l with
  | nil => cases ha
  | cons b l ih =>
    obtain ⟨hb, hl⟩ := List.pairwise_cons.mp h
    cases hqb : q b
    · rw [List.eraseP_cons_of_neg (by simp [hqb])] at ha
      rcases List.mem_cons.mp ha with rfl | ha
      · exact hqb
      · exact ih hl ha
    · rw [List.eraseP_cons_of_pos hqb] at ha
      have hne := hb a ha
      cases hqa : q a
      · rfl
      · exact absurd ⟨hqb, hqa⟩ hne

end Lists

/-! ### The tables of the cache -/

namespace Dcache

variable {d : Dcache} {parent child n m : Nat} {name : FileName} {e : DcacheEntry}

/-- The entries are in their buckets, and no name is cached twice. -/
structure Keyed (d : Dcache) : Prop where
  bucket : ∀ e ∈ d.entries, e.bucket = bucketOf e.parent e.name
  once : d.entries.Pairwise fun e f => ¬ (e.parent = f.parent ∧ e.name = f.name)

theorem isFor_iff :
    isFor parent name e = true ↔
      e.bucket = bucketOf parent name ∧ e.parent = parent ∧ e.name = name := decide_eq_true_iff

theorem lookup_some (h : d.lookup parent name = some child) :
    ∃ e ∈ d.entries, e.parent = parent ∧ e.name = name ∧ e.child = child := by
  obtain ⟨e, hfind, hchild⟩ := Option.map_eq_some_iff.mp h
  obtain ⟨-, hparent, hname⟩ := isFor_iff.mp (List.find?_some hfind)
  exact ⟨e, List.mem_of_find?_eq_some hfind, hparent, hname, hchild⟩

theorem mem_invalidate
    (h : e ∈ (d.invalidate parent name).entries) : e ∈ d.entries := List.mem_of_mem_eraseP h

theorem Keyed.invalidate (h : d.Keyed) (parent : Nat) (name : FileName) :
    (d.invalidate parent name).Keyed where
  bucket e he := h.bucket e (mem_invalidate he)
  once := h.once.sublist List.eraseP_sublist

/-- The name is gone: it was in its bucket, and only once. -/
theorem Keyed.gone (h : d.Keyed)
    (he : e ∈ (d.invalidate parent name).entries) : ¬ (e.parent = parent ∧ e.name = name) := by
  rintro ⟨rfl, rfl⟩
  have hone : d.entries.Pairwise fun f g =>
      ¬ (isFor e.parent e.name f = true ∧ isFor e.parent e.name g = true) :=
    h.once.imp fun hne ⟨hf, hg⟩ => by
      obtain ⟨-, hfp, hfn⟩ := isFor_iff.mp hf
      obtain ⟨-, hgp, hgn⟩ := isFor_iff.mp hg
      exact hne ⟨hfp.trans hgp.symm, hfn.trans hgn.symm⟩
  have hfor := eraseP_gone hone he
  rw [isFor_iff.mpr ⟨h.bucket e (mem_invalidate he), rfl, rfl⟩] at hfor
  cases hfor

theorem Keyed.congr {d' : Dcache} (h : d.Keyed) (he : d'.entries = d.entries) : d'.Keyed :=
  ⟨he ▸ h.bucket, he ▸ h.once⟩

@[simp] theorem setNocache_entries : (d.setNocache n).entries = d.entries := by
  unfold setNocache
  split_ifs <;> rfl

@[simp] theorem setNocache_parents (n : Nat) : (d.setNocache n).parents = d.parents := by
  unfold setNocache
  split_ifs <;> rfl

theorem subset_setNocache (h : m ∈ d.nocache) : m ∈ (d.setNocache n).nocache := by
  unfold setNocache
  split_ifs
  · exact h
  · exact List.mem_append_left _ h
  · exact h

/-- The registry takes the node. -/
def HasRoom (d : Dcache) (n : Nat) : Prop := n ∈ d.nocache ∨ d.nocache.length < nocacheMax
deriving Decidable

theorem mem_setNocache (h : d.HasRoom n) : n ∈ (d.setNocache n).nocache := by
  unfold setNocache
  split_ifs with hmem hroom
  · exact hmem
  · exact List.mem_append_right _ List.mem_cons_self
  · exact absurd (h.resolve_left hmem) hroom

@[simp] theorem insert_parents (parent : Nat) (name : FileName) (child : Nat) :
    (d.insert parent name child).parents = d.parents := by
  unfold insert
  simp only
  split_ifs
  · exact setNocache_parents child
  · rfl
  · rfl

theorem subset_insert (h : m ∈ d.nocache) : m ∈ (d.insert parent name child).nocache := by
  unfold insert
  simp only
  split_ifs
  · exact subset_setNocache h
  · exact h
  · exact h

/-- Below a registered node the child is registered. -/
theorem insert_of_nocache (h : parent ∈ d.nocache) :
    d.insert parent name child = d.setNocache child := by
  unfold insert
  rw [if_pos (show d.isNocache parent = true from decide_eq_true (.inr h))]

/-- What an insertion leaves in the table. -/
theorem mem_insert (h : e ∈ (d.insert parent name child).entries) :
    e ∈ d.entries ∨ (d.isNocache parent = false ∧
      e = ⟨bucketOf parent name, parent, copyName name, child⟩) := by
  unfold insert at h
  simp only at h
  split_ifs at h with hno hfull
  · exact .inl (setNocache_entries ▸ h)
  · rcases List.mem_cons.mp h with rfl | h
    · exact .inr ⟨by simpa using hno, rfl⟩
    · exact .inl (mem_invalidate h)
  · exact .inl (mem_invalidate h)

theorem copyName_of_fits (h : name.length ≤ 127) : copyName name = name :=
  List.take_of_length_le h

theorem Keyed.insert (h : d.Keyed)
    (hfits : name.length ≤ 127) : (d.insert parent name child).Keyed := by
  unfold Dcache.insert
  simp only
  split_ifs
  · exact h.congr setNocache_entries
  · have hrest := h.invalidate parent name
    rw [copyName_of_fits hfits]
    refine ⟨?_, List.pairwise_cons.mpr ⟨fun e he hkey => ?_, hrest.once⟩⟩
    · rintro e (_ | ⟨_, he⟩)
      · rfl
      · exact hrest.bucket e he
    · exact h.gone he ⟨hkey.1.symm, hkey.2.symm⟩
  · exact h.invalidate parent name

/-- The table of parents takes the child. -/
def HasPlace (d : Dcache) (child : Nat) : Prop :=
  (d.parentOf child).isSome ∨ d.parents.length < parentMax
deriving Decidable

theorem parentOf_setParent_of_ne (hn : n ≠ child) :
    (d.setParent child parent).parentOf n = d.parentOf n := by
  unfold setParent parentInsert
  split_ifs
  · rfl
  · refine congrArg _ (find?_replaceF_of_disjoint (fun a b hab => ?_) _)
    split_ifs at hab with ha
    obtain rfl := Option.some.inj hab
    exact ⟨decide_eq_false fun h => hn (h.symm.trans ha),
      decide_eq_false fun h => hn h.symm⟩
  · show ((d.parents ++ [(child, parent)]).find? _).map _ = (d.parents.find? _).map _
    rw [List.find?_append, List.find?_singleton, if_neg (by simpa using Ne.symm hn), Option.or_none]
  · rfl

theorem parentOf_setParent_self (hne : child ≠ parent)
    (h : d.HasPlace child) : (d.setParent child parent).parentOf child = some parent := by
  unfold setParent parentInsert
  rw [if_neg hne]
  split_ifs with hsome hroom
  · have hfind : (d.parents.find? (·.1 = child)).isSome := by
      rwa [parentOf, Option.isSome_map] at hsome
    have := find?_replaceF_self
      (b := (child, parent)) (decide_eq_true rfl) hfind
    simp only [decide_eq_true_eq] at this
    exact congrArg _ this
  · have hnone : d.parents.find? (·.1 = child) = none := by
      rwa [parentOf, Option.isSome_map, Option.not_isSome_iff_eq_none] at hsome
    show ((d.parents ++ [(child, parent)]).find? _).map _ = _
    rw [List.find?_append, hnone]
    simp
  · exact absurd (h.resolve_left hsome) hroom

@[simp] theorem setParent_entries :
    (d.setParent child parent).entries = d.entries := by
  unfold setParent parentInsert
  split_ifs <;> rfl

@[simp] theorem setParent_nocache (child parent : Nat) :
    (d.setParent child parent).nocache = d.nocache := by
  unfold setParent parentInsert
  split_ifs <;> rfl

end Dcache

namespace NameSys

/-! ### The property -/

/-- What the mount table or the filesystem's own walk answers. -/
def direct (s : NameSys) (dir : Nat) (name : FileName) : Option Nat :=
  if s.isDir dir then (s.lookupMount dir name).or (s.fsWalk dir name) else none

/-- The places nodes are in: names of a filesystem and mounts. -/
def homes (s : NameSys) : List Dirent := s.dirents ++ s.mounts

structure Transparent (s : NameSys) : Prop where
  walk : ∀ dir name, (s.walkOne dir name).1 = s.direct dir name
  parent : ∀ n ∈ s.reached, s.isDir n = true → ∀ e ∈ s.homes, e.target = n →
    (s.finddirVfs n dotdot).1 = some e.dir

def Fits (name : FileName) : Prop := name.length ≤ 127
deriving Decidable

/-- A lookup that finds room in the tables it has to write to. -/
def WalkClean (s : NameSys) (dir : Nat) (name : FileName) : Prop :=
  Fits name ∧ (∀ c ∈ s.direct dir name, s.isDir c = true → s.cache.HasPlace c) ∧
    (s.isDynamic dir = true → ∀ c ∈ s.fsWalk dir name, s.cache.HasRoom c)
deriving Decidable

/-- The events for which the cache stays transparent. -/
def Clean (s : NameSys) : Event → Prop
  | .root n _ dynamic => dynamic = true → s.cache.HasRoom n
  | .find dir name => s.WalkClean dir name
  | .create _ name _ | .mkdir _ name _ | .link _ name _ _ | .appear _ _ name _ => Fits name
  | .unlink dir name held => held = true ∨ ∀ n ∈ s.fsWalk dir name, s.isEmpty n = true
  | .rename _ olddir oldname newdir newname _ _ => Fits newname ∧ (olddir ≠ newdir →
    s.WalkClean olddir oldname ∧ (s.finddirVfs olddir oldname).2.WalkClean newdir newname ∧
    ∀ n ∈ s.fsWalk olddir oldname, s.isDir n = false)
  | .mount host _ target => target ∈ s.roots ∧ (s.isDir target = true → host ≠ target ∧
    (∀ m ∈ s.mounts, m.target = target → m.dir = host) ∧
    (target ∈ s.reached → s.cache.parentOf target = some host))
  | .close n => s.isEmpty n = true
  | .rmdir .. | .umount .. | .vanish .. | .reclaim _ => True

/-! ### The invariant -/

/-- The entry says what the filesystem says. -/
structure Remembers (s : NameSys) (e : DcacheEntry) : Prop where
  walk : s.fsWalk e.parent e.name = some e.child
  still : s.isDynamic e.parent = false
  reached : e.child ∈ s.reached

/-- The state is sound and the cache is coherent but for the names in `stale`. -/
structure Inv (stale : Nat → FileName → Prop) (s : NameSys) : Prop where
  live : ∀ e ∈ s.dirents, s.isDir e.dir = true ∧ (s.node e.target).isSome = true
  alike : ∀ e ∈ s.dirents, s.isDynamic e.dir = s.isDynamic e.target
  unnamed : ∀ e ∈ s.dirents, e.target ∉ s.roots
  rooted : ∀ m ∈ s.mounts, m.target ∈ s.roots
  rootLive : ∀ n ∈ s.roots, (s.node n).isSome = true
  reachedLive : ∀ n ∈ s.reached, (s.node n).isSome = true
  loopless : ∀ e ∈ s.homes, s.isDir e.target = true → e.dir ≠ e.target
  single : ∀ e ∈ s.homes, ∀ f ∈ s.homes, e.target = f.target → s.isDir e.target = true →
    e.dir = f.dir
  keyed : s.cache.Keyed
  fresh : ∀ e ∈ s.cache.entries, ¬ stale e.parent e.name → s.Remembers e
  registry : ∀ n, s.known n = true → s.isDynamic n = true → n ∈ s.cache.nocache
  parents : ∀ n ∈ s.reached, s.isDir n = true → ∀ e ∈ s.homes, e.target = n →
    s.cache.parentOf n = some e.dir

/-- No name is out of date. -/
def noStale : Nat → FileName → Prop := fun _ _ => False

/-- One more name may be out of date. -/
def orName (stale : Nat → FileName → Prop) (dir : Nat) (name : FileName) :
    Nat → FileName → Prop := fun d n => stale d n ∨ (d = dir ∧ n = name)

variable {s s' : NameSys} {stale stale' : Nat → FileName → Prop} {dir n m target : Nat}
  {name oldname newname : FileName} {kind : NodeKind} {held mem : Bool} {r : Option NameSys}

theorem fsWalk_some (h : s.fsWalk dir name = some n) :
    ∃ e ∈ s.dirents, e.dir = dir ∧ e.name = name ∧ e.target = n := by
  obtain ⟨e, hfind, htarget⟩ := Option.map_eq_some_iff.mp h
  obtain ⟨hdir, hname⟩ := isEntry_iff.mp (List.find?_some hfind)
  exact ⟨e, List.mem_of_find?_eq_some hfind, hdir, hname, htarget⟩

theorem lookupMount_some {host : Nat} (h : s.lookupMount host name = some m) :
    ∃ e ∈ s.mounts, e.dir = host ∧ e.target = m := by
  obtain ⟨e, hfind, htarget⟩ := Option.map_eq_some_iff.mp h
  obtain ⟨hdir, -⟩ := isEntry_iff.mp (List.find?_some hfind)
  exact ⟨e, List.mem_of_find?_eq_some hfind, hdir, htarget⟩

theorem isDir_live (h : s.isDir n = true) : (s.node n).isSome = true := by
  unfold isDir at h
  cases hn : s.node n
  · rw [hn] at h
    cases h
  · rfl

theorem isEntry_ne {d : Nat} {n : FileName} (h : ¬ (d = dir ∧ n = name)) (e : Dirent)
    (he : Tmpfs.isEntry dir name e = true) : Tmpfs.isEntry d n e = false := by
  obtain ⟨rfl, rfl⟩ := isEntry_iff.mp he
  exact decide_eq_false fun hde => h ⟨hde.1.symm, hde.2.symm⟩

theorem storedName_of_fits (h : Fits name) : storedName name = name :=
  List.take_of_length_le h

/-- A lookup under the invariant answers what it should. -/
theorem Inv.walkOne_fst (h : Inv noStale s) (dir : Nat) (name : FileName) :
    (s.walkOne dir name).1 = s.direct dir name := by
  unfold walkOne direct
  split_ifs with hdir
  · rcases hmount : s.lookupMount dir name with - | m
    · rcases hcached : s.cache.lookup dir name with - | c
      · rcases hwalk : s.fsWalk dir name with - | c <;> rfl
      · obtain ⟨e, he, rfl, rfl, rfl⟩ := Dcache.lookup_some hcached
        exact (h.fresh e he id).walk.symm
    · rfl
  · rfl

theorem Inv.transparent (h : Inv noStale s) : s.Transparent where
  walk := h.walkOne_fst
  parent n hn hdir e he htarget := by
    unfold finddirVfs
    rw [h.parents n hn hdir e he htarget]
    rfl

/-! ### Dropping a name -/

theorem Inv.invalidate (h : Inv (orName stale dir name) s) :
    Inv stale (s.mapCache (·.invalidate dir name)) :=
  { h with
    keyed := h.keyed.invalidate dir name
    fresh := fun e he hstale => by
      have hfresh := h.fresh e (Dcache.mem_invalidate he) fun hor =>
        hor.elim hstale (h.keyed.gone he)
      exact { hfresh with }
    registry := h.registry
    parents := h.parents }

theorem Inv.mono (h : Inv stale s) (hle : ∀ d n, stale d n → stale' d n) : Inv stale' s :=
  { h with fresh := fun e he hs => h.fresh e he fun h' => hs (hle _ _ h') }

/-! ### Changing names -/

/-- An entry that can be added: its target is no directory, or stays in the
directory it is in, or is new. -/
structure Placed (s : NameSys) (e : Dirent) : Prop where
  dir : s.isDir e.dir = true
  live : (s.node e.target).isSome = true
  alike : s.isDynamic e.dir = s.isDynamic e.target
  root : e.target ∉ s.roots
  home : s.isDir e.target = true → e.dir ≠ e.target ∧
    ((∃ f ∈ s.dirents, f.target = e.target ∧ f.dir = e.dir) ∨
      ((∀ f ∈ s.homes, f.target ≠ e.target) ∧ e.target ∉ s.reached))

/-- What a new place of a directory has to agree with. -/
structure Fitting (s : NameSys) (g : Dirent) : Prop where
  loopless : g.dir ≠ g.target
  single : ∀ f ∈ s.homes, f.target = g.target → f.dir = g.dir
  parents : g.target ∈ s.reached → s.cache.parentOf g.target = some g.dir

/-- The places change, by at most one new place that fits. -/
theorem Inv.rehome {l : List Dirent} (new : Option Dirent) (h : Inv stale s)
    (hsub : ∀ e ∈ l, e ∈ s.homes ∨
      (new = some e ∧ (s.isDir e.target = true → s.Fitting e))) :
    (∀ e ∈ l, s.isDir e.target = true → e.dir ≠ e.target) ∧
    (∀ e ∈ l, ∀ f ∈ l, e.target = f.target → s.isDir e.target = true → e.dir = f.dir) ∧
    (∀ n ∈ s.reached, s.isDir n = true → ∀ e ∈ l, e.target = n →
      s.cache.parentOf n = some e.dir) := by
  refine ⟨?_, ?_, ?_⟩
  · intro e he hdir
    rcases hsub e he with he | ⟨-, hnew⟩
    · exact h.loopless e he hdir
    · exact (hnew hdir).loopless
  · intro e he f hf hef hdir
    rcases hsub e he with he | ⟨hne, hnewe⟩ <;> rcases hsub f hf with hf | ⟨hnf, hnewf⟩
    · exact h.single e he f hf hef hdir
    · exact (hnewf (hef ▸ hdir)).single e he hef
    · exact ((hnewe hdir).single f hf hef.symm).symm
    · rw [Option.some.inj (hne.symm.trans hnf)]
  · intro n hn hdir e he htarget
    rcases hsub e he with he | ⟨-, hnew⟩
    · exact h.parents n hn hdir e he htarget
    · subst htarget
      exact (hnew hdir).parents hn

/-- A new entry of a directory is in a directory where that one has its home. -/
theorem Inv.placed_fitting (h : Inv stale s) {g : Dirent} (hg : s.Placed g)
    (hdir : s.isDir g.target = true) : s.Fitting g := by
  refine ⟨(hg.home hdir).1, fun f hf hfg => ?_, fun hn => ?_⟩
  · rcases (hg.home hdir).2 with ⟨k, hk, hkt, hkd⟩ | ⟨hnone, -⟩
    · rw [← hkd]
      exact h.single f hf k (List.mem_append_left _ hk) (hfg.trans hkt.symm) (hfg ▸ hdir)
    · exact absurd hfg (hnone f hf)
  · rcases (hg.home hdir).2 with ⟨k, hk, hkt, hkd⟩ | ⟨-, hnot⟩
    · rw [← hkd]
      exact h.parents _ hn hdir k (List.mem_append_left _ hk) hkt
    · exact absurd hn hnot

/-- The names change, by at most one new entry, and the walk with them only where
the cache may be out of date. -/
theorem Inv.rename {ds : List Dirent} (new : Option Dirent) (h : Inv stale s)
    (hle : ∀ d n, stale d n → stale' d n)
    (hsub : ∀ f ∈ ds, f ∈ s.dirents ∨ (new = some f ∧ s.Placed f))
    (hwalk : ∀ d n, ¬ stale' d n →
      ds.find? (Tmpfs.isEntry d n) = s.dirents.find? (Tmpfs.isEntry d n)) :
    Inv stale' { s with dirents := ds } := by
  obtain ⟨hloopless, hsingle, hparents⟩ := h.rehome new fun f hf => by
    rcases List.mem_append.mp hf with hf | hf
    · exact (hsub f hf).imp (List.mem_append_left _) (And.imp_right h.placed_fitting)
    · exact .inl (List.mem_append_right _ hf)
  have hnamed : ∀ f ∈ ds, (s.isDir f.dir = true ∧ (s.node f.target).isSome = true) ∧
      s.isDynamic f.dir = s.isDynamic f.target ∧ f.target ∉ s.roots := by
    intro f hf
    rcases hsub f hf with hf | ⟨-, hp⟩
    · exact ⟨h.live f hf, h.alike f hf, h.unnamed f hf⟩
    · exact ⟨⟨hp.dir, hp.live⟩, hp.alike, hp.root⟩
  refine { h with
    live := fun f hf => (hnamed f hf).1, alike := fun f hf => (hnamed f hf).2.1,
    unnamed := fun f hf => (hnamed f hf).2.2, loopless := hloopless, single := hsingle,
    fresh := fun e he hs => ?_, parents := hparents, registry := h.registry }
  have hfresh := h.fresh e he fun h' => hs (hle _ _ h')
  refine ⟨?_, hfresh.still, hfresh.reached⟩
  have hsame := congrArg (Option.map (·.target)) (hwalk _ _ hs)
  exact hsame.trans hfresh.walk

theorem Inv.removeName (h : Inv stale s) (dir : Nat) (name : FileName) :
    Inv (orName stale dir name) (s.removeName dir name) :=
  h.rename none (fun _ _ => .inl) (fun _ hf => .inl (List.mem_of_mem_eraseP hf)) fun _ _ hs =>
    find?_eraseP_of_disjoint (isEntry_ne fun hk => hs (.inr hk)) _

theorem Inv.addName (h : Inv stale s) (hfits : Fits name) (hplaced : s.Placed ⟨dir, name, n⟩) :
    Inv (orName stale dir name) (s.addName dir name n) := by
  unfold NameSys.addName
  rw [storedName_of_fits hfits]
  refine h.rename (some ⟨dir, name, n⟩) (fun _ _ => .inl) ?_ ?_
  · rintro f (_ | ⟨_, hf⟩)
    · exact .inr ⟨rfl, hplaced⟩
    · exact .inl hf
  · intro d m hs
    have hno : Tmpfs.isEntry d m ⟨dir, name, n⟩ = false :=
      decide_eq_false fun hk => hs (.inr ⟨hk.1.symm, hk.2.symm⟩)
    rw [List.find?_cons, hno]

/-! ### Nodes come and go -/

/-- The kinds of the nodes in use are kept. -/
def SameKinds (s s' : NameSys) : Prop :=
  ∀ m, (s.node m).isSome = true → s'.node m = s.node m

theorem Inv.homeLive (h : Inv stale s) {e : Dirent} (he : e ∈ s.homes) :
    (s.node e.target).isSome = true := by
  rcases List.mem_append.mp he with he | he
  · exact (h.live e he).2
  · exact h.rootLive _ (h.rooted e he)

/-- A node in use is not at a free address. -/
theorem ne_of_free (hfree : s.node n = none) (hm : (s.node m).isSome = true) : m ≠ n := by
  rintro rfl
  rw [hfree] at hm
  cases hm

/-- A free address holds no entries. -/
theorem Inv.alloc_dirents (h : Inv stale s) (hfree : s.node n = none) (nd : NameNode) :
    (s.alloc n nd).dirents = s.dirents :=
  List.filter_eq_self.mpr fun e he =>
    decide_eq_true (ne_of_free hfree (isDir_live (h.live e he).1))

theorem alloc_sameKinds (hfree : s.node n = none) (nd : NameNode) :
    SameKinds s (s.alloc n nd) := fun _ hm => update_of_ne (ne_of_free hfree hm) _ _

/-- The second state names a part of what the first names, and these nodes are kept. -/
structure Within (s s' : NameSys) : Prop where
  dirents : ∀ e ∈ s'.dirents, e ∈ s.dirents ∧ s'.node e.dir = s.node e.dir
  homes : ∀ e ∈ s'.homes, e ∈ s.homes ∧ s'.node e.target = s.node e.target
  mounts : s'.mounts = s.mounts
  roots : s'.roots = s.roots
  rootNode : ∀ n ∈ s.roots, s'.node n = s.node n
  reached : ∀ n ∈ s'.reached, n ∈ s.reached ∧ s'.node n = s.node n
  cache : s'.cache = s.cache

theorem isDir_congr (h : s'.node m = s.node m) : s'.isDir m = s.isDir m := by
  unfold NameSys.isDir
  rw [h]

theorem isDynamic_congr (h : s'.node m = s.node m) : s'.isDynamic m = s.isDynamic m := by
  unfold NameSys.isDynamic
  rw [h]

/-- Every fact of the invariant but the freshness of the cache is about named nodes. -/
theorem Inv.within (h : Inv stale s) (hw : s.Within s')
    (hfresh : ∀ e ∈ s.cache.entries, ¬ stale e.parent e.name → s'.Remembers e) :
    Inv stale s' := by
  obtain ⟨node, dirents⟩ := s'
  obtain ⟨hdirents, hhomes, rfl, rfl, hroots, hreached, rfl⟩ := hw
  refine ⟨?_, ?_, fun e he => h.unnamed e (hdirents e he).1, h.rooted, ?_, ?_, ?_, ?_, h.keyed, hfresh,
    ?_, ?_⟩
  · intro e he
    obtain ⟨hmem, hdir⟩ := hdirents e he
    rw [isDir_congr hdir, (hhomes e (List.mem_append_left _ he)).2]
    exact h.live e hmem
  · intro e he
    obtain ⟨hmem, hdir⟩ := hdirents e he
    rw [isDynamic_congr hdir, isDynamic_congr (hhomes e (List.mem_append_left _ he)).2]
    exact h.alike e hmem
  · intro n hn
    rw [hroots n hn]
    exact h.rootLive n hn
  · intro n hn
    obtain ⟨hn, hnode⟩ := hreached n hn
    rw [hnode]
    exact h.reachedLive n hn
  · intro e he hdir
    obtain ⟨hmem, hnode⟩ := hhomes e he
    rw [isDir_congr hnode] at hdir
    exact h.loopless e hmem hdir
  · intro e he f hf hef hdir
    obtain ⟨hmem, hnode⟩ := hhomes e he
    rw [isDir_congr hnode] at hdir
    exact h.single e hmem f (hhomes f hf).1 hef hdir
  · intro n hn hdyn
    have hkept : s.known n = true ∧ node n = s.node n := by
      rcases decide_eq_true_iff.mp hn with hn | hn
      · exact ⟨decide_eq_true (.inl hn), hroots n hn⟩
      · exact (hreached n hn).imp_left fun hn => decide_eq_true (.inr hn)
    rw [isDynamic_congr hkept.2] at hdyn
    exact h.registry n hkept.1 hdyn
  · intro n hn hdir e he htarget
    obtain ⟨hn, hnode⟩ := hreached n hn
    rw [isDir_congr hnode] at hdir
    exact h.parents n hn hdir e (hhomes e he).1 htarget

theorem Inv.alloc (h : Inv noStale s) (hfree : s.node n = none) (nd : NameNode) :
    Inv noStale (s.alloc n nd) := by
  have hsame := alloc_sameKinds hfree nd
  have hdirents := h.alloc_dirents hfree nd
  refine h.within ⟨fun e he => ?_, fun e he => ?_, rfl, rfl, fun m hm => hsame m (h.rootLive m hm),
    fun m hm => ⟨hm, hsame m (h.reachedLive m hm)⟩, rfl⟩ fun e he hs => ?_
  · rw [hdirents] at he
    exact ⟨he, hsame _ (isDir_live (h.live e he).1)⟩
  · rw [homes, hdirents] at he
    exact ⟨he, hsame _ (h.homeLive he)⟩
  · have hfresh := h.fresh e he hs
    obtain ⟨f, hf, hfd, -, -⟩ := fsWalk_some hfresh.walk
    have hparent : (s.node e.parent).isSome = true := hfd ▸ isDir_live (h.live f hf).1
    refine ⟨?_, (isDynamic_congr (hsame _ hparent)).trans hfresh.still, hfresh.reached⟩
    unfold fsWalk
    rw [hdirents]
    exact hfresh.walk

section

variable (h : Inv stale s)
include h

section

variable (hfree : s.node n = none)
include hfree

/-- Nothing in use mentions a free address. -/
theorem Inv.notHome :
    ∀ e ∈ s.homes, e.target ≠ n := fun _ he => ne_of_free hfree (h.homeLive he)

theorem Inv.notReached :
    n ∉ s.reached := fun hmem => ne_of_free hfree (h.reachedLive n hmem) rfl

theorem Inv.notRoot :
    n ∉ s.roots := fun hmem => ne_of_free hfree (h.rootLive n hmem) rfl

end

/-- Giving back a node without names.  No cached name is a name in it: either it has
no entries, or it is dynamic. -/
theorem Inv.free (hnamed : s.isNamed n = false) (hroot : n ∉ s.roots)
    (hbare : s.isEmpty n = true ∨ s.isDynamic n = true) : Inv stale (s.free n) := by
  have hunnamed : ∀ e ∈ s.dirents, e.target ≠ n := fun e he => by
    simpa using List.any_eq_false.mp hnamed e he
  have hsub : ∀ e ∈ (s.free n).dirents, e ∈ s.dirents ∧ e.dir ≠ n := fun e he => by
    simpa using List.mem_filter.mp he
  have hreached : ∀ {m}, m ∈ (s.free n).reached ↔ m ∈ s.reached ∧ m ≠ n := by
    intro m
    show m ∈ s.reached.filter _ ↔ _
    rw [List.mem_filter, decide_eq_true_iff]
  have hnode : ∀ {m}, m ≠ n → (s.free n).node m = s.node m := fun hm => update_of_ne hm _ _
  have hhome : ∀ e ∈ (s.free n).homes, e ∈ s.homes ∧ e.target ≠ n := by
    intro e he
    rcases List.mem_append.mp he with he | he
    · exact ⟨List.mem_append_left _ (hsub e he).1, hunnamed e (hsub e he).1⟩
    · exact ⟨List.mem_append_right _ he, fun heq => hroot (heq ▸ h.rooted e he)⟩
  have hrootNode : ∀ m ∈ s.roots, (s.free n).node m = s.node m := fun m hm =>
    hnode fun heq => hroot (heq ▸ hm)
  refine h.within ⟨fun e he => (hsub e he).imp_right hnode, fun e he => (hhome e he).imp_right hnode,
    rfl, rfl, hrootNode, fun m hm => (hreached.mp hm).imp_right hnode, rfl⟩ fun e he hs => ?_
  have hfresh := h.fresh e he hs
  obtain ⟨f, hf, hfd, -, hft⟩ := fsWalk_some hfresh.walk
  -- nothing is cached under `n`: it has no entries, or its entries are not cached
  have hparent : e.parent ≠ n := by
    rintro rfl
    rcases hbare with hempty | hdyn
    · exact absurd hfd (by simpa using List.all_eq_true.mp hempty f hf)
    · rw [hfresh.still] at hdyn
      cases hdyn
  refine ⟨?_, ?_, hreached.mpr ⟨hfresh.reached, fun heq => hunnamed f hf (hft.trans heq)⟩⟩
  · rw [← hfresh.walk]
    show ((s.dirents.filter _).find? _).map _ = (s.dirents.find? _).map _
    rw [List.find?_filter]
    refine congrArg (fun p => (List.find? p s.dirents).map _) (funext fun g => ?_)
    refine decide_eq_decide.mpr ?_
    rw [decide_eq_true_iff, isEntry_iff]
    exact ⟨fun hg => hg.2, fun hg => ⟨hg.1 ▸ hparent, hg⟩⟩
  · rw [isDynamic_congr (hnode hparent)]
    exact hfresh.still

end

theorem isFree_iff : s.isFree n = true ↔ n ≠ 0 ∧ s.node n = none := by
  simp [isFree]

section

variable (h : Inv noStale s)
include h

theorem Inv.fsMake (hdir : s.isDir dir = true) (hfree : s.node n = none)
    (hfits : Fits name)
    (hs : s.fsMake kind dir name n = some s') : Inv (orName noStale dir name) s' := by
  unfold NameSys.fsMake at hs
  split_ifs at hs
  obtain rfl := Option.some.inj hs
  have hdirLive := isDir_live hdir
  have hsame := alloc_sameKinds hfree ⟨kind, s.isDynamic dir⟩
  have hnew : (s.alloc n ⟨kind, s.isDynamic dir⟩).node n = some ⟨kind, s.isDynamic dir⟩ :=
    update_self ..
  refine (h.alloc hfree _).addName hfits ⟨?_, ?_, ?_, h.notRoot hfree, fun _ => ⟨?_, .inr ⟨?_, ?_⟩⟩⟩
  · exact (isDir_congr (hsame _ hdirLive)).trans hdir
  · rw [hnew]
    rfl
  · refine (isDynamic_congr (hsame _ hdirLive)).trans ?_
    show s.isDynamic dir = ((s.alloc n ⟨kind, s.isDynamic dir⟩).node n).any (·.dynamic)
    rw [hnew]
    rfl
  · exact ne_of_free hfree hdirLive
  · intro f hf
    refine h.notHome hfree f ?_
    rwa [homes, h.alloc_dirents hfree] at hf
  · exact h.notReached hfree

theorem Inv.fsDelete (hempty : held = true ∨ ∀ n ∈ s.fsWalk dir name, s.isEmpty n = true)
    (hs : s.fsDelete dir name held = some s') : Inv (orName noStale dir name) s' := by
  obtain ⟨n, hn, rfl⟩ := Option.map_eq_some_iff.mp hs
  have hremoved := h.removeName dir name
  simp only
  split_ifs with hkeep
  · exact hremoved
  · obtain ⟨hnamed, hheld⟩ : (s.removeName dir name).isNamed n = false ∧ held = false := by
      simpa using hkeep
    obtain ⟨e, he, -, -, rfl⟩ := fsWalk_some hn
    refine hremoved.free hnamed (h.unnamed e he) (.inl ?_)
    have hall := (hempty.resolve_left (by simp [hheld])) e.target hn
    exact List.all_eq_true.mpr fun f hf =>
      List.all_eq_true.mp hall f (List.mem_of_mem_eraseP hf)

theorem Inv.fsRmdir (hs : s.fsRmdir dir name held = some s') :
    Inv (orName noStale dir name) s' := by
  unfold NameSys.fsRmdir at hs
  split at hs
  · cases hs
  · next n hn =>
    split_ifs at hs with hcheck
    refine h.fsDelete (.inr fun m hm => ?_) hs
    obtain rfl := Option.some.inj (hn.symm.trans hm)
    exact (Bool.and_eq_true_iff.mp hcheck).2

/-- A renamed entry stays in its directory. -/
theorem Inv.fsRename (hfits : Fits newname)
    (hs : s.fsRename dir oldname newname = some s') :
    Inv (orName (orName noStale dir newname) dir oldname) s' := by
  unfold NameSys.fsRename at hs
  split at hs
  · cases hs
  · next n hn =>
    split_ifs at hs
    obtain rfl := Option.some.inj hs
    obtain ⟨e, he, rfl, rfl, rfl⟩ := fsWalk_some hn
    rw [storedName_of_fits hfits]
    -- the entry keeps its directory and its target
    have hplaced : s.Placed ⟨e.dir, newname, e.target⟩ :=
      ⟨(h.live e he).1, (h.live e he).2, h.alike e he, h.unnamed e he, fun hdir =>
        ⟨h.loopless e (List.mem_append_left _ he) hdir, .inl ⟨e, he, rfl, rfl⟩⟩⟩
    refine h.rename (some ⟨e.dir, newname, e.target⟩) (fun _ _ hf => hf.elim) ?_ ?_
    · intro f hf
      rcases mem_replaceF hf with hf | ⟨g, -, hg⟩
      · exact .inl hf
      · obtain ⟨-, rfl⟩ := of_guard hg
        exact .inr ⟨rfl, hplaced⟩
    · intro d m hstale
      refine find?_replaceF_of_disjoint (fun a b hab => ?_) _
      split_ifs at hab with ha
      obtain rfl := Option.some.inj hab
      exact ⟨isEntry_ne (fun hk => hstale (.inr hk)) a ha,
        decide_eq_false fun hk => hstale (.inl (.inr ⟨hk.1.symm, hk.2.symm⟩))⟩

theorem Inv.fsRename2 {olddir newdir : Nat} (hfits : Fits newname)
    (hfile : ∀ n ∈ s.fsWalk olddir oldname, s.isDir n = false)
    (hs : s.fsRename2 olddir oldname newdir newname mem = some s') :
    Inv (orName (orName noStale newdir newname) olddir oldname) s' := by
  unfold NameSys.fsRename2 at hs
  split at hs
  · cases hs
  · next n hn =>
    obtain ⟨hcheck, rfl⟩ := of_guard hs
    obtain ⟨⟨⟨hdir, -⟩, hdyn⟩, -⟩ :
        ((s.isDir newdir = true ∧ mem = true) ∧ s.isDynamic olddir = s.isDynamic newdir) ∧
          s.fsWalk newdir newname = none := by simpa using hcheck
    obtain ⟨e, he, rfl, rfl, rfl⟩ := fsWalk_some hn
    have hadded := (h.removeName e.dir e.name).addName hfits
      ⟨hdir, (h.live e he).2, hdyn.symm.trans (h.alike e he), h.unnamed e he,
        fun (hd : s.isDir e.target = true) => absurd (hfile e.target hn) (by simpa using hd)⟩
    refine hadded.mono fun d m hstale => ?_
    rcases hstale with (hf | hold) | hnew
    · exact hf.elim
    · exact .inr hold
    · exact .inl (.inr hnew)

theorem Inv.fsLink (hdir : s.isDir dir = true) (hfits : Fits name)
    (hs : s.fsLink dir name target mem = some s') : Inv (orName noStale dir name) s' := by
  obtain ⟨hcheck, rfl⟩ := of_guard hs
  simp only [Bool.and_eq_true, decide_eq_true_eq, beq_iff_eq] at hcheck
  obtain ⟨⟨⟨⟨⟨hlive, hfile⟩, hroot⟩, hdyn⟩, -⟩, -⟩ := hcheck
  exact h.addName hfits ⟨hdir, hlive, hdyn, hroot, fun hd => absurd hfile (by simpa using hd)⟩

end

/-! ### Operations of the VFS -/

theorem invalidated_some (h : invalidated r dir name = some s') :
    ∃ t, r = some t ∧ s' = t.mapCache (·.invalidate dir name) := by
  obtain ⟨t, ht, hs⟩ := Option.map_eq_some_iff.mp h
  exact ⟨t, ht, hs.symm⟩

section

variable (h : Inv noStale s)
include h

theorem Inv.makeVfs {inode : Option Nat} (hfree : ∀ n ∈ inode, s.node n = none)
    (hfits : Fits name) (hs : s.makeVfs kind dir name inode = some s') : Inv noStale s' := by
  unfold NameSys.makeVfs at hs
  split_ifs at hs with hdir
  obtain ⟨n, rfl, hn⟩ := Option.bind_eq_some_iff.mp hs
  obtain ⟨t, ht, rfl⟩ := invalidated_some hn
  exact (h.fsMake hdir (hfree n rfl) hfits ht).invalidate

theorem Inv.rmdirVfs (hs : s.rmdirVfs dir name held = some s') : Inv noStale s' := by
  unfold NameSys.rmdirVfs at hs
  split_ifs at hs
  obtain ⟨t, ht, rfl⟩ := invalidated_some hs
  exact (h.fsRmdir ht).invalidate

theorem Inv.renameVfs (hfits : Fits newname)
    (hs : s.renameVfs dir oldname newname = some s') : Inv noStale s' := by
  unfold NameSys.renameVfs at hs
  split_ifs at hs
  obtain ⟨t, ht, rfl⟩ := invalidated_some hs
  obtain ⟨u, hu, rfl⟩ := invalidated_some ht
  exact (h.fsRename hfits hu).invalidate.invalidate

theorem Inv.vfsLink (hfits : Fits name)
    (hs : s.vfsLink dir name target mem = some s') : Inv noStale s' := by
  unfold NameSys.vfsLink at hs
  split_ifs at hs with hdir
  obtain ⟨t, ht, rfl⟩ := invalidated_some hs
  exact (h.fsLink hdir hfits ht).invalidate

/-- The table of mounts changes, by at most one new mount. -/
theorem Inv.remount {ms : List Dirent} (new : Option Dirent)
    (hsub : ∀ m ∈ ms, m ∈ s.mounts ∨
      (new = some m ∧ m.target ∈ s.roots ∧ (s.isDir m.target = true → s.Fitting m))) :
    Inv noStale { s with mounts := ms } := by
  obtain ⟨hloopless, hsingle, hparents⟩ := h.rehome new fun e he => by
    rcases List.mem_append.mp he with he | he
    · exact .inl (List.mem_append_left _ he)
    · exact (hsub e he).imp (List.mem_append_right _) (And.imp_right And.right)
  refine { h with rooted := ?_, loopless := hloopless, single := hsingle, parents := hparents,
                  fresh := fun e he hs => { h.fresh e he hs with }, registry := h.registry }
  intro m hm
  rcases hsub m hm with hm | ⟨-, hroot, -⟩
  · exact h.rooted m hm
  · exact hroot

theorem Inv.vfsUmount {host : Nat}
    (hs : s.vfsUmount host name = some s') : Inv noStale s' := by
  unfold NameSys.vfsUmount at hs
  split at hs
  · next i last _ hlast =>
    obtain rfl := Option.some.inj hs
    refine h.remount none fun m hm => .inl ?_
    rcases List.mem_or_eq_of_mem_set ((List.dropLast_sublist _).subset hm) with hm | rfl
    · exact hm
    · exact List.mem_of_getLast? hlast
  · cases hs

theorem Inv.vfsUnlink (hempty : held = true ∨ ∀ n ∈ s.fsWalk dir name, s.isEmpty n = true)
    (hs : s.vfsUnlink dir name held = some s') : Inv noStale s' := by
  unfold NameSys.vfsUnlink at hs
  split_ifs at hs
  · exact h.vfsUmount hs
  · obtain ⟨t, ht, rfl⟩ := invalidated_some hs
    exact (h.fsDelete hempty ht).invalidate

end

/-! ### Lookups -/

theorem known_reach (h : (s.reach n).known m = true) : m = n ∨ s.known m = true := by
  rcases decide_eq_true_iff.mp h with h | h
  · exact .inr (decide_eq_true (.inl h))
  · exact (List.mem_cons.mp h).imp_right fun h => decide_eq_true (.inr h)

section

variable (h : Inv noStale s)
include h

/-- Handing out a node whose entries in the registry and in the table of parents
are in order. -/
theorem Inv.reach (hlive : (s.node n).isSome = true)
    (hreg : s.isDynamic n = true → n ∈ s.cache.nocache)
    (hparent : s.isDir n = true → ∀ e ∈ s.homes, e.target = n →
      s.cache.parentOf n = some e.dir) : Inv noStale (s.reach n) := by
  refine { h with reachedLive := ?_, fresh := ?_, registry := ?_, parents := ?_ }
  · rintro m (_ | ⟨_, hm⟩)
    · exact hlive
    · exact h.reachedLive m hm
  · intro e he hs
    have hfresh := h.fresh e he hs
    exact { hfresh with reached := List.mem_cons_of_mem _ hfresh.reached }
  · intro m hm hdyn
    rcases known_reach hm with rfl | hm
    · exact hreg hdyn
    · exact h.registry m hm hdyn
  · rintro m (_ | ⟨_, hm⟩) hdir e he htarget
    · exact hparent hdir e he htarget
    · exact h.parents m hm hdir e he htarget

/-- The cache keeps what it has registered and gets no entry that is out of date. -/
theorem Inv.recache {c : Dcache} (hkeyed : c.Keyed)
    (hentries : ∀ e ∈ c.entries, e ∈ s.cache.entries ∨ s.Remembers e) (hno : s.cache.nocache ⊆ c.nocache)
    (hparents : ∀ n ∈ s.reached, s.isDir n = true → ∀ e ∈ s.homes, e.target = n →
      c.parentOf n = some e.dir) : Inv noStale { s with cache := c } := by
  refine { h with keyed := hkeyed, fresh := fun e he hs => ?_,
                  registry := fun m hm hdyn => hno (h.registry m hm hdyn), parents := hparents }
  have hfresh := (hentries e he).elim (h.fresh e · hs) id
  exact { hfresh with }

/-- After `set_parent` the directory has the parent it is found in. -/
theorem Inv.noteParent {f : Dirent} (hf : f ∈ s.homes)
    (hplace : s.isDir f.target = true → s.cache.HasPlace f.target) :
    ∃ c, s.noteParent f.target f.dir = { s with cache := c } ∧ Inv noStale { s with cache := c } ∧
      c.nocache = s.cache.nocache ∧ (s.isDir f.target = true → ∀ e ∈ s.homes, e.target = f.target →
        c.parentOf f.target = some e.dir) := by
  unfold NameSys.noteParent
  split_ifs with hdir
  · have hself : ∀ e ∈ s.homes, e.target = f.target →
        (s.cache.setParent f.target f.dir).parentOf f.target = some e.dir := fun e he htarget => by
      rw [Dcache.parentOf_setParent_self (h.loopless f hf hdir).symm (hplace hdir),
        h.single e he f hf htarget (htarget ▸ hdir)]
    refine ⟨_, rfl, h.recache (h.keyed.congr Dcache.setParent_entries) (fun e he => .inl ?_) ?_ ?_,
      Dcache.setParent_nocache .., fun _ => hself⟩
    · rwa [Dcache.setParent_entries] at he
    · rw [Dcache.setParent_nocache]
      exact List.Subset.refl _
    · intro m hm hmdir e he htarget
      by_cases hmf : m = f.target
      · subst hmf
        exact hself e he htarget
      · rw [Dcache.parentOf_setParent_of_ne hmf]
        exact h.parents m hm hmdir e he htarget
  · exact ⟨s.cache, rfl, h, rfl, fun hd => absurd hd hdir⟩

theorem Inv.setNocache (n : Nat) :
    Inv noStale (s.mapCache (·.setNocache n)) := by
  refine h.recache (h.keyed.congr Dcache.setNocache_entries) (fun e he => .inl ?_)
    (fun _ => Dcache.subset_setNocache) ?_
  · rwa [Dcache.setNocache_entries] at he
  · unfold Dcache.parentOf
    rw [Dcache.setNocache_parents]
    exact h.parents

/-- A walk of the filesystem is remembered, or its child registered. -/
theorem Inv.remember {c : Nat} (hfits : Fits name)
    (hwalk : s.fsWalk dir name = some c) (hknown : s.known dir = true)
    (hroom : s.isDynamic dir = true → s.cache.HasRoom c)
    (hparent : s.isDir c = true → ∀ e ∈ s.homes, e.target = c →
      s.cache.parentOf c = some e.dir) :
    Inv noStale ((s.mapCache (·.insert dir name c)).reach c) := by
  obtain ⟨f, hf, rfl, -, rfl⟩ := fsWalk_some hwalk
  have hlive := (h.live f hf).2
  have halike := h.alike f hf
  cases hdyn : s.isDynamic f.dir with
  | true =>
    -- the directory is registered, and now the child is
    have hreg : s.mapCache (·.insert f.dir name f.target) = s.mapCache (·.setNocache f.target) :=
      congrArg (fun c => { s with cache := c })
        (Dcache.insert_of_nocache (h.registry f.dir hknown hdyn))
    rw [hreg]
    refine (h.setNocache f.target).reach hlive (fun _ => Dcache.mem_setNocache (hroom hdyn)) ?_
    unfold Dcache.parentOf
    rw [mapCache, Dcache.setNocache_parents]
    exact hparent
  | false =>
    have hreach := h.reach hlive (fun hd => by rw [← halike, hdyn] at hd; cases hd) hparent
    refine hreach.recache (h.keyed.insert hfits) (fun e he => (Dcache.mem_insert he).imp_right ?_)
      (fun _ => Dcache.subset_insert) ?_
    · rintro ⟨-, rfl⟩
      rw [Dcache.copyName_of_fits hfits]
      exact ⟨hwalk, hdyn, List.mem_cons_self⟩
    · unfold Dcache.parentOf
      rw [mapCache, Dcache.insert_parents]
      exact hreach.parents

theorem Inv.walkOne (hknown : s.known dir = true)
    (hclean : s.WalkClean dir name) : Inv noStale (s.walkOne dir name).2 := by
  obtain ⟨hfits, hplace, hroom⟩ := hclean
  unfold NameSys.walkOne
  unfold direct at hplace
  split_ifs at hplace ⊢ with hdir
  · rcases hmount : s.lookupMount dir name with - | m
    · rw [hmount] at hplace
      rcases hcached : s.cache.lookup dir name with - | c
      · rcases hwalk : s.fsWalk dir name with - | c
        · exact h
        · -- a miss: the filesystem is asked
          obtain ⟨f, hf, rfl, -, rfl⟩ := fsWalk_some hwalk
          have hhome : f ∈ s.homes := List.mem_append_left _ hf
          obtain ⟨c', hc', hnote, hno, hself⟩ := h.noteParent hhome (hplace f.target hwalk)
          simp only
          rw [hc']
          refine hnote.remember hfits hwalk hknown (fun hdyn => ?_) hself
          exact (hroom hdyn f.target hwalk).imp (fun hm => hno ▸ hm) fun hl => hno ▸ hl
      · -- a hit: the node was handed out when the name was cached
        obtain ⟨e, he, rfl, rfl, rfl⟩ := Dcache.lookup_some hcached
        have hmem := (h.fresh e he id).reached
        exact h.reach (h.reachedLive _ hmem)
          (h.registry _ (decide_eq_true (.inr hmem))) (h.parents _ hmem)
    · rw [hmount] at hplace
      obtain ⟨f, hf, rfl, rfl⟩ := lookupMount_some hmount
      have hhome : f ∈ s.homes := List.mem_append_right _ hf
      have hroot := h.rooted f hf
      obtain ⟨c', hc', hnote, hno, hself⟩ := h.noteParent hhome (hplace f.target rfl)
      simp only
      rw [hc']
      refine hnote.reach (h.rootLive _ hroot) (fun hdyn => ?_) hself
      exact hno ▸ h.registry _ (decide_eq_true (.inl hroot)) hdyn
  · exact h

theorem Inv.finddirVfs (hknown : s.known dir = true)
    (hclean : s.WalkClean dir name) : Inv noStale (s.finddirVfs dir name).2 := by
  unfold NameSys.finddirVfs
  split_ifs
  · exact h
  · exact h
  · exact h.walkOne hknown hclean

end

/-- A lookup changes the cache and hands out a node, nothing else. -/
structure LookedUp (s s' : NameSys) : Prop where
  node : s'.node = s.node
  dirents : s'.dirents = s.dirents
  known : ∀ n, s.known n = true → s'.known n = true

theorem LookedUp.reach (h : LookedUp s s') (n : Nat) : LookedUp s (s'.reach n) where
  node := h.node
  dirents := h.dirents
  known m hm := decide_eq_true
    ((decide_eq_true_iff.mp (h.known m hm)).imp_right (List.mem_cons_of_mem _))

theorem LookedUp.mapCache (h : LookedUp s s') (g : Dcache → Dcache) :
    LookedUp s (s'.mapCache g) := ⟨h.node, h.dirents, h.known⟩

theorem lookedUp_noteParent (h : LookedUp s s) : LookedUp s (s.noteParent n dir) := by
  unfold noteParent
  split_ifs
  · exact h.mapCache _
  · exact h

theorem lookedUp_finddirVfs (s : NameSys) (dir : Nat) (name : FileName) :
    LookedUp s (s.finddirVfs dir name).2 := by
  have hsame : LookedUp s s := ⟨rfl, rfl, fun _ h => h⟩
  unfold finddirVfs walkOne
  split_ifs
  · exact hsame
  · exact hsame
  · rcases s.lookupMount dir name with - | m
    · rcases s.cache.lookup dir name with - | c
      · rcases s.fsWalk dir name with - | c
        · exact hsame
        · exact ((lookedUp_noteParent hsame).mapCache _).reach c
      · exact hsame.reach c
    · exact (lookedUp_noteParent hsame).reach m
  · exact hsame

/-! ### Moves between directories -/

/-- What is not a directory has no entries. -/
theorem Inv.empty_of_file (h : Inv stale s) (hfile : s.isDir n = false) : s.isEmpty n = true := by
  refine List.all_eq_true.mpr fun e he => decide_eq_true fun heq => ?_
  rw [← heq, (h.live e he).1] at hfile
  cases hfile

/-- What a link changes. -/
theorem vfsLink_some (hs : s.vfsLink dir name target mem = some s') :
    s'.node = s.node ∧ s'.dirents = ⟨dir, storedName name, target⟩ :: s.dirents := by
  unfold vfsLink at hs
  split_ifs at hs
  obtain ⟨t, ht, rfl⟩ := invalidated_some hs
  obtain ⟨-, rfl⟩ := of_guard ht
  exact ⟨rfl, rfl⟩

theorem Inv.relink (h : Inv noStale s) {olddir newdir node : Nat} (hne : olddir ≠ newdir)
    (hfits : Fits newname) (hfile : ∀ n ∈ s.fsWalk olddir oldname, s.isDir n = false)
    (hnode : s.isDir node = false) :
    Inv noStale (s.relink olddir oldname newdir newname node mem held) := by
  unfold NameSys.relink
  split
  · exact h
  · next s₁ hlink =>
    have h₁ := h.vfsLink hfits hlink
    obtain ⟨hnodes, hdirents⟩ := vfsLink_some hlink
    rw [storedName_of_fits hfits] at hdirents
    have hdirs : ∀ n, s₁.isDir n = s.isDir n := fun n => isDir_congr (congrFun hnodes n)
    split
    · next s₂ hunlink =>
      -- the new name is in another directory, so the old one means what it did
      refine h₁.vfsUnlink (.inr fun n hn => h₁.empty_of_file ?_) hunlink
      have hother : Tmpfs.isEntry olddir oldname ⟨newdir, newname, node⟩ = false :=
        decide_eq_false fun hk => hne hk.1.symm
      rw [fsWalk, hdirents, List.find?_cons, hother] at hn
      rw [hdirs]
      exact hfile n hn
    · rcases hback : s₁.vfsUnlink newdir newname held with - | s₂
      · exact h₁
      · refine h₁.vfsUnlink (.inr fun n hn => h₁.empty_of_file ?_) hback
        have hnew : Tmpfs.isEntry newdir newname ⟨newdir, newname, node⟩ = true :=
          decide_eq_true ⟨rfl, rfl⟩
        rw [fsWalk, hdirents, List.find?_cons, hnew] at hn
        obtain rfl := Option.some.inj hn
        rw [hdirs]
        exact hnode

theorem LookedUp.isDir (h : LookedUp s s') (n : Nat) : s'.isDir n = s.isDir n :=
  isDir_congr (congrFun h.node n)

theorem LookedUp.fsWalk (h : LookedUp s s') (dir : Nat) (name : FileName) :
    s'.fsWalk dir name = s.fsWalk dir name := by
  unfold NameSys.fsWalk
  rw [h.dirents]

theorem LookedUp.trans {s'' : NameSys} (h : LookedUp s s') (h' : LookedUp s' s'') : LookedUp s s'' :=
  ⟨h'.node.trans h.node, h'.dirents.trans h.dirents, fun n hn => h'.known n (h.known n hn)⟩

theorem Inv.vfsRenameAt (h : Inv noStale s) {rename2 : Bool} {olddir newdir : Nat}
    (hold : s.known olddir = true) (hnew : s.known newdir = true)
    (hclean : s.Clean (.rename rename2 olddir oldname newdir newname mem held)) :
    Inv noStale (s.vfsRenameAt rename2 olddir oldname newdir newname mem held) := by
  obtain ⟨hfits, hcross⟩ := hclean
  unfold NameSys.vfsRenameAt
  by_cases hsame : olddir = newdir
  · rw [if_pos hsame]
    rcases hren : s.renameVfs olddir oldname newname with - | s'
    · exact h
    · exact h.renameVfs hfits hren
  · rw [if_neg hsame]
    obtain ⟨hwalk, hwalk', hfile⟩ := hcross hsame
    have hlook := lookedUp_finddirVfs s olddir oldname
    have h₁ := h.finddirVfs hold hwalk
    rcases hfound : s.finddirVfs olddir oldname with ⟨- | node, s₁⟩ <;> rw [hfound] at hwalk' hlook h₁
    · exact h₁
    · have hlook' := lookedUp_finddirVfs s₁ newdir newname
      have h₂ : Inv noStale (s₁.finddirVfs newdir newname).2 :=
        h₁.finddirVfs (hlook.known newdir hnew) hwalk'
      simp only
      rcases hfound' : s₁.finddirVfs newdir newname with ⟨other?, s₂⟩
      rw [hfound'] at hlook' h₂
      -- the two lookups only fill the cache, so the names mean what they did
      have hall := hlook.trans hlook'
      have hfile₂ : ∀ n ∈ s₂.fsWalk olddir oldname, s₂.isDir n = false := fun n hn => by
        rw [hall.fsWalk] at hn
        rw [hall.isDir]
        exact hfile n hn
      rcases other? with - | other
      · simp only
        split_ifs with _ hdir
        · rcases hren : s₂.fsRename2 olddir oldname newdir newname mem with - | s₃
          · exact h₂
          · exact (h₂.fsRename2 hfits hfile₂ hren).invalidate.invalidate
        · exact h₂
        · exact h₂.relink hsame hfits hfile₂ (by simpa using hdir)
      · exact h₂

/-! ### Filesystems that change on their own -/

/-- Nothing is cached in a dynamic directory, so a change there makes nothing stale. -/
theorem Inv.unstale (h : Inv (orName noStale dir name) s)
    (hnone : ∀ e ∈ s.cache.entries, e.parent ≠ dir) : Inv noStale s :=
  { h with fresh := fun e he _ => h.fresh e he fun hs =>
      hs.elim id fun hk => hnone e he hk.1 }

theorem Inv.notCached (h : Inv noStale s) (hdyn : s.isDynamic dir = true) :
    ∀ e ∈ s.cache.entries, e.parent ≠ dir := by
  rintro e he rfl
  have hstill := (h.fresh e he id).still
  rw [hdyn] at hstill
  cases hstill

theorem fsMake_cache (hs : s.fsMake kind dir name n = some s') : s'.cache = s.cache := by
  unfold fsMake at hs
  split_ifs at hs
  obtain rfl := Option.some.inj hs
  rfl

/-! ### Roots -/

theorem Inv.addRoot (h : Inv noStale s) (hlive : (s.node n).isSome = true)
    (hhome : ∀ e ∈ s.homes, e.target ≠ n) (hreg : s.isDynamic n = true → n ∈ s.cache.nocache) :
    Inv noStale { s with roots := n :: s.roots } := by
  refine { h with unnamed := ?_, rooted := ?_, rootLive := ?_, registry := ?_,
                  fresh := fun e he hs => { h.fresh e he hs with }, parents := h.parents }
  · intro e he hmem
    rcases List.mem_cons.mp hmem with heq | hmem
    · exact hhome e (List.mem_append_left _ he) heq
    · exact h.unnamed e he hmem
  · exact fun m hm => List.mem_cons_of_mem _ (h.rooted m hm)
  · rintro m (_ | ⟨_, hm⟩)
    · exact hlive
    · exact h.rootLive m hm
  · intro m hm hdyn
    rcases decide_eq_true_iff.mp hm with hm | hm
    · rcases List.mem_cons.mp hm with rfl | hm
      · exact hreg hdyn
      · exact h.registry m (decide_eq_true (.inl hm)) hdyn
    · exact h.registry m (decide_eq_true (.inr hm)) hdyn

theorem Inv.root (h : Inv noStale s) {dynamic : Bool} (hfree : s.node n = none)
    (hroom : dynamic = true → s.cache.HasRoom n) : Inv noStale (s.apply (.root n kind dynamic)) := by
  have hnew : (s.alloc n ⟨kind, dynamic⟩).node n = some ⟨kind, dynamic⟩ := update_self ..
  have hlive : ((s.alloc n ⟨kind, dynamic⟩).node n).isSome = true := by rw [hnew]; rfl
  have hhome : ∀ e ∈ (s.alloc n ⟨kind, dynamic⟩).homes, e.target ≠ n := by
    rw [homes, h.alloc_dirents hfree]
    exact h.notHome hfree
  simp only [NameSys.apply]
  split_ifs with hdyn
  · exact ((h.alloc hfree _).setNocache n).addRoot hlive hhome
      fun _ => Dcache.mem_setNocache (hroom hdyn)
  · refine (h.alloc hfree _).addRoot hlive hhome fun hd => absurd ?_ hdyn
    rwa [isDynamic, hnew] at hd

/-! ### Runs -/

theorem inv_init : Inv noStale init := by
  refine ⟨?_, ?_, ?_, ?_, ?_, ?_, ?_, ?_, ⟨?_, List.Pairwise.nil⟩, ?_, ?_, ?_⟩ <;>
    simp [init, homes, known, Dcache.empty]

theorem Inv.getD (h : Inv noStale s)
    (hr : ∀ s', r = some s' → Inv noStale s') : Inv noStale (r.getD s) := by
  rcases r with - | s'
  · exact h
  · exact hr s' rfl

theorem Inv.step (h : Inv noStale s) {e : Event} (hclean : s.Clean e)
    (hs : s.step e = some s') : Inv noStale s' := by
  obtain ⟨hpossible, rfl⟩ := of_guard hs
  cases e with
  | root n kind dynamic => exact h.root (isFree_iff.mp hpossible).2 hclean
  | find dir name => exact h.finddirVfs hpossible hclean
  | create dir name inode | mkdir dir name inode =>
    have hfree := (Bool.and_eq_true_iff.mp hpossible).2
    refine h.getD fun s' => h.makeVfs (fun n hn => ?_) hclean
    subst hn
    exact (isFree_iff.mp hfree).2
  | rmdir dir name held => exact h.getD fun s' => h.rmdirVfs
  | unlink dir name held => exact h.getD fun s' => h.vfsUnlink hclean
  | link dir name target mem => exact h.getD fun s' => h.vfsLink hclean
  | rename rename2 olddir oldname newdir newname mem held =>
    obtain ⟨hold, hnew⟩ := Bool.and_eq_true_iff.mp hpossible
    exact h.vfsRenameAt hold hnew hclean
  | mount host name target =>
    refine h.getD fun s' hs' => ?_
    unfold vfsMount at hs'
    split_ifs at hs'
    obtain rfl := Option.some.inj hs'
    refine h.remount (some ⟨host, storedName name, target⟩) fun m hm => ?_
    rcases List.mem_append.mp hm with hm | hm
    · exact .inl hm
    · obtain rfl := List.mem_singleton.mp hm
      obtain ⟨hroot, hfit⟩ := hclean
      refine .inr ⟨rfl, hroot, fun hdir => ⟨(hfit hdir).1, fun f hf hft => ?_, (hfit hdir).2.2⟩⟩
      -- a root has no name, so the other places of the target are mounts
      rcases List.mem_append.mp hf with hf | hf
      · exact absurd (hft ▸ hroot) (h.unnamed f hf)
      · exact (hfit hdir).2.1 f hf hft
  | umount host name => exact h.getD fun s' => h.vfsUmount
  | close n =>
    obtain ⟨hd, hroot⟩ := Bool.and_eq_true_iff.mp hpossible
    obtain ⟨-, hnamed⟩ := Bool.and_eq_true_iff.mp hd
    exact h.free (by simpa using hnamed) (of_decide_eq_true hroot) (.inl hclean)
  | appear kind dir name n =>
    obtain ⟨hd, hfree⟩ := Bool.and_eq_true_iff.mp hpossible
    obtain ⟨hdir, hdyn⟩ := Bool.and_eq_true_iff.mp hd
    refine h.getD fun s' hs' => (h.fsMake hdir (isFree_iff.mp hfree).2 hclean hs').unstale ?_
    rw [fsMake_cache hs']
    exact h.notCached hdyn
  | vanish dir name => exact (h.removeName dir name).unstale (h.notCached hpossible)
  | reclaim n =>
    obtain ⟨hd, hroot⟩ := Bool.and_eq_true_iff.mp hpossible
    obtain ⟨hdyn, hnamed⟩ := Bool.and_eq_true_iff.mp hd
    exact h.free (by simpa using hnamed) (of_decide_eq_true hroot) (.inr hdyn)

/-- **The dentry cache is transparent.**  In every state of a run that avoids the
events `Clean` excludes, each lookup answers what the mount table or the filesystem
would answer, and `..` is the directory a node is in. -/
theorem dcache_transparent {es : List Event} {s : NameSys} (hclean : MeetsAll step Clean init es)
    (hrun : run step init es = some s) : s.Transparent :=
  (run_invariant (fun h => h.step) inv_init hclean hrun).transparent

instance decidableNameClean (s : NameSys) (e : Event) : Decidable (s.Clean e) := by
  unfold Clean
  split <;> infer_instance

/-- A directory is removed while it is open, closed, and its address used for another one;
a dynamic filesystem is mounted, and a name in it goes away and comes back as another
node. -/
def reuseRun : List Event :=
  [.root 1 .directory false, .mkdir 1 [100] (some 2), .find 1 [100], .create 2 [102] (some 3),
    .find 2 [102], .unlink 2 [102] false, .rmdir 1 [100] true, .close 2, .mkdir 1 [101] (some 2),
    .find 1 [101], .root 4 .directory true, .mount 1 [112] 4, .find 1 [112], .appear .file 4 [55] 3,
    .find 4 [55], .vanish 4 [55], .reclaim 3, .appear .file 4 [55] 5, .find 2 [102]]

theorem dcache_transparent_reuse : ∃ s, run step init reuseRun = some s ∧
    s.cache.entries.map (·.child) = [2] ∧ s.direct 4 [55] = some 5 ∧ s.Transparent := by
  refine exists_of_check (p := fun s => s.cache.entries.map (·.child) = [2] ∧ s.direct 4 [55] = some 5)
    (by decide +kernel) fun s hs ⟨hcache, hdirect⟩ => ⟨hcache, hdirect, ?_⟩
  exact dcache_transparent (by decide +kernel) hs

/-- An `unlink`, or the `close` of a directory that was unlinked while it was open, frees a
directory with a file in it, and the next directory at that address appears to hold the
file; a directory that was moved from one directory to another keeps its old parent. -/
theorem dcache_stale :
    (∀ gone ∈ [[.unlink 1 [100] false], [.unlink 1 [100] true, .close 2]],
      ∃ s, run step init ([.root 1 .directory false, .mkdir 1 [100] (some 2), .find 1 [100],
        .create 2 [102] (some 3), .find 2 [102]] ++ gone ++ [.mkdir 1 [101] (some 2),
        .find 1 [101]]) = some s ∧
      (s.walkOne 2 [102]).1 = some 3 ∧ s.direct 2 [102] = none ∧ ¬ s.Transparent) ∧
    ∃ s, run step init [.root 1 .directory false, .mkdir 1 [97] (some 2), .mkdir 1 [98] (some 3),
        .find 1 [97], .find 1 [98], .mkdir 2 [100] (some 4), .find 2 [100],
        .rename true 2 [100] 3 [100] true false] = some s ∧
      s.fsWalk 3 [100] = some 4 ∧ (s.finddirVfs 4 dotdot).1 = some 2 ∧ ¬ s.Transparent := by
  refine ⟨fun gone hgone => exists_of_check
      (p := fun s => (s.walkOne 2 [102]).1 = some 3 ∧ s.direct 2 [102] = none)
      (by revert gone; decide +kernel) fun s _ ⟨hwalk, hdirect⟩ => ⟨hwalk, hdirect, fun h => ?_⟩,
    exists_of_check (p := fun s => s.fsWalk 3 [100] = some 4 ∧ (s.finddirVfs 4 dotdot).1 = some 2 ∧
        4 ∈ s.reached ∧ s.isDir 4 = true)
      (by decide +kernel) fun s _ ⟨hwalk, hparent, hreached, hdir⟩ => ⟨hwalk, hparent, fun h => ?_⟩⟩
  · have hsame := h.walk 2 [102]
    rw [hwalk, hdirect] at hsame
    cases hsame
  · obtain ⟨e, he, hed, -, het⟩ := fsWalk_some hwalk
    have htold := h.parent 4 hreached hdir e (List.mem_append_left _ he) het
    rw [hparent, hed] at htold
    cases htold

end NameSys

end CactKernel
