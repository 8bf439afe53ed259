/-
CactKernel/Fs/TmpfsLaw.lean

The RAM filesystem stays a tree, and its inodes live as long as they are used.

`Sound` is the invariant: the entries form a tree (`NameTree.IsTree`), and for
every inode the counters are exact (`Exact`): `nlink` is the number of entries
that name it, `refcount` that number plus the open handles, and an inode whose
count is zero is freed.  Each operation changes the list of entries in one of
the three ways of `NameTree`, up to the order of the list, and moves the
counters of one inode along.

The source does not keep this for all calls: a name of 128 bytes or more is
compared in full but stored truncated, `vfs_unlink` removes a directory with
its contents, `rename2` moves a directory below itself, and a directory that
was removed while it is open still takes entries.  `Clean` excludes these.
-/
import CactKernel.Fs.Tmpfs

namespace CactKernel

namespace Tmpfs

open Function NameTree Runs

/-! ### The property -/

/-- The root is in use by being mounted. -/
def pin (n : Nat) : Nat := if n = root then 1 else 0

/-- The counters of an inode agree with the number of its entries and handles,
and it is live exactly if there are any. -/
def Exact (node : Option TmpfsNode) (links opens pin : Nat) : Prop :=
  match node with
  | none => links + opens + pin = 0
  | some nd => nd.nlink = links ∧ nd.refcount = links + opens + pin ∧ 0 < nd.refcount

structure Sound (t : Tmpfs) : Prop where
  tree : IsTree t.isDir root t.dirents
  rootDir : t.isDir root = true
  exact : ∀ n, Exact (t.node n) (t.linkCount n) (t.opens n) (pin n)
  removals : ∀ r ∈ t.removals, r.isDir = true → r.empty = true

/-- What the filesystem is for: a tree of directories whose inodes live as long
as they are named or open.  A directory without a name is one that was removed
while it is open; it holds nothing. -/
structure IsFileTree (t : Tmpfs) : Prop where
  directory : ∀ n, t.isDir n = true → n ≠ root →
    t.linkCount n = 1 ∧ Below t.dirents root n ∨
      t.linkCount n = 0 ∧ t.isEmpty n = true ∧ 0 < t.opens n
  acyclic : ∀ n, ¬ Relation.TransGen (Edge t.dirents) n n
  siblings : (t.dirents.map Entry.key).Nodup
  dirents_live : ∀ e ∈ t.dirents, t.isDir e.dir = true ∧ (t.node e.target).isSome
  removed_empty : ∀ r ∈ t.removals, r.isDir = true → r.empty = true
  freed : ∀ n, t.node n = none ↔ n ≠ root ∧ t.linkCount n + t.opens n = 0

/-- The directory is the root or still has a name. -/
def Attached (t : Tmpfs) (d : Nat) : Prop := d = root ∨ 0 < t.linkCount d

/-- The calls that keep the tree: new names fit their field and go into
directories that are part of the tree, what is unlinked is not a directory with
entries, and no directory is moved below itself. -/
def Clean (t : Tmpfs) : Op → Prop
  | .create dir name _ _ | .mkdir dir name _ _ | .link dir name _ _ =>
    name.length ≤ 127 ∧ t.Attached dir
  | .delete dir name =>
    ∀ e, t.findDirent dir name = some e → t.isDir e.target = true → t.isEmpty e.target = true
  | .rename _ _ newname => newname.length ≤ 127
  | .rename2 olddir oldname newdir newname _ =>
    newname.length ≤ 127 ∧ t.Attached newdir ∧
      ∀ e, t.findDirent olddir oldname = some e → t.isDir e.target = true →
        ¬ Below t.dirents e.target newdir
  | .rmdir _ _ | .openNode _ | .closeNode _ => True

variable {t t' : Tmpfs} {dir n inode : Nat} {name : FileName} {e : Dirent} {mem isDir : Bool}
  {op : Op}

/-! ### Names -/

theorem storedName_of_fits (h : name.length ≤ 127) : storedName name = name :=
  List.take_of_length_le h

theorem isEmpty_iff : t.isEmpty n = true ↔ ∀ e ∈ t.dirents, e.dir ≠ n := by
  simp [isEmpty]

theorem isDir_iff : t.isDir n = true ↔ ∃ nd, t.node n = some nd ∧ nd.isDir = true := by
  simp [isDir, Option.any_eq_true]

/-- What is found is an entry of the directory, and the first of its name. -/
theorem findDirent_some (h : t.findDirent dir name = some e) :
    e.dir = dir ∧ e.name = name ∧ ∃ before after, t.dirents = before ++ e :: after ∧
      ∀ d ∈ before, isEntry dir name d = false := by
  unfold findDirent at h
  split_ifs at h
  obtain ⟨hp, before, after, hsplit, hbefore⟩ := List.find?_eq_some_iff_append.mp h
  obtain ⟨hdir, hname⟩ := of_decide_eq_true hp
  refine ⟨hdir, hname, before, after, hsplit, fun d hd => ?_⟩
  simpa using hbefore d hd

theorem findDirent_none (hdir : t.isDir dir = true)
    (h : t.findDirent dir name = none) : (dir, name) ∉ t.dirents.map Entry.key := by
  rw [findDirent, if_pos hdir, List.find?_eq_none] at h
  rintro hmem
  obtain ⟨e, he, hkey⟩ := List.mem_map.mp hmem
  obtain ⟨hd, hn⟩ := Prod.mk.inj hkey
  exact h e he (decide_eq_true ⟨hd, hn⟩)

/-- Taking the entry found out of the list leaves the others. -/
theorem perm_eraseP (h : t.findDirent dir name = some e) :
    t.dirents.Perm (e :: t.dirents.eraseP (isEntry dir name)) := by
  obtain ⟨hdir, hname, before, after, hsplit, hbefore⟩ := findDirent_some h
  have hentry : isEntry dir name e = true := decide_eq_true ⟨hdir, hname⟩
  rw [hsplit, List.eraseP_append_right _ (fun d hd => by simp [hbefore d hd]),
    List.eraseP_cons_of_pos hentry]
  exact List.perm_middle

/-- Renaming the entry found replaces it among the others. -/
theorem perm_replaceF {e' : Dirent} (h : t.findDirent dir name = some e) :
    (t.dirents.replaceF fun d => if isEntry dir name d then some e' else none).Perm
      (e' :: t.dirents.eraseP (isEntry dir name)) := by
  obtain ⟨hdir, hname, before, after, hsplit, hbefore⟩ := findDirent_some h
  have hentry : isEntry dir name e = true := decide_eq_true ⟨hdir, hname⟩
  rw [hsplit, List.eraseP_append_right _ (fun d hd => by simp [hbefore d hd])]
  clear hsplit h
  induction before with
  | nil => simp [hentry]
  | cons d before ih =>
    have hd := hbefore d List.mem_cons_self
    have hih := ih fun x hx => hbefore x (List.mem_cons_of_mem _ hx)
    simp only [List.cons_append, List.replaceF, hd]
    exact (hih.cons d).trans (List.Perm.swap _ _ _)

/-! ### Inodes -/

theorem setNode_of_ne {m : Nat} (f : TmpfsNode → TmpfsNode) (h : m ≠ n) :
    (t.setNode n f).node m = t.node m := update_of_ne h _ _

theorem setNode_self (f : TmpfsNode → TmpfsNode) :
    (t.setNode n f).node n = (t.node n).map f := update_self _ _ _

/-- Counters do not say what is a directory. -/
theorem setNode_isDir {f : TmpfsNode → TmpfsNode} (hf : ∀ nd, (f nd).isDir = nd.isDir) :
    (t.setNode n f).isDir = t.isDir := by
  funext m
  by_cases hm : m = n
  · subst hm
    unfold isDir
    rw [setNode_self]
    cases t.node m with
    | none => rfl
    | some nd => exact hf nd
  · unfold isDir
    rw [setNode_of_ne f hm]

theorem Sound.node_of_entry (h : t.Sound) (he : e ∈ t.dirents) :
    ∃ nd, t.node e.target = some nd := by
  have hx := h.exact e.target
  have hpos : 0 < t.linkCount e.target := links_pos.mpr ⟨e, he, rfl⟩
  rcases hnode : t.node e.target with - | nd
  · rw [hnode] at hx
    have : t.linkCount e.target + t.opens e.target + pin e.target = 0 := hx
    omega
  · exact ⟨nd, rfl⟩

theorem Sound.links_of_none (h : t.Sound) (hn : t.node n = none) :
    t.linkCount n = 0 ∧ t.opens n = 0 ∧ n ≠ root := by
  have hx := h.exact n
  rw [hn] at hx
  have hx : t.linkCount n + t.opens n + pin n = 0 := hx
  refine ⟨by omega, by omega, ?_⟩
  rintro rfl
  rw [show pin root = 1 from rfl] at hx
  omega

theorem Sound.below_of_attached (h : t.Sound) {d : Nat} (hd : t.Attached d) :
    Below t.dirents root d := by
  rcases hd with rfl | hd
  · exact .refl
  · exact h.tree.below_of_named hd

/-- What is unlinked cleanly holds no entries. -/
theorem Sound.target_empty (h : t.Sound)
    (hclean : t.isDir e.target = true → t.isEmpty e.target = true) :
    ∀ d ∈ t.dirents, d.dir ≠ e.target := by
  intro d hd heq
  have hdir : t.isDir e.target = true := heq ▸ h.tree.holder d hd
  exact isEmpty_iff.mp (hclean hdir) d hd heq

/-- **Dropping a reference.**  The counters are exact after the reference that is
one too many is dropped; an inode that is freed by it holds no entries. -/
theorem dropRef_sound (nd : TmpfsNode) (htree : IsTree t.isDir root t.dirents)
    (hroot : t.isDir root = true)
    (hother : ∀ m, m ≠ n → Exact (t.node m) (t.linkCount m) (t.opens m) (pin m))
    (hnode : t.node n = some nd) (hlink : nd.nlink = t.linkCount n)
    (href : nd.refcount = t.linkCount n + t.opens n + pin n + 1)
    (hempty : nd.refcount = 1 → ∀ e ∈ t.dirents, e.dir ≠ n)
    (hremovals : ∀ r ∈ t.removals, r.isDir = true → r.empty = true) : (t.dropRef n).Sound := by
  unfold dropRef
  by_cases hlast : nd.refcount = 1
  · have hne : n ≠ root := by
      rintro rfl
      rw [show pin root = 1 from rfl] at href
      omega
    -- the last reference: the inode is freed, and by `hempty` nothing hangs under it
    have hnone := hempty hlast
    have hfilter : (t.dirents.filter fun e => decide (e.dir ≠ n)) = t.dirents :=
      List.filter_eq_self.mpr fun e he => decide_eq_true (hnone e he)
    have hdir : ∀ m, m ≠ n → isDir { t with node := update t.node n none } m = t.isDir m := by
      intro m hm
      simp only [isDir, update_of_ne hm]
    simp only [hnode, Option.any_some, hlast, beq_self_eq_true, if_true, freeInode, hne, if_false,
      hfilter, setNode, update_idem]
    refine ⟨htree.changeDirs ?_ ?_, ?_, ?_, hremovals⟩
    · intro e he
      exact (hdir e.dir (hnone e he)).trans (htree.holder e he)
    · intro m hm
      by_cases hmn : m = n
      · subst hmn
        simp [isDir] at hm
      · exact .inl ((hdir m hmn).symm.trans hm)
    · exact (hdir root hne.symm).trans hroot
    · refine (forall_update_iff t.node fun m o => Exact o (t.linkCount m) (t.opens m) (pin m)).mpr ⟨?_, hother⟩
      show t.linkCount n + t.opens n + pin n = 0
      omega
  · simp only [hnode, Option.any_some, hlast, beq_iff_eq, if_false]
    have hdir : (t.setNode n fun nd => { nd with refcount := nd.refcount - 1 }).isDir = t.isDir :=
      setNode_isDir fun _ => rfl
    refine ⟨hdir ▸ htree, hdir ▸ hroot, ?_, hremovals⟩
    intro m
    by_cases hmn : m = n
    · subst hmn
      rw [setNode_self, hnode]
      show nd.nlink = t.linkCount m ∧ nd.refcount - 1 = t.linkCount m + t.opens m + pin m ∧
        0 < nd.refcount - 1
      refine ⟨hlink, ?_, ?_⟩ <;> omega
    · rw [setNode_of_ne _ hmn]
      exact hother m hmn

/-! ### The operations -/

/-- **Adding a name.**  The counters of the inode are exact before, whether or not it has a
name yet; a directory has none. -/
theorem addDirent_sound (nd : TmpfsNode) (htree : IsTree t.isDir root t.dirents)
    (hrootDir : t.isDir root = true)
    (hother : ∀ m, m ≠ inode → Exact (t.node m) (t.linkCount m) (t.opens m) (pin m))
    (hnode : t.node inode = some nd) (hlink : nd.nlink = t.linkCount inode)
    (href : nd.refcount = t.linkCount inode + t.opens inode + pin inode)
    (hremovals : ∀ r ∈ t.removals, r.isDir = true → r.empty = true)
    (hdir : t.isDir dir = true) (hfits : name.length ≤ 127) (hbelow : Below t.dirents root dir)
    (hroot : inode ≠ root) (hsole : t.isDir inode = true → t.linkCount inode = 0)
    (ht : t.addDirent dir name inode mem = some t') : t'.Sound := by
  unfold Tmpfs.addDirent at ht
  split_ifs at ht with hfound hmem
  cases ht
  have hkeep : (t.setNode inode fun nd =>
      { nd with nlink := nd.nlink + 1, refcount := nd.refcount + 1 }).isDir = t.isDir :=
    setNode_isDir fun _ => rfl
  have hnone : t.findDirent dir name = none := Option.not_isSome_iff_eq_none.mp hfound
  refine ⟨?_, ?_, fun m => ?_, hremovals⟩
  · show IsTree (t.setNode inode _).isDir root _
    rw [hkeep, storedName_of_fits hfits]
    exact htree.add hdir (findDirent_none hdir hnone) hroot hsole hbelow
  · show (t.setNode inode _).isDir root = true
    rw [hkeep]
    exact hrootDir
  · show Exact ((t.setNode inode _).node m) (links (_ :: t.dirents) m) (t.opens m) (pin m)
    rw [links_cons]
    by_cases hm : m = inode
    · subst hm
      rw [setNode_self, hnode, if_pos rfl]
      refine ⟨congrArg (· + 1) hlink, ?_, Nat.succ_pos _⟩
      show nd.refcount + 1 = t.linkCount m + 1 + t.opens m + pin m
      omega
    · rw [setNode_of_ne _ hm, if_neg (Ne.symm hm)]
      exact hother m hm

section

variable (h : t.Sound)
include h

/-- Adding a name to a live inode. -/
theorem Sound.addDirent (hdir : t.isDir dir = true) (hfits : name.length ≤ 127)
    (hatt : t.Attached dir) (hfile : t.isDir inode = false) (hlive : (t.node inode).isSome)
    (ht : t.addDirent dir name inode mem = some t') : t'.Sound := by
  obtain ⟨nd, hnode⟩ := Option.isSome_iff_exists.mp hlive
  have hroot : inode ≠ root := by
    rintro rfl
    rw [h.rootDir] at hfile
    cases hfile
  obtain ⟨hn, hr, -⟩ : Exact (some nd) _ _ _ := hnode ▸ h.exact inode
  exact addDirent_sound nd h.tree h.rootDir (fun m _ => h.exact m) hnode hn hr h.removals hdir hfits
    (h.below_of_attached hatt) hroot (fun hd => absurd (hd.symm.trans hfile) (by decide)) ht

/-- A fresh inode with its first name. -/
theorem Sound.makeNode (hdir : t.isDir dir = true) (hfits : name.length ≤ 127)
    (hatt : t.Attached dir) (hfree : t.node n = none)
    (ht : (t.allocInode n isDir).addDirent dir name n mem = some t') : t'.Sound := by
  obtain ⟨hlinks, hopens, hroot⟩ := h.links_of_none hfree
  have hnode : ∀ m, m ≠ n → (t.allocInode n isDir).node m = t.node m := fun m hm =>
    update_of_ne hm _ _
  have hnew : (t.allocInode n isDir).node n = some ⟨isDir, 0, 0⟩ := update_self _ _ _
  have hdirs : ∀ m, m ≠ n → (t.allocInode n isDir).isDir m = t.isDir m := by
    intro m hm
    unfold Tmpfs.isDir
    rw [hnode m hm]
  have hlive : ∀ {d : Nat}, t.isDir d = true → d ≠ n := by
    rintro d hd rfl
    obtain ⟨nd, hnd, -⟩ := isDir_iff.mp hd
    rw [hfree] at hnd
    cases hnd
  have htree : IsTree (t.allocInode n isDir).isDir root t.dirents := by
    refine h.tree.changeDirs (fun e he => ?_) (fun m hm => ?_)
    · have hd := h.tree.holder e he
      rwa [hdirs _ (hlive hd)]
    · by_cases hmn : m = n
      · exact .inr (hmn ▸ hlinks)
      · exact .inl (hdirs m hmn ▸ hm)
  have hdir' : (t.allocInode n isDir).isDir dir = true := (hdirs dir (hlive hdir)).trans hdir
  -- the new inode has no name, no open file and no counter yet
  refine addDirent_sound _ htree ((hdirs root hroot.symm).trans h.rootDir) (fun m hm => ?_) hnew hlinks.symm ?_
    h.removals hdir' hfits (h.below_of_attached hatt) hroot (fun _ => hlinks) ht
  · rw [hnode m hm]
    exact h.exact m
  · show 0 = t.linkCount n + t.opens n + pin n
    rw [hlinks, hopens, pin, if_neg hroot]

/-- Unlinking what is not a directory with entries. -/
theorem Sound.tmpDelete (hclean : ∀ e, t.findDirent dir name = some e → t.isDir e.target = true →
      t.isEmpty e.target = true)
    (ht : t.tmpDelete dir name = some t') : t'.Sound := by
  obtain ⟨e, hfind, rfl⟩ := Option.map_eq_some_iff.mp ht
  have hperm := perm_eraseP hfind
  have hmem : e ∈ t.dirents := hperm.mem_iff.mpr List.mem_cons_self
  obtain ⟨nd, hnode⟩ := h.node_of_entry hmem
  have hempty := h.target_empty (hclean e hfind)
  have hrest : ∀ d ∈ t.dirents.eraseP (isEntry dir name), d.dir ≠ e.target := fun d hd =>
    hempty d (hperm.mem_iff.mpr (List.mem_cons_of_mem _ hd))
  -- taking the entry out lowers one link count, that of its target
  have hlinks : ∀ m, t.linkCount m = links (t.dirents.eraseP (isEntry dir name)) m +
      if e.target = m then 1 else 0 := fun m =>
    (links_perm hperm m).trans (links_cons e _ m)
  have hkeep : (t.setNode e.target fun nd => { nd with nlink := nd.nlink - 1 }).isDir = t.isDir :=
    setNode_isDir fun _ => rfl
  have hx := h.exact e.target
  rw [hnode] at hx
  obtain ⟨hn, hr, -⟩ := hx
  have hself := hlinks e.target
  rw [if_pos rfl] at hself
  refine dropRef_sound { nd with nlink := nd.nlink - 1 } ?_ ?_ ?_ ?_ ?_ ?_ ?_ ?_
  · show IsTree (t.setNode e.target _).isDir root _
    rw [hkeep]
    exact (h.tree.perm hperm).remove hrest
  · show (t.setNode e.target _).isDir root = true
    rw [hkeep]
    exact h.rootDir
  · intro m hm
    show Exact ((t.setNode e.target _).node m) (links (t.dirents.eraseP _) m) (t.opens m) (pin m)
    rw [setNode_of_ne _ hm]
    have hm' := hlinks m
    rw [if_neg (Ne.symm hm)] at hm'
    rw [← Nat.add_zero (links (t.dirents.eraseP _) m), ← hm']
    exact h.exact m
  · exact (setNode_self _).trans (by rw [hnode]; rfl)
  · show nd.nlink - 1 = links (t.dirents.eraseP _) e.target
    omega
  · show nd.refcount = links (t.dirents.eraseP _) e.target + t.opens e.target + pin e.target + 1
    omega
  · exact fun _ => hrest
  · rintro r (_ | ⟨_, hr'⟩) hdir
    · exact hclean e hfind hdir
    · exact h.removals r hr' hdir

theorem Sound.tmpRmdir (ht : t.tmpRmdir dir name = some t') : t'.Sound := by
  unfold Tmpfs.tmpRmdir at ht
  split at ht
  · cases ht
  · next e hfind =>
    split_ifs at ht with hcheck
    refine h.tmpDelete (fun e' hfind' _ => ?_) ht
    obtain rfl := Option.some.inj (hfind.symm.trans hfind')
    exact (Bool.and_eq_true_iff.mp hcheck).2

/-- An entry changes its place or its name; its inode keeps its counters. -/
theorem Sound.moveEntry (e' : Dirent) (hfind : t.findDirent dir name = some e)
    (htarget : e'.target = e.target) (hdir : t.isDir e'.dir = true)
    (hname : e'.key ∉ t.dirents.map Entry.key) (hreach : Below t.dirents root e'.dir)
    (hbelow : ¬ Below t.dirents e.target e'.dir)
    (hdirents : t'.dirents.Perm (e' :: t.dirents.eraseP (isEntry dir name)))
    (hnode : t'.node = t.node) (hopens : t'.opens = t.opens)
    (hremovals : t'.removals = t.removals) : t'.Sound := by
  have hperm := perm_eraseP hfind
  -- the entry keeps its target, so no link count changes
  have hlinks : ∀ m, t'.linkCount m = t.linkCount m := by
    intro m
    show links _ m = links _ m
    rw [links_perm hdirents, links_perm hperm, links_cons, links_cons, htarget]
  have hback : ∀ d ∈ t.dirents, d ∈ e :: t.dirents.eraseP (isEntry dir name) := fun _ =>
    hperm.mem_iff.mp
  have hforth : ∀ d ∈ e :: t.dirents.eraseP (isEntry dir name), d ∈ t.dirents := fun _ =>
    hperm.mem_iff.mpr
  have hkey : e'.key ∉ (t.dirents.eraseP (isEntry dir name)).map Entry.key := fun hmem => by
    obtain ⟨d, hd, hdk⟩ := List.mem_map.mp hmem
    exact hname (List.mem_map.mpr ⟨d, hforth d (List.mem_cons_of_mem _ hd), hdk⟩)
  have hdirs : t'.isDir = t.isDir := by
    funext m
    unfold isDir
    rw [hnode]
  refine ⟨?_, ?_, ?_, ?_⟩
  · rw [hdirs]
    exact ((h.tree.perm hperm).move htarget hdir hkey (hreach.mono hback)
      fun hb => hbelow (hb.mono hforth)).perm hdirents.symm
  · rw [hdirs]
    exact h.rootDir
  · intro m
    rw [hnode, hlinks, hopens]
    exact h.exact m
  · rw [hremovals]
    exact h.removals

/-- A directory does not lie below what it holds. -/
theorem Sound.not_below_entry (he : e ∈ t.dirents) :
    ¬ Below t.dirents e.target e.dir := fun hb =>
  h.tree.acyclic e.dir (Relation.TransGen.head' ⟨e, he, rfl, rfl⟩ hb)

theorem Sound.tmpRename {oldname newname : FileName} (hfits : newname.length ≤ 127)
    (ht : t.tmpRename dir oldname newname = some t') : t'.Sound := by
  unfold Tmpfs.tmpRename at ht
  split at ht
  · cases ht
  · next e hfind =>
    split_ifs at ht with hfound
    cases ht
    have hmem : e ∈ t.dirents := (perm_eraseP hfind).mem_iff.mpr List.mem_cons_self
    have hdir : e.dir = dir := (findDirent_some hfind).1
    have hisDir : t.isDir dir = true := hdir ▸ h.tree.holder e hmem
    have hnone := findDirent_none hisDir (Option.not_isSome_iff_eq_none.mp hfound)
    refine h.moveEntry { e with name := storedName newname } hfind rfl
      (h.tree.holder e hmem) ?_ (h.tree.reach e hmem) (h.not_below_entry hmem)
      (perm_replaceF hfind) rfl rfl rfl
    rw [storedName_of_fits hfits]
    exact hdir ▸ hnone

theorem Sound.tmpRename2 {olddir newdir : Nat} {oldname newname : FileName}
    (hfits : newname.length ≤ 127) (hatt : t.Attached newdir)
    (hbelow : ∀ e, t.findDirent olddir oldname = some e → t.isDir e.target = true →
      ¬ Below t.dirents e.target newdir)
    (ht : t.tmpRename2 olddir oldname newdir newname mem = some t') : t'.Sound := by
  unfold Tmpfs.tmpRename2 at ht
  by_cases hdirs : (t.isDir olddir && t.isDir newdir) = true
  case neg =>
    rw [if_neg hdirs] at ht
    cases ht
  rw [if_pos hdirs] at ht
  obtain ⟨-, hnew⟩ := Bool.and_eq_true_iff.mp hdirs
  split at ht
  · cases ht
  · next e hfind =>
    split_ifs at ht with hfound hmem
    cases ht
    have hin : e ∈ t.dirents := (perm_eraseP hfind).mem_iff.mpr List.mem_cons_self
    obtain ⟨nd, hnode⟩ := h.node_of_entry hin
    have hx := h.exact e.target
    rw [hnode] at hx
    have hpos : 0 < t.linkCount e.target := links_pos.mpr ⟨e, hin, rfl⟩
    have hnlink : nd.nlink - 1 + 1 = nd.nlink := by
      have := hx.1
      omega
    -- one name less and one name more
    have hsame : (t.setNode e.target fun nd => { nd with nlink := nd.nlink - 1 + 1 }).node =
        t.node := by
      show update t.node e.target ((t.node e.target).map _) = t.node
      rw [hnode, Option.map_some, hnlink, ← hnode, update_eq_self]
    have hnone := findDirent_none hnew (Option.not_isSome_iff_eq_none.mp hfound)
    refine h.moveEntry ⟨newdir, storedName newname, e.target⟩ hfind rfl hnew ?_
      (h.below_of_attached hatt) ?_ (List.Perm.refl _) hsame rfl rfl
    · rw [storedName_of_fits hfits]
      exact hnone
    · intro hb
      by_cases hfile : t.isDir e.target = true
      · exact hbelow e hfind hfile hb
      · -- a file holds nothing, so the directory would be the file
        have hleaf : ∀ d ∈ t.dirents, d.dir ≠ e.target := fun d hd heq =>
          hfile (heq ▸ h.tree.holder d hd)
        exact hfile (below_eq_of_empty hleaf hb ▸ hnew)

theorem Sound.tmpOpen (hlive : (t.node n).isSome) : (t.tmpOpen n).Sound := by
  obtain ⟨nd, hnode⟩ := Option.isSome_iff_exists.mp hlive
  have hkeep : (t.setNode n fun nd => { nd with refcount := nd.refcount + 1 }).isDir = t.isDir :=
    setNode_isDir fun _ => rfl
  refine ⟨?_, ?_, ?_, h.removals⟩
  · show IsTree (t.setNode n _).isDir root t.dirents
    rw [hkeep]
    exact h.tree
  · show (t.setNode n _).isDir root = true
    rw [hkeep]
    exact h.rootDir
  · intro m
    show Exact ((t.setNode n _).node m) (t.linkCount m) (update t.opens n _ m) (pin m)
    have hx := h.exact m
    by_cases hm : m = n
    · subst hm
      rw [hnode] at hx
      rw [setNode_self, hnode, update_self]
      obtain ⟨hn, hr, -⟩ := hx
      refine ⟨hn, ?_, Nat.succ_pos _⟩
      show nd.refcount + 1 = t.linkCount m + (t.opens m + 1) + pin m
      omega
    · rw [setNode_of_ne _ hm, update_of_ne hm]
      exact hx

theorem Sound.tmpClose (hopen : 0 < t.opens n) : (t.tmpClose n).Sound := by
  have hx := h.exact n
  rcases hnode : t.node n with - | nd
  · have := (h.links_of_none hnode).2.1
    omega
  rw [hnode] at hx
  obtain ⟨hn, hr, hpos⟩ := hx
  have hne : ¬ nd.refcount = 0 := by omega
  unfold Tmpfs.tmpClose
  simp only [hnode, Option.any_some, beq_iff_eq, hne]
  refine dropRef_sound nd h.tree h.rootDir ?_ hnode hn ?_ ?_ h.removals
  · intro m hm
    show Exact (t.node m) (t.linkCount m) (update t.opens n _ m) (pin m)
    rw [update_of_ne hm]
    exact h.exact m
  · show nd.refcount = t.linkCount n + update t.opens n (t.opens n - 1) n + pin n + 1
    rw [update_self]
    omega
  · intro hlast
    have hroot : n ≠ root := by
      rintro rfl
      rw [show pin root = 1 from rfl] at hr
      omega
    exact h.tree.empty_of_unnamed hroot (by
      show t.linkCount n = 0
      omega)

end

/-! ### Whole runs -/

theorem mounted_sound : mounted.Sound where
  tree := isTree_nil _ _
  rootDir := rfl
  exact := by
    intro n
    show Exact (if n = root then some ⟨true, 0, 1⟩ else none) 0 0 (pin n)
    unfold pin
    split_ifs
    · exact ⟨rfl, rfl, Nat.one_pos⟩
    · rfl
  removals := by simp [mounted]

section

variable (h : t.Sound)
include h

theorem Sound.makeNode_sound {inode : Option Nat} (hfits : name.length ≤ 127)
    (hatt : t.Attached dir) (hfree : inode.all (fun n => (t.node n).isNone) = true)
    (ht : t.makeNode isDir dir name inode mem = some t') : t'.Sound := by
  unfold Tmpfs.makeNode at ht
  split_ifs at ht with hdir
  split at ht
  · cases ht
  · exact h.makeNode hdir hfits hatt (Option.isNone_iff_eq_none.mp hfree) ht

theorem Sound.apply (hclean : t.Clean op) (hposs : t.possible op = true)
    (ht : t.apply op = some t') : t'.Sound := by
  cases op with
  | create dir name inode mem | mkdir dir name inode mem =>
    exact h.makeNode_sound hclean.1 hclean.2 (Bool.and_eq_true_iff.mp hposs).2 ht
  | delete dir name => exact h.tmpDelete hclean ht
  | rmdir dir name => exact h.tmpRmdir ht
  | rename dir oldname newname => exact h.tmpRename hclean ht
  | rename2 olddir oldname newdir newname mem =>
    exact h.tmpRename2 hclean.1 hclean.2.1 hclean.2.2 ht
  | link dir name target mem =>
    have ht : t.tmpLink dir name target mem = some t' := ht
    unfold tmpLink at ht
    split_ifs at ht with hcheck
    obtain ⟨hdir, hfile⟩ := Bool.and_eq_true_iff.mp hcheck
    exact h.addDirent hdir hclean.1 hclean.2 (by simpa using hfile)
      (Bool.and_eq_true_iff.mp hposs).2 ht
  | openNode n =>
    obtain rfl := Option.some.inj ht
    exact h.tmpOpen hposs
  | closeNode n =>
    obtain rfl := Option.some.inj ht
    exact h.tmpClose (of_decide_eq_true hposs)

theorem Sound.step (hclean : t.Clean op) (hs : t.step op = some t') : t'.Sound := by
  unfold Tmpfs.step at hs
  split_ifs at hs with hposs
  cases hs
  rcases hap : t.apply op with - | t'
  · exact h
  · exact h.apply hclean hposs hap

theorem Sound.isFileTree : t.IsFileTree where
  directory := by
    intro n hdir hroot
    obtain ⟨nd, hnode, -⟩ := isDir_iff.mp hdir
    have hx := h.exact n
    rw [hnode] at hx
    obtain ⟨-, hr, hpos⟩ := hx
    rw [pin, if_neg hroot] at hr
    have hle : t.linkCount n ≤ 1 := h.tree.once n hdir
    -- without a name it was removed, and only its opens keep it
    by_cases hone : t.linkCount n = 0
    · exact .inr ⟨hone, isEmpty_iff.mpr (h.tree.empty_of_unnamed hroot hone), by omega⟩
    · exact .inl ⟨by omega, h.tree.below_of_named (Nat.pos_of_ne_zero hone)⟩
  acyclic := h.tree.acyclic
  siblings := h.tree.names
  dirents_live := fun e he => by
    obtain ⟨nd, hnode⟩ := h.node_of_entry he
    exact ⟨h.tree.holder e he, by simp [hnode]⟩
  removed_empty := h.removals
  freed := by
    intro n
    constructor
    · intro hnone
      obtain ⟨hl, ho, hroot⟩ := h.links_of_none hnone
      exact ⟨hroot, by omega⟩
    · rintro ⟨hroot, hzero⟩
      have hx := h.exact n
      rcases hnode : t.node n with - | nd
      · rfl
      · rw [hnode] at hx
        obtain ⟨-, hr, hpos⟩ := hx
        rw [pin, if_neg hroot] at hr
        omega

end

/-- **Main result.**  In every run of calls that keep to `Clean` the filesystem
is a tree whose inodes are freed exactly when they are neither named nor open,
in every state reached. -/
theorem tmpfs_is_tree {ops : List Op} {t : Tmpfs}
    (hclean : MeetsAll step Clean mounted ops) (hrun : run step mounted ops = some t) :
    t.IsFileTree :=
  (run_invariant Sound.step mounted_sound hclean
    hrun).isFileTree

/-- `Clean` for runs in which the directories that are moved are empty, as a check. -/
def cleanLeaf (t : Tmpfs) : Op → Bool
  | .create dir name _ _ | .mkdir dir name _ _ | .link dir name _ _ =>
    decide (name.length ≤ 127) && decide (dir = root ∨ 0 < t.linkCount dir)
  | .delete dir name =>
    (t.findDirent dir name).all fun e => !t.isDir e.target || t.isEmpty e.target
  | .rename _ _ newname => decide (newname.length ≤ 127)
  | .rename2 olddir oldname newdir newname _ =>
    decide (newname.length ≤ 127) && decide (newdir = root ∨ 0 < t.linkCount newdir) &&
      (t.findDirent olddir oldname).all fun e =>
        t.isEmpty e.target && decide (newdir ≠ e.target)
  | .rmdir _ _ | .openNode _ | .closeNode _ => true

theorem clean_of_cleanLeaf (h : t.cleanLeaf op = true) : t.Clean op := by
  cases op with
  | create dir name inode mem | mkdir dir name inode mem | link dir name target mem =>
    simpa [cleanLeaf, Clean, Attached] using h
  | rename dir oldname newname => simpa [cleanLeaf, Clean] using h
  | rmdir dir name => trivial
  | openNode n => trivial
  | closeNode n => trivial
  | delete dir name =>
    intro e hfind hdir
    simpa [cleanLeaf, hfind, hdir] using h
  | rename2 olddir oldname newdir newname mem =>
    simp only [cleanLeaf, Bool.and_eq_true, decide_eq_true_eq] at h
    refine ⟨h.1.1, h.1.2, fun e hfind _ hb => ?_⟩
    have hleaf := h.2
    simp only [hfind, Option.all_some, Bool.and_eq_true, decide_eq_true_eq] at hleaf
    exact hleaf.2 (below_eq_of_empty (isEmpty_iff.mp hleaf.1) hb)

/-- A directory is moved below another one, a file is unlinked while it is open
and freed by its last close, and its id is used again. -/
theorem tmpfs_is_tree_moved : ∃ t, run step mounted
      [.mkdir 0 [97] (some 1) true, .mkdir 0 [98] (some 2) true, .create 1 [102] (some 3) true,
        .rename2 0 [98] 1 [99] true, .openNode 3, .delete 1 [102], .closeNode 3,
        .create 2 [103] (some 3) true] = some t ∧
    t.dirents = [⟨2, [103], 3⟩, ⟨1, [99], 2⟩, ⟨0, [97], 1⟩] ∧ t.IsFileTree := by
  refine exists_of_check
    (by decide +kernel) fun t ht hents => ⟨hents, ?_⟩
  exact tmpfs_is_tree (MeetsAll.mono (by decide +kernel)
    fun t op (h : t.cleanLeaf op = true) => clean_of_cleanLeaf h) ht

/-- A directory is moved below itself; two siblings get the same stored name; a
directory is unlinked together with the file in it; a directory is made in one
that was removed while open. -/
theorem tree_broken :
    (∃ t, run step mounted [.mkdir 0 [97] (some 1) true, .mkdir 1 [98] (some 2) true,
        .rename2 0 [97] 2 [99] true] = some t ∧
      t.dirents = [⟨2, [99], 1⟩, ⟨1, [98], 2⟩] ∧ ¬t.IsFileTree) ∧
    (∃ t, run step mounted [.create 0 (List.replicate 128 97) (some 1) true,
        .create 0 (List.replicate 129 97) (some 2) true] = some t ∧
      t.dirents.map Entry.key = [(0, List.replicate 127 97), (0, List.replicate 127 97)] ∧
      ¬t.IsFileTree) ∧
    (∃ t, run step mounted [.mkdir 0 [97] (some 1) true, .create 1 [98] (some 2) true,
        .delete 0 [97]] = some t ∧
      t.removals = [⟨1, true, false⟩] ∧ ¬t.IsFileTree) ∧
    ∃ t, run step mounted [.mkdir 0 [97] (some 1) true, .openNode 1, .rmdir 0 [97],
        .mkdir 1 [98] (some 2) true] = some t ∧
      t.dirents = [⟨1, [98], 2⟩] ∧ ¬t.IsFileTree := by
  refine ⟨exists_of_check (by decide +kernel)
      fun t _ hents => ⟨hents, fun h => h.acyclic 1 ?_⟩,
    exists_of_check
      (by decide +kernel) fun t _ hkeys => ⟨hkeys, fun h => ?_⟩,
    exists_of_check (by decide +kernel)
      fun t _ hrem => ⟨hrem, fun h => ?_⟩,
    exists_of_check (p := fun t => t.dirents = [⟨1, [98], 2⟩] ∧ t.isDir 1 = true) (by decide +kernel)
      fun t _ ⟨hents, hdir⟩ => ⟨hents, fun h => ?_⟩⟩
  · rw [hents]
    exact .head ⟨⟨1, [98], 2⟩, by simp, rfl, rfl⟩ (.single ⟨⟨2, [99], 1⟩, by simp, rfl, rfl⟩)
  · have hnodup := h.siblings
    rw [hkeys] at hnodup
    simp at hnodup
  · have hempty := h.removed_empty ⟨1, true, false⟩ (by rw [hrem]; exact List.mem_singleton_self _) rfl
    exact absurd hempty (by decide)
  · rcases h.directory 1 hdir (by decide) with ⟨hone, -⟩ | ⟨-, hempty, -⟩
    · rw [linkCount, hents] at hone
      exact absurd hone (by decide)
    · rw [isEmpty, hents] at hempty
      exact absurd hempty (by decide)

end Tmpfs

end CactKernel
