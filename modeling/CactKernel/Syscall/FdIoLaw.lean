/-
CactKernel/Syscall/FdIoLaw.lean

File permissions are enforced, except where the source forgets to ask.

`Enforced s c` is what a call `c` in the state `s` has to keep: the bytes of a
node change only if write permission was granted, at the open of the descriptor
used or at the truncation; a read gives bytes only if read permission was granted
at the open; and the entries of a directory change only if the process has write
and search permission on it.

`Allowed s s' W E` says what a change of state touches: bytes of nodes in `W`,
entries of directories in `E`.  Each command is composed of a few such changes.

Three places of the source break the law.  `sys_read`, `sys_write` and the
`ftruncate` command never look at the access mode of the description, so a
descriptor serves for more than was granted when it was opened; and `mknod` makes
a name without asking for the directory.  `Clean` leaves these out.
-/
import CactKernel.Syscall.FdIo

namespace CactKernel

namespace FdSys

open Function Runs

/-! ### The property -/

/-- A permission is part of a set of permissions. -/
def Grants (granted perm : BitVec 32) : Prop := granted &&& perm = perm
deriving Decidable

/-- Write permission on the node was granted for the call: at the open of the
descriptor it uses, or by the call itself. -/
def WriteGranted (s : FdSys) (c : Call) (n : Nat) : Prop :=
  match c with
  | .write fd _ _ | .ftruncate fd _ _ =>
    ∃ k f, s.getFile fd = some (k, f) ∧ f.node = n ∧ Grants f.granted permWrite
  | .openPath _ _ _ | .openat _ _ _ _ | .truncate _ _ _ _ => s.checkPerm n permWrite = true
  | _ => False

/-- What the permission bits promise of one call. -/
structure Enforced (look : Lookup) (s : FdSys) (c : Call) : Prop where
  data : ∀ n node node', s.nodes n = some node → (s.exec look c).1.nodes n = some node' →
    node.mode ≠ 0 → node'.data ≠ node.data → s.WriteGranted c n
  read : ∀ fd size count, c = .read fd size count → (s.exec look c).2.bytes ≠ [] →
    ∃ k f, s.getFile fd = some (k, f) ∧ Grants f.granted permRead
  entries : ∀ d node node', s.nodes d = some node → (s.exec look c).1.nodes d = some node' →
    node'.entries ≠ node.entries → s.checkPerm d (permWrite ||| permExec) = true

/-- The calls for which the source's checks are enough. -/
def Clean (s : FdSys) : Call → Prop
  | .read fd _ _ => ∀ k f, s.getFile fd = some (k, f) →
    f.flags &&& openAccmode = 0 ∨ f.flags &&& openAccmode = 2
  | .write fd _ _ | .ftruncate fd _ _ => ∀ k f, s.getFile fd = some (k, f) →
    f.flags &&& openAccmode = 1 ∨ f.flags &&& openAccmode = 2
  | .mknod fd _ _ _ => ∀ k f, s.getFile fd = some (k, f) →
    s.checkPerm f.node (permWrite ||| permExec) = true
  | _ => True

/-- Every description was granted what its access mode says. -/
def Honest (s : FdSys) : Prop := ∀ k f, s.files k = some f → f.granted = openNeed f.flags

/-! ### Permissions -/

variable {flags perm need : BitVec 32} {node : VfsNode}

theorem openNeed_read (h : flags &&& openAccmode = 0 ∨ flags &&& openAccmode = 2) :
    Grants (openNeed flags) permRead := by
  rcases h with h | h <;> simp only [openNeed, h] <;> decide

theorem openNeed_write (h : flags &&& openAccmode = 1 ∨ flags &&& openAccmode = 2) :
    Grants (openNeed flags) permWrite := by
  rcases h with h | h <;> simp only [openNeed, h] <;> decide

/-- `F_SETFL` does not reach the access mode. -/
theorem openNeed_setfl (flags arg : BitVec 32) :
    openNeed ((flags &&& ~~~setflMask) ||| (arg &&& setflMask)) = openNeed flags := by
  have hmask : ((flags &&& ~~~setflMask) ||| (arg &&& setflMask)) &&& openAccmode =
      flags &&& openAccmode := by
    rw [BitVec.and_or_distrib_right, BitVec.and_assoc, BitVec.and_assoc,
      show ~~~setflMask &&& openAccmode = openAccmode by decide,
      show setflMask &&& openAccmode = 0 by decide]
    simp
  simp only [openNeed, hmask]

/-- Who is granted a set of permissions is granted its parts. -/
theorem vfsCheckPerm_mono {cred : Cred} (hsub : Grants need perm)
    (h : vfsCheckPerm cred node need = true) : vfsCheckPerm cred node perm = true := by
  unfold vfsCheckPerm at h ⊢
  split_ifs at h ⊢ <;>
    first
    | rfl
    | (simp only [decide_eq_true_eq] at h ⊢
       rw [← hsub, ← BitVec.and_assoc, h])

theorem checkPerm_mono {s : FdSys} {n : Nat} (hsub : Grants need perm)
    (h : s.checkPerm n need = true) : s.checkPerm n perm = true := by
  obtain ⟨node, hnode, hperm⟩ := Option.any_eq_true .. |>.mp h
  exact Option.any_eq_true .. |>.mpr ⟨node, hnode, vfsCheckPerm_mono hsub hperm⟩

/-! ### What a change of state touches -/

/-- The nodes stay; bytes change in `W` only and entries in `E` only. -/
structure Allowed (s s' : FdSys) (W E : Nat → Prop) : Prop where
  kept : ∀ n node, s.nodes n = some node → ∃ node', s'.nodes n = some node' ∧
    (node'.data ≠ node.data → W n) ∧ (node'.entries ≠ node.entries → E n)
  honest : s.Honest → s'.Honest

variable {s s' s'' : FdSys} {W E : Nat → Prop} {look : Lookup} {dir n fd size len k : Nat}
  {name : FileName} {fresh count : Option Nat} {flags : BitVec 32} {ok : Bool} {ans : OpenAnswers}
  {f : VfsNode → VfsNode} {change : FdSys × Int} {type : VfsType} {err : OpenErrors} {c : Call}

theorem Allowed.refl (s : FdSys) : Allowed s s W E where
  kept _ node hn := ⟨node, hn, fun h => absurd rfl h, fun h => absurd rfl h⟩
  honest h := h

/-- Two changes in turn; what the second may write of the nodes that were there, `W` allows. -/
theorem Allowed.trans_of {W' : Nat → Prop} (h : Allowed s s' W E) (h' : Allowed s' s'' W' E)
    (hW : ∀ n node, s.nodes n = some node → W' n → W n) : Allowed s s'' W E where
  kept n node hn := by
    obtain ⟨node', hn', hdata, hentries⟩ := h.kept n node hn
    obtain ⟨node'', hn'', hdata', hentries'⟩ := h'.kept n node' hn'
    refine ⟨node'', hn'', fun hne => ?_, fun hne => ?_⟩
    · by_cases heq : node'.data = node.data
      · exact hW n node hn (hdata' (heq ▸ hne))
      · exact hdata heq
    · by_cases heq : node'.entries = node.entries
      · exact hentries' (heq ▸ hne)
      · exact hentries heq
  honest hs := h'.honest (h.honest hs)

theorem Allowed.trans (h : Allowed s s' W E) (h' : Allowed s' s'' W E) : Allowed s s'' W E :=
  h.trans_of h' fun _ _ _ => id

/-- One node changes, or comes. -/
theorem allowed_update {o : Option VfsNode}
    (h : ∀ node, s.nodes n = some node → ∃ node', o = some node' ∧
      (node'.data ≠ node.data → W n) ∧ (node'.entries ≠ node.entries → E n)) :
    Allowed s { s with nodes := update s.nodes n o } W E where
  kept := (forall_update_iff s.nodes fun m o' => ∀ node, s.nodes m = some node → ∃ node',
      o' = some node' ∧ (node'.data ≠ node.data → W m) ∧ (node'.entries ≠ node.entries → E m)).mpr
    ⟨h, fun m _ => (Allowed.refl s).kept m⟩
  honest h := h

theorem allowed_setNode (hW : ∀ node, (f node).data ≠ node.data → W n)
    (hE : ∀ node, (f node).entries ≠ node.entries → E n) : Allowed s (s.setNode n f) W E :=
  allowed_update fun node hn => ⟨f node, by rw [hn, Option.map_some], hW node, hE node⟩

theorem allowed_setFd (k : Option Nat) : Allowed s (s.setFd fd k) W E where
  kept := (Allowed.refl s).kept
  honest h := h

theorem allowed_setFile {f : OpenFile} (hf : s.Honest → f.granted = openNeed f.flags) :
    Allowed s (s.setFile k f) W E where
  kept := (Allowed.refl s).kept
  honest h := (forall_update_iff s.files fun _ o => ∀ f', o = some f' → f'.granted = openNeed f'.flags).mpr
    ⟨fun _ hf' => Option.some.inj hf' ▸ hf h, fun k' _ f' => h k' f'⟩

theorem allowed_truncate (hW : W n) : Allowed s (s.truncateVfs n len ok).1 W E := by
  unfold truncateVfs
  split_ifs
  · exact allowed_setNode (fun _ _ => hW) fun _ h => absurd rfl h
  · exact .refl s

theorem allowed_entries (hf : ∀ node, (f node).data = node.data)
    (hE : E n) : Allowed s (s.setNode n f) W E :=
  allowed_setNode (fun node h => absurd (hf node) h) fun _ _ => hE

theorem allowed_addNode (node : VfsNode) (hfree : s.nodes n = none) :
    Allowed s { s with nodes := update s.nodes n (some node) } W E :=
  allowed_update fun _ hn => nomatch hfree.symm.trans hn

theorem setNode_none {m : Nat} (h : s.nodes m = none) : (s.setNode n f).nodes m = none := by
  show update s.nodes n ((s.nodes n).map f) m = none
  by_cases heq : m = n
  · subst heq
    rw [update_self, h, Option.map_none]
  · rw [update_of_ne heq]
    exact h

/-- A new name changes the entries of its directory; the new node was not there. -/
theorem allowed_make (hE : E dir) : Allowed s (s.makeVfs type dir name fresh).1 W E := by
  unfold makeVfs
  split
  · exact .refl s
  · next n =>
    split_ifs with hfree
    · have hname : Allowed s (s.setNode dir fun node =>
          { node with entries := (name, n) :: node.entries }) W E :=
        allowed_entries (fun _ => rfl) hE
      exact hname.trans (allowed_addNode _ (setNode_none hfree.2))
    · exact .refl s

/-- Making a name leaves the permissions of the nodes that were there. -/
theorem checkPerm_make (hn : s.nodes n = some node)
    (h : (s.makeVfs type dir name fresh).1.checkPerm n perm = true) : s.checkPerm n perm = true := by
  unfold makeVfs at h
  split at h
  · exact h
  · next m =>
    split_ifs at h with hfree
    · have hne : n ≠ m := by
        rintro rfl
        rw [hfree.2] at hn
        cases hn
      unfold checkPerm at h ⊢
      simp only [update_of_ne hne, setNode] at h
      by_cases heq : n = dir
      · subst heq
        rw [update_self, hn] at h
        rw [hn]
        exact h
      · rwa [update_of_ne heq] at h
    · exact h

theorem allowed_guarded
    (h : s.dirWx dir = true → Allowed s change.1 W E) : Allowed s (s.guarded dir change).1 W E := by
  unfold guarded
  split_ifs with hwx
  · exact h hwx
  · exact .refl s

theorem allowed_ifAbsent
    (h : Allowed s change.1 W E) : Allowed s (s.ifAbsent look dir name change).1 W E := by
  unfold ifAbsent
  split_ifs
  · exact .refl s
  · exact h

theorem allowed_ifPresent {change : Nat → FdSys × Int}
    (h : ∀ n, Allowed s (change n).1 W E) : Allowed s (s.ifPresent look dir name change).1 W E := by
  unfold ifPresent
  split
  · exact .refl s
  · exact h _

theorem allowed_onDir {command : Nat → FdSys × Int}
    (h : ∀ k f, s.getFile fd = some (k, f) → Allowed s (command f.node).1 W E) :
    Allowed s (plain (s.onDir fd command)).1 W E := by
  unfold onDir
  split
  · exact .refl s
  · next k f hf =>
    split_ifs
    · exact h k f hf
    · exact .refl s

theorem Honest.granted (h : s.Honest) {f : OpenFile}
    (hf : s.getFile fd = some (k, f)) : f.granted = openNeed f.flags := by
  unfold getFile at hf
  split_ifs at hf
  obtain ⟨k', -, hk⟩ := Option.bind_eq_some_iff.mp hf
  obtain ⟨f', hfile, rfl, rfl⟩ := of_map_pair hk
  exact h _ _ hfile

/-! ### The calls -/

/-- The open of a node changes its bytes only by the truncation it checked for. -/
theorem allowed_openNode (hW : s.checkPerm n permWrite = true → W n) :
    Allowed s (s.openNode err n flags ans).1 W E := by
  unfold openNode
  by_cases hperm : s.checkPerm n (openNeed flags) = true
  · rw [if_pos hperm]
    split
    · exact .refl s
    · next k _ =>
      split
      · exact .refl s
      · next fd _ =>
        have hopen : Allowed s ((s.setFile k ⟨n, 0, flags, openNeed flags⟩).setFd fd (some k)) W E :=
          (allowed_setFile fun _ => rfl).trans (allowed_setFd _)
        dsimp only
        split_ifs with htrunc hret
        · exact .refl s
        · exact hopen.trans (allowed_truncate (hW (checkPerm_mono (openNeed_write htrunc.2) hperm)))
        · exact hopen
  · rw [if_neg hperm]
    exact .refl s

/-- Making a name and then opening what it gives. -/
theorem allowed_makeOpen (hE : E dir) (hW : ∀ n, s.checkPerm n permWrite = true → W n) :
    Allowed s ((s.createVfs dir name fresh).1.openNode err n flags ans).1 W E := by
  have hmake : Allowed s (s.createVfs dir name fresh).1 W E := allowed_make hE
  have hopen : Allowed (s.createVfs dir name fresh).1
      ((s.createVfs dir name fresh).1.openNode err n flags ans).1
      (fun n => (s.createVfs dir name fresh).1.checkPerm n permWrite = true) E :=
    allowed_openNode id
  exact hmake.trans_of hopen fun n _ hn h => hW n (checkPerm_make hn h)

section

variable (hE : ∀ d, s.checkPerm d (permWrite ||| permExec) = true → E d)
include hE

section

variable (hW : ∀ n, s.checkPerm n permWrite = true → W n)
include hW

theorem allowed_sysOpen {path : FileName} :
    Allowed s (s.sysOpen look path flags ans).1 W E := by
  unfold sysOpen
  split
  · split_ifs
    · exact .refl s
    · exact allowed_openNode (hW _)
  · split_ifs
    · exact .refl s
    · split
      · exact .refl s
      · next parent basename _ =>
        dsimp only
        split_ifs with hname hperm hret
        · exact .refl s
        · exact .refl s
        · split
          · exact allowed_make (hE _ hperm)
          · exact allowed_makeOpen (hE _ hperm) hW
        · exact .refl s

theorem allowed_openat :
    Allowed s (s.dirctlOpenat look dir name flags ans).1 W E := by
  unfold dirctlOpenat
  split
  · split_ifs
    · exact .refl s
    · exact allowed_openNode (hW _)
  · dsimp only
    split_ifs with hcreat hperm hret
    · exact .refl s
    · exact .refl s
    · split
      · exact allowed_make (hE _ hperm)
      · exact allowed_makeOpen (hE _ hperm) hW
    · exact .refl s

end

end

theorem allowed_sysRead : Allowed s (s.sysRead fd size count).1 W E := by
  unfold sysRead
  split_ifs
  · exact .refl s
  · split
    · exact .refl s
    · next k f hf =>
      split
      · exact allowed_setFile fun hs => (hs.granted hf :)
      · exact .refl s

section

variable (hW : ∀ k f, s.getFile fd = some (k, f) → W f.node)
include hW

theorem allowed_sysWrite {bytes : List UInt8} :
    Allowed s (s.sysWrite fd bytes count).1 W E := by
  unfold sysWrite
  split_ifs
  · exact .refl s
  · split
    · exact .refl s
    · next k f hf =>
      split
      · exact .refl s
      · next n =>
        dsimp only
        split_ifs
        · exact .refl s
        · have hdata : Allowed s (s.setNode f.node fun node =>
              { node with data := ByteFile.write 0 node.data f.offset (bytes.take n) }) W E :=
            allowed_setNode (fun _ _ => hW k f hf) fun _ h => absurd rfl h
          refine hdata.trans (allowed_setFile fun hs => ?_)
          exact (hs.granted hf :)

theorem allowed_ftruncate :
    Allowed s (s.ftruncate fd len ok).1 W E := by
  unfold ftruncate
  split
  · exact .refl s
  · next k f hf =>
    split_ifs
    · exact allowed_truncate (hW k f hf)
    · exact .refl s

end

theorem allowed_close : Allowed s (s.sysClose fd).1 W E := by
  unfold sysClose
  split
  · exact .refl s
  · exact allowed_setFd _

theorem allowed_dup {low : Nat} : Allowed s (s.sysDup fd low).1 W E := by
  unfold sysDup
  split
  · exact .refl s
  · split
    · exact .refl s
    · exact allowed_setFd _

theorem allowed_setfl {arg : BitVec 32} : Allowed s (s.setfl fd arg).1 W E := by
  unfold setfl
  split
  · exact .refl s
  · next k f hf => exact allowed_setFile fun hs => (hs.granted hf).trans (openNeed_setfl _ _).symm

/-- The entries of a directory change, unless the filesystem refuses. -/
theorem allowed_edit (hf : ∀ node, (f node).data = node.data) (hE : E dir) :
    Allowed s (if ok then (s.setNode dir f, (0 : Int)) else (s, -1)).1 W E := by
  split_ifs
  · exact allowed_entries hf hE
  · exact .refl s

theorem allowed_renameAt {newdir : Nat} {oldname newname : FileName} (hE : E dir)
    (hE' : E newdir) : Allowed s (s.renameAt look dir oldname newdir newname ok).1 W E := by
  unfold renameAt
  split
  · exact allowed_edit (fun _ => rfl) hE
  · split
    · exact .refl s
    · split_ifs
      · exact .refl s
      · refine Allowed.trans ?_ (allowed_entries (fun _ => rfl) hE')
        exact allowed_entries (fun _ => rfl) hE
      · exact .refl s

theorem allowed_mknodVfs {mode : BitVec 32}
    (hE : E dir) : Allowed s (s.mknodVfs look dir name mode fresh).1 W E := by
  have hmake : Allowed s (s.createVfs dir name fresh).1 W E := allowed_make hE
  unfold mknodVfs
  dsimp only
  split
  · exact .refl s
  · split
    · exact hmake
    · exact hmake.trans (allowed_setNode (fun _ h => absurd rfl h) fun _ h => absurd rfl h)

/-- **What a clean call touches.** -/
theorem allowed_exec (look : Lookup) (hs : s.Honest) (hclean : s.Clean c) :
    Allowed s (s.exec look c).1 (s.WriteGranted c)
      fun d => s.checkPerm d (permWrite ||| permExec) = true := by
  cases c with
  | openPath path flags ans => exact allowed_sysOpen (fun _ h => h) fun _ h => h
  | openat fd name flags ans =>
    exact allowed_onDir fun _ _ _ => allowed_openat (fun _ h => h) fun _ h => h
  | read fd size count => exact allowed_sysRead
  -- a descriptor was granted its mode at open, and `Clean` says it was opened for writing
  | write fd bytes count =>
    exact allowed_sysWrite fun k f hf =>
      ⟨k, f, hf, rfl, hs.granted hf ▸ openNeed_write (hclean k f hf)⟩
  | close fd => exact allowed_close
  | dup fd low => exact allowed_dup
  | setfl fd arg => exact allowed_setfl
  | ftruncate fd len ok =>
    exact allowed_ftruncate fun k f hf =>
      ⟨k, f, hf, rfl, hs.granted hf ▸ openNeed_write (hclean k f hf)⟩
  | truncate fd name len ok =>
    refine allowed_onDir fun _ _ _ => allowed_ifPresent fun n => ?_
    split_ifs with htype hperm
    · exact allowed_truncate hperm
    · exact .refl s
    · exact .refl s
  | create fd name fresh | mkdir fd name fresh | symlink fd name fresh =>
    exact allowed_onDir fun _ _ _ => allowed_ifAbsent (allowed_guarded fun h => allowed_make h)
  | mknod fd name mode fresh =>
    exact allowed_onDir fun k f hf => allowed_ifAbsent (allowed_mknodVfs (hclean k f hf))
  | unlink fd name ok =>
    exact allowed_onDir fun _ _ _ => allowed_ifPresent fun _ =>
      allowed_guarded fun h => allowed_edit (fun _ => rfl) h
  | rename fd oldname newname ok =>
    exact allowed_onDir fun _ _ _ => allowed_ifPresent fun _ =>
      allowed_guarded fun h => allowed_edit (fun _ => rfl) h
  | renameat fd oldname newdir newname ok =>
    refine allowed_onDir fun _ _ _ => ?_
    unfold dirRenameat
    split
    · exact .refl s
    · exact allowed_guarded fun h => allowed_guarded fun h' => allowed_renameAt h h'
  | link fd target newname ok =>
    exact allowed_onDir fun _ _ _ => allowed_ifPresent fun _ =>
      allowed_ifAbsent (allowed_guarded fun h => allowed_edit (fun _ => rfl) h)
  -- mode and owner change, but neither bytes nor entries
  | chmod fd name mode =>
    refine allowed_onDir fun _ _ _ => allowed_ifPresent fun n => ?_
    split_ifs
    · exact .refl s
    · exact allowed_setNode (fun _ h => absurd rfl h) fun _ h => absurd rfl h
  | chown fd name uid gid =>
    refine allowed_onDir fun _ _ _ => ?_
    unfold dirChown
    split
    · exact .refl s
    · exact allowed_ifPresent fun n =>
        allowed_setNode (fun _ h => absurd rfl h) fun _ h => absurd rfl h

/-- Bytes come out of a read only through an open description. -/
theorem sysRead_bytes
    (h : (s.sysRead fd size count).2.bytes ≠ []) : ∃ k f, s.getFile fd = some (k, f) := by
  unfold sysRead at h
  split_ifs at h
  · exact absurd rfl h
  · split at h
    · exact absurd rfl h
    · next k f hf => exact ⟨k, f, hf⟩

theorem Honest.enforced (hs : s.Honest) (hclean : s.Clean c) : Enforced look s c where
  data := by
    intro n node node' hn hn' _ hne
    obtain ⟨node'', hn'', hdata, -⟩ := (allowed_exec look hs hclean).kept n node hn
    obtain rfl := Option.some.inj (hn'.symm.trans hn'')
    exact hdata hne
  read := by
    rintro fd size count rfl hbytes
    obtain ⟨k, f, hf⟩ := sysRead_bytes hbytes
    exact ⟨k, f, hf, hs.granted hf ▸ openNeed_read (hclean k f hf)⟩
  entries := by
    intro d node node' hd hd' hne
    obtain ⟨node'', hd'', -, hentries⟩ := (allowed_exec look hs hclean).kept d node hd
    obtain rfl := Option.some.inj (hd'.symm.trans hd'')
    exact hentries hne

/-! ### Whole runs -/

/-- **Main result.**  For every way names are looked up and every start in which
the open descriptions were granted what their access mode says: in every run of
calls that keep to `Clean`, the next such call is within the permissions. -/
theorem permissions_enforced {look : Lookup} {start s : FdSys} {calls : List Call} {c : Call}
    (hstart : start.Honest) (hclean : MeetsAll (step look) Clean start (calls ++ [c]))
    (hrun : run (step look) start calls = some s) : Enforced look s c := by
  obtain ⟨hcalls, hlast⟩ := hclean.split hrun
  have hs : s.Honest := run_invariant
    (fun h hc hs => by
      obtain rfl := Option.some.inj hs
      exact (allowed_exec look h hc).honest h) hstart hcalls hrun
  exact hs.enforced hlast.1

/-- Names of one component, looked up in the directory 0. -/
def flatLookup : Lookup where
  resolvePath nodes path :=
    if path = [] then some 0 else (nodes 0).bind fun dir => dir.entries.lookup path
  resolveParent _ path := some (0, path)
  finddir nodes dir name := (nodes dir).bind fun dir => dir.entries.lookup name

/-- A directory of root's with a secret file, a readable file and one that all may write. -/
def shop : FdSys where
  nodes n :=
    if n = 0 then some ⟨.directory, 0o755, 0, 0, [], [([97], 1), ([98], 2), ([99], 3)]⟩
    else if n = 1 then some ⟨.file, 0o600, 0, 0, [1, 2], []⟩
    else if n = 2 then some ⟨.file, 0o644, 0, 0, [3, 4], []⟩
    else if n = 3 then some ⟨.file, 0o666, 0, 0, [5, 6], []⟩
    else none
  fds _ := none
  files _ := none
  cred := ⟨1000, 1000, false⟩

theorem shop_honest : shop.Honest := by
  intro k f hf
  cases hf

/-- A process writes the file that all may write. -/
theorem permissions_enforced_write : ∃ s, run (step flatLookup) shop
      [.openPath [99] 2 ⟨none, some 0, true⟩] = some s ∧
    (s.exec flatLookup (.write 3 [9] (some 1))).2.ret = 1 ∧
    ((s.exec flatLookup (.write 3 [9] (some 1))).1.nodes 3).map VfsNode.data = some [9, 6] ∧
    Enforced flatLookup s (.write 3 [9] (some 1)) := by
  have hclean : MeetsAll (step flatLookup) Clean shop
      ([.openPath [99] 2 ⟨none, some 0, true⟩] ++ [.write 3 [9] (some 1)]) := by
    refine ⟨trivial, fun s hs => ⟨?_, fun _ _ => trivial⟩⟩
    obtain rfl := Option.some.inj hs
    intro k f hf
    have hfile : (shop.exec flatLookup (.openPath [99] 2 ⟨none, some 0, true⟩)).1.getFile 3 =
        some (0, ⟨3, 0, 2, 6⟩) := by decide +kernel
    obtain ⟨-, rfl⟩ := Prod.mk.inj (Option.some.inj (hf.symm.trans hfile))
    exact .inr (by decide)
  exact ⟨_, rfl, by decide +kernel, by decide +kernel, permissions_enforced shop_honest hclean rfl⟩

/-- A process writes and truncates a file it opened for reading, reads a file it
has no permission for by asking for access mode 3, and makes a name in a
directory it may not write. -/
theorem permission_not_asked :
    (∃ s, run (step flatLookup) shop [.openPath [98] 0 ⟨none, some 0, true⟩] = some s ∧
      ((s.exec flatLookup (.write 3 [9] (some 1))).1.nodes 2).map VfsNode.data = some [9, 4] ∧
      ((s.exec flatLookup (.ftruncate 3 0 true)).1.nodes 2).map VfsNode.data = some [] ∧
      ¬ Enforced flatLookup s (.write 3 [9] (some 1)) ∧
      ¬ Enforced flatLookup s (.ftruncate 3 0 true)) ∧
    (∃ s, run (step flatLookup) shop [.openPath [97] 3 ⟨none, some 0, true⟩] = some s ∧
      (s.exec flatLookup (.read 3 8 (some 8))).2.bytes = [1, 2] ∧
      ¬ Enforced flatLookup s (.read 3 8 (some 8))) ∧
    ∃ s, run (step flatLookup) shop [.openPath [] 0 ⟨none, some 0, true⟩] = some s ∧
      ((s.exec flatLookup (.mknod 3 [100] 0 (some 4))).1.nodes 0).map VfsNode.entries =
        some [([100], 4), ([97], 1), ([98], 2), ([99], 3)] ∧
      ¬ Enforced flatLookup s (.mknod 3 [100] 0 (some 4)) := by
  -- what each open left in slot 3
  have hreader : (shop.exec flatLookup (.openPath [98] 0 ⟨none, some 0, true⟩)).1.getFile 3 =
      some (0, ⟨2, 0, 0, 4⟩) := by decide +kernel
  have hnobody : (shop.exec flatLookup (.openPath [97] 3 ⟨none, some 0, true⟩)).1.getFile 3 =
      some (0, ⟨1, 0, 3, 0⟩) := by decide +kernel
  refine ⟨⟨_, rfl, by decide +kernel, by decide +kernel, fun h => ?_, fun h => ?_⟩,
    ⟨_, rfl, by decide +kernel, fun h => ?_⟩, ⟨_, rfl, by decide +kernel, fun h => ?_⟩⟩
  · obtain ⟨k, f, hf, -, hg⟩ := h.data 2 ⟨.file, 0o644, 0, 0, [3, 4], []⟩
      ⟨.file, 0o644, 0, 0, [9, 4], []⟩ (by decide +kernel) (by decide +kernel) (by decide) (by decide)
    obtain ⟨-, rfl⟩ := Prod.mk.inj (Option.some.inj (hf.symm.trans hreader))
    exact absurd hg (by decide)
  · obtain ⟨k, f, hf, -, hg⟩ := h.data 2 ⟨.file, 0o644, 0, 0, [3, 4], []⟩
      ⟨.file, 0o644, 0, 0, [], []⟩ (by decide +kernel) (by decide +kernel) (by decide) (by decide)
    obtain ⟨-, rfl⟩ := Prod.mk.inj (Option.some.inj (hf.symm.trans hreader))
    exact absurd hg (by decide)
  · obtain ⟨k, f, hf, hg⟩ := h.read 3 8 (some 8) rfl (by decide +kernel)
    obtain ⟨-, rfl⟩ := Prod.mk.inj (Option.some.inj (hf.symm.trans hnobody))
    exact absurd hg (by decide)
  · have hperm := h.entries 0 ⟨.directory, 0o755, 0, 0, [], [([97], 1), ([98], 2), ([99], 3)]⟩
      ⟨.directory, 0o755, 0, 0, [], [([100], 4), ([97], 1), ([98], 2), ([99], 3)]⟩
      (by decide +kernel) (by decide +kernel) (by decide)
    exact absurd hperm (by decide +kernel)

end FdSys

end CactKernel
