/-
CactKernel/Fs/FileTableLaw.lean

Open file descriptions live exactly as long as something refers to them.

`FileLaw` collects what is kept: the reference count of a description is the
number of descriptor slots, epoll registrations and queued SCM_RIGHTS entries
that name it, plus the references that running code is about to give back
(`counted`); giving those back comes to an end (`settles`); the node of each
description is opened once, and closed once when it is freed (`opened`,
`closed`); a slot names one description (`slots`); and no descriptor's
FD_CLOEXEC flag was changed by setting another one's (`calm`).

Every call moves references or takes new ones, so the proofs only look at three
changes of the list of holds: `hand`, `fileRef` and `release`.

The source breaks the law in four ways: the flag is kept in the description, so
that setting it on one descriptor sets it on its duplicates; a fork that runs out
of memory after it copied the table keeps the references it took; `socketpair`
closes a node again that `alloc_fd` has closed; and the open of a `/dev/fd` alias
takes a reference that is none of the three kinds.  `Clean` excludes them.
-/
import CactKernel.Fs.FileTable

namespace CactKernel

namespace FileSys

open Function Holds Runs

/-! ### The property -/

def isSlot (h : FileHold) : Bool := (slotKey h.holder).isSome

def isEpollEntry (h : FileHold) : Bool :=
  match h.holder with
  | .epoll _ => true
  | _ => false

def isQueued (h : FileHold) : Bool :=
  match h.holder with
  | .queue _ => true
  | _ => false

/-- The references to `f` of one kind. -/
def refsTo (s : FileSys) (kind : FileHold → Bool) (f : Nat) : Nat := held (s.holds.filter kind) f

/-- No call is about to give a reference back. -/
def Settled (s : FileSys) : Prop := ∀ h ∈ s.holds, h.holder ≠ .flight

structure FileLaw (s : FileSys) : Prop where
  counted : ∀ f ft, s.files f = some ft → ft.refcount =
    s.refsTo isSlot f + s.refsTo isEpollEntry f + s.refsTo isQueued f +
      s.refsTo (isHolder .flight) f
  alive : ∀ f ft, s.files f = some ft → 0 < ft.refcount
  named : ∀ h ∈ s.holds, (s.files h.object).isSome
  settles : ∃ n s', run step s (List.replicate n .release) = some s' ∧ s'.Settled
  opened : ∀ f, s.opens f = if f < s.next then 1 else 0
  closed : ∀ f, s.closes f = if f < s.next ∧ s.files f = none then 1 else 0
  slots : (keys slotKey s.holds).Nodup
  calm : s.disturbed = []

/-- The calls for which the source keeps the law. -/
def Clean (s : FileSys) : Event → Prop
  | .openAlias _ _ => False
  | .socketpair pid _ _ =>
    2 ≤ (List.range' 3 (maxFd - 3)).countP fun fd => (s.fileAt pid fd).isNone
  | .fork _ _ mem => mem = true
  | .setfd pid fd cloexec => ∀ f, s.fileAt pid fd = some f →
    s.cloexecOf f = cloexec ∨ s.otherSlots pid fd f = []
  | _ => True

structure Inv (s : FileSys) : Prop where
  exact : ∀ f ft, s.files f = some ft → ft.refcount = held s.holds f ∧ 0 < ft.refcount
  dead : ∀ f, s.files f = none → held s.holds f = 0
  fresh : ∀ f, s.next ≤ f → s.files f = none
  opened : ∀ f, s.opens f = if f < s.next then 1 else 0
  closed : ∀ f, s.closes f = if f < s.next ∧ s.files f = none then 1 else 0
  slots : Exclusive slotKey s.holds
  noAlias : ∀ h ∈ s.holds, ∀ g, h.holder ≠ .aliasOf g
  calm : s.disturbed = []

variable {s s' : FileSys} {pid fd f f' child : Nat} {k : FileHolder} {hs : List FileHold}
  {g : FileT → FileT} {ft : FileT}

/-! ### Slots -/

theorem slotKey_eq (h : slotKey k = some (pid, fd)) : k = .slot pid fd := by
  cases k <;> simp_all [slotKey]

theorem fileAt_some (h : s.fileAt pid fd = some f) : (⟨.slot pid fd, f⟩ : FileHold) ∈ s.holds := by
  unfold fileAt at h
  split_ifs at h
  obtain ⟨g, hg, rfl⟩ := Option.map_eq_some_iff.mp h
  have hsel : isHolder (.slot pid fd) g = true := List.find?_some hg
  have hholder : g.holder = .slot pid fd := of_decide_eq_true hsel
  have heq : g = ⟨.slot pid fd, g.object⟩ := by rw [← hholder]
  exact heq ▸ List.mem_of_find?_eq_some hg

theorem fileAt_none (hfd : fd < maxFd) :
    s.fileAt pid fd = none ↔ (pid, fd) ∉ keys slotKey s.holds := by
  rw [fileAt, if_pos hfd, Option.map_eq_none_iff, List.find?_eq_none, mem_keys]
  constructor
  · rintro h ⟨g, hg, hkey⟩
    exact h g hg (decide_eq_true (slotKey_eq hkey))
  · intro h g hg hholder
    refine h ⟨g, hg, ?_⟩
    rw [of_decide_eq_true hholder]
    rfl

theorem freeSlot_some {low : Nat} (h : s.freeSlot pid low = some fd) :
    (pid, fd) ∉ keys slotKey s.holds := by
  have hfree := List.find?_some h
  have hmem := List.mem_range'_1.mp (List.mem_of_find?_eq_some h)
  exact (fileAt_none (by omega)).mp (Option.isNone_iff_eq_none.mp hfree)

theorem Inv.live (h : s.Inv) {g : FileHold} (hg : g ∈ s.holds) :
    ∃ ft, s.files g.object = some ft := by
  have hpos : 0 < held s.holds g.object := held_pos.mpr ⟨g, hg, rfl⟩
  rcases hfile : s.files g.object with - | ft
  · have := h.dead _ hfile
    omega
  · exact ⟨ft, rfl⟩

theorem Inv.live_at (h : s.Inv) (hf : s.fileAt pid fd = some f) :
    ∃ ft, s.files f = some ft := h.live (fileAt_some hf)

/-! ### The three changes of holds -/

/-- The same references in another list of holds. -/
theorem Inv.setHolds (h : s.Inv) (hheld : ∀ f, held hs f = held s.holds f)
    (hslots : Exclusive slotKey hs) (hal : ∀ g ∈ hs, ∀ x, g.holder ≠ .aliasOf x) :
    ({ s with holds := hs } : FileSys).Inv :=
  { h with
    exact := fun f ft hf => by
      rw [hheld]
      exact h.exact f ft hf
    dead := fun f hf => (hheld f).trans (h.dead f hf)
    slots := hslots
    noAlias := hal }

/-- References are handed over to no slot. -/
theorem Inv.hand (h : s.Inv) {p : FileHold → Bool} (hk : slotKey k = none)
    (hal : ∀ g, k ≠ .aliasOf g) : (s.hand p k).Inv := by
  refine h.setHolds (fun _ => held_relabel) (h.slots.relabel hk) fun g hg => ?_
  obtain ⟨g', hg', rfl⟩ := List.mem_map.mp hg
  split_ifs
  · exact hal
  · exact h.noAlias g' hg'

theorem setFile_self (hf : s.files f = some ft) : (s.setFile f g).files f = some (g ft) := by
  show update s.files f _ f = _
  rw [update_self, hf, Option.map_some]

theorem setFile_of_ne (hne : f' ≠ f) : (s.setFile f g).files f' = s.files f' := update_of_ne hne _ _

theorem setFile_none : (s.setFile f g).files f' = none ↔ s.files f' = none := by
  by_cases hne : f' = f
  · subst hne
    show update s.files f' _ f' = none ↔ _
    rw [update_self, Option.map_eq_none_iff]
  · rw [setFile_of_ne hne]

section

variable (h : s.Inv)
include h

/-- One live description changes and the references to it with it; it stays referred to. -/
theorem Inv.setFile {ds : List (Nat × Nat)} (hf : s.files f = some ft)
    (hcount : (g ft).refcount = held hs f ∧ 0 < (g ft).refcount)
    (hother : ∀ f', f' ≠ f → held hs f' = held s.holds f') (hslots : Exclusive slotKey hs)
    (hal : ∀ k ∈ hs, ∀ x, k.holder ≠ .aliasOf x) (hcalm : ds = []) :
    ({ s.setFile f g with holds := hs, disturbed := ds } : FileSys).Inv := by
  refine ⟨fun f' ft' hf' => ?_, fun f' hf' => ?_, fun f' hle => setFile_none.mpr (h.fresh f' hle), h.opened,
    fun f' => ?_, hslots, hal, hcalm⟩
  · by_cases hne : f' = f
    · subst hne
      obtain rfl := Option.some.inj ((setFile_self hf).symm.trans hf')
      exact hcount
    · rw [hother f' hne]
      exact h.exact f' ft' ((setFile_of_ne hne).symm.trans hf')
  · replace hf' := setFile_none.mp hf'
    have hne : f' ≠ f := by
      rintro rfl
      rw [hf] at hf'
      cases hf'
    rw [hother f' hne]
    exact h.dead f' hf'
  · exact (h.closed f').trans (if_congr (and_congr_right fun _ => setFile_none.symm) rfl rfl)

/-- A reference is taken to a live description. -/
theorem Inv.fileRef (hlive : ∃ ft, s.files f = some ft)
    (hfree : ∀ a, slotKey k = some a → a ∉ keys slotKey s.holds) (hal : ∀ g, k ≠ .aliasOf g) :
    (s.fileRef k f).Inv := by
  obtain ⟨ft, hf⟩ := hlive
  refine h.setFile hf ⟨?_, Nat.succ_pos _⟩ (fun f' hne => ?_) (h.slots.cons hfree)
    (List.forall_mem_cons.mpr ⟨hal, h.noAlias⟩) h.calm
  · rw [held_cons, if_pos rfl, (h.exact f ft hf).1]
  · rw [held_cons, if_neg (Ne.symm hne)]
    rfl

/-- Freeing a description that nothing refers to. -/
theorem Inv.fileFree (hf : s.files f = some ft) (hslots : Exclusive slotKey hs)
    (hal : ∀ g ∈ hs, ∀ x, g.holder ≠ .aliasOf x) (hzero : held hs f = 0)
    (hother : ∀ f', f' ≠ f → held hs f' = held s.holds f') :
    ({ s with holds := hs }.fileFree f ft).Inv := by
  have hnext : f < s.next := by
    by_contra hle
    rw [h.fresh f (by omega)] at hf
    cases hf
  -- relabelling the holders of `f` changes no count
  have hheld : ∀ f', held ({ s with holds := hs }.fileFree f ft).holds f' = held hs f' :=
    fun f' => held_relabel
  refine ⟨?_, ?_, ?_, h.opened, ?_, hslots.relabel rfl, ?_, h.calm⟩
  · intro f'
    rw [hheld]
    exact (forall_update_iff s.files (b := none) fun f' o => ∀ ft', o = some ft' →
      ft'.refcount = held hs f' ∧ 0 < ft'.refcount).mpr ⟨nofun, fun f' hne => hother f' hne ▸ h.exact f'⟩ f'
  · intro f'
    rw [hheld]
    exact (forall_update_iff s.files fun f' o => o = none → held hs f' = 0).mpr
      ⟨fun _ => hzero, fun f' hne => hother f' hne ▸ h.dead f'⟩ f'
  · exact (forall_update_iff s.files fun f' o => s.next ≤ f' → o = none).mpr ⟨fun _ => rfl, fun f' _ => h.fresh f'⟩
  · intro f'
    show update s.closes f (s.closes f + 1) f' =
      if f' < s.next ∧ update s.files f none f' = none then 1 else 0
    have hclosed := h.closed f'
    by_cases hne : f' = f
    · subst hne
      rw [hf, if_neg (by simp)] at hclosed
      rw [update_self, update_self, hclosed, if_pos ⟨hnext, rfl⟩]
    · rw [update_of_ne hne, update_of_ne hne]
      exact hclosed
  · intro g hg
    obtain ⟨g', hg', rfl⟩ := List.mem_map.mp hg
    split_ifs
    · exact nofun
    · exact hal g' hg'

/-- **One `file_unref`.** -/
theorem Inv.release (hs : s.release = some s') : s'.Inv := by
  obtain ⟨g, hfind, rfl⟩ := Option.map_eq_some_iff.mp hs
  have hmem := List.mem_of_find?_eq_some hfind
  obtain ⟨ft, hf⟩ := h.live hmem
  obtain ⟨hcount, hpos⟩ := h.exact _ ft hf
  have hheld : ∀ x, held s.holds x = held (s.holds.eraseP (isHolder .flight)) x +
      if g.object = x then 1 else 0 := fun x => held_eraseP hfind
  have hself := hheld g.object
  rw [if_pos rfl] at hself
  have hother : ∀ x, x ≠ g.object →
      held (s.holds.eraseP (isHolder .flight)) x = held s.holds x := by
    intro x hne
    rw [hheld x, if_neg (Ne.symm hne)]
    rfl
  have hslots : Exclusive slotKey (s.holds.eraseP (isHolder .flight)) := h.slots.eraseP
  have hal : ∀ g' ∈ s.holds.eraseP (isHolder .flight), ∀ x, g'.holder ≠ .aliasOf x := fun g' hg' =>
    h.noAlias g' (List.mem_of_mem_eraseP hg')
  simp only [hf]
  rw [if_neg (by omega)]
  split_ifs with hone
  · exact h.fileFree hf hslots hal (by omega) hother
  · refine h.setFile hf ?_ hother hslots hal h.calm
    show ft.refcount - 1 = held (s.holds.eraseP (isHolder .flight)) g.object ∧ 0 < ft.refcount - 1
    omega

/-! ### Descriptor calls -/

theorem Inv.fileAlloc (cloexec isEpoll : Bool) (endpoint : Option Nat) :
    (s.fileAlloc cloexec isEpoll endpoint).Inv := by
  have hnone := h.fresh s.next (Nat.le_refl _)
  refine ⟨?_, ?_, ?_, ?_, ?_, h.slots.cons (by simp [slotKey]),
    List.forall_mem_cons.mpr ⟨nofun, h.noAlias⟩, h.calm⟩
  · refine (forall_update_iff s.files fun f o => ∀ ft, o = some ft →
      ft.refcount = held (⟨.flight, s.next⟩ :: s.holds) f ∧ 0 < ft.refcount).mpr
      ⟨fun ft hf => ?_, fun f hne ft hf => ?_⟩ <;> rw [held_cons]
    · obtain rfl := Option.some.inj hf
      rw [if_pos rfl, h.dead _ hnone]
      exact ⟨rfl, Nat.one_pos⟩
    · rw [if_neg (Ne.symm hne)]
      exact h.exact f ft hf
  · refine (forall_update_iff s.files fun f o => o = none → held (⟨.flight, s.next⟩ :: s.holds) f = 0).mpr
      ⟨nofun, fun f hne hf => ?_⟩
    rw [held_cons, if_neg (Ne.symm hne)]
    exact h.dead f hf
  · intro f hle
    have hle : s.next + 1 ≤ f := hle
    show update s.files s.next _ f = none
    rw [update_of_ne (by omega)]
    exact h.fresh f (by omega)
  · intro f
    show update s.opens s.next (s.opens s.next + 1) f = if f < s.next + 1 then 1 else 0
    by_cases hne : f = s.next
    · subst hne
      rw [update_self, h.opened, if_neg (by omega), if_pos (by omega)]
    · rw [update_of_ne hne, h.opened]
      split_ifs <;> first | rfl | omega
  · intro f
    show s.closes f = if f < s.next + 1 ∧ update s.files s.next _ f = none then 1 else 0
    rw [h.closed f]
    by_cases hne : f = s.next
    · subst hne
      rw [if_neg (by omega), if_neg (by simp)]
    · rw [update_of_ne hne]
      exact if_congr (and_congr_left fun _ => by omega) rfl rfl

/-- The order of the list does not matter. -/
theorem Inv.permute (hperm : s.holds.Perm hs) : ({ s with holds := hs } : FileSys).Inv :=
  h.setHolds (fun _ => (hperm.countP_eq _).symm) ((hperm.filterMap _).nodup_iff.mp h.slots)
    fun g hg => h.noAlias g (hperm.mem_iff.mpr hg)

/-- Handing the first of some references that are at no slot to a free slot. -/
theorem Inv.handFirst {p : FileHold → Bool}
    (hp : ∀ g ∈ s.holds, p g = true → slotKey g.holder = none)
    (hfree : (pid, fd) ∉ keys slotKey s.holds) :
    ({ s with holds := relabelFirst p (.slot pid fd) s.holds } : FileSys).Inv := by
  refine h.setHolds (fun _ => held_relabelFirst) (Exclusive.relabelFirst h.slots hp rfl hfree) fun g hg => ?_
  rcases mem_relabelFirst hg with hg | hg
  · exact h.noAlias g hg
  · rw [hg]
    exact nofun

theorem Inv.install (pid f : Nat) : (s.install pid f).Inv := by
  unfold FileSys.install
  split
  · exact h
  · next fd hfd =>
    refine h.handFirst (fun g _ hg => ?_) (freeSlot_some hfd)
    rw [of_decide_eq_true hg]
    rfl

theorem Inv.openFile (pid : Nat) (cloexec isEpoll ok : Bool) :
    (s.openFile pid cloexec isEpoll ok).Inv := by
  unfold FileSys.openFile
  split_ifs
  · exact (h.fileAlloc _ _ _).install _ _
  · exact h.fileAlloc _ _ _

theorem Inv.setPeer (peer : Nat → Option Nat) : ({ s with peer := peer } : FileSys).Inv :=
  { h with }

end

/-- The slots in use after a new description was put into the slot `fd`. -/
theorem install_keys (hfd : s.freeSlot pid 3 = some fd) {k : Nat × Nat}
    (hk : k ∈ keys slotKey (s.install pid f).holds) :
    k = (pid, fd) ∨ k ∈ keys slotKey s.holds := by
  unfold FileSys.install at hk
  rw [hfd] at hk
  have hp : ∀ g ∈ s.holds, decide (g = (⟨.flight, f⟩ : FileHold)) = true →
      slotKey g.holder = none := fun g _ hg => by
    rw [of_decide_eq_true hg]
    rfl
  have hcases : keys slotKey (relabelFirst (fun h => decide (h = ⟨.flight, f⟩)) (.slot pid fd)
        s.holds) = keys slotKey s.holds ∨
      (keys slotKey (relabelFirst (fun h => decide (h = ⟨.flight, f⟩)) (.slot pid fd)
        s.holds)).Perm ((pid, fd) :: keys slotKey s.holds) := keys_relabelFirst hp rfl
  rcases hcases with hsame | hperm
  · exact .inr (hsame ▸ hk)
  · exact List.mem_cons.mp (hperm.mem_iff.mp hk)

/-- With two free slots there is one left when the first is taken. -/
theorem freeSlot_of_two {t : FileSys} (fd : Nat)
    (htwo : 2 ≤ (List.range' 3 (maxFd - 3)).countP fun fd => (s.fileAt pid fd).isNone)
    (hkeys : ∀ k ∈ keys slotKey t.holds, k = (pid, fd) ∨ k ∈ keys slotKey s.holds) :
    ∃ fd', t.freeSlot pid 3 = some fd' := by
  rcases hfree : t.freeSlot pid 3 with - | fd'
  · have hall := List.find?_eq_none.mp hfree
    -- every slot but `fd` was in use before
    have hle : (List.range' 3 (maxFd - 3)).countP (fun fd => (s.fileAt pid fd).isNone) ≤
        (List.range' 3 (maxFd - 3)).count fd := by
      refine List.countP_mono_left fun x hx hnone => ?_
      have hlt : x < maxFd := by
        have := List.mem_range'_1.mp hx
        omega
      have hused : (pid, x) ∈ keys slotKey t.holds := by
        by_contra hnot
        exact hall x hx (Option.isNone_iff_eq_none.mpr ((fileAt_none hlt).mpr hnot))
      rcases hkeys _ hused with heq | hmem
      · exact beq_iff_eq.mpr (Prod.mk.inj heq).2
      · exact absurd hmem ((fileAt_none hlt).mp (Option.isNone_iff_eq_none.mp hnone))
    have hone := List.nodup_iff_count_le_one.mp (List.nodup_range' (s := 3) (n := maxFd - 3)) fd
    omega
  · exact ⟨fd', rfl⟩

theorem Inv.socketpair (h : s.Inv) {a b : Nat}
    (htwo : 2 ≤ (List.range' 3 (maxFd - 3)).countP fun fd => (s.fileAt pid fd).isNone) :
    (s.socketpair pid a b).Inv := by
  unfold FileSys.socketpair
  dsimp only
  generalize hs₁ : ({ s.fileAlloc false false (some a) with
    peer := update (update (s.fileAlloc false false (some a)).peer a (some b)) b (some a) } :
      FileSys) = s₁
  have h₁ : s₁.Inv := hs₁ ▸ (h.fileAlloc false false (some a)).setPeer _
  have hk₁ : keys slotKey s₁.holds = keys slotKey s.holds := hs₁ ▸ rfl
  obtain ⟨fa, hfa⟩ : ∃ fa, s₁.freeSlot pid 3 = some fa :=
    freeSlot_of_two 0 htwo fun k hk => .inr (hk₁ ▸ hk)
  rw [hfa]
  have h₂ : ((s₁.install pid s.next).fileAlloc false false (some b)).Inv :=
    (h₁.install _ _).fileAlloc _ _ _
  obtain ⟨fb, hfb⟩ : ∃ fb, ((s₁.install pid s.next).fileAlloc false false (some b)).freeSlot pid 3 =
      some fb :=
    freeSlot_of_two fa htwo fun k hk => (install_keys hfa hk).imp_right fun hk => hk₁ ▸ hk
  rw [hfb]
  exact h₂.install _ _

theorem Inv.dup (h : s.Inv) (pid fd low : Nat) : (s.dup pid fd low).Inv := by
  unfold FileSys.dup
  split
  · next f fd' hf hfd' =>
    refine h.fileRef (h.live_at hf) (fun a ha => ?_) nofun
    obtain rfl := Option.some.inj ha
    exact freeSlot_some hfd'
  · exact h

theorem Inv.dup2 (h : s.Inv) (pid fd newfd : Nat) : (s.dup2 pid fd newfd).Inv := by
  unfold FileSys.dup2
  split
  · exact h
  · next f hf =>
    split_ifs
    · have hhand : (s.hand (isHolder (.slot pid newfd)) .flight).Inv := h.hand rfl nofun
      refine hhand.fileRef (h.live_at hf) (fun a ha => ?_) nofun
      obtain rfl := Option.some.inj ha
      -- what stood in the slot has just been taken out
      intro hmem
      obtain ⟨g, hg, hkey⟩ := mem_keys.mp hmem
      obtain ⟨g', hg', rfl⟩ := List.mem_map.mp hg
      split_ifs at hkey with hsel
      · cases hkey
      · exact hsel (decide_eq_true (slotKey_eq hkey))
    · exact h

theorem Inv.setfd (h : s.Inv) {cloexec : Bool}
    (hclean : ∀ f, s.fileAt pid fd = some f →
      s.cloexecOf f = cloexec ∨ s.otherSlots pid fd f = []) : (s.setfd pid fd cloexec).Inv := by
  unfold FileSys.setfd
  split
  · exact h
  · next f hf =>
    obtain ⟨ft, hft⟩ := h.live_at hf
    refine h.setFile hft (h.exact f ft hft) (fun _ _ => rfl) h.slots h.noAlias ?_
    rw [h.calm, List.append_nil]
    rcases hclean f hf with hsame | hnone
    · rw [if_pos hsame]
    · rw [hnone, ite_self]

/-! ### Processes -/

theorem fileRef_files_some (hf : ∃ ft, s.files f' = some ft) :
    ∃ ft, (s.fileRef k f).files f' = some ft := by
  obtain ⟨ft, hf⟩ := hf
  by_cases hne : f' = f
  · subst hne
    exact ⟨_, setFile_self hf⟩
  · exact ⟨ft, (setFile_of_ne hne).trans hf⟩

/-- Taking references that are put into no slot, one after the other. -/
theorem Inv.fileRefs (hk : slotKey k = none) (hal : ∀ g, k ≠ .aliasOf g) (fs : List Nat) (h : s.Inv)
    (hlive : ∀ f ∈ fs, ∃ ft, s.files f = some ft) : (fs.foldl (fun s f => s.fileRef k f) s).Inv := by
  induction fs generalizing s with
  | nil => exact h
  | cons f fs ih =>
    refine ih (h.fileRef (hlive f List.mem_cons_self) (by simp [hk]) hal) fun f' hf' => ?_
    exact fileRef_files_some (hlive f' (List.mem_cons_of_mem _ hf'))

theorem Inv.copySlots (slots : List (Nat × Nat)) (h : s.Inv)
    (hlive : ∀ slot ∈ slots, ∃ ft, s.files slot.2 = some ft) (hnodup : (slots.map Prod.fst).Nodup)
    (hfree : ∀ slot ∈ slots, (child, slot.1) ∉ keys slotKey s.holds) :
    (s.copySlots child slots).Inv := by
  induction slots generalizing s with
  | nil => exact h
  | cons slot slots ih =>
    obtain ⟨hnot, hrest⟩ := List.nodup_cons.mp hnodup
    refine ih ?_ (fun slot' hslot' => ?_) hrest (fun slot' hslot' => ?_)
    · refine h.fileRef (hlive slot List.mem_cons_self) (fun a ha => ?_) nofun
      obtain rfl := Option.some.inj ha
      exact hfree slot List.mem_cons_self
    · exact fileRef_files_some (hlive slot' (List.mem_cons_of_mem _ hslot'))
    · rintro hmem
      rcases List.mem_cons.mp hmem with heq | hmem
      · exact hnot ((Prod.mk.inj heq).2 ▸ List.mem_map_of_mem hslot')
      · exact hfree slot' (List.mem_cons_of_mem _ hslot') hmem

/-- The descriptors of a process are the slots in use that belong to it. -/
theorem slotsOf_fst (pid : Nat) : (s.slotsOf pid).map Prod.fst =
    ((keys slotKey s.holds).filter fun k => decide (k.1 = pid)).map Prod.snd := by
  unfold slotsOf
  induction s.holds with
  | nil => rfl
  | cons g hs ih =>
    rw [keys_cons]
    rcases hg : g.holder with ⟨p, fd⟩ | _ | _ | _ | _ <;>
      simp only [List.filterMap_cons, hg, slotKey]
    · by_cases hp : p = pid
      · simp [hp, ih]
      · simp [hp, ih]
    all_goals exact ih

section

variable (h : s.Inv)
include h

theorem Inv.fork (hchild : (s.slotsOf child).isEmpty = true) :
    (s.fork pid child true).Inv := by
  refine h.copySlots _ (fun slot hslot => ?_) ?_ (fun slot _ hmem => ?_)
  · obtain ⟨g, hg, hsome⟩ := List.mem_filterMap.mp hslot
    split at hsome
    · split_ifs at hsome
      obtain rfl := Option.some.inj hsome
      exact h.live hg
    · cases hsome
  · rw [slotsOf_fst]
    have hfilter : ((keys slotKey s.holds).filter fun k => decide (k.1 = pid)).Nodup :=
      h.slots.filter _
    refine hfilter.map_on fun k hk k' hk' heq => ?_
    have h₁ := of_decide_eq_true (List.mem_filter.mp hk).2
    have h₂ := of_decide_eq_true (List.mem_filter.mp hk').2
    exact Prod.ext (h₁.trans h₂.symm) heq
  · -- the child has no descriptors yet
    have hempty : (s.slotsOf child).map Prod.fst = [] := by
      rw [List.isEmpty_iff.mp hchild]
      rfl
    rw [slotsOf_fst] at hempty
    have hin : slot.1 ∈ ((keys slotKey s.holds).filter fun k => decide (k.1 = child)).map Prod.snd :=
      List.mem_map.mpr ⟨(child, slot.1), List.mem_filter.mpr ⟨hmem, by simp⟩, rfl⟩
    rw [hempty] at hin
    cases hin

/-! ### epoll and SCM_RIGHTS -/

theorem Inv.epollCtlAdd (pid efd tfd : Nat) : (s.epollCtlAdd pid efd tfd).Inv := by
  unfold FileSys.epollCtlAdd
  split
  · next e f _ hf =>
    split_ifs
    · exact h.fileRef (h.live_at hf) nofun nofun
    · exact h
  · exact h

theorem Inv.epollCtlDel (pid efd tfd : Nat) : (s.epollCtlDel pid efd tfd).Inv := by
  unfold FileSys.epollCtlDel
  split
  · exact h.hand rfl nofun
  · exact h

theorem Inv.epollCollect (pid efd : Nat) : (s.epollCollect pid efd).Inv := by
  unfold FileSys.epollCollect
  split
  · exact h
  · refine Inv.fileRefs (k := .flight) rfl nofun _ h fun f hf => ?_
    obtain ⟨g, hg, rfl⟩ := List.mem_map.mp hf
    exact h.live (List.mem_filter.mp hg).1

theorem Inv.sendmsg (pid fd : Nat) (fds : List Nat) : (s.sendmsg pid fd fds).Inv := by
  unfold FileSys.sendmsg
  split
  · next e fs _ hfs =>
    split_ifs
    · refine Inv.fileRefs (k := .queue e) rfl nofun _ h fun f hf => ?_
      obtain ⟨fd', hfd'⟩ := exists_of_mem_mapM hfs hf
      exact h.live_at hfd'
    · exact h
  · exact h

end

theorem Inv.recvFds {e : Nat} (n : Nat) (h : s.Inv) : (recvFds pid e n s).Inv := by
  induction n generalizing s with
  | zero => exact h
  | succ n ih =>
    unfold FileSys.recvFds
    split
    · exact h
    · next fd hfd =>
      have hrev := h.permute (List.reverse_perm s.holds).symm
      refine ih ((hrev.handFirst (fun g _ hg => ?_) ?_).permute
        (List.reverse_perm _).symm)
      · rw [of_decide_eq_true hg]
        rfl
      · have hperm : (keys slotKey s.holds.reverse).Perm (keys slotKey s.holds) :=
          (List.reverse_perm s.holds).filterMap _
        exact fun hmem => freeSlot_some hfd (hperm.mem_iff.mp hmem)

theorem Inv.recvmsg (h : s.Inv) (pid fd cap : Nat) : (s.recvmsg pid fd cap).Inv := by
  unfold FileSys.recvmsg
  split
  · exact h
  · split_ifs
    · exact Inv.recvFds _ h
    · exact h

/-! ### Whole runs -/

theorem empty_inv : empty.Inv where
  exact := nofun
  dead _ _ := rfl
  fresh _ _ := rfl
  opened _ := rfl
  closed _ := rfl
  slots := List.nodup_nil
  noAlias := nofun
  calm := rfl

theorem Inv.step (h : s.Inv) {ev : Event} (hclean : s.Clean ev)
    (hs : s.step ev = some s') : s'.Inv := by
  cases ev
  case openAlias pid fd => exact hclean.elim
  case fork pid child mem =>
    have hmem : mem = true := hclean
    subst hmem
    obtain ⟨hchild, rfl⟩ := of_guard hs
    exact h.fork hchild.1
  case release => exact h.release hs
  all_goals obtain rfl := Option.some.inj hs
  case openFile pid cloexec isEpoll ok => exact h.openFile _ _ _ _
  case socketpair pid a b => exact h.socketpair hclean
  case dup pid fd low => exact h.dup _ _ _
  case dup2 pid fd newfd => exact h.dup2 _ _ _
  case setfd pid fd cloexec => exact h.setfd hclean
  case epollAdd pid efd tfd => exact h.epollCtlAdd _ _ _
  case epollDel pid efd tfd => exact h.epollCtlDel _ _ _
  case epollCollect pid efd => exact h.epollCollect _ _
  case sendmsg pid fd fds => exact h.sendmsg _ _ _
  case recvmsg pid fd cap => exact h.recvmsg _ _ _
  all_goals exact h.hand rfl nofun

/-- Each `file_unref` uses up a reference. -/
theorem release_length (hs : s.release = some s') : s'.holds.length < s.holds.length := by
  obtain ⟨g, hfind, rfl⟩ := Option.map_eq_some_iff.mp hs
  have hlt : (s.holds.eraseP (isHolder .flight)).length < s.holds.length := by
    have hmem := List.mem_of_find?_eq_some hfind
    rw [List.length_eraseP_of_mem hmem (List.find?_some hfind)]
    have := List.length_pos_of_mem hmem
    omega
  split
  · exact hlt
  · split_ifs
    · exact hlt
    · exact Nat.lt_of_le_of_lt (Nat.le_of_eq (List.length_map _)) hlt
    · exact hlt

/-- The references in flight can be given back one after the other. -/
theorem exists_settled (s : FileSys) :
    ∃ n s', run FileSys.step s (List.replicate n .release) = some s' ∧ s'.Settled := by
  rcases hs : s.release with - | s'
  · refine ⟨0, s, rfl, fun g hg hflight => ?_⟩
    have hnone := Option.map_eq_none_iff.mp hs
    exact List.find?_eq_none.mp hnone g hg (decide_eq_true hflight)
  · have := release_length hs
    obtain ⟨n, s'', hrun, hset⟩ := exists_settled s'
    refine ⟨n + 1, s'', ?_, hset⟩
    show s.release.bind _ = _
    rw [hs]
    exact hrun
  termination_by s.holds.length

/-- The references to a description, by kind. -/
theorem held_by_kind (hal : ∀ h ∈ hs, ∀ g, h.holder ≠ .aliasOf g) :
    held hs f = held (hs.filter isSlot) f + held (hs.filter isEpollEntry) f +
      held (hs.filter isQueued) f + held (hs.filter (isHolder .flight)) f := by
  induction hs with
  | nil => rfl
  | cons g hs ih =>
    have hih := ih fun g' hg' => hal g' (List.mem_cons_of_mem _ hg')
    have hg := hal g List.mem_cons_self
    rcases hholder : g.holder with ⟨p, fd⟩ | e | e | x | _
    case aliasOf => exact absurd hholder (hg x)
    all_goals
      simp only [List.filter_cons, isSlot, isEpollEntry, isQueued, isHolder, hholder, slotKey,
        Option.isSome_some, Option.isSome_none, reduceCtorEq, decide_true, decide_false,
        Bool.false_eq_true, if_true, if_false, held_cons]
      omega

theorem Inv.fileLaw (h : s.Inv) : s.FileLaw where
  counted f ft hf := (h.exact f ft hf).1.trans (held_by_kind h.noAlias)
  alive f ft hf := (h.exact f ft hf).2
  named g hg := by
    obtain ⟨ft, hf⟩ := h.live hg
    rw [hf]
    rfl
  settles := exists_settled s
  opened := h.opened
  closed := h.closed
  slots := h.slots
  calm := h.calm

/-- **Main result.**  In every run of calls that keep to `Clean`, over any number of
processes, the references to descriptions are counted exactly in every state
reached. -/
theorem file_refs_counted {evs : List Event} {s : FileSys}
    (hclean : MeetsAll step Clean empty evs) (hrun : run step empty evs = some s) : s.FileLaw :=
  (run_invariant (fun h => h.step) empty_inv hclean hrun).fileLaw

/-- With a full table `socketpair` closes the node of a description that is still there:
`file_unref` closes it once more. -/
theorem socketpair_full (h : s.Inv) {a b : Nat} (hfull : s.freeSlot pid 3 = none) :
    ¬ (s.socketpair pid a b).FileLaw := by
  intro hlaw
  have hfull' : ({ s.fileAlloc false false (some a) with
      peer := update (update (s.fileAlloc false false (some a)).peer a (some b)) b (some a) } :
        FileSys).freeSlot pid 3 = none := hfull
  have heq : s.socketpair pid a b = ({ s.fileAlloc false false (some a) with
      peer := update (update (s.fileAlloc false false (some a)).peer a (some b)) b (some a) } :
        FileSys).closeNode s.next := by
    unfold FileSys.socketpair
    dsimp only
    rw [hfull']
  have hclosed := hlaw.closed s.next
  rw [heq] at hclosed
  have hclosed : update s.closes s.next (s.closes s.next + 1) s.next =
      if s.next < s.next + 1 ∧
        update s.files s.next (some ⟨1, false, false, some a⟩) s.next = none then 1 else 0 := hclosed
  rw [update_self, if_neg (by simp), h.closed] at hclosed
  split_ifs at hclosed

instance decidableClean (s : FileSys) (ev : Event) : Decidable (s.Clean ev) := by
  cases ev with
  | setfd pid fd cloexec =>
    cases hf : s.fileAt pid fd with
    | none => exact isTrue fun f h => by simp [hf] at h
    | some f =>
      exact decidable_of_iff (s.cloexecOf f = cloexec ∨ s.otherSlots pid fd f = [])
        ⟨fun h f' hf' => by
          obtain rfl := Option.some.inj (hf.symm.trans hf')
          exact h, fun h => h f hf⟩
  | _ =>
    unfold Clean
    infer_instance

/-- A parent and its child share descriptions, one is registered with an epoll file
and one is sent over a socket; in the end the parent is gone, the epoll file with it,
and the child has received a descriptor. -/
def sharedRun : List Event :=
  [.openFile 1 false false true, .openFile 1 false true true, .epollAdd 1 4 3, .socketpair 1 10 11,
    .setfd 1 4 true, .fork 1 2 true, .sendmsg 1 5 [3], .exec 1, .release, .exit 1, .release, .release,
    .release, .recvmsg 2 6 4, .close 2 4, .release, .release]

theorem file_refs_counted_shared : ∃ s, run step empty sharedRun = some s ∧
    s.fileAt 2 7 = some 0 ∧ s.files 1 = none ∧ s.closes 1 = 1 ∧
    (s.files 0).map FileT.refcount = some 2 ∧ s.FileLaw := by
  refine exists_of_check (p := fun s => s.fileAt 2 7 = some 0 ∧ s.files 1 = none ∧ s.closes 1 = 1 ∧
      (s.files 0).map FileT.refcount = some 2)
    (by decide +kernel) fun s hs ⟨hslot, hgone, hclosed, hcount⟩ => ⟨hslot, hgone, hclosed, hcount, ?_⟩
  exact file_refs_counted (by decide +kernel) hs

/-- Setting the flag of one descriptor sets it for its duplicate, which exec then
closes too; a fork that fails late leaves a reference behind; an alias is a
reference of another kind. -/
theorem file_refs_lost :
    (∃ s, run step empty [.openFile 1 false false true, .dup 1 3 0, .setfd 1 3 true] = some s ∧
      s.disturbed = [(1, 0)] ∧ ¬s.FileLaw) ∧
    (∃ s, run step empty [.openFile 1 false false true, .fork 1 2 false] = some s ∧
      (s.files 0).map FileT.refcount = some 2 ∧ s.holds = [⟨.slot 1 3, 0⟩] ∧ ¬s.FileLaw) ∧
    ∃ s, run step empty [.openFile 1 false false true, .openAlias 1 3] = some s ∧
      (s.files 0).map FileT.refcount = some 2 ∧ s.refsTo isSlot 0 = 1 ∧ ¬s.FileLaw := by
  refine ⟨exists_of_check (by decide +kernel)
      fun s _ hdist => ⟨hdist, fun h => ?_⟩,
    exists_of_check (p := fun s => s.files 0 = some ⟨2, false, false, none⟩ ∧ s.holds = [⟨.slot 1 3, 0⟩])
      (by decide +kernel) fun s _ ⟨hf, hh⟩ => ⟨by rw [hf]; rfl, hh, fun h => ?_⟩,
    exists_of_check (p := fun s => s.files 0 = some ⟨2, false, false, none⟩ ∧
        s.holds = [⟨.aliasOf 1, 0⟩, ⟨.slot 1 4, 1⟩, ⟨.slot 1 3, 0⟩])
      (by decide +kernel) fun s _ ⟨hf, hh⟩ =>
        ⟨by rw [hf]; rfl, by simp only [refsTo, hh]; decide, fun h => ?_⟩⟩
  · rw [h.calm] at hdist
    cases hdist
  all_goals
    have hcount := h.counted 0 _ hf
    simp only [refsTo, hh] at hcount
    exact absurd hcount (by decide)

end FileSys

end CactKernel
