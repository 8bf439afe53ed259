/-
CactKernel/Sched/WaitPidLaw.lean

What holds of children in every run.

A reported child has left the task list and was reported by the task that
forked it.  A task that waits is attended to: a matching dead child is still
about to call `schedule`, which will wake it.  The count of a `ProcShared` is
the number of listed members, and the group has been released once exactly if
there are none.

Most steps write words of listed tasks and nothing else (`Rewrites`), so the
invariant comes down to the tasks that wait; births and reaps move the list and
the counts.
-/
import CactKernel.Sched.WaitPid
import Mathlib.Data.List.Nodup
import Mathlib.Data.List.Perm.Subperm

namespace CactKernel

open Function Runs

namespace WaitSys

variable {s s' : WaitSys} {t u p c g : Nat} {r : ProcMeta} {target : Int} {options : BitVec 32}
  {x : WaitSys × Nat}

theorem setTask_self : (s.setTask t r).task t = r := update_self ..

theorem setTask_of_ne (hu : u ≠ t) : (s.setTask t r).task u = s.task u := update_of_ne hu ..

/-- The parent is woken if it waits; nobody else is touched. -/
theorem wakeParent_task : (s.wakeParent t).task u = s.task u ∨
    (s.task u).state = .waiting ∧ (s.wakeParent t).task u = { s.task u with state := .ready } := by
  unfold WaitSys.wakeParent
  dsimp only
  split
  · next hw =>
    rcases eq_or_ne u (s.task t).parentPid with rfl | hu
    · exact Or.inr ⟨hw.2.2, update_self ..⟩
    · exact Or.inl (update_of_ne hu ..)
  · exact Or.inl rfl

/-! ### The invariant -/

/-- The child of a reply. -/
def childOf : Nat × WaitReply → Option Nat
  | (_, .child c _) => some c
  | _ => none

/-- The children that were reported dead. -/
def reported (s : WaitSys) : List Nat := s.replies.filterMap childOf

/-- A waiting task is in a call that may block, and dead children it asks for are still on their
way to `schedule`. -/
def Attended (s : WaitSys) (p : Nat) : Prop :=
  ∃ target options, (s.task p).call = some (target, options) ∧ options &&& wnohang = 0 ∧
    ∀ c ∈ s.list, s.Matches p target c → (s.task c).state = .zombie → (s.task c).gone = false

/-- What holds in every reachable state. -/
structure Inv (s : WaitSys) : Prop where
  nodup : s.list.Nodup
  range : ∀ t ∈ s.list, 0 < t ∧ t < s.nextPid
  pids : 0 < s.nextPid ∧ s.nextPid < 2 ^ 32
  parent : ∀ t, (s.task t).parentPid = (s.task t).forker ∨ (s.task t).parentPid = 0
  elder : ∀ t ∈ s.list, (s.task t).parentPid < t
  gone : ∀ t, (s.task t).gone = true → (s.task t).state = .zombie
  code : ∀ t x, (s.task t).exited = some x → (s.task t).exitCode = x
  attended : ∀ p ∈ s.list, (s.task p).state = .waiting → s.Attended p
  members : ∀ g, s.refs g = s.list.countP fun t => decide ((s.task t).shared = g)
  groups : ∀ t ∈ s.list, (s.task t).shared < s.nextShared
  freed : ∀ g, s.freed.count g = if g < s.nextShared ∧ s.refs g = 0 then 1 else 0
  once : s.reported.Nodup
  reaped : ∀ c ∈ s.reported, c ∉ s.list ∧ c < s.nextPid
  own : ∀ p c status, (p, .child c status) ∈ s.replies → p = (s.task c).forker ∧
    status = exitStatus (s.task c).exitCode

theorem mem_reported {status : BitVec 32} (h : (p, .child c status) ∈ s.replies) : c ∈ s.reported :=
  List.mem_filterMap.mpr ⟨_, h, rfl⟩

/-- The words of listed tasks change, and nothing else does. -/
structure Rewrites (s s' : WaitSys) : Prop where
  list : s'.list = s.list
  refs : s'.refs = s.refs
  nextPid : s'.nextPid = s.nextPid
  nextShared : s'.nextShared = s.nextShared
  freed : s'.freed = s.freed
  replies : s'.replies = s.replies
  other : ∀ u, u ∉ s.list → s'.task u = s.task u
  shared : ∀ u, (s'.task u).shared = (s.task u).shared
  forker : ∀ u, (s'.task u).forker = (s.task u).forker
  parent : ∀ u, (s'.task u).parentPid = (s.task u).parentPid ∨ (s'.task u).parentPid = 0
  gone : ∀ u, (s'.task u).gone = true → (s'.task u).state = .zombie
  code : ∀ u x, (s'.task u).exited = some x → (s'.task u).exitCode = x

/-- A child that matches did so before. -/
theorem Rewrites.matches (h : Rewrites s s') (hp : p ≠ 0) (hm : s'.Matches p target c) :
    s.Matches p target c := by
  refine ⟨?_, hm.2⟩
  rcases h.parent c with he | he
  · exact he ▸ hm.1
  · exact absurd (he.symm.trans hm.1).symm hp

/-- Words of tasks change, the list does not. -/
theorem Inv.rewrites (h : s.Inv) (hr : Rewrites s s')
    (ha : ∀ p ∈ s.list, (s'.task p).state = .waiting → s'.Attended p) : s'.Inv := by
  obtain ⟨list, task⟩ := s'
  obtain ⟨rfl, rfl, rfl, rfl, rfl, rfl, hother, hshared, hforker, hparent, hgone, hcode⟩ := hr
  refine { h with
    parent := fun t => ?_, elder := fun t ht => ?_, gone := hgone, code := hcode, attended := ha,
    members := fun g => ?_, groups := fun t ht => ?_, own := fun p c status hm => ?_ }
  · rw [hforker]
    rcases hparent t with he | he
    · rw [he]
      exact h.parent t
    · exact Or.inr he
  · rcases hparent t with he | he <;> rw [he]
    · exact h.elder t ht
    · exact (h.range t ht).1
  · refine (h.members g).trans (List.countP_congr fun t _ => ?_)
    rw [hshared]
  · rw [hshared]
    exact h.groups t ht
  · rw [hother c (h.reaped c (mem_reported hm)).1]
    exact h.own p c status hm

/-- The words of one task are written. -/
theorem rewrites_setTask (h : s.Inv) (ht : t ∈ s.list) (hsh : r.shared = (s.task t).shared)
    (hfk : r.forker = (s.task t).forker) (hpar : r.parentPid = (s.task t).parentPid)
    (hgone : r.gone = true → r.state = .zombie) (hcode : ∀ x, r.exited = some x → r.exitCode = x) :
    Rewrites s (s.setTask t r) := by
  refine ⟨rfl, rfl, rfl, rfl, rfl, rfl, fun u hu => setTask_of_ne fun hut => hu (hut ▸ ht), fun u => ?_,
    fun u => ?_, fun u => ?_, fun u => ?_, fun u => ?_⟩ <;> rcases eq_or_ne u t with rfl | hu <;>
    first | rw [setTask_self] | rw [setTask_of_ne hu]
  · exact hsh
  · exact hfk
  · exact Or.inl hpar
  · exact Or.inl rfl
  · exact hgone
  · exact h.gone u
  · exact hcode
  · exact h.code u

/-- A waiting task stays attended to, if no dead task has left meanwhile. -/
theorem Attended.rewrites (h : s.Attended p) (hr : Rewrites s s') (hp : p ≠ 0)
    (hcall : (s'.task p).call = (s.task p).call)
    (hz : ∀ c ∈ s.list, (s'.task c).state = .zombie → (s'.task c).gone = true →
      (s.task c).state = .zombie ∧ (s.task c).gone = true) : s'.Attended p := by
  obtain ⟨target, options, hc, ho, hall⟩ := h
  refine ⟨target, options, hcall.trans hc, ho, fun c hcl hm hst => ?_⟩
  rw [hr.list] at hcl
  by_contra hg
  obtain ⟨hst', hg'⟩ := hz c hcl hst (by simpa using hg)
  rw [hall c hcl (hr.matches hp hm) hst'] at hg'
  exact nomatch hg'

section

variable (h : s.Inv)
include h

theorem Inv.attended_setTask (hr : Rewrites s (s.setTask t r))
    (hgone : r.gone = (s.task t).gone) (hp : p ∈ s.list) (hpt : p ≠ t)
    (hw : ((s.setTask t r).task p).state = .waiting) : (s.setTask t r).Attended p := by
  rw [setTask_of_ne hpt] at hw
  refine (h.attended p hp hw).rewrites hr (Nat.pos_iff_ne_zero.mp (h.range p hp).1)
    (by rw [setTask_of_ne hpt]) fun c hc hz hg => ?_
  by_cases hct : c = t
  · subst hct
    rw [setTask_self, hgone] at hg
    exact ⟨h.gone c hg, hg⟩
  · rw [setTask_of_ne hct] at hz hg
    exact ⟨hz, hg⟩

/-- One task changes its words; it does not begin to wait and does not leave. -/
theorem Inv.setTask (ht : t ∈ s.list) (hsh : r.shared = (s.task t).shared)
    (hfk : r.forker = (s.task t).forker) (hpar : r.parentPid = (s.task t).parentPid)
    (hgone : r.gone = (s.task t).gone) (hz : (s.task t).state = .zombie → r.gone = true → r.state = .zombie)
    (hcode : ∀ x, r.exited = some x → r.exitCode = x) (hw : r.state ≠ .waiting) :
    (s.setTask t r).Inv := by
  have hr : Rewrites s (s.setTask t r) := rewrites_setTask h ht hsh hfk hpar
    (fun hg => hz (h.gone t (hgone ▸ hg)) hg) hcode
  refine h.rewrites hr fun p hp hst => h.attended_setTask hr hgone hp (fun hpt => hw ?_) hst
  rwa [hpt, setTask_self] at hst

theorem Inv.setState {st : TaskState} (ht : t ∈ s.list) (hw : st ≠ .waiting)
    (hz : (s.task t).gone = true → st = .zombie) : (s.setState t st).Inv :=
  h.setTask ht rfl rfl rfl rfl (fun _ => hz) (h.code t) hw

theorem Inv.wakeParent : (s.wakeParent t).Inv := by
  unfold WaitSys.wakeParent
  dsimp only
  split
  · next hw =>
    refine h.setState hw.2.1 (by decide) fun hg => ?_
    exact nomatch (h.gone _ hg).symm.trans hw.2.2
  · exact h

/-! ### Reaping -/

/-- A dead task leaves the list. -/
theorem Inv.collect (ht : t ∈ s.list) : (s.collect t).Inv := by
  have hmem : ∀ {u}, u ∈ (s.collect t).list → u ∈ s.list := fun hu => List.mem_of_mem_erase hu
  have hcount : ∀ g, (s.list.erase t).countP (fun u => decide ((s.task u).shared = g)) =
      s.refs g - if (s.task t).shared = g then 1 else 0 := fun g => by
    rw [h.members g, (List.perm_cons_erase ht).countP_eq, List.countP_cons]
    simp
  have hpos : 0 < s.refs (s.task t).shared := by
    rw [h.members]
    exact List.countP_pos_iff.mpr ⟨t, ht, by simp⟩
  refine ⟨h.nodup.erase t, fun u hu => h.range u (hmem hu), h.pids, h.parent,
    fun u hu => h.elder u (hmem hu), h.gone, h.code,
    fun p hp hst => ?_, fun g => ?_, fun u hu => h.groups u (hmem hu), fun g => ?_, h.once,
    fun c hc => ⟨fun hl => (h.reaped c hc).1 (hmem hl), (h.reaped c hc).2⟩, h.own⟩
  · obtain ⟨target, options, hcall, ho, hall⟩ := h.attended p (hmem hp) hst
    exact ⟨target, options, hcall, ho, fun c hc => hall c (hmem hc)⟩
  · refine Eq.trans ?_ (hcount g).symm
    show update s.refs (s.task t).shared (s.refs (s.task t).shared - 1) g = _
    by_cases hg : g = (s.task t).shared
    · subst hg
      rw [update_self, if_pos rfl]
    · rw [update_of_ne hg, if_neg (Ne.symm hg), Nat.sub_zero]
  · have hold := h.freed g
    have hlt := h.groups t ht
    show (if s.refs (s.task t).shared - 1 = 0 then (s.task t).shared :: s.freed else s.freed).count g =
      if g < s.nextShared ∧ update s.refs (s.task t).shared (s.refs (s.task t).shared - 1) g = 0
        then 1 else 0
    by_cases hg : g = (s.task t).shared
    · subst hg
      rw [if_neg (fun hn => by omega)] at hold
      rw [update_self]
      split
      · next hz => rw [List.count_cons_self, hold, if_pos ⟨hlt, hz⟩]
      · next hz => rw [hold, if_neg fun hn => hz hn.2]
    · rw [update_of_ne hg]
      split
      · rw [List.count_cons_of_ne (Ne.symm hg), hold]
      · exact hold

end

/-- One pass of `task_reap`. -/
theorem reapPass_inv (h : x.1.Inv) (ht : t ∈ x.1.list) : (reapPass x t).1.Inv := by
  unfold reapPass
  dsimp only
  split
  · exact h.collect ht
  · exact h

theorem reapPass_list (hu : u ∈ x.1.list) (hut : u ≠ t) : u ∈ (reapPass x t).1.list := by
  unfold reapPass
  dsimp only
  split
  · exact (List.mem_erase_of_ne hut).mpr hu
  · exact hu

/-- A pass over tasks that are all listed. -/
theorem reapLoop_inv {l : List Nat} (hl : l.Nodup) (h : x.1.Inv)
    (hmem : ∀ t ∈ l, t ∈ x.1.list) : (l.foldl reapPass x).1.Inv := by
  induction l generalizing x with
  | nil => exact h
  | cons t l ih =>
    obtain ⟨htl, hl⟩ := List.nodup_cons.mp hl
    refine ih hl (reapPass_inv h (hmem t List.mem_cons_self)) fun u hu => ?_
    exact reapPass_list (hmem u (List.mem_cons_of_mem t hu)) fun hut => htl (hut ▸ hu)

/-! ### Birth -/

section

variable (h : s.Inv)
include h

/-- A new task at the end of the list. -/
theorem Inv.spawn {refs : Nat → Nat} {nextShared : Nat}
    (hs : s.spawn r refs nextShared = some s') (hst : r.state = .ready) (hg : r.gone = false)
    (hex : r.exited = none) (hpar : r.parentPid = r.forker ∨ r.parentPid = 0)
    (hel : r.parentPid < s.nextPid) (hle : s.nextShared ≤ nextShared) (hsh : r.shared < nextShared)
    (hrefs : ∀ g, refs g = s.refs g + if r.shared = g then 1 else 0)
    (hfreed : ∀ g, s.freed.count g = if g < nextShared ∧ refs g = 0 then 1 else 0) : s'.Inv := by
  obtain ⟨hpid, rfl⟩ := of_guard hs
  have hfresh : ∀ {u}, u ∈ s.list → u ≠ s.nextPid := fun hu => Nat.ne_of_lt (h.range _ hu).2
  have hold : ∀ {u}, u ≠ s.nextPid → update s.task s.nextPid r u = s.task u := fun hu =>
    update_of_ne hu ..
  have hnew : update s.task s.nextPid r s.nextPid = r := update_self ..
  have hcases : ∀ {u}, u ∈ s.list ++ [s.nextPid] → u ∈ s.list ∨ u = s.nextPid := fun hu => by
    simpa using hu
  refine ⟨?_, fun t ht => ?_, ⟨Nat.succ_pos _, hpid⟩, ?_, fun t ht => ?_, ?_, ?_, fun p hp hw => ?_,
    fun g => ?_, fun t ht => ?_, hfreed, h.once, fun c hc => ?_, fun p c status hm => ?_⟩
  · refine List.nodup_append.mpr ⟨h.nodup, List.nodup_singleton _, fun u hu v hv => ?_⟩
    rw [List.mem_singleton.mp hv]
    exact hfresh hu
  · rcases hcases ht with ht | rfl
    · have := h.range t ht
      exact ⟨this.1, Nat.lt_succ_of_lt this.2⟩
    · exact ⟨h.pids.1, Nat.lt_succ_self _⟩
  · exact (forall_update_iff s.task fun _ x => x.parentPid = x.forker ∨ x.parentPid = 0).mpr
      ⟨hpar, fun t _ => h.parent t⟩
  · rcases hcases ht with ht | rfl
    · dsimp only
      rw [hold (hfresh ht)]
      exact h.elder t ht
    · dsimp only
      rwa [hnew]
  · exact (forall_update_iff s.task fun _ x => x.gone = true → x.state = .zombie).mpr
      ⟨fun hn => (nomatch hg.symm.trans hn), fun t _ => h.gone t⟩
  · exact (forall_update_iff s.task fun _ x => ∀ y, x.exited = some y → x.exitCode = y).mpr
      ⟨fun _ hn => (nomatch hex.symm.trans hn), fun t _ => h.code t⟩
  · -- the new task neither waits nor is dead
    dsimp only at hp hw
    have hpn : p ≠ s.nextPid := fun hpn => by
      rw [hpn, hnew, hst] at hw
      exact nomatch hw
    have hpl := (hcases hp).resolve_right hpn
    rw [hold hpn] at hw
    obtain ⟨target, options, hcall, ho, hall⟩ := h.attended p hpl hw
    refine ⟨target, options, ?_, ho, fun c hc hm hz => ?_⟩
    · dsimp only
      rwa [hold hpn]
    · dsimp only at hc hz ⊢
      unfold Matches at hm
      dsimp only at hm
      have hcn : c ≠ s.nextPid := fun hcn => by
        rw [hcn, hnew, hst] at hz
        exact nomatch hz
      rw [hold hcn] at hm hz ⊢
      exact hall c ((hcases hc).resolve_right hcn) hm hz
  · have hcount : s.list.countP (fun t => decide ((update s.task s.nextPid r t).shared = g)) = s.refs g := by
      rw [h.members g]
      exact List.countP_congr fun u hu => by rw [hold (hfresh hu)]
    have hone : [s.nextPid].countP (fun t => decide ((update s.task s.nextPid r t).shared = g)) =
        if r.shared = g then 1 else 0 := by
      simp [List.countP_cons]
    rw [List.countP_append]
    refine (hrefs g).trans (congrArg₂ (· + ·) hcount.symm hone.symm)
  · rcases hcases ht with ht | rfl
    · dsimp only
      rw [hold (hfresh ht)]
      exact Nat.lt_of_lt_of_le (h.groups t ht) hle
    · dsimp only
      rwa [hnew]
  · obtain ⟨hcl, hcn⟩ := h.reaped c hc
    refine ⟨fun hl => ?_, Nat.lt_succ_of_lt hcn⟩
    rcases hcases hl with hl | rfl
    · exact hcl hl
    · exact Nat.lt_irrefl _ hcn
  · dsimp only
    rw [hold (Nat.ne_of_lt (h.reaped c (mem_reported hm)).2)]
    exact h.own p c status hm

/-- No group is larger than the number of pids. -/
theorem Inv.refs_lt : s.refs g + 1 < 2 ^ 32 ∨ s.nextPid + 1 = 2 ^ 32 := by
  have hsub : s.list.Subperm (List.range s.nextPid) :=
    List.Nodup.subperm h.nodup fun u hu => List.mem_range.mpr (h.range u hu).2
  have hlen : s.list.length ≤ s.nextPid := by
    have := hsub.length_le
    rwa [List.length_range] at this
  have hcount : s.refs g ≤ s.list.length := h.members g ▸ List.countP_le_length
  have := h.pids.2
  omega

theorem Inv.taskFork (hp : p ∈ s.list) (hs : s.taskFork p = some s') : s'.Inv := by
  have hnone : s.refs s.nextShared = 0 := by
    rw [h.members]
    exact List.countP_eq_zero.mpr fun u hu => by
      have := h.groups u hu
      simp only [decide_eq_true_eq]
      omega
  refine h.spawn hs rfl rfl rfl (Or.inl rfl) (h.range p hp).2 (Nat.le_succ _) (Nat.lt_succ_self _) (fun g => ?_) fun g => ?_
  · rcases eq_or_ne g s.nextShared with rfl | hg
    · rw [update_self, hnone, if_pos rfl]
    · rw [update_of_ne hg, if_neg (Ne.symm hg)]
      rfl
  · rw [h.freed g]
    rcases eq_or_ne g s.nextShared with rfl | hg
    · rw [update_self, if_neg fun hn => Nat.lt_irrefl _ hn.1, if_neg fun hn => nomatch hn.2]
    · rw [update_of_ne hg]
      exact if_congr (and_congr_left fun _ => by omega) rfl rfl

theorem Inv.schedCreateThread (hp : p ∈ s.list) (hs : s.schedCreateThread p = some s') :
    s'.Inv := by
  have hpid : s.nextPid + 1 < 2 ^ 32 := (of_guard hs).1
  have hmod : (s.refs (s.task p).shared + 1) % 2 ^ 32 = s.refs (s.task p).shared + 1 :=
    Nat.mod_eq_of_lt (h.refs_lt.resolve_right (Nat.ne_of_lt hpid))
  have hpos : 0 < s.refs (s.task p).shared := by
    rw [h.members]
    exact List.countP_pos_iff.mpr ⟨p, hp, by simp⟩
  refine h.spawn hs rfl rfl rfl (Or.inr rfl) h.pids.1 (Nat.le_refl _) (h.groups p hp) (fun g => ?_) fun g => ?_
  · rcases eq_or_ne g (s.task p).shared with rfl | hg
    · rw [update_self, hmod, if_pos rfl]
    · rw [update_of_ne hg, if_neg (Ne.symm hg)]
      rfl
  · rw [h.freed g]
    rcases eq_or_ne g (s.task p).shared with rfl | hg
    · rw [update_self]
      refine if_congr (and_congr_right fun _ => ?_) rfl rfl
      omega
    · rw [update_of_ne hg]

/-! ### Death -/

/-- Orphans have no parent to report them to. -/
theorem Inv.orphaned : ({ s with task := s.orphaned t } : WaitSys).Inv := by
  have horph : ∀ u, s.orphaned t u = s.task u ∨ u ∈ s.list ∧ s.orphaned t u = { s.task u with parentPid := 0 } := by
    intro u
    unfold WaitSys.orphaned
    split
    · next hu => exact Or.inr ⟨hu.1, rfl⟩
    · exact Or.inl rfl
  have hr : Rewrites s { s with task := s.orphaned t } := by
    refine ⟨rfl, rfl, rfl, rfl, rfl, rfl, fun u hu => (horph u).resolve_right fun hn => hu hn.1, fun u => ?_,
      fun u => ?_, fun u => ?_, fun u => ?_, fun u => ?_⟩ <;> dsimp only <;>
      rcases horph u with he | ⟨-, he⟩ <;> rw [he]
    · exact Or.inl rfl
    · exact Or.inr rfl
    · exact h.gone u
    · exact h.gone u
    · exact h.code u
    · exact h.code u
  refine h.rewrites hr fun p hp hw => ?_
  have hsame : ∀ u, (s.orphaned t u).state = (s.task u).state ∧ (s.orphaned t u).call = (s.task u).call ∧
      (s.orphaned t u).gone = (s.task u).gone := by
    intro u
    rcases horph u with he | ⟨-, he⟩ <;> rw [he] <;> exact ⟨rfl, rfl, rfl⟩
  refine (h.attended p hp ((hsame p).1.symm.trans hw)).rewrites hr (Nat.pos_iff_ne_zero.mp (h.range p hp).1)
    (hsame p).2.1 fun c _ hz hg => ?_
  exact ⟨(hsame c).1.symm.trans hz, (hsame c).2.2.symm.trans hg⟩

theorem Inv.schedTaskExit {code : BitVec 32} (ht : t ∈ s.list) : (s.schedTaskExit t code).Inv :=
  h.orphaned.setTask ht rfl rfl rfl rfl (fun _ _ => rfl) (fun _ hx => Option.some.inj hx) nofun

/-- A stop tells the parent. -/
theorem Inv.stop (ht : s.Runs t) : (s.stop t).Inv := by
  have hs : (s.setTask t { s.task t with
      state := .stopped, stops := (s.task t).stops + 1 }).Inv := by
    refine h.setTask ht.1 rfl rfl rfl rfl (fun _ hg => ?_) (h.code t) nofun
    exact nomatch ht.2.2.symm.trans hg
  exact hs.wakeParent

/-- A dead task leaves, and no parent waits for it. -/
theorem Inv.departs (ht : t ∈ s.list) (hz : (s.task t).state = .zombie)
    (hpar : ∀ p ∈ s.list, (s.task p).state = .waiting → (s.task t).parentPid ≠ p) :
    (s.setTask t { s.task t with gone := true }).Inv := by
  refine h.rewrites (rewrites_setTask h ht rfl rfl rfl (fun _ => hz) (h.code t)) fun p hp hw => ?_
  have hpt : p ≠ t := fun hpt => by
    rw [hpt, setTask_self] at hw
    exact nomatch hz.symm.trans hw
  rw [setTask_of_ne hpt] at hw
  obtain ⟨target, options, hcall, ho, hall⟩ := h.attended p hp hw
  refine ⟨target, options, by rwa [setTask_of_ne hpt], ho, fun c hc hm hcz => ?_⟩
  have hct : c ≠ t := fun hct => by
    have hm₁ := hm.1
    rw [hct, setTask_self] at hm₁
    exact hpar p hp hw hm₁
  unfold Matches at hm
  rw [setTask_of_ne hct] at hm hcz ⊢
  exact hall c hc hm hcz

/-- **The parent of a dead task that leaves** does not wait any more. -/
theorem wakeParent_parent (hp : p ∈ s.list) (hpar : (s.task t).parentPid = p) :
    ((s.wakeParent t).task p).state ≠ .waiting := by
  unfold WaitSys.wakeParent
  dsimp only
  rw [hpar]
  split
  · rw [show ((s.setState p .ready).task p) = _ from update_self ..]
    exact nofun
  · next hn => exact fun hw => hn ⟨Nat.pos_iff_ne_zero.mp (h.range p hp).1, hp, hw⟩

end

theorem wakeParent_frame : (s.wakeParent t).list = s.list ∧
    (∀ u, ((s.wakeParent t).task u).parentPid = (s.task u).parentPid) ∧
    (∀ u, (s.task u).state ≠ .waiting → (s.wakeParent t).task u = s.task u) := by
  refine ⟨?_, fun u => ?_, fun u hu => ?_⟩
  · unfold WaitSys.wakeParent
    dsimp only
    split <;> rfl
  · rcases wakeParent_task (s := s) (t := t) with he | ⟨-, he⟩ <;> rw [he]
  · exact wakeParent_task.resolve_right fun hw => hu hw.1

theorem Inv.leave (h : s.Inv) (ht : s.Runs t) (hz : (s.task t).state = .zombie) : (s.leave t).Inv := by
  obtain ⟨hl, hpar, hsame⟩ := wakeParent_frame (s := s)
  refine h.wakeParent.departs (hl ▸ ht.1) ?_ fun p hp hw hpt => ?_
  · rw [hsame t (by rw [hz]; exact nofun)]
    exact hz
  · exact wakeParent_parent h (hl ▸ hp) ((hpar t).symm.trans hpt) hw

/-! ### Waiting -/

/-- A call returns. -/
theorem Inv.reply {x : WaitReply} (h : s.Inv) (hp : p ∈ s.list)
    (hx : ∀ c status, x = .child c status → c ∉ s.reported ∧ c ∉ s.list ∧ c < s.nextPid ∧
      p = (s.task c).forker ∧ status = exitStatus (s.task c).exitCode)
    (hw : (s.task p).state ≠ .waiting) : (s.reply p x).Inv := by
  have hs : (s.setTask p { s.task p with call := none }).Inv :=
    h.setTask hp rfl rfl rfl rfl (fun _ => h.gone p) (h.code p) hw
  have hforker : ∀ c, c ∉ s.list → (s.setTask p { s.task p with call := none }).task c = s.task c :=
    fun c hc => setTask_of_ne fun hcp => hc (hcp ▸ hp)
  refine { hs with once := ?_, reaped := fun c hc => ?_, own := fun q c status hm => ?_ }
  · cases x with
    | child c status => exact List.nodup_cons.mpr ⟨(hx c status rfl).1, h.once⟩
    | stopped c status => exact h.once
    | noChange => exact h.once
    | noChild => exact h.once
  · cases x with
    | child c' status =>
      rcases List.mem_cons.mp hc with rfl | hc
      · exact ⟨(hx c status rfl).2.1, (hx c status rfl).2.2.1⟩
      · exact h.reaped c hc
    | stopped c' status | noChange | noChild => exact h.reaped c hc
  · show q = ((s.setTask p { s.task p with call := none }).task c).forker ∧ _
    rcases List.mem_cons.mp hm with heq | hm
    · obtain ⟨rfl, rfl⟩ := Prod.mk.inj heq
      obtain ⟨-, hcl, -, hf, hst⟩ := hx c status rfl
      show _ ∧ status = exitStatus ((s.setTask q { s.task q with call := none }).task c).exitCode
      rw [hforker c hcl]
      exact ⟨hf, hst⟩
    · show _ ∧ status = exitStatus ((s.setTask p { s.task p with call := none }).task c).exitCode
      rw [hforker c (h.reaped c (mem_reported hm)).1]
      exact h.own q c status hm

/-- A child that is found can be reported. -/
theorem found_spec (h : s.found p target options = some t) :
    t ∈ s.list ∧ s.Reportable p target options t := by
  have := List.find?_some h
  rw [decide_eq_true_eq] at this
  exact ⟨List.mem_of_find?_eq_some h, this⟩

/-- If none is found, none can be. -/
theorem found_none (h : s.found p target options = none) (hc : c ∈ s.list) :
    ¬s.Reportable p target options c := by
  have := List.find?_eq_none.mp h c hc
  simpa using this

theorem Inv.schedWaitpid (h : s.Inv) (hp : s.Runs p) : (s.schedWaitpid p target options).Inv := by
  have hp0 : p ≠ 0 := Nat.pos_iff_ne_zero.mp (h.range p hp.1).1
  have hnw : (s.task p).state ≠ .waiting := fun hw => hp.2.1 (Or.inr (Or.inl hw))
  unfold WaitSys.schedWaitpid
  split
  · next t hf =>
    obtain ⟨htl, ⟨hpar, htgt⟩, -⟩ := found_spec hf
    have hfork : p = (s.task t).forker :=
      hpar ▸ (h.parent t).resolve_right fun h0 => hp0 (hpar.symm.trans h0)
    split
    · next hz =>
      have hpt : p ≠ t := fun hpt => by
        have := h.elder t htl
        omega
      refine (h.collect htl).reply ((List.mem_erase_of_ne hpt).mpr hp.1) (fun c status hx => ?_) hnw
      obtain ⟨rfl, rfl⟩ := WaitReply.child.inj hx
      exact ⟨fun hr => (h.reaped t hr).1 htl, h.nodup.not_mem_erase, (h.range t htl).2, hfork, rfl⟩
    · have hreply : (s.reply p (.stopped t stopStatus)).Inv := h.reply hp.1 (fun _ _ => nofun) hnw
      exact { hreply with }
  · next hf =>
    split
    · exact h.reply hp.1 (fun _ _ => nofun) hnw
    split
    · exact h.reply hp.1 (fun _ _ => nofun) hnw
    next hblock =>
    have hr := rewrites_setTask (r := { s.task p with
      state := if (s.task p).state = .zombie then .zombie else .waiting
      call := some (target, options) }) h hp.1 rfl rfl rfl (fun hg => nomatch hp.2.2.symm.trans hg)
      (h.code p)
    refine h.rewrites hr fun q hq hw => ?_
    rcases eq_or_ne q p with rfl | hqp
    · -- there is no dead child, or it would have been found
      refine ⟨target, options, by rw [setTask_self], not_not.mp hblock, fun c hc hm hz => ?_⟩
      have hm : s.Matches q target c := hr.matches hp0 hm
      have hcq : c ≠ q := fun hcq => by
        have := h.elder c hc
        have := hm.1
        omega
      rw [setTask_of_ne hcq] at hz
      exact absurd ⟨hm, Or.inl hz⟩ (found_none hf hc)
    · exact h.attended_setTask hr rfl hq hqp hw

/-! ### Runs -/

theorem Inv.step {e : Event} (h : s.Inv) (hs : s.step e = some s') : s'.Inv := by
  cases e
  case fork p =>
    obtain ⟨hr, hs⟩ := Option.ite_none_right_eq_some.mp hs
    exact h.taskFork hr.1.1 hs
  case thread p =>
    obtain ⟨hr, hs⟩ := Option.ite_none_right_eq_some.mp hs
    exact h.schedCreateThread hr.1.1 hs
  case taskReap => exact Option.some.inj hs ▸ reapLoop_inv h.nodup h fun _ ht => ht
  all_goals obtain ⟨hr, rfl⟩ := of_guard hs
  case exit t code => exact h.schedTaskExit hr.1.1
  case kill t => exact h.setState hr.1 (by decide) fun _ => rfl
  case stop t => exact h.stop hr
  case leave t => exact h.leave hr.1 hr.2
  case wake t =>
    refine h.setState hr.1 (by decide) fun hg => ?_
    have hb := hr.2
    rw [h.gone t hg] at hb
    exact absurd hb (by decide)
  case waitpid p target options => exact h.schedWaitpid hr.1

end WaitSys

end CactKernel
