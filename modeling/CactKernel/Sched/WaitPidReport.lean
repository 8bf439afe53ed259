/-
CactKernel/Sched/WaitPidReport.lean

What `sched_waitpid` reports, and that it reports.

The status word and the reports of stops are right only in part, and each part has
a condition of its own.  The status is right unless a signal ends a task that has a
parent, which then seems to have called `exit(0)` (`EndsByExit`); a stop is reported
once unless a call finds it again (`StopsAreNew`); and a dead child is reported if
no dead task is stopped (`DeadStays`).

The task list is a queue: new tasks go to its end.  So a dead child only moves
forward, and every call of its parent that asks for it and reports another dead
child takes away a task that stood before it (`Owed.progress`).

**Main result** `children_reported`.
-/
import CactKernel.Sched.WaitPidLaw
import Mathlib.Algebra.Ring.Nat

namespace CactKernel

open Function Runs

/-! ### Positions in a list -/

section Position

variable {α : Type*} [DecidableEq α] {l : List α} {x y : α}

/-- Taking an entry out brings nobody further back. -/
theorem idxOf_erase_le (h : y ≠ x) : (l.erase y).idxOf x ≤ l.idxOf x := by
  induction l with
  | nil => exact Nat.le_refl _
  | cons z l ih =>
    by_cases hzy : z = y
    · subst hzy
      rw [List.erase_cons_head, List.idxOf_cons_ne _ h]
      omega
    · rw [List.erase_cons_tail (by simpa using hzy)]
      by_cases hzx : z = x
      · subst hzx
        exact Nat.le_of_eq (List.idxOf_cons_self.trans List.idxOf_cons_self.symm)
      · rw [List.idxOf_cons_ne _ hzx, List.idxOf_cons_ne _ hzx]
        omega

/-- **The first entry that satisfies `q`** is `x`, or taking it out brings `x` forward. -/
theorem idxOf_erase_find {q : α → Bool} (hx : q x = true) (hf : l.find? q = some y) (h : y ≠ x) :
    (l.erase y).idxOf x + 1 = l.idxOf x := by
  induction l with
  | nil => exact nomatch hf
  | cons z l ih =>
    by_cases hz : q z = true
    · rw [List.find?_cons_of_pos hz] at hf
      obtain rfl := Option.some.inj hf
      rw [List.erase_cons_head, List.idxOf_cons_ne _ h]
    · rw [List.find?_cons_of_neg hz] at hf
      have hzy : z ≠ y := fun hzy => hz (hzy ▸ List.find?_some hf)
      have hzx : z ≠ x := fun hzx => hz (hzx ▸ hx)
      rw [List.erase_cons_tail (by simpa using hzy), List.idxOf_cons_ne _ hzx, List.idxOf_cons_ne _ hzx,
        ← ih hf]

end Position

namespace WaitSys

variable {s s' : WaitSys} {t u p c : Nat} {r : ProcMeta} {target : Int} {options : BitVec 32}

/-! ### What a step does to one task -/

/-- The words of the task `u` through the step `e`. -/
structure Evolves (e : Event) (u : Nat) (r r' : ProcMeta) : Prop where
  exited : r'.exited = r.exited ∨ ∃ code, e = .exit u code ∧ r'.exited = some code
  stops : r.stops ≤ r'.stops
  parent : r'.parentPid = r.parentPid ∨ r'.parentPid = 0 ∧ ∃ code, e = .exit r.parentPid code
  died : r'.state = .zombie → r.state = .zombie ∨ e = .kill u ∨ ∃ code, e = .exit u code
  stays : r.state = .zombie → r'.state = .zombie ∨ e = .stop u

variable {e : Event} {x : WaitSys × Nat} {es : List Event}

theorem Evolves.refl (e : Event) (u : Nat) (r : ProcMeta) : Evolves e u r r :=
  ⟨Or.inl rfl, Nat.le_refl _, Or.inl rfl, Or.inl, Or.inl⟩

/-- A task that waits is woken. -/
theorem Evolves.woken {r' r'' : ProcMeta} (h : Evolves e u r r')
    (hw : r'' = r' ∨ r'.state = .waiting ∧ r'' = { r' with state := .ready }) : Evolves e u r r'' := by
  rcases hw with rfl | ⟨hw, rfl⟩
  · exact h
  · refine { h with died := nofun, stays := fun hz => ?_ }
    rcases h.stays hz with hz' | he
    · exact nomatch hw.symm.trans hz'
    · exact Or.inr he

/-- Only the words of `t` are written. -/
theorem evolves_setTask (h : Evolves e t (s.task t) r) (u : Nat) :
    Evolves e u (s.task u) ((s.setTask t r).task u) :=
  (forall_update_iff s.task fun u r => Evolves e u (s.task u) r).mpr ⟨h, fun u _ => Evolves.refl e u _⟩ u

theorem reply_evolves {x : WaitReply} (u : Nat) : Evolves e u (s.task u) ((s.reply p x).task u) :=
  evolves_setTask (r := { s.task p with call := none })
    ⟨Or.inl rfl, Nat.le_refl _, Or.inl rfl, Or.inl, Or.inl⟩ u

/-- A new task leaves the old ones alone. -/
theorem spawn_old {refs : Nat → Nat} {nextShared : Nat} (hs : s.spawn r refs nextShared = some s') :
    (∀ u, u < s.nextPid → s'.task u = s.task u) ∧ s'.list = s.list ++ [s.nextPid] ∧
      s'.nextPid = s.nextPid + 1 ∧ s'.replies = s.replies ∧ s'.stopReports = s.stopReports ∧
      s'.task s.nextPid = r := by
  obtain ⟨-, rfl⟩ := of_guard hs
  exact ⟨fun u hu => update_of_ne (Nat.ne_of_lt hu) .., rfl, rfl, rfl, rfl, update_self ..⟩

theorem reapPass_task : (reapPass x t).1.task = x.1.task := by
  unfold reapPass
  dsimp only
  split <;> rfl

theorem reapLoop_task (l : List Nat) : (l.foldl reapPass x).1.task = x.1.task := by
  induction l generalizing x with
  | nil => rfl
  | cons t l ih => exact ih.trans reapPass_task

/-- `exit` writes its own code, and the parents of the children. -/
theorem schedTaskExit_evolves {code : BitVec 32} :
    Evolves (.exit t code) u (s.task u) ((s.schedTaskExit t code).task u) := by
  have horph : Evolves (.exit t code) u (s.task u) (s.orphaned t u) := by
    unfold orphaned
    split
    · next h => exact ⟨Or.inl rfl, Nat.le_refl _, Or.inr ⟨rfl, code, by rw [h.2]⟩, Or.inl, Or.inl⟩
    · exact Evolves.refl _ _ _
  rcases eq_or_ne u t with rfl | hu
  · rw [show (s.schedTaskExit u code).task u = _ from update_self ..]
    exact ⟨Or.inr ⟨code, rfl, rfl⟩, horph.stops, horph.parent, fun _ => Or.inr (Or.inr ⟨code, rfl⟩),
      fun _ => Or.inl rfl⟩
  · rwa [show (s.schedTaskExit t code).task u = s.orphaned t u from update_of_ne hu ..]

/-- A call of `waitpid` neither ends nor stops a task. -/
theorem schedWaitpid_evolves :
    Evolves e u (s.task u) ((s.schedWaitpid p target options).task u) := by
  unfold WaitSys.schedWaitpid
  split
  · split
    · exact reply_evolves (s := s.collect _) u
    · next t _ _ => exact reply_evolves (x := .stopped t stopStatus) u
  · split
    · exact reply_evolves u
    split
    · exact reply_evolves u
    · refine evolves_setTask ?_ u
      refine ⟨Or.inl rfl, Nat.le_refl _, Or.inl rfl, fun hz => ?_, fun hz => ?_⟩
      · split at hz
        · next hz' => exact Or.inl hz'
        · exact nomatch hz
      · exact Or.inl (if_pos hz)

theorem step_evolves (hs : s.step e = some s') (hu : u < s.nextPid) :
    Evolves e u (s.task u) (s'.task u) := by
  cases e
  case fork p | thread p =>
    obtain ⟨-, hs⟩ := Option.ite_none_right_eq_some.mp hs
    rw [(spawn_old hs).1 u hu]
    exact Evolves.refl _ _ _
  case taskReap =>
    obtain rfl := Option.some.inj hs
    rw [show s.taskReap.task = s.task from reapLoop_task _]
    exact Evolves.refl _ _ _
  all_goals obtain ⟨hr, rfl⟩ := of_guard hs
  case exit t code => exact schedTaskExit_evolves
  case kill t =>
    refine evolves_setTask ?_ u
    exact ⟨Or.inl rfl, Nat.le_refl _, Or.inl rfl, fun _ => Or.inr (Or.inl rfl), fun _ => Or.inl rfl⟩
  case stop t =>
    refine Evolves.woken (evolves_setTask ?_ u) wakeParent_task
    exact ⟨Or.inl rfl, Nat.le_succ _, Or.inl rfl, (fun h => by cases h), fun _ => Or.inr rfl⟩
  case leave t =>
    have hwoken : ∀ u, Evolves (.leave t) u (s.task u) ((s.wakeParent t).task u) := fun u =>
      (Evolves.refl _ u _).woken wakeParent_task
    have ht := hwoken t
    rcases eq_or_ne u t with rfl | hut
    · rw [show (s.leave u).task u = _ from update_self ..]
      exact { ht with }
    · rw [show (s.leave t).task u = (s.wakeParent t).task u from update_of_ne hut ..]
      exact hwoken u
  case wake t =>
    refine evolves_setTask ?_ u
    refine ⟨Or.inl rfl, Nat.le_refl _, Or.inl rfl, (fun h => by cases h), fun hz => ?_⟩
    have hb := hr.2
    rw [hz] at hb
    exact absurd hb (by decide)
  case waitpid p target options => exact schedWaitpid_evolves

/-! ### What a step does to the lists -/

/-- A pass of `sched_waitpid` with something to report. -/
theorem schedWaitpid_found (hf : s.found p target options = some t)
    (hs : s.schedWaitpid p target options = s') :
    (s.task t).state = .zombie ∧ s'.list = s.list.erase t ∧
        s'.replies = (p, .child t (exitStatus (s.task t).exitCode)) :: s.replies ∧
        s'.stopReports = s.stopReports ∨
      (s.task t).state = .stopped ∧ s'.list = s.list ∧
        s'.replies = (p, .stopped t stopStatus) :: s.replies ∧
        s'.stopReports = (t, (s.task t).stops) :: s.stopReports := by
  subst hs
  unfold WaitSys.schedWaitpid
  rw [hf]
  dsimp only
  split
  · next hz => exact Or.inl ⟨hz, rfl, rfl, rfl⟩
  · next hz => exact Or.inr ⟨((found_spec hf).2.2.resolve_left hz).1, rfl, rfl, rfl⟩

/-- A call that finds no child to report. -/
theorem schedWaitpid_none (hf : s.found p target options = none)
    (hs : s.schedWaitpid p target options = s') :
    s'.list = s.list ∧ s'.stopReports = s.stopReports ∧
      (s'.replies = s.replies ∨ s'.replies = (p, .noChild) :: s.replies ∨
        s'.replies = (p, .noChange) :: s.replies) := by
  subst hs
  unfold WaitSys.schedWaitpid
  rw [hf]
  dsimp only
  split
  · exact ⟨rfl, rfl, Or.inr (Or.inl rfl)⟩
  split
  · exact ⟨rfl, rfl, Or.inr (Or.inr rfl)⟩
  · exact ⟨rfl, rfl, Or.inl rfl⟩

theorem wakeParent_lists : (s.wakeParent t).list = s.list ∧ (s.wakeParent t).replies = s.replies ∧
    (s.wakeParent t).stopReports = s.stopReports ∧ (s.wakeParent t).nextPid = s.nextPid := by
  unfold WaitSys.wakeParent
  dsimp only
  split <;> exact ⟨rfl, rfl, rfl, rfl⟩

/-- A reap reports nothing. -/
theorem reapLoop_lists (l : List Nat) :
    (∀ u ∈ (l.foldl reapPass x).1.list, u ∈ x.1.list) ∧
      (l.foldl reapPass x).1.replies = x.1.replies ∧
      (l.foldl reapPass x).1.stopReports = x.1.stopReports ∧
      (l.foldl reapPass x).1.nextPid = x.1.nextPid := by
  refine List.foldlRecOn (motive := fun y => (∀ u ∈ y.1.list, u ∈ x.1.list) ∧ y.1.replies = x.1.replies ∧
    y.1.stopReports = x.1.stopReports ∧ y.1.nextPid = x.1.nextPid) l reapPass
    ⟨fun _ hu => hu, rfl, rfl, rfl⟩ fun y ⟨h₁, h₂, h₃, h₄⟩ t _ => ?_
  unfold reapPass
  dsimp only
  split
  · exact ⟨fun u hu => h₁ u (List.mem_of_mem_erase hu), h₂, h₃, h₄⟩
  · exact ⟨h₁, h₂, h₃, h₄⟩

section

variable (hs : s.step e = some s')
include hs

/-- **What a step does to the lists**: it waits, it reaps, or it at most adds a task. -/
theorem step_cases :
    (∃ p target options, e = .waitpid p target options ∧ s.Runs p ∧ s' = s.schedWaitpid p target options) ∨
    e = .taskReap ∧ s' = s.taskReap ∨
    (∀ p target options, e ≠ .waitpid p target options) ∧
      s'.replies = s.replies ∧ s'.stopReports = s.stopReports ∧
      (s'.list = s.list ∧ s'.nextPid = s.nextPid ∨
        s'.list = s.list ++ [s.nextPid] ∧ s'.nextPid = s.nextPid + 1 ∧
          (s'.task s.nextPid).state = .ready) := by
  cases e with
  | waitpid p target options =>
    obtain ⟨hr, rfl⟩ := of_guard hs
    exact Or.inl ⟨p, target, options, rfl, hr.1, rfl⟩
  | taskReap => exact Or.inr (Or.inl ⟨rfl, (Option.some.inj hs).symm⟩)
  | fork p | thread p =>
    obtain ⟨-, hs⟩ := Option.ite_none_right_eq_some.mp hs
    obtain ⟨-, hl, hn, hrep, hst, hnew⟩ := spawn_old hs
    exact Or.inr (Or.inr ⟨nofun, hrep, hst, Or.inr ⟨hl, hn, by rw [hnew]⟩⟩)
  | exit t code | kill t | wake t =>
    obtain ⟨-, rfl⟩ := of_guard hs
    exact Or.inr (Or.inr ⟨nofun, rfl, rfl, Or.inl ⟨rfl, rfl⟩⟩)
  | stop t | leave t =>
    obtain ⟨-, rfl⟩ := of_guard hs
    obtain ⟨hl, hrep, hst, hn⟩ := wakeParent_lists
    exact Or.inr (Or.inr ⟨nofun, hrep, hst, Or.inl ⟨hl, hn⟩⟩)

/-- A listed task was listed before, or it is new. -/
theorem mem_step (hu : u ∈ s'.list) :
    u ∈ s.list ∨ u = s.nextPid ∧ (s'.task u).state = .ready := by
  rcases step_cases hs with ⟨p, target, options, -, -, rfl⟩ | ⟨-, rfl⟩ | ⟨-, -, -, ⟨hl, -⟩ | ⟨hl, -, hst⟩⟩
  · rcases hf : s.found p target options with - | t
    · exact Or.inl ((schedWaitpid_none hf rfl).1 ▸ hu)
    · rcases schedWaitpid_found hf rfl with ⟨-, hl, -⟩ | ⟨-, hl, -⟩ <;> rw [hl] at hu
      · exact Or.inl (List.mem_of_mem_erase hu)
      · exact Or.inl hu
  · exact Or.inl ((reapLoop_lists _).1 u hu)
  · exact Or.inl (hl ▸ hu)
  · refine (List.mem_append.mp (hl ▸ hu)).imp_right fun hu => ?_
    obtain rfl := List.mem_singleton.mp hu
    exact ⟨rfl, hst⟩

/-- Pids are not used again. -/
theorem nextPid_step : s.nextPid ≤ s'.nextPid := by
  rcases step_cases hs with ⟨p, target, options, -, -, rfl⟩ | ⟨-, rfl⟩ | ⟨-, -, -, ⟨-, hn⟩ | ⟨-, hn, -⟩⟩
  · unfold WaitSys.schedWaitpid
    repeat' split
    all_goals exact Nat.le_refl _
  · exact Nat.le_of_eq (reapLoop_lists (x := (s, 0)) s.list).2.2.2.symm
  · omega
  · omega

end

/-! ### Telling the truth -/

/-- No signal ends a task that has a parent, unless the task has called `exit`. -/
def EndsByExit (s : WaitSys) : Event → Prop
  | .kill t => (s.task t).parentPid = 0 ∨ (s.task t).exited ≠ none
  | _ => True

/-- No call finds a stop that has been reported. -/
def StopsAreNew (s : WaitSys) : Event → Prop
  | .waitpid p target options => ∀ t ∈ s.found p target options, (s.task t).state = .stopped →
    (t, (s.task t).stops) ∉ s.stopReports
  | _ => True

/-- No dead task is stopped. -/
def DeadStays (s : WaitSys) : Event → Prop
  | .stop t => (s.task t).state ≠ .zombie
  | _ => True

instance decidableEndsByExit (s : WaitSys) (e : Event) : Decidable (s.EndsByExit e) := by
  unfold EndsByExit
  split <;> infer_instance

instance decidableStopsAreNew (s : WaitSys) (e : Event) : Decidable (s.StopsAreNew e) := by
  unfold StopsAreNew
  split <;> infer_instance

/-- A dead child that was reported called `exit`, with the code that the status shows. -/
structure Truthful (s : WaitSys) : Prop where
  exits : ∀ t ∈ s.list, (s.task t).state = .zombie → (s.task t).parentPid ≠ 0 →
    (s.task t).exited ≠ none
  told : ∀ p c status, (p, .child c status) ∈ s.replies →
    ∃ code, (s.task c).exited = some code ∧ status = exitStatus code

/-- No stop was reported twice. -/
structure StopsOnce (s : WaitSys) : Prop where
  nodup : s.stopReports.Nodup
  past : ∀ c k, (c, k) ∈ s.stopReports → c < s.nextPid ∧ k ≤ (s.task c).stops

/-- Whoever dies has called `exit`. -/
theorem Truthful.exits_step (hinv : s.Inv) (h : s.Truthful) (hc : s.EndsByExit e) (hs : s.step e = some s')
    (ht : t ∈ s'.list) (hz : (s'.task t).state = .zombie) (hp : (s'.task t).parentPid ≠ 0) :
    (s'.task t).exited ≠ none := by
  rcases mem_step hs ht with htl | ⟨-, hst⟩
  swap
  · cases hst.symm.trans hz
  have hev := step_evolves hs (hinv.range t htl).2
  have hpar : (s.task t).parentPid ≠ 0 := by
    rcases hev.parent with he | he
    · rwa [← he]
    · exact absurd he.1 hp
  rcases hev.exited with hex | ⟨code, -, hex⟩
  swap
  · rw [hex]
    exact Option.some_ne_none _
  rw [hex]
  rcases hev.died hz with hz' | rfl | ⟨code, rfl⟩
  · exact h.exits t htl hz' hpar
  · exact (show _ ∨ _ from hc).resolve_left hpar
  · rw [← hex]
    obtain ⟨-, rfl⟩ := of_guard hs
    rw [show (s.schedTaskExit t code).task t = _ from update_self ..]
    exact Option.some_ne_none _

/-- What was told stays true: the records of reaped tasks are not written. -/
theorem Truthful.told_old (hinv : s.Inv) (h : s.Truthful) (hs : s.step e = some s') {status : BitVec 32}
    (hm : (p, .child c status) ∈ s.replies) :
    ∃ code, (s'.task c).exited = some code ∧ status = exitStatus code := by
  obtain ⟨code, hex, hst⟩ := h.told p c status hm
  obtain ⟨hcl, hcn⟩ := hinv.reaped c (mem_reported hm)
  rcases (step_evolves hs hcn).exited with he | ⟨code', rfl, -⟩
  · exact ⟨code, he.trans hex, hst⟩
  · exact absurd (of_guard hs).1.1.1 hcl

/-- Nothing is reported in the step. -/
theorem Truthful.silent (hinv : s.Inv) (h : s.Truthful) (hc : s.EndsByExit e) (hs : s.step e = some s')
    (hrep : ∀ p c status, (p, WaitReply.child c status) ∈ s'.replies → (p, .child c status) ∈ s.replies) :
    s'.Truthful where
  exits _ ht hz hp := h.exits_step hinv hc hs ht hz hp
  told p c status hm := h.told_old hinv hs (hrep p c status hm)

theorem Truthful.step (hinv : s.Inv) (h : s.Truthful) (hc : s.EndsByExit e) (hs : s.step e = some s') :
    s'.Truthful := by
  rcases step_cases hs with ⟨p, target, options, rfl, hrun, rfl⟩ | ⟨-, hs'⟩ | ⟨-, hrep, -⟩
  · rcases hf : s.found p target options with - | t
    · obtain ⟨-, -, hrep⟩ := schedWaitpid_none hf rfl
      refine h.silent hinv hc hs fun q c status hm => ?_
      rcases hrep with hrep | hrep | hrep <;> rw [hrep] at hm
      · exact hm
      all_goals exact (List.mem_cons.mp hm).resolve_left fun heq => nomatch (Prod.mk.inj heq).2
    obtain ⟨htl, ⟨hpar, -⟩, -⟩ := found_spec hf
    rcases schedWaitpid_found hf rfl with ⟨hz, -, hrep, -⟩ | ⟨-, -, hrep, -⟩
    · -- a dead child
      refine ⟨fun _ ht hz hp => h.exits_step hinv hc hs ht hz hp, fun q c status hm => ?_⟩
      rw [hrep] at hm
      rcases List.mem_cons.mp hm with heq | hm
      · obtain ⟨rfl, hx⟩ := Prod.mk.inj heq
        obtain ⟨rfl, rfl⟩ := WaitReply.child.inj hx
        have hp0 : (s.task c).parentPid ≠ 0 :=
          hpar ▸ Nat.pos_iff_ne_zero.mp (hinv.range q hrun.1).1
        obtain ⟨code, hex⟩ := Option.ne_none_iff_exists'.mp (h.exits c htl hz hp0)
        refine ⟨code, ?_, by rw [hinv.code c code hex]⟩
        rcases (step_evolves hs (hinv.range c htl).2).exited with he | ⟨code', he, -⟩
        · exact he.trans hex
        · exact nomatch he
      · exact h.told_old hinv hs hm
    · -- a stop
      refine h.silent hinv hc hs fun q c status hm => ?_
      rw [hrep] at hm
      exact (List.mem_cons.mp hm).resolve_left fun heq => nomatch (Prod.mk.inj heq).2
  · refine h.silent hinv hc hs fun _ _ _ hm => ?_
    rwa [hs', show s.taskReap.replies = s.replies from (reapLoop_lists s.list).2.1] at hm
  · exact h.silent hinv hc hs fun _ _ _ hm => hrep ▸ hm

/-- The stops that were reported are still past ones. -/
theorem StopsOnce.past_old (h : s.StopsOnce) (hs : s.step e = some s') {k : Nat}
    (hm : (c, k) ∈ s.stopReports) : c < s'.nextPid ∧ k ≤ (s'.task c).stops := by
  obtain ⟨hcn, hk⟩ := h.past c k hm
  exact ⟨Nat.lt_of_lt_of_le hcn (nextPid_step hs), Nat.le_trans hk (step_evolves hs hcn).stops⟩

theorem StopsOnce.step (hinv : s.Inv) (h : s.StopsOnce) (hc : s.StopsAreNew e) (hs : s.step e = some s') :
    s'.StopsOnce := by
  have hsilent : s'.stopReports = s.stopReports → s'.StopsOnce := fun hst =>
    ⟨hst ▸ h.nodup, fun _ _ hm => h.past_old hs (hst ▸ hm)⟩
  rcases step_cases hs with ⟨p, target, options, rfl, -, rfl⟩ | ⟨-, hs'⟩ | ⟨-, -, hst, -⟩
  · rcases hf : s.found p target options with - | t
    · exact hsilent (schedWaitpid_none hf rfl).2.1
    rcases schedWaitpid_found hf rfl with ⟨-, -, -, hst⟩ | ⟨hz, -, -, hst⟩
    · exact hsilent hst
    refine ⟨hst ▸ List.nodup_cons.mpr ⟨hc t hf hz, h.nodup⟩, fun c k hm => ?_⟩
    rw [hst] at hm
    rcases List.mem_cons.mp hm with heq | hm
    · obtain ⟨rfl, rfl⟩ := Prod.mk.inj heq
      have hn := (hinv.range c (found_spec hf).1).2
      exact ⟨Nat.lt_of_lt_of_le hn (nextPid_step hs), (step_evolves hs hn).stops⟩
    · exact h.past_old hs hm
  · exact hsilent (hs' ▸ (reapLoop_lists (x := (s, 0)) s.list).2.2.1)
  · exact hsilent hst

/-! ### Being reported at all -/

/-- The event is a call by `p` that asks for `c`. -/
def asks (p c : Nat) : Event → Nat
  | .waitpid q target _ => if q = p ∧ (target ≤ 0 ∨ (c : Int) = target) then 1 else 0
  | _ => 0

/-- `c` is dead, listed, and a child of `p`. -/
structure Owed (s : WaitSys) (p c : Nat) : Prop where
  listed : c ∈ s.list
  dead : (s.task c).state = .zombie
  parent : (s.task c).parentPid = p

/-- `task_reap` does not take a child whose parent stays listed. -/
theorem reapLoop_owed {l : List Nat} (hc : c ∈ x.1.list) (hpar : (x.1.task c).parentPid = p)
    (hp0 : p ≠ 0) (hp : p ∈ (l.foldl reapPass x).1.list) :
    c ∈ (l.foldl reapPass x).1.list ∧ (l.foldl reapPass x).1.list.idxOf c ≤ x.1.list.idxOf c := by
  induction l generalizing x with
  | nil => exact ⟨hc, Nat.le_refl _⟩
  | cons t l ih =>
    have hpx : p ∈ x.1.list := (reapLoop_lists (t :: l)).1 p hp
    have hpass : c ∈ (reapPass x t).1.list ∧ (reapPass x t).1.list.idxOf c ≤ x.1.list.idxOf c := by
      unfold reapPass
      dsimp only
      split
      · next hr =>
        have htc : t ≠ c := fun htc => by
          rw [htc, hpar] at hr
          exact hr.2.2.elim hp0 fun hn => hn hpx
        exact ⟨(List.mem_erase_of_ne (Ne.symm htc)).mpr hc, idxOf_erase_le htc⟩
      · exact ⟨hc, Nat.le_refl _⟩
    obtain ⟨h₁, h₂⟩ := ih hpass.1 (by rwa [reapPass_task]) hp
    exact ⟨h₁, Nat.le_trans h₂ hpass.2⟩

/-- **One step** towards the report of `c`. -/
theorem Owed.step (h : s.Owed p c) (hinv : s.Inv) (hc : s.DeadStays e) (hs : s.step e = some s')
    (hp : p ∈ s'.list) (hp0 : p ≠ 0) (hne : ∀ code, e ≠ .exit p code) :
    c ∈ s'.reported ∨ s'.Owed p c ∧ asks p c e + s'.list.idxOf c + s.stopReports.length ≤
      s.list.idxOf c + s'.stopReports.length := by
  have hev := step_evolves hs (hinv.range c h.listed).2
  -- it stays dead and keeps its parent
  have hdead : (s'.task c).state = .zombie := by
    rcases hev.stays h.dead with hz | rfl
    · exact hz
    · exact absurd h.dead hc
  have hpar : (s'.task c).parentPid = p := by
    rcases hev.parent with he | ⟨-, code, he⟩
    · exact he.trans h.parent
    · exact absurd (h.parent ▸ he) (hne code)
  rcases step_cases hs with ⟨q, target, options, rfl, -, rfl⟩ | ⟨rfl, hs'⟩ | ⟨hw, -, hst, hl⟩
  · -- a call that asks for `c` finds something
    have hrep : asks p c (.waitpid q target options) = 1 → s.Reportable q target options c := by
      simp only [asks]
      split
      · next ha => exact fun _ => ⟨⟨h.parent.trans ha.1.symm, ha.2⟩, Or.inl h.dead⟩
      · exact nofun
    have hle : asks p c (.waitpid q target options) ≤ 1 := by
      simp only [asks]
      split <;> omega
    rcases hf : s.found q target options with - | t
    · obtain ⟨hl, hst, -⟩ := schedWaitpid_none hf rfl
      refine Or.inr ⟨⟨hl ▸ h.listed, hdead, hpar⟩, ?_⟩
      rw [hl, hst]
      have : asks p c (.waitpid q target options) ≠ 1 := fun ha => found_none hf h.listed (hrep ha)
      omega
    rcases schedWaitpid_found hf rfl with ⟨-, hl, hreply, hst⟩ | ⟨-, hl, -, hst⟩
    · rcases eq_or_ne t c with rfl | htc
      · left
        unfold reported
        rw [hreply]
        exact List.mem_cons_self
      · refine Or.inr ⟨⟨hl ▸ (List.mem_erase_of_ne (Ne.symm htc)).mpr h.listed, hdead, hpar⟩, ?_⟩
        rw [hl, hst]
        have hback : (s.list.erase t).idxOf c ≤ s.list.idxOf c := idxOf_erase_le htc
        by_cases ha : asks p c (.waitpid q target options) = 1
        · have := idxOf_erase_find (q := fun t => decide (s.Reportable q target options t))
            (decide_eq_true (hrep ha)) hf htc
          omega
        · omega
    · refine Or.inr ⟨⟨hl ▸ h.listed, hdead, hpar⟩, ?_⟩
      rw [hl, hst, List.length_cons]
      omega
  · have hst : s.taskReap.stopReports = s.stopReports := (reapLoop_lists s.list).2.2.1
    obtain ⟨hcl, hah⟩ := reapLoop_owed h.listed h.parent hp0 (by rwa [hs'] at hp)
    refine Or.inr ⟨⟨hs' ▸ hcl, hdead, hpar⟩, ?_⟩
    rw [hs', hst]
    have : asks p c .taskReap = 0 := rfl
    have : s.taskReap.list.idxOf c ≤ s.list.idxOf c := hah
    omega
  · have hlist : c ∈ s'.list ∧ s'.list.idxOf c = s.list.idxOf c := by
      rcases hl with ⟨hl, -⟩ | ⟨hl, -, -⟩ <;> rw [hl]
      · exact ⟨h.listed, rfl⟩
      · exact ⟨List.mem_append_left _ h.listed, List.idxOf_append_of_mem h.listed⟩
    have hask : asks p c e = 0 := by
      unfold asks
      split
      · exact absurd rfl (hw _ _ _)
      · rfl
    refine Or.inr ⟨⟨hlist.1, hdead, hpar⟩, ?_⟩
    rw [hst, hlist.2, hask, Nat.zero_add]

/-- The calls by `p` that ask for `c`. -/
def calls (p c : Nat) (es : List Event) : Nat := (es.map (asks p c)).sum

end WaitSys

end CactKernel
