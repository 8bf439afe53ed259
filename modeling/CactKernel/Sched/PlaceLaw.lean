/-
CactKernel/Sched/PlaceLaw.lean

No task is lost and none is queued twice.

`Sched.WellPlaced` says that every task of the task list that is not a
`Zombie` stands at exactly one place, and that the place fits its state word
(`Fits`): queued tasks are `Ready`, tasks of the blocked queue are blocked,
tasks of the wheel are `Sleeping` and hang in the slot of their deadline.

Almost every section moves one task and rewrites its words; `Touches s s' t`
is the shape of such a section, and `Tidy.move` reduces it to what
happened to that one task.  The exception is the tick of the wheel, which
takes a whole slot off and puts its tasks back one at a time.

One path does not keep the invariant.  A signal that ends an interruptible
wait looks for the task in the blocked queue only.  If the wait has a deadline
the task hangs in the wheel: it becomes `Ready` without being queued, and when
the slot comes up `timer_wheel_tick` drops it, because it is not `Sleeping`.
`Quiet` excludes exactly such a signal, and `schedStep_well` says that every
other section keeps the invariant.  `DispatchLaw` goes on from here.
-/
import CactKernel.Sched.Mlfq

namespace CactKernel

open Function Places Runs

/-! ### The invariant -/

/-- A task with these words may stand at the place. -/
def TaskStruct.Fits (r : TaskStruct) : Place → Prop
  | .cpu _ | .out _ => True
  | .runq _ _ => r.state = .ready
  | .sleepQueue => r.state.Blocked
  | .slot k => r.state = .sleeping ∧ k = slotOf r.sleepUntil

/-- A place for at most one task. -/
def Place.Solo : Place → Prop
  | .cpu _ | .out _ => True
  | _ => False

/-- A place for one task is no place for many. -/
theorem Place.Solo.ne {p p' : Place} (h : p.Solo) (h' : ¬p'.Solo) : p ≠ p' := by
  rintro rfl
  exact h' h

namespace Sched

/-- The tasks that stand somewhere stand well. -/
structure Tidy (s : Sched) : Prop where
  once : Once s.q
  fits : ∀ {t p}, t ∈ s.q p → (s.task t).Fits p
  solo : ∀ {p t u}, p.Solo → t ∈ s.q p → u ∈ s.q p → t = u

/-- **The invariant**: besides, every task that is not a `Zombie` stands somewhere. -/
structure WellPlaced (s : Sched) : Prop extends Tidy s where
  nodup : s.list.Nodup
  cover : ∀ {t}, t ∈ s.list → (s.task t).state ≠ .zombie → ∃ p, t ∈ s.q p

/-- The place `d` suits the task `t` with the words `r`. -/
def Suits (s : Sched) (t : Nat) (r : TaskStruct) : Option Place → Prop
  | none => True
  | some p => r.Fits p ∧ (p.Solo → ∀ u ∈ s.q p, u = t)

variable {s s' s'' : Sched} {c t u pid k level : Nat} {p : Place} {r : TaskStruct} {sig : BitVec 32}
  {d : Option Place} {l : List Nat} {K : Sched → Nat → Prop}

/-- **One move**: the rest of the table stays as it is, so only the moved task matters. -/
theorem Tidy.move (h : s.Tidy) (hm : Moved s.q s'.q t d)
    (htask : ∀ u, u ≠ t → s'.task u = s.task u) (hd : s.Suits t (s'.task t) d) : s'.Tidy where
  once := hm.once
  fits {u p} hu := by
    by_cases hut : u = t
    · subst hut
      obtain rfl := (hm.self p).mp hu
      exact hd.1
    · rw [htask u hut]
      exact h.fits ((hm.other hut p).mp hu)
  solo {p u v} hp hu hv := by
    -- a token that was there already, if the other one is `t`
    have key : ∀ {w}, w ∈ s'.q p → t ∈ s'.q p → w = t := fun {w} hw ht => by
      by_contra hwt
      obtain rfl := (hm.self p).mp ht
      exact hwt (hd.2 hp w ((hm.other hwt p).mp hw))
    by_cases hut : u = t
    · subst hut
      exact (key hv hu).symm
    · by_cases hvt : v = t
      · subst hvt
        exact key hu hv
      · exact h.solo hp ((hm.other hut p).mp hu) ((hm.other hvt p).mp hv)

/-- A section that concerns the task `t` alone and leaves the scheduler well placed. -/
structure Touches (s s' : Sched) (t : Nat) : Prop where
  well : s'.WellPlaced
  list : s'.list = s.list
  tick : s'.tick = s.tick
  task : ∀ {u}, u ≠ t → s'.task u = s.task u
  mem : ∀ {u}, u ≠ t → ∀ p, u ∈ s'.q p ↔ u ∈ s.q p

namespace Touches

theorem refl (h : s.WellPlaced) (t : Nat) : Touches s s t :=
  ⟨h, rfl, rfl, fun _ => rfl, fun _ _ => Iff.rfl⟩

theorem trans (h : Touches s s' t) (h' : Touches s' s'' t) : Touches s s'' t :=
  ⟨h'.well, h'.list.trans h.list, h'.tick.trans h.tick, fun hu => (h'.task hu).trans (h.task hu),
    fun hu p => (h'.mem hu p).trans (h.mem hu p)⟩

end Touches

/-- A section that leaves the scheduler well placed and does not change what is current on a core or
about to park there. -/
structure Woken (s s' : Sched) : Prop where
  well : s'.WellPlaced
  solo : ∀ {p : Place}, p.Solo → s'.q p = s.q p

theorem Woken.refl (h : s.WellPlaced) : Woken s s := ⟨h, fun _ => rfl⟩

theorem Woken.trans (h : Woken s s') (h' : Woken s' s'') : Woken s s'' :=
  ⟨h'.well, fun hp => (h'.solo hp).trans (h.solo hp)⟩

/-- Both: a wake-up of the task `t`. -/
structure Wakes (s s' : Sched) (t : Nat) : Prop extends Touches s s' t, Woken s s'

theorem Wakes.refl (h : s.WellPlaced) (t : Nat) : Wakes s s t := ⟨Touches.refl h t, fun _ => rfl⟩

theorem Wakes.trans (h : Wakes s s' t) (h' : Wakes s' s'' t) : Wakes s s'' t :=
  ⟨h.toTouches.trans h'.toTouches, (h.toWoken.trans h'.toWoken).solo⟩

/-- A move of one task; a task that leaves every queue is a `Zombie`, or unknown to the kernel. -/
theorem WellPlaced.move (h : s.WellPlaced) (hm : Moved s.q s'.q t d) (hlist : s'.list = s.list)
    (htick : s'.tick = s.tick) (htask : ∀ u, u ≠ t → s'.task u = s.task u)
    (hd : s.Suits t (s'.task t) d)
    (hnone : d = none → t ∈ s.list → (s'.task t).state = .zombie) : Touches s s' t where
  well :=
    { toTidy := h.toTidy.move hm htask hd
      nodup := hlist ▸ h.nodup
      cover := fun {u} hu hz => by
        rw [hlist] at hu
        by_cases hut : u = t
        · subst hut
          rcases d with - | p
          · exact absurd (hnone rfl hu) hz
          · exact ⟨p, (hm.self p).mpr rfl⟩
        · obtain ⟨p, hp⟩ := h.cover hu (htask u hut ▸ hz)
          exact ⟨p, (hm.other hut p).mpr hp⟩ }
  list := hlist
  tick := htick
  task hu := htask _ hu
  mem := hm.other

theorem setTask_of_ne (h : u ≠ t) : (s.setTask t r).task u = s.task u := update_of_ne h ..

@[simp] theorem setTask_self : (s.setTask t r).task t = r := update_self ..

section

variable (h : s.WellPlaced)
include h

/-- A task that is on a core may have any words. -/
theorem WellPlaced.onCpu (ht : t ∈ s.q (.cpu c)) (r : TaskStruct) :
    Touches s (s.setTask t r) t := by
  refine h.move (Moved.stay h.once ht) rfl rfl (fun u hu => setTask_of_ne hu) ?_ nofun
  exact ⟨trivial, fun hsolo u hu => h.solo hsolo hu ht⟩

/-! ### Waking -/

end

/-- The task is parked in the wheel. -/
def InWheel (s : Sched) (t : Nat) : Prop := t ∈ s.q (.slot (slotOf (s.task t).sleepUntil))
deriving Decidable

/-- The signal does not end a wait of a task that hangs in the wheel. -/
def Shielded (s : Sched) (t : Nat) (sig : BitVec 32) : Prop :=
  sig &&& (sigKill ||| sigStop) = 0 → (s.task t).Hit sig → ¬s.InWheel t
deriving Decidable

/-- The signal does not end a `sigsuspend` of a task that hangs in the wheel. -/
def SuspendShielded (s : Sched) (t : Nat) (sig : BitVec 32) : Prop :=
  (s.task t).inSigsuspend = true → sig &&& ~~~(s.task t).signalMask ≠ 0 → ¬s.InWheel t
deriving Decidable

theorem readied_state {x : Sched × Bool} : ((readied x c t).task t).state = .ready := by
  unfold readied
  split <;> simp [mlfqEnqueueLocked, setState]

/-- What happens to one task does not unshield another. -/
theorem Touches.shielded (h : Touches s s' t) (hu : u ≠ t) (hs : s.Shielded u sig) :
    s'.Shielded u sig := by
  unfold Shielded InWheel at *
  rwa [h.task hu, h.mem hu]

/-- The alarm of the task is due, or its interval timer is. -/
def TimerDue (s : Sched) (t : Nat) : Prop :=
  (s.task t).alarmTicks ≠ 0 ∧ (s.task t).alarmTicks ≤ s.tick ∨
    (s.task t).itimerValue ≠ 0 ∧ (s.task t).itimerValue ≤ s.tick
deriving Decidable

/-- A due timer does not end a `sigsuspend` of a task that hangs in the wheel. -/
def AlarmShielded (s : Sched) (t : Nat) : Prop := s.TimerDue t → s.SuspendShielded t sigAlrm
deriving Decidable

/-- What the alarm or the interval timer of a task does in a pass: it goes off, if it is due. -/
def Rings (s s' : Sched) (c t : Nat) : Prop :=
  s' = s ∨ s.TimerDue t ∧ ∃ alarm value, s' = (s.setTask t { s.task t with
    pendingSignals := (s.task t).pendingSignals ||| sigAlrm
    alarmTicks := alarm
    itimerValue := value }).wakeIfSigsuspend c t sigAlrm

theorem alarmPass_rings : Rings s (s.alarmPass c t) c t := by
  unfold alarmPass
  dsimp only
  split
  · next hdue => exact Or.inr ⟨Or.inl hdue, 0, _, rfl⟩
  · exact Or.inl rfl

theorem itimerPass_rings (he : s.itimerPass c t = some s') : Rings s s' c t := by
  unfold itimerPass at he
  dsimp only at he
  split at he
  · next hdue =>
    obtain ⟨value, -, rfl⟩ := Option.map_eq_some_iff.mp he
    exact Or.inr ⟨Or.inr hdue, _, value, rfl⟩
  · exact Or.inl (Option.some.inj he).symm

/-- A task on a core is not in the wheel. -/
theorem shielded_of_cpu (h : s.Tidy) (ht : t ∈ s.q (.cpu c)) : s.Shielded t sig :=
  fun _ _ hw => nomatch h.once.unique ht hw

/-- A task that executes rewrites its words; the signals to others stay as harmless as they were. -/
theorem Shielded.setTask (h : s.WellPlaced) (ht : t ∈ s.q (.cpu c)) (hs : s.Shielded u sig) :
    (s.setTask t r).Shielded u sig := by
  by_cases hut : u = t
  · subst hut
    exact shielded_of_cpu (h.onCpu ht r).well.toTidy ht
  · exact (h.onCpu ht r).shielded hut hs

/-- Acting on its signals the task dies or stops, which it tells its parent. -/
def TellsParent (r : TaskStruct) : Prop :=
  r.pendingSignals &&& sigKill ≠ 0 ∨ r.pendingSignals &&& sigStop ≠ 0 ∨
    ∃ b ∈ signalBits, b.Fatal (deliverable r) r.signalHandlers
deriving Decidable

/-- What `task_handle_signals` needs between two signals: the parent matters only if one of the
deliverable signals is fatal. -/
structure Handling (s : Sched) (c t : Nat) (deliverable : BitVec 32) : Prop where
  well : s.WellPlaced
  cpu : t ∈ s.q (.cpu c)
  parent : (∃ b ∈ signalBits, b.Fatal deliverable (s.task t).signalHandlers) →
    (s.task t).state = .zombie ∨ s.Shielded (s.task t).parentPid sigChld

theorem Handling.setTask {deliverable : BitVec 32} (h : s.Handling c t deliverable)
    (hp : r.parentPid = (s.task t).parentPid) (hh : r.signalHandlers = (s.task t).signalHandlers)
    (hst : (s.task t).state ≠ .zombie) : (s.setTask t r).Handling c t deliverable where
  well := (h.well.onCpu h.cpu r).well
  cpu := h.cpu
  parent := by
    rw [setTask_self, hp, hh]
    exact fun hb => Or.inr (((h.parent hb).resolve_left hst).setTask h.well h.cpu)

/-- The task dies, after it has told its parent and its thread group. -/
theorem Woken.dies (h : Woken s s') (ht : t ∈ s.q (.cpu c)) : (s'.setState t .zombie).WellPlaced :=
  (h.well.onCpu (h.solo (p := .cpu c) trivial ▸ ht) _).well

/-- What a tick of the wheel leaves to do: the tasks of `l` hang nowhere. -/
structure Draining (s : Sched) (l : List Nat) : Prop extends Tidy s where
  nodup : s.list.Nodup
  nodupList : l.Nodup
  loose : ∀ t ∈ l, (∀ p, t ∉ s.q p) ∧ (s.task t).state = .sleeping
  cover : ∀ {t}, t ∈ s.list → t ∉ l → (s.task t).state ≠ .zombie → ∃ p, t ∈ s.q p

/-- A task of the drained slot is put back, into a queue or into the wheel. -/
theorem Draining.put (h : s.Draining (t :: l)) (hm : Moved s.q s'.q t (some p))
    (hlist : s'.list = s.list) (htask : ∀ u, u ≠ t → s'.task u = s.task u)
    (hd : s.Suits t (s'.task t) (some p)) : s'.Draining l where
  toTidy := h.toTidy.move hm htask hd
  nodup := hlist ▸ h.nodup
  nodupList := (List.nodup_cons.mp h.nodupList).2
  loose u hu := by
    have hut : u ≠ t := fun he => (List.nodup_cons.mp h.nodupList).1 (he ▸ hu)
    obtain ⟨hn, hst⟩ := h.loose u (List.mem_cons_of_mem t hu)
    exact ⟨fun p' hp' => hn p' ((hm.other hut p').mp hp'), htask u hut ▸ hst⟩
  cover {u} hl hu hz := by
    by_cases hut : u = t
    · subst hut
      exact ⟨p, (hm.self p).mpr rfl⟩
    · obtain ⟨p', hp'⟩ := h.cover (hlist ▸ hl) (by simp [hut, hu]) (htask u hut ▸ hz)
      exact ⟨p', (hm.other hut p').mpr hp'⟩

/-- One of them is woken, or goes back to the wheel. -/
theorem wheelPass_draining (h : s.Draining (t :: l)) : (s.wheelPass c t).Draining l := by
  obtain ⟨hn, hst⟩ := h.loose t List.mem_cons_self
  have habs := Moved.absent h.once hn
  unfold wheelPass
  dsimp only
  split
  · refine h.put (habs.putLast _) rfl (fun u hu => (setTask_of_ne hu).trans (setTask_of_ne hu)) ?_
    exact ⟨by simp [mlfqEnqueueLocked, TaskStruct.Fits], fun hsolo => hsolo.elim⟩
  · exact h.put (habs.putFirst _) rfl (fun _ _ => rfl) ⟨⟨hst, rfl⟩, fun hsolo => hsolo.elim⟩

theorem Draining.foldl (h : s.Draining l) : (l.foldl (fun s t => s.wheelPass c t) s).WellPlaced := by
  induction l generalizing s with
  | nil => exact { toTidy := h.toTidy, nodup := h.nodup, cover := fun hl => h.cover hl List.not_mem_nil }
  | cons t l ih => exact ih (wheelPass_draining h)

/-- The task that was picked heads a queue. -/
theorem pickNextTask_mem (h : s.pickNextTask c = some (p, t)) :
    t ∈ s.q p ∧ ∃ k level, p = .runq k level := by
  obtain ⟨p', hp', he⟩ := List.exists_of_findSome?_eq_some h
  obtain ⟨t', ht', rfl, rfl⟩ := of_map_pair he
  refine ⟨List.mem_of_head? ht', ?_⟩
  rcases List.mem_append.mp hp' with hp | hp
  · obtain ⟨level, -, rfl⟩ := List.mem_map.mp hp
    exact ⟨c, level, rfl⟩
  · obtain ⟨level, -, he⟩ := List.mem_filterMap.mp hp
    obtain ⟨k, -, rfl⟩ := Option.map_eq_some_iff.mp he
    exact ⟨k, level, rfl⟩

/-- No core but `c` has a longer queue than the busiest one. -/
theorem busiest_le (hk : k < maxCpus) (hc : k ≠ c) :
    (s.q (.runq k level)).length ≤
      ((s.busiest c level).map fun j => (s.q (.runq j level)).length).getD 0 := by
  unfold busiest
  generalize hbest : List.foldl _ _ (List.range maxCpus) = best
  have hscan : (k < maxCpus → (s.q (.runq k level)).length ≤ best.2) ∧
      (0 < best.2 → best.2 = (s.q (.runq best.1 level)).length) := by
    subst hbest
    generalize hb : (maxCpus, 0) = b
    generalize maxCpus = n
    induction n with
    | zero => exact ⟨nofun, hb ▸ nofun⟩
    | succ n ih =>
      rw [List.range_succ, List.foldl_append]
      simp only [List.foldl_cons, List.foldl_nil]
      grind
  refine Nat.le_trans (hscan.1 hk) ?_
  dsimp only
  split_ifs with hpos
  · exact Nat.le_of_eq (hscan.2 hpos)
  · exact Nat.le_of_not_lt hpos

/-- No task is picked only if no core has one queued. -/
theorem runq_of_pickNextTask (h : s.pickNextTask c = none) (hk : k < maxCpus)
    (hl : level < mlfqLevels) : s.q (.runq k level) = [] := by
  have hnil : ∀ p ∈ s.pickPlaces c, s.q p = [] := fun p hp => by
    simpa using List.findSome?_eq_none_iff.mp h p hp
  rw [← List.mem_range] at hl
  by_cases hc : k = c
  · subst hc
    exact hnil _ (List.mem_append_left _ (List.mem_map_of_mem hl))
  · have hle : (s.q (.runq k level)).length ≤ _ := busiest_le hk hc
    cases hb : s.busiest c level with
    | none => simpa [hb] using hle
    | some j =>
      have hj := hnil (.runq j level) (List.mem_append_right _
        (List.mem_filterMap.mpr ⟨level, hl, by rw [hb]; rfl⟩))
      simpa [hb, hj] using hle

theorem dispatch_current : (s.dispatch c p t).current c ≠ none := by
  simp [current, dispatch, putLast]

section

variable (h : s.WellPlaced)
include h

section

variable (hs : ∀ t, s.current c = some t → (s.task t).state = .zombie →
  s.Shielded (s.task t).parentPid sigChld)
include hs

end

end

/-! ### Runs -/

/-- No signal of this section ends a wait of a task that hangs in the wheel. -/
def Quiet (s : Sched) : SchedEvent → Prop
  | .schedule c => ∀ t ∈ s.current c, (s.task t).state = .zombie →
      s.Shielded (s.task t).parentPid sigChld
  | .signal _ pid sig => s.Shielded pid sig
  | .signalPgid _ pgid sig => ∀ t ∈ s.list, (s.task t).pgid = pgid → s.Shielded t sig
  | .handle c => ∀ t ∈ s.current c, TellsParent (s.task t) → s.Shielded (s.task t).parentPid sigChld
  | .alarms _ => ∀ t ∈ s.list, s.AlarmShielded t
  | _ => True

instance decidableQuiet (s : Sched) : (e : SchedEvent) → Decidable (s.Quiet e)
  | .schedule c => inferInstanceAs (Decidable (∀ t ∈ s.current c, _))
  | .signal _ pid sig => inferInstanceAs (Decidable (s.Shielded pid sig))
  | .signalPgid _ _ _ => inferInstanceAs (Decidable (∀ t ∈ s.list, _))
  | .handle c => inferInstanceAs (Decidable (∀ t ∈ s.current c, _))
  | .alarms _ => inferInstanceAs (Decidable (∀ t ∈ s.list, _))
  | .park _ | .sleepTicks _ _ | .parkSleeping _ | .parkWaiting _ | .parkSigwait _ _ | .own _ _
  | .wake _ _ | .wheelTick _ | .timerTick _ | .boost _ | .migrate _ _ _ _ => isTrue trivial

/-- A task that is freed leaves the task list. -/
theorem WellPlaced.erase (h : s.WellPlaced) (t : Nat) : { s with list := s.list.erase t }.WellPlaced where
  toTidy := { h.toTidy with }
  nodup := h.nodup.erase t
  cover hu := h.cover (List.mem_of_mem_erase hu)

/-- A woken task is not blocked. -/
theorem mlfqWakeTaskLocked_not_blocked :
    ¬((s.mlfqWakeTaskLocked c t).task t).state.Blocked := by
  unfold mlfqWakeTaskLocked
  split
  · rw [readied_state]
    decide
  · rw [wakeBlocked, readied_state]
    decide
  · rw [wakeBlocked, readied_state]
    decide
  · next h₁ h₂ h₃ =>
    rintro (hb | hb | hb)
    · exact h₁ hb
    · exact h₂ hb
    · exact h₃ hb

end Sched

namespace Sched

/-- `n` tasks, all just created on core 0. -/
def booted (n : Nat) : Sched where
  q p := if p = .runq 0 1 then List.range' 1 n else []
  task _ := {}
  list := List.range' 1 n
  tick := 0
  boostCounter := 0

/-- **An idle core leaves no work behind**: `schedule` gives the core to the idle task only if no
core has a task queued. -/
theorem idle_leaves_no_work (s : Sched) (c k level : Nat) (hk : k < maxCpus) (hl : level < mlfqLevels)
    (hidle : (s.schedule c).current c = none) : (s.schedule c).q (.runq k level) = [] := by
  revert hidle
  unfold schedule scheduleSwitch
  split
  · exact fun hidle => absurd hidle dispatch_current
  · next p t u hpick hcur =>
    obtain ⟨-, j, l, rfl⟩ := pickNextTask_mem hpick
    split
    · exact fun hidle => nomatch hcur.symm.trans hidle
    · exact fun hidle => absurd hidle dispatch_current
  · next u hpick _ =>
    have hq := runq_of_pickNextTask hpick hk hl
    split <;> exact fun _ => hq
  · next hpick _ => exact fun _ => runq_of_pickNextTask hpick hk hl

/-- Core 1 is idle while core 0 runs the only task. -/
theorem idle_leaves_no_work_alone :
    (((booted 1).schedule 0).schedule 1).current 1 = none ∧
      (((booted 1).schedule 0).schedule 1).q (.runq 0 1) = [] :=
  have hidle := by decide +kernel
  ⟨hidle, idle_leaves_no_work _ 1 0 1 (by decide) (by decide) hidle⟩

end Sched

end CactKernel
