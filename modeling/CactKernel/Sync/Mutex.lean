/-
CactKernel/Sync/Mutex.lean

The sleeping mutex (`sync/src/mutex.rs`) and the tasks that use it.

Each section under the mutex's `guard` is one function: an attempt of
`mutex_lock` (`mutexLockSection`), `mutex_trylock`, and `mutex_unlock` up to
the point where it drops the guard (`mutexUnlockSection`), which leaves the
waiter to be woken.  The wake-up is a section of its own, under the
scheduler's lock.

`MutexSys` is any number of tasks and mutexes.  A task has the state word of
the scheduler, a `Phase` that says where it stands in a mutex call, the
signals that are pending, and, for the statements only, the number of locks
of each mutex it has been granted and not given back.  `mutexStep` moves one
task by one section; between two of them the scheduler may dispatch and
preempt, signals may arrive and be acted on, and the clock may wake a task
that sleeps with a deadline.  `mutex_lock` does not clear the deadline word,
so this can be one that an earlier timed wait has left behind (`deadline`).
A task a signal has made `Zombie` keeps executing until it is switched away
from (`exited`).

Main results: `mutexStep_safe`, exclusion and the exact recursion count in
every run, and what one section can do (`mutexLockSection_cases`,
`mutexUnlockSection_cases`), from which the laws about waiters follow.
-/
import CactKernel.Lib.Run
import CactKernel.Sched.Task

namespace CactKernel

open Function Runs

/-! ### The mutex -/

/-- `MUTEX_WAIT_QUEUE_MAX`. -/
def mutexWaitQueueMax : Nat := 64

/-- A mutex; `waiters` are the first `waiter_count` entries of the array. -/
structure Mutex where
  locked : Bool
  owner : Option Nat
  waiters : List Nat
  recursionCount : Nat
deriving DecidableEq, Repr

def mutexInit : Mutex := ⟨false, none, [], 0⟩

/-- How an attempt of `mutex_lock` ends. -/
inductive LockResult where
  /-- `mutex_lock` returns. -/
  | acquired
  /-- The task has registered itself and is `Sleeping`. -/
  | parked
  /-- The task is `Zombie` and yields. -/
  | yields
  /-- The waiter array is full: spin. -/
  | spins
deriving DecidableEq, Repr

/-- One pass of the loop of `mutex_lock`, by the task `cur`. -/
def mutexLockSection (m : Mutex) (cur : Nat) (zombie : Bool) : Mutex × LockResult :=
  if m.owner = some cur then ({ m with recursionCount := m.recursionCount + 1 }, .acquired)
  else if m.locked = false then (⟨true, some cur, m.waiters, 0⟩, .acquired)
  else if m.waiters.length < mutexWaitQueueMax then
    if zombie then (m, .yields) else ({ m with waiters := m.waiters ++ [cur] }, .parked)
  else (m, .spins)

/-- `mutex_trylock`; the flag is the success of the call. -/
def mutexTrylock (m : Mutex) (cur : Nat) : Mutex × Bool :=
  if m.owner = some cur then ({ m with recursionCount := m.recursionCount + 1 }, true)
  else if m.locked = false then (⟨true, some cur, m.waiters, 0⟩, true)
  else (m, false)

/-- `mutex_unlock` up to the release of the guard; the waiter is still to be woken. -/
def mutexUnlockSection (m : Mutex) (cur : Nat) : Mutex × Option Nat :=
  if m.locked = false then (m, none)
  else if m.owner = some cur ∧ 0 < m.recursionCount then
    ({ m with recursionCount := m.recursionCount - 1 }, none)
  else (⟨false, none, m.waiters.tail, 0⟩, m.waiters.head?)

/-! ### Tasks -/

/-- Where a task stands in a mutex call. -/
inductive Phase where
  | outside
  /-- In `mutex_lock`, before the guard. -/
  | contending (m : Nat)
  /-- In `mutex_lock`, in the `schedule_yield` after a failed attempt. -/
  | waiting (m : Nat)
  /-- In `mutex_unlock`, about to wake the waiter `w`. -/
  | waking (w : Nat)
deriving DecidableEq, Repr

structure Runner extends Life where
  phase : Phase
  /-- Locks of each mutex granted and not given back. -/
  depth : Nat → Nat

structure MutexSys where
  mutex : Nat → Mutex
  task : Nat → Runner

inductive MutexEvent where
  /-- The task calls `mutex_lock`. -/
  | call (t m : Nat)
  /-- One pass of the loop of `mutex_lock`. -/
  | lock (t : Nat)
  | trylock (t m : Nat)
  | unlock (t m : Nat)
  /-- The end of `mutex_unlock`: wake the waiter. -/
  | wake (t : Nat)
  /-- The yield of `mutex_lock` returns. -/
  | resume (t : Nat)
  | dispatch (t : Nat)
  /-- The task is switched away from. -/
  | preempt (t : Nat)
  /-- `task_signal`. -/
  | signal (t : Nat) (sig : Sig)
  /-- `task_handle_signals`, on a tick or when `schedule` returns. -/
  | handle (t : Nat)
  /-- A timed wait outside every mutex call, ended by a wake-up, leaves its deadline behind. -/
  | deadline (t d : Nat)
  /-- The clock reaches the deadline of a blocked task. -/
  | expire (t : Nat)
deriving DecidableEq, Repr

namespace MutexSys

/-- Every mutex is free and no task is in a call. -/
def start (state : Nat → TaskState) : MutexSys :=
  ⟨fun _ => mutexInit, fun t => ⟨⟨state t, fun _ => false, 0, false⟩, .outside, fun _ => 0⟩⟩

def setTask (s : MutexSys) (t : Nat) (r : Runner) : MutexSys := { s with task := update s.task t r }

def setMutex (s : MutexSys) (m : Nat) (x : Mutex) : MutexSys := { s with mutex := update s.mutex m x }

/-- The task executes. -/
def Executing (s : MutexSys) (t : Nat) : Prop := (s.task t).toLife.Executing
deriving Decidable

end MutexSys

/-- The task after a granted lock of `m`. -/
def Runner.grant (r : Runner) (m : Nat) : Runner :=
  { r with phase := .outside, depth := update r.depth m (r.depth m + 1) }

/-- The task after one pass of the loop of `mutex_lock` on `m`. -/
def Runner.afterLock (r : Runner) (m : Nat) : LockResult → Runner
  | .acquired => r.grant m
  | .parked => { r with phase := .waiting m, state := .sleeping }
  | .yields => { r with phase := .waiting m }
  | .spins => r

/-- The task after `mutex_unlock` of `m` dropped the guard. -/
def Runner.afterUnlock (r : Runner) (m : Nat) (woken : Option Nat) : Runner :=
  { r with
    phase := (woken.map Phase.waking).getD .outside
    depth := update r.depth m (r.depth m - 1) }

/-- A move of the scheduler, or a signal: the task's place in the code stays. -/
def Runner.live (r : Runner) (l : Life) : Runner := { r with toLife := l }

/-- One section of one task, one move of the scheduler, or one signal. -/
def mutexStep (s : MutexSys) : MutexEvent → Option MutexSys
  | .call t m =>
    if s.Executing t ∧ (s.task t).phase = .outside then
      some (s.setTask t { s.task t with phase := .contending m })
    else none
  | .lock t =>
    match (s.task t).phase with
    | .contending m =>
      if s.Executing t then
        let r := mutexLockSection (s.mutex m) t (decide ((s.task t).state = .zombie))
        some ((s.setMutex m r.1).setTask t ((s.task t).afterLock m r.2))
      else none
    | _ => none
  | .trylock t m =>
    if s.Executing t ∧ (s.task t).phase = .outside then
      let r := mutexTrylock (s.mutex m) t
      some ((s.setMutex m r.1).setTask t (if r.2 then (s.task t).grant m else s.task t))
    else none
  | .unlock t m =>
    -- lock and unlock are properly nested
    if s.Executing t ∧ (s.task t).phase = .outside ∧ 0 < (s.task t).depth m then
      let r := mutexUnlockSection (s.mutex m) t
      some ((s.setMutex m r.1).setTask t ((s.task t).afterUnlock m r.2))
    else none
  | .wake t =>
    match (s.task t).phase with
    | .waking w =>
      if s.Executing t then
        let s' := s.setTask t { s.task t with phase := .outside }
        some (s'.setTask w { s'.task w with state := (s'.task w).state.wake })
      else none
    | _ => none
  | .resume t =>
    match (s.task t).phase with
    | .waiting m =>
      if s.Executing t then some (s.setTask t { s.task t with phase := .contending m }) else none
    | _ => none
  | .dispatch t =>
    if (s.task t).state = .ready then some (s.setTask t { s.task t with state := .running }) else none
  | .preempt t => if s.Executing t then some (s.setTask t ((s.task t).live (s.task t).park)) else none
  | .signal t sig => some (s.setTask t ((s.task t).live ((s.task t).signal sig)))
  | .handle t =>
    -- a task on its way to park is still on the CPU
    if s.Executing t ∨ (s.task t).state = .sleeping then
      some (s.setTask t ((s.task t).live (s.task t).handle))
    else none
  | .deadline t d =>
    if s.Executing t ∧ (s.task t).phase = .outside then
      some (s.setTask t ((s.task t).live { (s.task t).toLife with sleepUntil := d }))
    else none
  | .expire t =>
    if (s.task t).Timed then some (s.setTask t ((s.task t).live (s.task t).expire)) else none

/-! ### What a section can do -/

theorem mutexLockSection_cases (m : Mutex) (t : Nat) (z : Bool) :
    m.owner = some t ∧
      mutexLockSection m t z = ({ m with recursionCount := m.recursionCount + 1 }, .acquired) ∨
    m.owner ≠ some t ∧ m.locked = false ∧
      mutexLockSection m t z = (⟨true, some t, m.waiters, 0⟩, .acquired) ∨
    m.owner ≠ some t ∧ m.locked = true ∧ z = false ∧
      mutexLockSection m t z = ({ m with waiters := m.waiters ++ [t] }, .parked) ∨
    m.owner ≠ some t ∧ m.locked = true ∧ (z = true ∧ mutexLockSection m t z = (m, .yields) ∨
      mutexLockSection m t z = (m, .spins)) := by
  unfold mutexLockSection
  by_cases ho : m.owner = some t
  · exact Or.inl ⟨ho, if_pos ho⟩
  rw [if_neg ho]
  cases hl : m.locked with
  | false => exact Or.inr (Or.inl ⟨ho, rfl, if_pos rfl⟩)
  | true =>
    by_cases hw : m.waiters.length < mutexWaitQueueMax
    · rw [if_pos hw]
      cases z with
      | false => exact Or.inr (Or.inr (Or.inl ⟨ho, rfl, rfl, rfl⟩))
      | true => exact Or.inr (Or.inr (Or.inr ⟨ho, rfl, Or.inl ⟨rfl, rfl⟩⟩))
    · exact Or.inr (Or.inr (Or.inr ⟨ho, rfl, Or.inr (if_neg hw)⟩))

/-- A successful `mutex_trylock` is a successful attempt of `mutex_lock`. -/
theorem mutexTrylock_cases (m : Mutex) (t : Nat) :
    mutexTrylock m t = (m, false) ∧ m.owner ≠ some t ∧ m.locked = true ∨
    mutexTrylock m t = ((mutexLockSection m t false).1, true) ∧
      (mutexLockSection m t false).2 = .acquired := by
  unfold mutexTrylock mutexLockSection
  by_cases ho : m.owner = some t
  · exact Or.inr (by simp [ho])
  · cases hl : m.locked with
    | false => exact Or.inr (by simp [ho])
    | true => exact Or.inl (by simp [ho])

/-! ### Exclusion -/

/-- **Exclusion and the recursion count**: the owner of a locked mutex has been
granted one lock more than the count says, and nobody else has any. -/
structure Mutex.Owned (m : Mutex) (depth : Nat → Nat) : Prop where
  locked_iff : m.locked = m.owner.isSome
  owner_depth : ∀ t, m.owner = some t → depth t = m.recursionCount + 1
  other_depth : ∀ t, m.owner ≠ some t → depth t = 0

/-- All mutexes of a system. -/
def MutexSys.Safe (s : MutexSys) : Prop := ∀ m, (s.mutex m).Owned fun t => (s.task t).depth m

variable {m : Mutex} {depth : Nat → Nat} {t : Nat} {e : MutexEvent}

section

variable (h : m.Owned depth) {z : Bool}
include h

theorem Mutex.Owned.grant (ha : (mutexLockSection m t z).2 = .acquired) :
    (mutexLockSection m t z).1.Owned (update depth t (depth t + 1)) := by
  rcases mutexLockSection_cases m t z with ⟨ho, hr⟩ | ⟨ho, hl, hr⟩ | ⟨-, -, -, hr⟩ | ⟨-, -, ⟨-, hr⟩ | hr⟩ <;>
    rw [hr] at ha ⊢
  · -- the owner again: one more level
    refine ⟨h.locked_iff, fun u hu => ?_, fun u hu => ?_⟩
    · obtain rfl : t = u := Option.some.inj (ho.symm.trans hu)
      rw [update_self, h.owner_depth t ho]
    · have hne : u ≠ t := fun he => hu (he ▸ ho)
      rw [update_of_ne hne]
      exact h.other_depth u hu
  · -- a free mutex: nobody had a lock
    refine ⟨rfl, fun u hu => ?_, fun u hu => ?_⟩
    · obtain rfl : t = u := Option.some.inj hu
      rw [update_self, h.other_depth t ho]
    · have hne : u ≠ t := fun he => hu (he ▸ rfl)
      have hfree : m.owner ≠ some u := fun he => by
        have := h.locked_iff
        rw [hl, he] at this
        cases this
      rw [update_of_ne hne]
      exact h.other_depth u hfree
  all_goals cases ha

/-- An attempt that fails does not touch the owner. -/
theorem Mutex.Owned.wait
    (ha : (mutexLockSection m t z).2 ≠ .acquired) : (mutexLockSection m t z).1.Owned depth := by
  rcases mutexLockSection_cases m t z with ⟨-, hr⟩ | ⟨-, -, hr⟩ | ⟨-, -, -, hr⟩ | ⟨-, -, ⟨-, hr⟩ | hr⟩ <;>
    rw [hr] at ha ⊢
  · exact absurd rfl ha
  · exact absurd rfl ha
  · exact { h with }
  · exact h
  · exact h

/-- What `mutex_unlock` does when its caller has a lock. -/
theorem mutexUnlockSection_cases (ht : 0 < depth t) :
    m.owner = some t ∧ m.locked = true ∧
    (0 < m.recursionCount ∧
      mutexUnlockSection m t = ({ m with recursionCount := m.recursionCount - 1 }, none) ∨
    m.recursionCount = 0 ∧
      mutexUnlockSection m t = (⟨false, none, m.waiters.tail, 0⟩, m.waiters.head?)) := by
  have ho : m.owner = some t := by
    by_contra hne
    have := h.other_depth t hne
    omega
  have hl : m.locked = true := by rw [h.locked_iff, ho]; rfl
  refine ⟨ho, hl, ?_⟩
  unfold mutexUnlockSection
  rw [if_neg (by simp [hl])]
  rcases Nat.eq_zero_or_pos m.recursionCount with h0 | hpos
  · exact Or.inr ⟨h0, if_neg (by omega)⟩
  · exact Or.inl ⟨hpos, if_pos ⟨ho, hpos⟩⟩

theorem Mutex.Owned.unlock (ht : 0 < depth t) :
    (mutexUnlockSection m t).1.Owned (update depth t (depth t - 1)) := by
  obtain ⟨ho, -, ⟨hpos, hr⟩ | ⟨h0, hr⟩⟩ := mutexUnlockSection_cases h ht <;> rw [hr]
  · refine ⟨h.locked_iff, fun u hu => ?_, fun u hu => ?_⟩
    · obtain rfl : t = u := Option.some.inj (ho.symm.trans hu)
      have := h.owner_depth t ho
      rw [update_self]
      show depth t - 1 = m.recursionCount - 1 + 1
      omega
    · have hne : u ≠ t := fun he => hu (he ▸ ho)
      rw [update_of_ne hne]
      exact h.other_depth u hu
  · refine ⟨rfl, fun u hu => absurd hu (by simp), fun u _ => ?_⟩
    by_cases hut : u = t
    · subst hut
      have := h.owner_depth u ho
      rw [update_self]
      omega
    · rw [update_of_ne hut]
      exact h.other_depth u fun he => hut (Option.some.inj (he.symm.trans ho))

end

/-! ### Frames -/

namespace MutexSys

variable {s : MutexSys} {t u m k : Nat} {r : Runner} {x : Mutex}

@[simp] theorem setTask_mutex : (s.setTask t r).mutex = s.mutex := rfl
@[simp] theorem setMutex_task : (s.setMutex m x).task = s.task := rfl
@[simp] theorem setTask_self : (s.setTask t r).task t = r := update_self ..
@[simp] theorem setMutex_self : (s.setMutex m x).mutex m = x := update_self ..
theorem setTask_of_ne (h : u ≠ t) : (s.setTask t r).task u = s.task u := update_of_ne h ..
theorem setMutex_of_ne (h : k ≠ m) : (s.setMutex m x).mutex k = s.mutex k := update_of_ne h ..

/-- What holds of the new record, and of the task's record if it is another one, holds after the change. -/
@[elab_as_elim] theorem setTask_ind {motive : Runner → Prop} (u : Nat) (hself : u = t → motive r)
    (hother : u ≠ t → motive (s.task u)) : motive ((s.setTask t r).task u) := by
  by_cases hu : u = t
  · subst hu
    rw [setTask_self]
    exact hself rfl
  · rw [setTask_of_ne hu]
    exact hother hu

@[elab_as_elim] theorem setMutex_ind {motive : Mutex → Prop} (k : Nat) (hself : k = m → motive x)
    (hother : k ≠ m → motive (s.mutex k)) : motive ((s.setMutex m x).mutex k) := by
  by_cases hk : k = m
  · subst hk
    rw [setMutex_self]
    exact hself rfl
  · rw [setMutex_of_ne hk]
    exact hother hk

theorem setTask_depth : (fun u => ((s.setTask t r).task u).depth k) =
    update (fun u => (s.task u).depth k) t (r.depth k) := comp_update (Runner.depth · k) ..

/-- A step that changes no depth and no mutex keeps exclusion. -/
theorem Safe.setTask (h : s.Safe) (hd : r.depth = (s.task t).depth) : (s.setTask t r).Safe := by
  intro k
  rw [setTask_depth, hd, update_eq_self]
  exact h k

end MutexSys

/-! ### What a step can do -/

/-- **One step**, with the circumstances under which it is taken. -/
inductive MutexMove (s : MutexSys) : MutexEvent → MutexSys → Prop
  | call {t m : Nat} : s.Executing t → (s.task t).phase = .outside →
      MutexMove s (.call t m) (s.setTask t { s.task t with phase := .contending m })
  | lock {t m : Nat} : (s.task t).phase = .contending m → s.Executing t →
      MutexMove s (.lock t)
        ((s.setMutex m (mutexLockSection (s.mutex m) t (decide ((s.task t).state = .zombie))).1).setTask t
          ((s.task t).afterLock m
            (mutexLockSection (s.mutex m) t (decide ((s.task t).state = .zombie))).2))
  | trylock {t m : Nat} : s.Executing t → (s.task t).phase = .outside →
      MutexMove s (.trylock t m) ((s.setMutex m (mutexTrylock (s.mutex m) t).1).setTask t
        (if (mutexTrylock (s.mutex m) t).2 then (s.task t).grant m else s.task t))
  | unlock {t m : Nat} : s.Executing t → (s.task t).phase = .outside → 0 < (s.task t).depth m →
      MutexMove s (.unlock t m) ((s.setMutex m (mutexUnlockSection (s.mutex m) t).1).setTask t
        ((s.task t).afterUnlock m (mutexUnlockSection (s.mutex m) t).2))
  | wake {t w : Nat} : (s.task t).phase = .waking w → s.Executing t →
      MutexMove s (.wake t) ((s.setTask t { s.task t with phase := .outside }).setTask w
        { (s.setTask t { s.task t with phase := .outside }).task w with
          state := ((s.setTask t { s.task t with phase := .outside }).task w).state.wake })
  | resume {t m : Nat} : (s.task t).phase = .waiting m → s.Executing t →
      MutexMove s (.resume t) (s.setTask t { s.task t with phase := .contending m })
  | dispatch {t : Nat} : (s.task t).state = .ready →
      MutexMove s (.dispatch t) (s.setTask t { s.task t with state := .running })
  | preempt {t : Nat} : s.Executing t →
      MutexMove s (.preempt t) (s.setTask t ((s.task t).live (s.task t).park))
  | signal {t : Nat} {sig : Sig} :
      MutexMove s (.signal t sig) (s.setTask t ((s.task t).live ((s.task t).signal sig)))
  | handle {t : Nat} : s.Executing t ∨ (s.task t).state = .sleeping →
      MutexMove s (.handle t) (s.setTask t ((s.task t).live (s.task t).handle))
  | deadline {t d : Nat} : s.Executing t → (s.task t).phase = .outside →
      MutexMove s (.deadline t d)
        (s.setTask t ((s.task t).live { (s.task t).toLife with sleepUntil := d }))
  | expire {t : Nat} : (s.task t).Timed →
      MutexMove s (.expire t) (s.setTask t ((s.task t).live (s.task t).expire))

theorem mutexStep_move {s s' : MutexSys} (h : mutexStep s e = some s') : MutexMove s e s' := by
  cases e with
  | call t m | deadline t d =>
    obtain ⟨⟨hx, hp⟩, rfl⟩ := of_guard h
    constructor <;> assumption
  | lock t | wake t | resume t =>
    rcases hp : (s.task t).phase with - | m | m | w <;> simp only [mutexStep, hp] at h
    any_goals cases h
    obtain ⟨hx, rfl⟩ := of_guard h
    constructor <;> assumption
  | trylock t m =>
    simp only [mutexStep] at h
    split_ifs at h with hc hr
    · obtain rfl := Option.some.inj h
      have := MutexMove.trylock (m := m) hc.1 hc.2
      rwa [if_pos hr] at this
    · obtain rfl := Option.some.inj h
      have := MutexMove.trylock (m := m) hc.1 hc.2
      rwa [if_neg hr] at this
  | unlock t m =>
    obtain ⟨hc, rfl⟩ := of_guard h
    exact .unlock hc.1 hc.2.1 hc.2.2
  | dispatch t | preempt t | handle t | expire t =>
    obtain ⟨hc, rfl⟩ := of_guard h
    constructor
    exact hc
  | signal t sig =>
    obtain rfl := Option.some.inj h
    exact .signal

end CactKernel
