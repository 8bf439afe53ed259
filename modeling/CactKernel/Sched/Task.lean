/-
CactKernel/Sched/Task.lean

The state word of a task (`sync/src/task_abi.rs`), as far as the sleeping
locks see it.

`TaskState.wake` is what `mlfq_wake_task_locked` does to the state word: the
three blocked states become `Ready`, everything else is left alone.  The
queues that go with it belong to the scheduler; a lock only sees the word.

`Life` is a task under signals and the clock: its state, the signals that are
pending and not masked, its deadline word, and whether it was switched away
from as a `Zombie`, after which it never executes again.  `Life.signal` is
`task_signal_locked` for a task without an interruptible wait, `Life.handle`
is `task_handle_signals`, which the timer tick and the end of `schedule` call,
and `Life.park` is `sched_park_prev`.  `Life.expire` is the end of a wait by
the clock.  The deadline word outlives the timed wait it was written for:
only the clock clears it, so a later wait without a deadline inherits it.
-/
import Mathlib.Logic.Function.Basic
import Mathlib.Tactic.SplitIfs
import Mathlib.Tactic.Tauto

namespace CactKernel

open Function

/-- The state word of a task. -/
inductive TaskState where
  | ready
  | running
  | sleeping
  | zombie
  | waiting
  | stopped
deriving DecidableEq, Repr

namespace TaskState

/-- The state word after `mlfq_wake_task_locked`. -/
def wake : TaskState → TaskState
  | sleeping => ready
  | waiting => ready
  | stopped => ready
  | st => st

/-- Blocked: a task in one of these states is parked, or about to park. -/
def Blocked (st : TaskState) : Prop := st = sleeping ∨ st = waiting ∨ st = stopped
deriving Decidable

/-- The scheduler runs the task, or will. -/
def Runnable (st : TaskState) : Prop := st = ready ∨ st = running
deriving Decidable

/-- Nobody wakes the dead. -/
theorem wake_zombie {st : TaskState} : st.wake = zombie ↔ st = zombie := by
  cases st <;> decide

end TaskState

/-! ### Signals -/

/-- The signals that matter to a task in a lock; `term` stands for every other
signal that terminates the task. -/
inductive Sig where
  | kill
  | stop
  | cont
  | term
deriving DecidableEq, Repr

instance {p : Sig → Prop} [DecidablePred p] : Decidable (∀ sig, p sig) :=
  decidable_of_iff (p .kill ∧ p .stop ∧ p .cont ∧ p .term)
    ⟨fun h sig => by cases sig <;> tauto, fun h => ⟨h _, h _, h _, h _⟩⟩

/-- The words of a task that its sleeps and its signals change. -/
structure Life where
  state : TaskState
  pending : Sig → Bool
  /-- `sleep_until`; `0` is no deadline. -/
  sleepUntil : Nat
  /-- A `Zombie` that was switched away from for the last time. -/
  exited : Bool

namespace Life

/-- The task executes: it is running, or a `Zombie` not yet switched away from. -/
def Executing (r : Life) : Prop := r.state = .running ∨ r.state = .zombie ∧ r.exited = false
deriving Decidable

/-- `task_signal_locked`, for a task without an interruptible wait. -/
def signal (r : Life) (sig : Sig) : Life :=
  { r with
    pending := update r.pending sig true
    state :=
      if sig = .kill ∨ sig = .stop then r.state.wake
      else if sig = .cont ∧ r.state = .stopped then r.state.wake else r.state }

/-- `task_handle_signals`: the pending signals in the source's order. -/
def handle (r : Life) : Life :=
  if r.pending .kill then { r with pending := fun _ => false, state := .zombie }
  else if r.pending .stop then { r with pending := update r.pending .stop false, state := .stopped }
  else if r.pending .term then { r with pending := update r.pending .term false, state := .zombie }
  else if r.pending .cont then
    { r with
      pending := update r.pending .cont false
      state := if r.state = .sleeping then .ready else r.state }
  else r

/-- The task after it was switched away from. -/
def park (r : Life) : Life :=
  match r.state with
  | .running => { r with state := .ready }
  | .zombie => { r with exited := true }
  | _ => r

/-- The clock can end the task's wait: `timer_wheel_tick` wakes what `sched_park_prev` put into the
wheel, `wake_expired_sleepers` what it put into the blocked queue. -/
def Timed (r : Life) : Prop := r.state.Blocked ∧ r.sleepUntil ≠ 0
deriving Decidable

/-- The task after its deadline has come. -/
def expire (r : Life) : Life := { r with state := .ready, sleepUntil := 0 }

/-- The next `task_handle_signals` ends the task. -/
def Dies (r : Life) : Prop := r.pending .kill = true ∨ r.pending .stop = false ∧ r.pending .term = true
deriving Decidable

variable {r : Life} {sig : Sig}

/-- Without a pending signal there is nothing to do. -/
theorem handle_eq (h : ∀ sig, r.pending sig = false) : r.handle = r := by
  unfold handle
  rw [h, h, h, h]
  rfl

/-- `task_handle_signals` makes a `Zombie` of a task that dies, and of no other. -/
theorem handle_zombie (h : r.handle.state = .zombie) : r.Dies ∨ r.state = .zombie := by
  unfold handle at h
  split_ifs at h with h₁ h₂ h₃ h₄ h₅
  · exact Or.inl (Or.inl h₁)
  · exact Or.inl (Or.inr ⟨by simpa using h₂, h₃⟩)
  · exact Or.inr h
  · exact Or.inr h

theorem handle_exited (r : Life) : r.handle.exited = r.exited := by
  unfold handle
  split_ifs <;> rfl

/-- A signal kills nobody at once. -/
theorem signal_zombie : (r.signal sig).state = .zombie ↔ r.state = .zombie := by
  unfold signal
  split_ifs
  · exact TaskState.wake_zombie
  · exact TaskState.wake_zombie
  · exact Iff.rfl

/-- Parking kills nobody. -/
theorem park_zombie : r.park.state = .zombie ↔ r.state = .zombie := by
  unfold park
  split
  · next h => simp [h]
  · exact Iff.rfl
  · exact Iff.rfl

/-- Only a dead task exits by being switched away. -/
theorem park_exited (h : r.park.exited = true) : r.exited = true ∨ r.state = .zombie := by
  unfold park at h
  split at h
  · exact Or.inl h
  · next hz => exact Or.inr hz
  · exact Or.inl h

theorem park_running (h : r.state = .running) : r.park = { r with state := .ready } := by
  unfold park
  rw [h]

end Life

end CactKernel
