/-
CactKernel/Sched/Mlfq.lean

The scheduler: per-core multilevel queues (`mlfq.rs`), the blocked queue, the
timer wheel (`timer_wheel.rs`) and signals (`task_signal.rs`).

A `Place` is where a task can stand: current on a core, switched away from
on a core and not yet parked (between `schedule` and `sched_park_prev`), in
one of the four queues of a core, in the blocked queue, or in one of the 256
slots of the wheel.  `Sched.q` lists the tasks at each place in the order of
the intrusive list; a core whose `cpu` place is empty runs its idle task.
Tasks are named by their pid and `Sched.list` is the global task list.

Each function is one section under `SCHEDULER_LOCK` and takes the core it runs
on, because `mlfq_enqueue_locked` queues a task on the caller's core.
`schedStep` is one section of any core; a task that executes may also write
the words that belong to it (`OwnWrite`), which needs no lock.
-/
import CactKernel.Lib.Places
import CactKernel.Lib.Run
import CactKernel.Sched.Task
import Mathlib.Algebra.Group.Nat.Defs
import Mathlib.Logic.Function.Iterate

namespace CactKernel

open Function Places

def maxCpus : Nat := 64
def mlfqLevels : Nat := 4
def wheelSize : Nat := 256
/-- `BOOST_TARGET`, the interactive level. -/
def boostTarget : Nat := 1
/-- Ticks between two boosts. -/
def boostInterval : Nat := 50
/-- The tick counter is a `u32`. -/
def tickMod : Nat := 2 ^ 32

def sigKill : BitVec 32 := 1#32 <<< 0
def sigTerm : BitVec 32 := 1#32 <<< 1
def sigStop : BitVec 32 := 1#32 <<< 2
def sigCont : BitVec 32 := 1#32 <<< 3
def sigPipe : BitVec 32 := 1#32 <<< 4
def sigAlrm : BitVec 32 := 1#32 <<< 5
def sigChld : BitVec 32 := 1#32 <<< 6
def sigFpe : BitVec 32 := 1#32 <<< 7
def sigSegv : BitVec 32 := 1#32 <<< 8
def sigWinch : BitVec 32 := 1#32 <<< 9
def sigHup : BitVec 32 := 1#32 <<< 10
def sigInt : BitVec 32 := 1#32 <<< 11
def sigQuit : BitVec 32 := 1#32 <<< 12
def sigUncatchable : BitVec 32 := sigKill ||| sigStop

/-- `SIG_DFL` and `SIG_IGN`; every other handler is user code. -/
def sigDfl : Nat := 0
def sigIgn : Nat := 1

/-! ### State -/

/-- The interruptible wait a task has begun and not returned from. -/
inductive Wait where
  | none
  /-- `sigsuspend`, with its temporary mask. -/
  | sigsuspend (mask : BitVec 32)
  | sigwait (set : BitVec 32)
  | futex
deriving DecidableEq, Repr

/-- The words of `TaskStruct` and `ProcMeta` the scheduler reads and writes. -/
structure TaskStruct where
  state : TaskState := .ready
  priority : Nat := 1
  ticksUsed : Nat := 0
  /-- `0`: no deadline. -/
  sleepUntil : Nat := 0
  pendingSignals : BitVec 32 := 0
  signalMask : BitVec 32 := 0
  savedSignalMask : BitVec 32 := 0
  inSigsuspend : Bool := false
  intrWait : Bool := false
  sigwaitSet : BitVec 32 := 0
  signalHandlers : Nat → Nat := fun _ => 0
  parentPid : Nat := 0
  pgid : Nat := 0
  tgid : Nat := 0
  alarmTicks : Nat := 0
  itimerValue : Nat := 0
  itimerInterval : Nat := 0
  /-- For the statements only: no function of the scheduler reads it. -/
  wait : Wait := .none

/-- Where a task can be. -/
inductive Place where
  | cpu (c : Nat)
  /-- Switched away from on core `c`, before `sched_park_prev`. -/
  | out (c : Nat)
  | runq (c level : Nat)
  | sleepQueue
  | slot (k : Nat)
deriving DecidableEq, Repr

/-- The scheduler: its places, the tasks and the clock. -/
structure Sched where
  q : Place → List Nat
  task : Nat → TaskStruct
  /-- The global task list. -/
  list : List Nat
  /-- `current_tick` of the wheel. -/
  tick : Nat
  boostCounter : Nat

/-- The slot of a deadline. -/
def slotOf (sleepUntil : Nat) : Nat := sleepUntil % wheelSize

/-- The signal is one the task's interruptible wait asks for. -/
def TaskStruct.Hit (r : TaskStruct) (sig : BitVec 32) : Prop :=
  r.sigwaitSet &&& sig ≠ 0 ∨
    (r.inSigsuspend = true ∨ r.intrWait = true) ∧ sig &&& ~~~r.signalMask ≠ 0
deriving Decidable

namespace Sched

def setTask (s : Sched) (t : Nat) (r : TaskStruct) : Sched := { s with task := update s.task t r }

def setState (s : Sched) (t : Nat) (st : TaskState) : Sched :=
  s.setTask t { s.task t with state := st }

/-- The task that is current on core `c`; `none` is the idle task. -/
def current (s : Sched) (c : Nat) : Option Nat := (s.q (.cpu c)).head?

/-! ### Queues -/

/-- `mlfq_enqueue_locked`, on core `c`. -/
def mlfqEnqueueLocked (s : Sched) (c t level : Nat) : Sched :=
  { s.setTask t { s.task t with priority := min level (mlfqLevels - 1) } with
    q := putLast s.q (.runq c (min level (mlfqLevels - 1))) t }

/-- To the end of the blocked queue. -/
def mlfqSleepLocked (s : Sched) (t : Nat) : Sched := { s with q := putLast s.q .sleepQueue t }

/-- `mlfq_remove_from_sleep`; the flag says that the task was there. -/
def mlfqRemoveFromSleep (s : Sched) (t : Nat) : Sched × Bool :=
  if t ∈ s.q .sleepQueue then ({ s with q := takeOut s.q .sleepQueue t }, true) else (s, false)

/-- `timer_wheel_remove` looks only into the slot of the task's deadline. -/
def timerWheelRemove (s : Sched) (t : Nat) : Sched × Bool :=
  let k := slotOf (s.task t).sleepUntil
  if t ∈ s.q (.slot k) then ({ s with q := takeOut s.q (.slot k) t }, true) else (s, false)

/-- Into the slot of its deadline. -/
def timerWheelInsert (s : Sched) (t : Nat) : Sched :=
  { s with q := putFirst s.q (.slot (slotOf (s.task t).sleepUntil)) t }

/-- The end of every wake-up: the task is `Ready`, and it is queued only if it was parked. -/
def readied (x : Sched × Bool) (c t : Nat) : Sched :=
  let s := x.1.setState t .ready
  if x.2 then s.mlfqEnqueueLocked c t (s.task t).priority else s

/-- Wake a task that is looked for in the blocked queue only. -/
def wakeBlocked (s : Sched) (c t : Nat) : Sched := readied (s.mlfqRemoveFromSleep t) c t

/-- Wake a task out of whichever queue its state word says it is in. -/
def mlfqWakeTaskLocked (s : Sched) (c t : Nat) : Sched :=
  match (s.task t).state with
  | .sleeping =>
    let x := s.mlfqRemoveFromSleep t
    readied (if x.2 then x else x.1.timerWheelRemove t) c t
  | .waiting => s.wakeBlocked c t
  | .stopped => s.wakeBlocked c t
  | _ => s

/-! ### Signals -/

/-- Make a signal pending, and wake the task if it waits for it. -/
def taskSignalLocked (s : Sched) (c pid : Nat) (sig : BitVec 32) : Sched :=
  if pid = 0 ∨ pid ∉ s.list then s
  else
    let r := s.task pid
    let s := s.setTask pid { r with pendingSignals := r.pendingSignals ||| sig }
    if sig &&& (sigKill ||| sigStop) ≠ 0 then s.mlfqWakeTaskLocked c pid
    else if sig &&& sigCont ≠ 0 ∧ r.state = .stopped then s.mlfqWakeTaskLocked c pid
    -- the timer wheel is not looked into here
    else if r.Hit sig ∧ r.state = .sleeping then s.wakeBlocked c pid
    else s

/-- `task_signal_pgid`. -/
def taskSignalPgid (s : Sched) (c pgid : Nat) (sig : BitVec 32) : Sched :=
  if pgid = 0 then s
  else s.list.foldl (fun s t => if (s.task t).pgid = pgid then s.taskSignalLocked c t sig else s) s

/-- `task_signal_group`, called by a task of the thread group `tgid`. -/
def taskSignalGroup (s : Sched) (c tgid except : Nat) (sig : BitVec 32) : Sched :=
  s.list.foldl
    (fun s t => if t ≠ except ∧ (s.task t).tgid = tgid then s.taskSignalLocked c t sig else s) s

/-- What `schedule` does for a `Zombie` and `notify_parent_of_stop` for a stopped task. -/
def notifyParent (s : Sched) (c parentPid : Nat) : Sched :=
  if parentPid = 0 then s
  else
    let s := s.taskSignalLocked c parentPid sigChld
    if parentPid ∈ s.list ∧ (s.task parentPid).state = .waiting then s.wakeBlocked c parentPid else s

/-- What an alarm wakes: a task in sigsuspend whose mask lets it through. -/
def wakeIfSigsuspend (s : Sched) (c t : Nat) (sig : BitVec 32) : Sched :=
  let r := s.task t
  if r.inSigsuspend = true ∧ r.state = .sleeping ∧ sig &&& ~~~r.signalMask ≠ 0 then s.wakeBlocked c t
  else s

/-- The alarm of one task in `check_alarm_timers`. -/
def alarmPass (s : Sched) (c t : Nat) : Sched :=
  let r := s.task t
  if r.alarmTicks ≠ 0 ∧ r.alarmTicks ≤ s.tick then
    (s.setTask t { r with alarmTicks := 0, pendingSignals := r.pendingSignals ||| sigAlrm }).wakeIfSigsuspend
      c t sigAlrm
  else s

/-- The next value of an interval timer; the sum is checked. -/
def itimerNext (now interval : Nat) : Option Nat :=
  if interval = 0 then some 0 else if now + interval < tickMod then some (now + interval) else none

/-- The interval timer of one task in `check_alarm_timers`. -/
def itimerPass (s : Sched) (c t : Nat) : Option Sched :=
  let r := s.task t
  if r.itimerValue ≠ 0 ∧ r.itimerValue ≤ s.tick then
    (itimerNext s.tick r.itimerInterval).map fun value =>
      (s.setTask t
        { r with pendingSignals := r.pendingSignals ||| sigAlrm, itimerValue := value }).wakeIfSigsuspend
        c t sigAlrm
  else some s

/-- Alarms and interval timers, of every task on the list. -/
def checkAlarmTimers (s : Sched) (c : Nat) : Option Sched :=
  s.list.foldlM (fun s t => (s.alarmPass c t).itimerPass c t) s

/-- A row of the table of calls in `task_handle_signals`. -/
structure SignalBit where
  sig : BitVec 32
  handlerIdx : Nat
  termByDefault : Bool

/-- The rows behind SIGKILL and SIGSTOP, in their order. -/
def signalBits : List SignalBit :=
  [⟨sigTerm, 1, true⟩, ⟨sigCont, 3, false⟩, ⟨sigPipe, 4, true⟩, ⟨sigAlrm, 5, true⟩,
    ⟨sigChld, 6, false⟩, ⟨sigFpe, 7, true⟩, ⟨sigSegv, 8, true⟩, ⟨sigWinch, 9, false⟩,
    ⟨sigHup, 10, true⟩, ⟨sigInt, 11, true⟩, ⟨sigQuit, 12, true⟩]

/-- The words with the mask that `sigsuspend` replaced put back. -/
def unsuspended (r : TaskStruct) : TaskStruct :=
  if r.inSigsuspend then { r with signalMask := r.savedSignalMask, inSigsuspend := false } else r

/-- The pending signals `task_handle_signals` goes through. -/
def deliverable (r : TaskStruct) : BitVec 32 := r.pendingSignals &&& ~~~(unsuspended r).signalMask

/-- Acting on the row ends the task: the signal is deliverable, and no user handler takes it. -/
def SignalBit.Fatal (b : SignalBit) (deliverable : BitVec 32) (handlers : Nat → Nat) : Prop :=
  deliverable &&& b.sig ≠ 0 ∧ b.termByDefault = true ∧
    (handlers b.handlerIdx = sigDfl ∨ handlers b.handlerIdx = sigIgn)
deriving Decidable

/-- `handle_signal_bit` for the current task `t` of core `c`. -/
def handleSignalBit (s : Sched) (c t : Nat) (deliverable : BitVec 32) (b : SignalBit) : Sched :=
  let r := s.task t
  if deliverable &&& b.sig = 0 then s
  else if r.state = .zombie then s
  else
    let cleared := { r with pendingSignals := r.pendingSignals &&& ~~~b.sig }
    let handler := r.signalHandlers b.handlerIdx
    if b.sig = sigCont then
      s.setTask t { cleared with state := if r.state = .sleeping then .ready else r.state }
    -- a user handler: left pending for `deliver_pending_signal`
    else if handler ≠ sigDfl ∧ handler ≠ sigIgn then
      s.setTask t { cleared with pendingSignals := cleared.pendingSignals ||| b.sig }
    else if b.sig = sigChld ∨ b.sig = sigWinch ∨ b.termByDefault = false then s.setTask t cleared
    else
      let s := (s.setTask t cleared).taskSignalLocked c r.parentPid sigChld
      (s.taskSignalGroup c r.tgid t sigKill).setState t .zombie

/-- `task_handle_signals` for the current task `t` of core `c`; after a stop the caller's
`schedule` is a step of its own. -/
def taskHandleSignals (s : Sched) (c t : Nat) : Sched :=
  let r := s.task t
  if r.pendingSignals = 0 then s
  else
    let r := if r.inSigsuspend then
        { r with signalMask := r.savedSignalMask, inSigsuspend := false } else r
    if r.pendingSignals &&& sigKill ≠ 0 then
      ((s.setTask t { r with pendingSignals := 0 }).taskSignalLocked c r.parentPid sigChld).setState t
        .zombie
    else if r.pendingSignals &&& sigStop ≠ 0 then
      (s.setTask t
        { r with pendingSignals := r.pendingSignals &&& ~~~sigStop, state := .stopped }).notifyParent
        c r.parentPid
    else
      signalBits.foldl (fun s b => s.handleSignalBit c t (r.pendingSignals &&& ~~~r.signalMask) b)
        (s.setTask t r)

/-! ### Time -/

/-- One task of the drained slot, in `timer_wheel_tick`. -/
def wheelPass (s : Sched) (c t : Nat) : Sched :=
  let r := s.task t
  if r.sleepUntil ≤ s.tick then
    if r.state = .sleeping then
      (s.setTask t { r with sleepUntil := 0, state := .ready }).mlfqEnqueueLocked c t r.priority
    -- not sleeping any more: unlinked and dropped
    else s
  else s.timerWheelInsert t

/-- The tick counter moves on and the slot of the new tick is drained. -/
def drainSlot (s : Sched) : Sched :=
  let now := (s.tick + 1) % tickMod
  { s with tick := now, q := update s.q (.slot (slotOf now)) [] }

/-- The clock advances, and the slot of the new time is emptied. -/
def timerWheelTick (s : Sched) (c : Nat) : Sched :=
  (s.q (.slot (slotOf ((s.tick + 1) % tickMod)))).foldl (fun s t => s.wheelPass c t) s.drainSlot

/-- One round of the loop of `wake_expired_sleepers`. -/
def expirePass (s : Sched) (c : Nat) : Sched :=
  match s.q .sleepQueue with
  | [] => s
  | t :: _ =>
    let r := s.task t
    let s := { s with q := takeOut s.q .sleepQueue t }
    if r.sleepUntil ≠ 0 ∧ r.sleepUntil ≤ s.tick then
      (s.setTask t { r with sleepUntil := 0, state := .ready }).mlfqEnqueueLocked c t r.priority
    else s.mlfqSleepLocked t

/-- Each task that is in the blocked queue at the start is looked at once. -/
def wakeExpiredSleepers (s : Sched) (c : Nat) : Sched :=
  (fun s : Sched => s.expirePass c)^[(s.q .sleepQueue).length] s

/-- Sleep for `n` ticks; the task has still to be switched away. -/
def sleepTicks (s : Sched) (t n : Nat) : Sched :=
  if (s.task t).state = .zombie then s
  else s.setTask t { s.task t with state := .sleeping, sleepUntil := (s.tick + n) % tickMod }

/-- `task_park_state`. -/
def taskParkState (s : Sched) (t : Nat) (st : TaskState) : Sched :=
  if (s.task t).state = .zombie then s else s.setState t st

def taskParkSigwait (s : Sched) (t : Nat) (set : BitVec 32) : Sched :=
  let r := s.task t
  if r.state = .zombie then s
  else if r.pendingSignals &&& set ≠ 0 then s
  else s.setTask t { r with sigwaitSet := set, state := .sleeping, wait := .sigwait set }

/-! ### Switching -/

/-- The core other than `c` with the longest queue at a level, if one is not empty. -/
def busiest (s : Sched) (c level : Nat) : Option Nat :=
  let best := (List.range maxCpus).foldl
    (fun (best : Nat × Nat) k =>
      if k = c then best
      else if best.2 < (s.q (.runq k level)).length then (k, (s.q (.runq k level)).length) else best)
    (maxCpus, 0)
  if 0 < best.2 then some best.1 else none

/-- The queues `pick_next_task` tries: the core's own, then for each level the busiest peer's. -/
def pickPlaces (s : Sched) (c : Nat) : List Place :=
  (List.range mlfqLevels).map (.runq c) ++
    (List.range mlfqLevels).filterMap fun level => (s.busiest c level).map (.runq · level)

/-- `pick_next_task`: the task and the queue it heads. -/
def pickNextTask (s : Sched) (c : Nat) : Option (Place × Nat) :=
  (s.pickPlaces c).findSome? fun p => (s.q p).head?.map (p, ·)

/-- The current task leaves the core; `sched_park_prev` is still to come. -/
def switchOut (s : Sched) (c t : Nat) : Sched :=
  { s with q := putLast (takeOut s.q (.cpu c) t) (.out c) t }

/-- The task `t` of the queue `p` becomes current on core `c`. -/
def dispatch (s : Sched) (c : Nat) (p : Place) (t : Nat) : Sched :=
  { s.setState t .running with q := putLast (takeOut s.q p t) (.cpu c) t }

/-- The first half of `schedule`: the parent of a `Zombie` is told, expired sleepers wake up. -/
def scheduleWakes (s : Sched) (c : Nat) : Sched :=
  let s : Sched := match s.current c with
    | some t => if (s.task t).state = .zombie then s.notifyParent c (s.task t).parentPid else s
    | none => s
  s.wakeExpiredSleepers c

/-- The second half of `schedule`: choose and switch. -/
def scheduleSwitch (s : Sched) (c : Nat) : Sched :=
  match s.pickNextTask c, s.current c with
  | some (p, t), none => s.dispatch c p t
  | some (p, t), some u =>
    if t = u then { s with q := takeOut s.q p t } else (s.switchOut c u).dispatch c p t
  | none, some u => if (s.task u).state = .running then s else s.switchOut c u
  | none, none => s

/-- Wake what is due, then switch. -/
def schedule (s : Sched) (c : Nat) : Sched := (s.scheduleWakes c).scheduleSwitch c

/-- `sched_park_prev`, for the task `t` switched away from on core `c`. -/
def schedParkPrev (s : Sched) (c t : Nat) : Sched :=
  let r := s.task t
  let s := { s with q := takeOut s.q (.out c) t }
  match r.state with
  | .running => (s.setState t .ready).mlfqEnqueueLocked c t r.priority
  | .sleeping => if r.sleepUntil = 0 then s.mlfqSleepLocked t else s.timerWheelInsert t
  | .waiting => s.mlfqSleepLocked t
  | .stopped => s.mlfqSleepLocked t
  | .ready => s.mlfqEnqueueLocked c t r.priority
  | .zombie => s

/-! ### Moving between queues -/

/-- A queued task goes to the end of another queue. -/
def requeue (s : Sched) (p : Place) (c level t : Nat) (r : TaskStruct) : Sched :=
  { s.setTask t r with q := putLast (takeOut s.q p t) (.runq c level) t }

/-- The task `mlfq_migrate_locked` moves, and its level. -/
def migrant (s : Sched) (src pid : Nat) : Option (Nat × Nat) :=
  (List.range mlfqLevels).findSome? fun level =>
    if pid = 0 then (s.q (.runq src level)).head?.map (level, ·)
    else if pid ∈ s.q (.runq src level) then some (level, pid) else none

/-- A queued task goes to another core; `pid` 0 takes the first one. -/
def mlfqMigrateLocked (s : Sched) (src dst pid : Nat) : Sched :=
  if src = dst ∨ maxCpus ≤ src ∨ maxCpus ≤ dst then s
  else match s.migrant src pid with
    | none => s
    | some (level, t) => s.requeue (.runq src level) dst level t { s.task t with priority := level }

/-- Empty one queue of core `k` into its interactive queue. -/
def boostQueue (s : Sched) (k level : Nat) : Sched :=
  (s.q (.runq k level)).foldl
    (fun s t => s.requeue (.runq k level) k boostTarget t
      { s.task t with ticksUsed := 0, priority := boostTarget }) s

/-- `do_priority_boost`, called on core `c`. -/
def doPriorityBoost (s : Sched) (c : Nat) : Sched :=
  let s := (List.range maxCpus).foldl (fun s k => (s.boostQueue k 2).boostQueue k 3) s
  match s.current c with
  | none => s
  | some t =>
    let r := s.task t
    -- the current task is on no queue
    if boostTarget < r.priority ∧ r.priority ≠ 0 then
      s.setTask t { r with priority := boostTarget, ticksUsed := 0 }
    else s

def quantumFor (level : Nat) : Nat := [5, 1, 2, 4].getD (min level (mlfqLevels - 1)) 0

/-- The level below, unless there is none. -/
def demoteOnQuantum (priority : Nat) : Nat :=
  if priority ≠ 0 ∧ priority < 3 then priority + 1 else priority

/-- The locked section of `on_timer_tick`, the current task's share. -/
def charge (s : Sched) (c : Nat) : Option Sched :=
  match s.current c with
  | none => some s
  | some t =>
    let r := s.task t
    if tickMod ≤ r.ticksUsed + 1 then none
    else if quantumFor r.priority ≤ r.ticksUsed + 1 then
      some (s.setTask t { r with priority := demoteOnQuantum r.priority, ticksUsed := 0 })
    else some (s.setTask t { r with ticksUsed := r.ticksUsed + 1 })

/-- The locked section of `on_timer_tick`; core 0 counts towards the next boost. -/
def onTimerTick (s : Sched) (c : Nat) : Option Sched :=
  (s.charge c).map fun s =>
    if c = 0 then
      let n := min (s.boostCounter + 1) (tickMod - 1)
      if boostInterval ≤ n then { s with boostCounter := 0 }.doPriorityBoost c
      else { s with boostCounter := n }
    else s

end Sched

/-! ### Runs -/

/-- Words a task writes about itself while it executes. -/
inductive OwnWrite where
  /-- The three writes of `CACT_PROCCTL_SIGSUSPEND` before the park; a tick may come between them. -/
  | sigsuspendSave
  | sigsuspendMask (mask : BitVec 32)
  | sigsuspendMark (mask : BitVec 32)
  /-- `CACT_PROCCTL_SIGSUSPEND` returns. -/
  | sigsuspendDone
  /-- `futex_do_wait`, between the table entry and the park. -/
  | futexWait (deadline : Nat)
  /-- `futex_do_wait`, after `schedule` returned. -/
  | futexDone
  /-- `CACT_PROCCTL_SIGWAIT` consumes the signal. -/
  | sigwaitDone (sig : BitVec 32)
  | alarm (ticks : Nat)
  | itimer (value interval : Nat)
  /-- `CACT_PROCCTL_SIGPROCMASK`, the mask it arrives at; `SIGKILL` and `SIGSTOP` may be in it. -/
  | sigprocmask (mask : BitVec 32)
  /-- `task_sigaction`. -/
  | sigaction (signum handler : Nat)
deriving DecidableEq, Repr

def OwnWrite.apply : OwnWrite → TaskStruct → TaskStruct
  | sigsuspendSave, r => { r with savedSignalMask := r.signalMask }
  | sigsuspendMask mask, r => { r with signalMask := mask &&& ~~~sigUncatchable }
  | sigsuspendMark mask, r =>
    { r with inSigsuspend := true, wait := .sigsuspend (mask &&& ~~~sigUncatchable) }
  | sigsuspendDone, r => { r with wait := .none }
  | futexWait deadline, r => { r with sleepUntil := deadline, intrWait := true, wait := .futex }
  | futexDone, r => { r with intrWait := false, wait := .none }
  | sigwaitDone sig, r =>
    { r with sigwaitSet := 0, pendingSignals := r.pendingSignals &&& ~~~sig, wait := .none }
  | alarm ticks, r => { r with alarmTicks := ticks }
  | itimer value interval, r => { r with itimerValue := value, itimerInterval := interval }
  | sigprocmask mask, r => { r with signalMask := mask }
  | sigaction signum handler, r => { r with signalHandlers := update r.signalHandlers signum handler }

/-- One section, on the core `c` it names first. -/
inductive SchedEvent where
  | schedule (c : Nat)
  | park (c : Nat)
  | sleepTicks (c n : Nat)
  | parkSleeping (c : Nat)
  | parkWaiting (c : Nat)
  | parkSigwait (c : Nat) (set : BitVec 32)
  | own (c : Nat) (w : OwnWrite)
  | wake (c t : Nat)
  | signal (c pid : Nat) (sig : BitVec 32)
  | signalPgid (c pgid : Nat) (sig : BitVec 32)
  | handle (c : Nat)
  | wheelTick (c : Nat)
  | alarms (c : Nat)
  | timerTick (c : Nat)
  | boost (c : Nat)
  | migrate (c src dst pid : Nat)
deriving DecidableEq, Repr

namespace SchedEvent

/-- The core the section runs on. -/
def core : SchedEvent → Nat
  | schedule c | park c | sleepTicks c _ | parkSleeping c | parkWaiting c | parkSigwait c _
  | own c _ | wake c _ | signal c _ _ | signalPgid c _ _ | handle c | wheelTick c | alarms c
  | timerTick c | boost c | migrate c _ _ _ => c

/-- The section is called by the code of the current task. -/
def byTask : SchedEvent → Bool
  | sleepTicks _ _ | parkSleeping _ | parkWaiting _ | parkSigwait _ _ | own _ _ => true
  | _ => false

end SchedEvent

namespace Sched

/-- Core `c` executes `f` for its current task. -/
def onCurrent (s : Sched) (c : Nat) (f : Nat → Sched) : Option Sched := (s.current c).map f

/-- What the section does. -/
def exec (s : Sched) : SchedEvent → Option Sched
  | .schedule c => some (s.schedule c)
  | .park c => (s.q (.out c)).head?.map (s.schedParkPrev c)
  | .sleepTicks c n => s.onCurrent c fun t => s.sleepTicks t n
  | .parkSleeping c => s.onCurrent c fun t => s.taskParkState t .sleeping
  | .parkWaiting c => s.onCurrent c fun t => s.taskParkState t .waiting
  | .parkSigwait c set => s.onCurrent c fun t => s.taskParkSigwait t set
  | .own c w => s.onCurrent c fun t => s.setTask t (w.apply (s.task t))
  | .wake c t => some (s.mlfqWakeTaskLocked c t)
  | .signal c pid sig => some (s.taskSignalLocked c pid sig)
  | .signalPgid c pgid sig => some (s.taskSignalPgid c pgid sig)
  | .handle c => s.onCurrent c fun t => s.taskHandleSignals c t
  | .wheelTick c => some (s.timerWheelTick c)
  | .alarms c => s.checkAlarmTimers c
  | .timerTick c => s.onTimerTick c
  | .boost c => some (s.doPriorityBoost c)
  | .migrate _ src dst pid => some (s.mlfqMigrateLocked src dst pid)

/-- A core parks the task it switched away from before it does anything else, and a task that has
marked itself blocked calls nothing but `schedule`. -/
def Enabled (s : Sched) (e : SchedEvent) : Prop :=
  e.core < maxCpus ∧ (s.q (.out e.core) = [] ∨ e = .park e.core) ∧
    (e.byTask = true → ∀ t ∈ s.current e.core, ¬(s.task t).state.Blocked)
deriving Decidable

end Sched

/-- One locked section, if it can happen. -/
def schedStep (s : Sched) (e : SchedEvent) : Option Sched := if s.Enabled e then s.exec e else none

end CactKernel
