/-
CactKernel/Sched/WaitPid.lean

Children: `fork`, threads, the ways to die, `sched_waitpid` and `task_reap`
(`task_fork.rs`, `task_thread.rs`, `task_signal.rs`, `mlfq.rs`).

Each event is a section under `SCHEDULER_LOCK`.  A task dies in `sched_task_exit`,
or because `task_handle_signals` acts on a signal; only the first stores an exit
code and gives the children away.  It is then a `Zombie` that goes on executing
until it calls `schedule`, which wakes its parent (`leave`) and does not return.
`sched_waitpid` is one pass over the task list; if there is nothing to report the
caller parks, and makes another pass when it is woken.

A thread group is known by its `ProcShared`.  Its address space, descriptor table
and `ProcShared` are released together, by the branch of `reap_task_free` that
`proc_shared_unref_locked` selects; `freed` lists the groups for which it was taken.

The records of reaped tasks stay in `task`: pids are never used again.
-/
import CactKernel.Lib.Run
import CactKernel.Sched.Task
import Mathlib.Algebra.Group.Nat.Defs

namespace CactKernel

open Function

def wnohang : BitVec 32 := 1
def wuntraced : BitVec 32 := 2

/-- The words of `TaskStruct` and `ProcMeta` that matter here. -/
structure ProcMeta where
  state : TaskState := .ready
  parentPid : Nat := 0
  exitCode : BitVec 32 := 0
  shared : Nat := 0
  /-- The call of `sched_waitpid` that the task is in. -/
  call : Option (Int × BitVec 32) := none
  /-- Switched away from as a `Zombie`. -/
  gone : Bool := false
  /-- For the statements: the task that forked it, the code it passed to `exit`, and how often it
  was stopped. -/
  forker : Nat := 0
  exited : Option (BitVec 32) := none
  stops : Nat := 0

/-- What `sched_waitpid` returns. -/
inductive WaitReply where
  | child (pid : Nat) (status : BitVec 32)
  | stopped (pid : Nat) (status : BitVec 32)
  /-- `0`, with `WNOHANG`. -/
  | noChange
  /-- `-1`. -/
  | noChild
deriving DecidableEq

/-- The task list, the tasks and thread groups, and what `waitpid` has returned. -/
structure WaitSys where
  /-- The task list. -/
  list : List Nat
  task : Nat → ProcMeta
  /-- `refcount` of each `ProcShared`. -/
  refs : Nat → Nat
  nextPid : Nat
  nextShared : Nat
  freed : List Nat
  /-- Every return of `sched_waitpid`, the last one first. -/
  replies : List (Nat × WaitReply)
  /-- The stops that were reported, by task and number. -/
  stopReports : List (Nat × Nat)

namespace WaitSys

/-- A section of a system call, a signal that is acted on, or a reap. -/
inductive Event where
  | fork (p : Nat)
  | thread (p : Nat)
  | exit (t : Nat) (code : BitVec 32)
  /-- `task_handle_signals` ends the task. -/
  | kill (t : Nat)
  /-- `task_handle_signals` acts on `SIGSTOP`. -/
  | stop (t : Nat)
  /-- A dead task calls `schedule`. -/
  | leave (t : Nat)
  /-- `SIGCONT` for a stopped task, `SIGKILL` or `SIGSTOP` for a blocked one. -/
  | wake (t : Nat)
  /-- One pass of `sched_waitpid`. -/
  | waitpid (p : Nat) (target : Int) (options : BitVec 32)
  | taskReap
deriving DecidableEq

variable (s : WaitSys)

def setTask (t : Nat) (r : ProcMeta) : WaitSys := { s with task := update s.task t r }

def setState (t : Nat) (st : TaskState) : WaitSys := s.setTask t { s.task t with state := st }

/-- The task executes.  A `Zombie` does, until it leaves. -/
def Runs (t : Nat) : Prop := t ∈ s.list ∧ ¬(s.task t).state.Blocked ∧ (s.task t).gone = false
deriving Decidable

/-! ### Birth -/

/-- The new task goes to the end of the task list; the next pid is computed with a check. -/
def spawn (r : ProcMeta) (refs : Nat → Nat) (nextShared : Nat) : Option WaitSys :=
  if s.nextPid + 1 < 2 ^ 32 then
    some { s with
      list := s.list ++ [s.nextPid]
      task := update s.task s.nextPid r
      nextPid := s.nextPid + 1
      refs := refs
      nextShared := nextShared }
  else none

/-- `task_fork`: a group of its own. -/
def taskFork (p : Nat) : Option WaitSys :=
  s.spawn { parentPid := p, shared := s.nextShared, forker := p } (update s.refs s.nextShared 1)
    (s.nextShared + 1)

/-- `sched_create_thread`: a member of the caller's group, and nobody's child. -/
def schedCreateThread (p : Nat) : Option WaitSys :=
  let g := (s.task p).shared
  s.spawn { shared := g } (update s.refs g ((s.refs g + 1) % 2 ^ 32)) s.nextShared

/-! ### Death -/

/-- The children of `t` are given away. -/
def orphaned (t u : Nat) : ProcMeta :=
  if u ∈ s.list ∧ (s.task u).parentPid = t then { s.task u with parentPid := 0 } else s.task u

/-- The children become orphans and the task a zombie. -/
def schedTaskExit (t : Nat) (code : BitVec 32) : WaitSys :=
  { s with
    task := update (s.orphaned t) t
      { s.orphaned t t with exitCode := code, state := .zombie, exited := some code } }

/-- A parent in `sched_waitpid` is woken. -/
def wakeParent (t : Nat) : WaitSys :=
  let p := (s.task t).parentPid
  if p ≠ 0 ∧ p ∈ s.list ∧ (s.task p).state = .waiting then s.setState p .ready else s

/-- `SIGSTOP`, and `notify_parent_of_stop`. -/
def stop (t : Nat) : WaitSys :=
  (s.setTask t { s.task t with state := .stopped, stops := (s.task t).stops + 1 }).wakeParent t

/-- The beginning of `schedule`, for a `Zombie`. -/
def leave (t : Nat) : WaitSys :=
  (s.wakeParent t).setTask t { (s.wakeParent t).task t with gone := true }

/-! ### Reaping -/

/-- `task_list_remove`, `proc_shared_unref_locked` and `reap_task_free`. -/
def collect (t : Nat) : WaitSys :=
  let g := (s.task t).shared
  let r := s.refs g - 1
  { s with
    list := s.list.erase t
    refs := update s.refs g r
    freed := if r = 0 then g :: s.freed else s.freed }

/-- One round of the loop of `task_reap`. -/
def reapPass (x : WaitSys × Nat) (t : Nat) : WaitSys × Nat :=
  let s := x.1
  let parent := (s.task t).parentPid
  if x.2 < 64 ∧ (s.task t).state = .zombie ∧ (parent = 0 ∨ parent ∉ s.list) then
    (s.collect t, x.2 + 1)
  else x

/-- One pass over the list as it was at the start. -/
def taskReap : WaitSys := (s.list.foldl reapPass (s, 0)).1

/-! ### Waiting -/

/-- `t` is a child of `p` that the call asks for. -/
def Matches (p : Nat) (target : Int) (t : Nat) : Prop :=
  (s.task t).parentPid = p ∧ (target ≤ 0 ∨ (t : Int) = target)
deriving Decidable

/-- The pass ends at this task. -/
def Reportable (p : Nat) (target : Int) (options : BitVec 32) (t : Nat) : Prop :=
  s.Matches p target t ∧ ((s.task t).state = .zombie ∨
    (s.task t).state = .stopped ∧ options &&& wuntraced ≠ 0)
deriving Decidable

/-- The first task that the pass reports. -/
def found (p : Nat) (target : Int) (options : BitVec 32) : Option Nat :=
  s.list.find? fun t => decide (s.Reportable p target options t)

/-- The call returns. -/
def reply (p : Nat) (r : WaitReply) : WaitSys :=
  { s.setTask p { s.task p with call := none } with replies := (p, r) :: s.replies }

/-- The status of a dead child: the exit code in bits 8 to 15. -/
def exitStatus (code : BitVec 32) : BitVec 32 := (code &&& 0xff) <<< 8

/-- The status of every stop, whichever signal it was. -/
def stopStatus : BitVec 32 := (2#32 <<< 8) ||| 0x7f

/-- One pass of `sched_waitpid`. -/
def schedWaitpid (p : Nat) (target : Int) (options : BitVec 32) : WaitSys :=
  match s.found p target options with
  | some t =>
    -- a dead child is freed with its report, a stopped one stays
    if (s.task t).state = .zombie then
      (s.collect t).reply p (.child t (exitStatus (s.task t).exitCode))
    else
      { s.reply p (.stopped t stopStatus) with stopReports := (t, (s.task t).stops) :: s.stopReports }
  | none =>
    if ∀ t ∈ s.list, ¬s.Matches p target t then s.reply p .noChild
    else if options &&& wnohang ≠ 0 then s.reply p .noChange
    else
      s.setTask p { s.task p with
        state := if (s.task p).state = .zombie then .zombie else .waiting
        call := some (target, options) }

/-! ### Runs -/

/-- A task in `sched_waitpid` does nothing but make another pass. -/
def step : Event → Option WaitSys
  | .fork p => if s.Runs p ∧ (s.task p).call = none then s.taskFork p else none
  | .thread p => if s.Runs p ∧ (s.task p).call = none then s.schedCreateThread p else none
  | .exit t code => if s.Runs t ∧ (s.task t).call = none then some (s.schedTaskExit t code) else none
  | .kill t => if s.Runs t then some (s.setState t .zombie) else none
  | .stop t => if s.Runs t then some (s.stop t) else none
  | .leave t => if s.Runs t ∧ (s.task t).state = .zombie then some (s.leave t) else none
  | .wake t => if t ∈ s.list ∧ (s.task t).state.Blocked then some (s.setState t .ready) else none
  | .waitpid p target options =>
    if s.Runs p ∧ ((s.task p).call = none ∨ (s.task p).call = some (target, options)) then
      some (s.schedWaitpid p target options)
    else none
  | .taskReap => some s.taskReap

/-- The first process. -/
def boot : WaitSys where
  list := [1]
  task _ := {}
  refs := update (fun _ => 0) 0 1
  nextPid := 2
  nextShared := 1
  freed := []
  replies := []
  stopReports := []

end WaitSys

end CactKernel
