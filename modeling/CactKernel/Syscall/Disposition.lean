/-
CactKernel/Syscall/Disposition.lean

Signals and what a process wants done with them.

The scheduler sends signals, and `task_handle_signals` acts on them at a tick
and when a task is switched to.  What it leaves pending is delivered by
`deliver_pending_signal`, when a system call returns: it builds the frame of a
user handler.  `DispSys` puts these together with the calls by which a task
sets its handlers (`CACT_PROCCTL_SIGACTION` and `task_sigaction`) and its mask
(`CACT_PROCCTL_SIGPROCMASK`, and `sys_sigreturn` with whatever mask the frame
in user memory holds).

For the statements it records the frames that were built, and the tasks that
were sent `SIGCONT` after the last `SIGSTOP`.
-/
import CactKernel.Sched.SignalWords
import CactKernel.Syscall.SignalFrame

namespace CactKernel

open Function

structure DispSys where
  sched : Sched
  /-- `signal_flags` and `signal_masks`, by task and signal. -/
  saFlags : Nat → Nat → BitVec 32
  saMask : Nat → Nat → BitVec 32
  /-- The handler frames built so far, by task and signal, the last one first. -/
  frames : List (Nat × Nat)
  /-- `SIGCONT` was sent after the last `SIGSTOP`. -/
  resumed : Nat → Bool

namespace DispSys

inductive Event where
  /-- A section of the scheduler: signals are sent, ticks, switches, waits. -/
  | sched (e : SchedEvent)
  | sigaction (c signum handler : Nat) (flags mask : BitVec 32)
  | sigprocmask (c how : Nat) (set : BitVec 32)
  | sigreturn (c : Nat) (mask : BitVec 32)
  /-- A system call returns; `frameOk` says for which signals the stack can take the frame. -/
  | ret (c : Nat) (frameOk : Nat → Bool)

/-- The set `sigwait` consumes from is stripped of `SIGKILL` and `SIGSTOP`; handlers are set by
the event `sigaction`. -/
def Permitted : SchedEvent → Prop
  | .own _ (.sigwaitDone sig) => sig &&& sigUncatchable = 0
  | .own _ (.sigaction _ _) => False
  | _ => True

instance decidablePermitted : (e : SchedEvent) → Decidable (Permitted e)
  | .own _ (.sigwaitDone sig) => inferInstanceAs (Decidable (sig &&& sigUncatchable = 0))
  | .own _ (.sigaction _ _) => inferInstanceAs (Decidable False)
  | .own _ .sigsuspendSave | .own _ (.sigsuspendMask _) | .own _ (.sigsuspendMark _)
  | .own _ .sigsuspendDone | .own _ (.futexWait _) | .own _ .futexDone
  | .own _ (.alarm _) | .own _ (.itimer _ _) | .own _ (.sigprocmask _)
  | .schedule _ | .park _ | .sleepTicks _ _ | .parkSleeping _ | .parkWaiting _ | .parkSigwait _ _
  | .wake _ _ | .signal _ _ _ | .signalPgid _ _ _ | .handle _ | .wheelTick _ | .alarms _
  | .timerTick _ | .boost _ | .migrate _ _ _ _ => inferInstanceAs (Decidable True)

/-- The signals that an event sends to a task. -/
def received (s : Sched) : SchedEvent → Nat → BitVec 32
  | .signal _ pid sig => Sched.raisedFor pid sig
  | .signalPgid _ pgid sig => s.raisedForGroup pgid sig
  | _ => fun _ => 0

/-- `SIGSTOP` undoes `SIGCONT`. -/
def nextResumed (resumed : Bool) (sig : BitVec 32) : Bool :=
  if sig &&& sigStop ≠ 0 then false else if sig &&& sigCont ≠ 0 then true else resumed

variable (s : DispSys)

/-- The current task of core `c` executes a call. -/
def byCurrent (c : Nat) (f : Nat → DispSys) : Option DispSys :=
  if c < maxCpus ∧ s.sched.q (.out c) = [] then
    (s.sched.current c).bind fun t => if (s.sched.task t).state.Blocked then none else some (f t)
  else none

/-- The checks of `CACT_PROCCTL_SIGACTION` and `task_sigaction`. -/
def SigactionOk (signum handler : Nat) : Prop :=
  signum < nsig ∧ (handler ≤ sigIgn ∨ userSpaceStart ≤ handler ∧ handler < kernelBase) ∧ signum ≠ 0 ∧
    (1#32 <<< signum) &&& sigUncatchable = 0
deriving Decidable

def taskSigaction (t signum handler : Nat) (flags mask : BitVec 32) : DispSys :=
  if SigactionOk signum handler then
    let r := s.sched.task t
    { s with
      sched := s.sched.setTask t { r with signalHandlers := update r.signalHandlers signum handler }
      saFlags := update s.saFlags t
        (update (s.saFlags t) signum (if handler ≤ sigIgn then 0 else flags))
      saMask := update s.saMask t
        (update (s.saMask t) signum (if handler ≤ sigIgn then 0 else mask)) }
  else s

def setMask (t : Nat) (mask : BitVec 32) : DispSys :=
  { s with sched := s.sched.setTask t { s.sched.task t with signalMask := mask } }

/-- `CACT_PROCCTL_SIGPROCMASK`; it does not strip `SIGKILL` and `SIGSTOP`. -/
def sigprocmask (t how : Nat) (set : BitVec 32) : DispSys :=
  let old := (s.sched.task t).signalMask
  match how with
  | 0 => s.setMask t (old ||| set)
  | 1 => s.setMask t (old &&& ~~~set)
  | 2 => s.setMask t set
  | _ => s

/-- The frame for `bit` is built: the signal and those of its `sa_mask` are blocked. -/
def enterHandler (t bit : Nat) : DispSys :=
  let r := s.sched.task t
  { s with
    sched := s.sched.setTask t { r with
      signalMask := r.signalMask |||
        (if s.saFlags t bit &&& saNodefer = 0 then 1#32 <<< bit else 0) ||| s.saMask t bit
      pendingSignals := r.pendingSignals &&& ~~~(1#32 <<< bit) }
    frames := (t, bit) :: s.frames }

/-- `deliver_pending_signal`. -/
def deliver (t : Nat) (frameOk : Nat → Bool) : DispSys :=
  match deliverPendingSignal (s.sched.task t) frameOk with
  | none => s
  | some bit => s.enterHandler t bit

def step : Event → Option DispSys
  | .sched e =>
    if Permitted e then
      (schedStep s.sched e).map fun sched =>
        { s with sched := sched, resumed := fun t => nextResumed (s.resumed t) (received s.sched e t) }
    else none
  | .sigaction c signum handler flags mask =>
    s.byCurrent c fun t => s.taskSigaction t signum handler flags mask
  | .sigprocmask c how set => s.byCurrent c fun t => s.sigprocmask t how set
  | .sigreturn c mask => s.byCurrent c fun t => s.setMask t mask
  | .ret c frameOk => s.byCurrent c fun t => s.deliver t frameOk

end DispSys

end CactKernel
