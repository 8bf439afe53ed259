/-
CactKernel/Syscall/Futex.lean

The futex system call (`core/syscall/process/thread.c`) on top of the
scheduler.

The table of waiters is a global array of 256 entries under `futex_lock`.  A
wait is three sections: it registers and parks itself (`wait`), it takes its
entry out again when it runs next (`resume`), and it decides what to return
(`report`).  A wake scans the table and drops the lock for each waiter it
finds: it takes the entry out (`scan`), wakes the task (`notify`), and goes on
behind that entry.  Between any two of these sections every other task, and
every section of the scheduler, may run.

A task that is killed in its wait becomes a `Zombie` inside the `schedule` of
`futex_do_wait` and never gets to its cleanup; its parent frees it (`reap`)
without a look at the table.

`FutexCall` says where a task stands in a call.  It also records, for the
statements only, whether a wake has taken the waiter's entry (`consumed`) and
what the table was when the wake began (`atStart`); `FutexSys.log` lists the
calls that have returned.
-/
import CactKernel.Sched.PlaceLaw

namespace CactKernel

open Function

/-- `FUTEX_MAX_WAITERS`. -/
def futexMaxWaiters : Nat := 256

/-- The key words of an entry: `(pd, uaddr)` for a private futex, `phys` for a shared one. -/
structure FutexKey where
  pd : Nat
  uaddr : Nat
  phys : Nat
deriving DecidableEq, Repr

/-- An entry `futex_wake_key` takes out for the key `k`. -/
def FutexKey.Matches (k e : FutexKey) : Prop :=
  if k.phys ≠ 0 then e.phys = k.phys else e.phys = 0 ∧ e.uaddr = k.uaddr ∧ e.pd = k.pd
deriving Decidable

/-- `futex_waiter_t` of an entry in use. -/
structure FutexWaiter where
  key : FutexKey
  task : Nat
deriving DecidableEq, Repr

abbrev FutexTable := Nat → Option FutexWaiter

/-- The entry is in use and matches the key. -/
def FutexKey.Finds (k : FutexKey) (e : Option FutexWaiter) : Prop := ∃ w ∈ e, k.Matches w.key
deriving Decidable

/-- A call of `futex_wake_key`: its arguments and its local variables. -/
structure WakeCall where
  key : FutexKey
  count : Int
  woken : Nat
  /-- Where the scan goes on. -/
  next : Nat
  /-- The table at the beginning of the call. -/
  atStart : FutexTable

/-- A count that is not positive wakes one waiter. -/
def WakeCall.limit (w : WakeCall) : Nat := if w.count ≤ 0 then 1 else w.count.toNat

inductive FutexCall where
  | outside
  /-- In `futex_do_wait`, registered, until it runs again. -/
  | waiting (slot deadline : Nat) (key : FutexKey) (consumed : Bool)
  /-- In `futex_do_wait`, its entry taken out. -/
  | leaving (deadline : Nat) (consumed : Bool)
  | waking (w : WakeCall)
  /-- In `futex_wake_key`, about to wake the task whose entry it took out. -/
  | notifying (w : WakeCall) (target : Nat)

/-- What `futex_do_wait` returns. -/
inductive WaitResult where
  /-- `0`. -/
  | woken
  | eintr
  | etimedout
  | eagain
  | efault
  | enomem
deriving DecidableEq, Repr

/-- A call that has returned. -/
inductive FutexReturn where
  | waited (ret : WaitResult) (consumed : Bool)
  /-- `futex_wake_key` returned `w.woken` and left the table `atEnd`. -/
  | woke (w : WakeCall) (atEnd : FutexTable)

structure FutexSys where
  sched : Sched
  table : FutexTable
  call : Nat → FutexCall
  log : List FutexReturn
  /-- The tasks inside `futex_wake_key`. -/
  wakers : List Nat

/-- The arguments of `futex_do_wait`, with what it reads from user memory and the clock. -/
structure WaitArgs where
  shared : Bool
  pd : Nat
  uaddr : Nat
  /-- `vmm_get_phys` of the word. -/
  phys : Nat
  /-- `*word == val` under the table lock. -/
  equal : Bool
  /-- `0` without a timeout. -/
  deadline : Nat
deriving DecidableEq, Repr

def WaitArgs.key (a : WaitArgs) : FutexKey :=
  if a.shared then ⟨0, 0, a.phys⟩ else ⟨a.pd, a.uaddr, 0⟩

inductive FutexEvent where
  | sched (e : SchedEvent)
  | wait (c : Nat) (a : WaitArgs)
  | resume (c : Nat)
  /-- The return value is decided at tick `now`. -/
  | report (c now : Nat)
  | wake (c : Nat) (key : FutexKey) (count : Int)
  | scan (c : Nat)
  | notify (c : Nat)
  /-- `sched_waitpid` or `task_reap` frees a `Zombie`, wherever it died. -/
  | reap (t : Nat)
deriving DecidableEq, Repr

namespace FutexSys

def setCall (s : FutexSys) (t : Nat) (f : FutexCall) : FutexSys := { s with call := update s.call t f }

def setEntry (s : FutexSys) (i : Nat) (e : Option FutexWaiter) : FutexSys :=
  { s with table := update s.table i e }

/-- The first free entry. -/
def freeSlot (s : FutexSys) : Option Nat :=
  (List.range futexMaxWaiters).find? fun i => decide (s.table i = none)

/-- The next entry the scan takes out, unless the call has woken enough. -/
def scanSlot (s : FutexSys) (w : WakeCall) : Option Nat :=
  if w.woken < w.limit then
    (List.range futexMaxWaiters).find? fun j => decide (w.next ≤ j ∧ w.key.Finds (s.table j))
  else none

/-- A wake has taken the entry of the task. -/
def consume : FutexCall → FutexCall
  | .waiting slot deadline key _ => .waiting slot deadline key true
  | f => f

/-- The task is gone, and with it the call it died in. -/
def free (s : FutexSys) (t : Nat) : FutexSys :=
  { s.setCall t .outside with
    sched := { s.sched with list := s.sched.list.erase t }
    wakers := s.wakers.erase t }

end FutexSys

end CactKernel
