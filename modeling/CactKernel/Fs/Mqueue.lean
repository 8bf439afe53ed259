/-
CactKernel/Fs/Mqueue.lean

POSIX message queues (`fs/mqueue/mqueue.c`).

A queue is a file of the mqueue filesystem; its state (`mqueue_t`) hangs off
the node and is freed with it, when neither a directory entry nor an open
description refers to the node.  A message is a heap block of a header and
`len` bytes; all blocks of all queues are charged to the one counter
`mqueue_bytes`.

`MQCTL_SEND` and `MQCTL_RECEIVE` check their arguments, then try again and
again under the queue's mutex, with a sleep in between, until there is room, or
a message, or a reason to stop.  An event of `MqSys` is one such locked pass,
or one of the other operations as a whole.  A call keeps the queue's address
across its sleeps without a reference to the node: `fault` records that a pass
used a queue after it was freed.

Messages carry a serial number that the source does not have, their place in
the order in which sends were accepted.  `sent` and `taken` record what was put
into and what was taken out of the queues, the latter with the queue as the
receiver found it and the number of bytes the receiver offered.
-/
import CactKernel.Lib.Count
import CactKernel.Lib.Run
import CactKernel.Mm.Layout
import Mathlib.Algebra.Ring.Nat

namespace CactKernel

open Function

/-! ### Limits and error numbers -/

def mqNameLen : Nat := 128
def mqMaxmsgMax : Nat := 256
def mqMsgsizeMax : Nat := 8192
@[irreducible] def mqBytesMax : Nat := 4 * 1024 * 1024
def mqDefaultMaxmsg : Nat := 10
def mqDefaultMsgsize : Nat := 8192
def mqPrioMax : Nat := 32

/-- `sizeof(mq_msg_t)`: `next`, `prio` and `len`. -/
def mqMsgHeader : Nat := 12

/-- Error numbers; `eperm` is the plain -1 of a failed `copy_to_user`. -/
inductive MqErr where
  | eperm
  | eintr
  | ebadf
  | eagain
  | enomem
  | efault
  | ebusy
  | einval
  | emsgsize
  | etimedout
deriving DecidableEq, Repr

/-- What a call returns: 0, or a negated error number. -/
abbrev MqRet := Except MqErr Unit

/-- The argument of an ioctl: a null pointer, one that cannot be copied from, or its contents. -/
inductive MqArg (α : Type) where
  | null
  | bad
  | ok (a : α)
deriving DecidableEq, Repr

/-! ### Messages and queues -/

structure MqMsg where
  prio : Nat
  data : List UInt8
  /-- How many messages were accepted before this one. -/
  serial : Nat
deriving DecidableEq, Repr

namespace MqMsg

def len (m : MqMsg) : Nat := m.data.length

/-- What the message is charged with. -/
def size (m : MqMsg) : Nat := mqMsgHeader + m.len

end MqMsg

structure Mqueue where
  maxmsg : Nat
  msgsize : Nat
  curmsgs : Nat
  /-- `MQCTL_INIT` has fixed the limits. -/
  configured : Bool
  head : List MqMsg
  /-- 0 if nobody asked to be notified. -/
  notifyPid : Nat
  notifySig : Nat

namespace Mqueue

/-- The queue as `_mq_create` makes it. -/
def fresh : Mqueue := ⟨mqDefaultMaxmsg, mqDefaultMsgsize, 0, false, [], 0, 0⟩

/-- What the messages of a queue are charged with. -/
def size (q : Mqueue) : Nat := (q.head.map MqMsg.size).sum

end Mqueue

/-- `_mq_reserve_bytes`, on the counter: the new counter, and whether it was granted. -/
def mqReserveBytes (bytes n : Nat) : Nat × Bool :=
  let total := (bytes + n) % u32Size
  if mqBytesMax < total then ((total + u32Size - n) % u32Size, false) else (total, true)

def mqReleaseBytes (bytes n : Nat) : Nat := (bytes + u32Size - n) % u32Size

/-- `_mq_alloc_msg`: the counter afterwards, and whether there is a block. -/
def mqAllocMsg (bytes len : Nat) (memOk : Bool) : Nat × Bool :=
  let total := mqMsgHeader + len
  match mqReserveBytes bytes total with
  | (bytes', false) => (bytes', false)
  | (bytes', true) => if memOk then (bytes', true) else (mqReleaseBytes bytes' total, false)

def mqFreeMsg (bytes : Nat) (m : MqMsg) : Nat := mqReleaseBytes bytes (mqMsgHeader + m.len)

/-- `_mq_enqueue`: behind every message of the same or a higher priority. -/
def mqEnqueue : List MqMsg → MqMsg → List MqMsg
  | [], m => [m]
  | x :: xs, m => if m.prio ≤ x.prio then x :: mqEnqueue xs m else m :: x :: xs

/-! ### Waiting -/

structure MqWait where
  infinite : Bool
  poll : Bool
  deadline : Nat
deriving DecidableEq, Repr

/-- The flags of a description that the handlers read: the access mode and `O_NONBLOCK`. -/
structure MqFlags where
  accmode : Nat
  nonblock : Bool
deriving DecidableEq, Repr

/-- `_mq_wait_init`. -/
def mqWaitInit (flags : MqFlags) (timeoutMs : Int) (now : Nat) : MqWait :=
  let t := if flags.nonblock then 0 else timeoutMs
  let infinite := decide (t < 0)
  let poll := decide (t = 0)
  { infinite := infinite
    poll := poll
    deadline := if !infinite && !poll then (now + (t.toNat + 9) / 10) % u32Size else 0 }

/-- `_mq_wait_step`: the error to stop with, or `none` after a tick of sleep. -/
def mqWaitStep (w : MqWait) (signal : Bool) (now : Nat) : Option MqErr :=
  if w.poll then some .eagain
  else if signal then some .eintr
  else if !w.infinite && decide (0 ≤ toI32 ((now + u32Size - w.deadline) % u32Size)) then
    some .etimedout
  else none

/-! ### The filesystem -/

structure MqNode where
  /-- The node and its queue are allocated. -/
  live : Bool
  refcount : Nat
  priv : Mqueue

structure MqFile where
  used : Bool
  node : Nat
  flags : MqFlags

/-- A call between two passes: the queue it works on, and its copied arguments. -/
inductive MqCall where
  | idle
  | sending (q len prio : Nat) (w : MqWait)
  | receiving (q offered : Nat) (w : MqWait)
deriving DecidableEq, Repr

namespace MqCall

/-- The queue that a call works on. -/
def queue : MqCall → Option Nat
  | idle => none
  | sending q _ _ _ => some q
  | receiving q _ _ => some q

end MqCall

/-- A message that a receiver took. -/
structure MqTaken where
  queue : Nat
  msg : MqMsg
  /-- The queue as the receiver found it. -/
  queued : List MqMsg
  /-- `msg_len` of the caller, the size of its buffer. -/
  offered : Nat
  /-- The bytes arrived in the buffer, and length and priority in the argument. -/
  delivered : Bool
deriving DecidableEq, Repr

structure MqSys where
  node : Nat → MqNode
  nextNode : Nat
  /-- The directory, newest entry first. -/
  children : List (List UInt8 × Nat)
  file : Nat → MqFile
  nextFile : Nat
  /-- `mqueue_bytes`. -/
  bytes : Nat
  tasks : Nat
  call : Nat → MqCall
  /-- What the last call of each task returned. -/
  ret : Nat → MqRet
  /-- `task_signal` calls: process and signal. -/
  signals : List (Nat × Nat)
  sent : List (Nat × MqMsg)
  taken : List MqTaken
  fault : Bool

namespace MqSys

variable (s : MqSys)

def start (tasks : Nat) : MqSys where
  node := fun _ => ⟨false, 0, .fresh⟩
  nextNode := 0
  children := []
  file := fun _ => ⟨false, 0, ⟨0, false⟩⟩
  nextFile := 0
  bytes := 0
  tasks := tasks
  call := fun _ => .idle
  ret := fun _ => .ok ()
  signals := []
  sent := []
  taken := []
  fault := false

def setNode (q : Nat) (x : MqNode) : MqSys := { s with node := update s.node q x }

def setQueue (q : Nat) (x : Mqueue) : MqSys := s.setNode q { s.node q with priv := x }

/-- Task `t`'s call returns. -/
def finish (t : Nat) (r : MqRet) : MqSys :=
  { s with call := update s.call t .idle, ret := update s.ret t r }

/-! ### Directory and lifetime -/

/-- `_find_dirent`. -/
def findDirent (name : List UInt8) : Option Nat :=
  (s.children.find? fun e => decide (e.1 = name)).map Prod.snd

/-- `_mq_create`, with the outcomes of its three allocations taken together; the
entry's name is cut to fit its buffer. -/
def create (name : List UInt8) (memOk : Bool) : MqSys :=
  if s.findDirent name ≠ none ∨ memOk = false then s
  else
    { s with
      node := update s.node s.nextNode ⟨true, 1, .fresh⟩
      nextNode := s.nextNode + 1
      children := (name.take (mqNameLen - 1), s.nextNode) :: s.children }

/-- `_mq_free_node`: every message goes, then the queue and the node. -/
def freeNode (q : Nat) : MqSys :=
  { s with
    bytes := (s.node q).priv.head.foldl mqFreeMsg s.bytes
    node := update s.node q { s.node q with live := false } }

/-- Drop a reference to a node. -/
def dropNode (q : Nat) : MqSys :=
  let s' := s.setNode q { s.node q with refcount := (s.node q).refcount - 1 }
  if (s.node q).refcount = 1 then s'.freeNode q else s'

/-- `_mq_delete`. -/
def delete (name : List UInt8) : MqSys :=
  match s.findDirent name with
  | none => s
  | some q =>
    { s with children := s.children.eraseP fun e => decide (e.1 = name) }.dropNode q

/-- `_mq_walk` and `_mq_open`: a description for the name. -/
def openFile (name : List UInt8) (flags : MqFlags) : MqSys :=
  match s.findDirent name with
  | none => s
  | some q =>
    { s.setNode q { s.node q with refcount := (s.node q).refcount + 1 } with
      file := update s.file s.nextFile ⟨true, q, flags⟩
      nextFile := s.nextFile + 1 }

/-- The last reference to a description goes: `_mq_close`. -/
def close (f : Nat) : MqSys :=
  let s' := { s with file := update s.file f { s.file f with used := false } }
  if (s.node (s.file f).node).refcount = 0 then s' else s'.dropNode (s.file f).node

/-! ### The ioctls -/

/-- `_mq_do_init`. -/
def doInit (t q : Nat) (arg : MqArg (Int × Int)) : MqSys :=
  match arg with
  | .null => s.finish t (.error .einval)
  | .bad => s.finish t (.error .efault)
  | .ok (maxmsg, msgsize) =>
    let x := (s.node q).priv
    if x.configured then s.finish t (.error .einval)
    else if maxmsg ≤ 0 ∨ (mqMaxmsgMax : Int) < maxmsg then s.finish t (.error .einval)
    else if msgsize ≤ 0 ∨ (mqMsgsizeMax : Int) < msgsize then s.finish t (.error .einval)
    else
      (s.setQueue q
        { x with maxmsg := maxmsg.toNat, msgsize := msgsize.toNat, configured := true }).finish t
        (.ok ())

/-- The argument of `MQCTL_SEND` and `MQCTL_RECEIVE` (`cact_mq_msg_t`). -/
structure Arg where
  /-- `msg_ptr` is not null. -/
  msgPtr : Bool
  msgLen : Nat
  msgPrio : Nat
  timeoutMs : Int
  /-- `validate_user_ptr(msg_ptr, msg_len)`. -/
  valid : Bool
deriving DecidableEq, Repr

/-- `_mq_do_send` up to its loop. -/
def doSend (t q : Nat) (flags : MqFlags) (arg : MqArg Arg) (now : Nat) : MqSys :=
  match arg with
  | .null => s.finish t (.error .einval)
  | .bad => s.finish t (.error .efault)
  | .ok a =>
    if a.msgPtr = false ∨ a.msgLen = 0 then s.finish t (.error .einval)
    else if a.valid = false then s.finish t (.error .efault)
    else if mqPrioMax ≤ a.msgPrio then s.finish t (.error .einval)
    else if flags.accmode = 0 then s.finish t (.error .ebadf)
    else
      { s with
        call := update s.call t (.sending q a.msgLen a.msgPrio (mqWaitInit flags a.timeoutMs now)) }

/-- `_mq_do_receive` up to its loop. -/
def doReceive (t q : Nat) (flags : MqFlags) (arg : MqArg Arg) (now : Nat) : MqSys :=
  match arg with
  | .null => s.finish t (.error .einval)
  | .bad => s.finish t (.error .efault)
  | .ok a =>
    if a.msgPtr = false ∨ a.msgLen = 0 then s.finish t (.error .einval)
    else if a.valid = false then s.finish t (.error .efault)
    else if flags.accmode = 1 then s.finish t (.error .ebadf)
    else if a.msgLen < (s.node q).priv.msgsize then s.finish t (.error .emsgsize)
    else
      { s with
        call := update s.call t (.receiving q a.msgLen (mqWaitInit flags a.timeoutMs now)) }

/-- The end of a send: the message is queued, and whoever asked is told of the first. -/
def put (t q : Nat) (m : MqMsg) : MqSys :=
  let x := (s.node q).priv
  let x' := { x with head := mqEnqueue x.head m, curmsgs := x.curmsgs + 1 }
  let told := decide (x'.curmsgs = 1 ∧ x.notifyPid ≠ 0)
  let x'' := if told then { x' with notifyPid := 0, notifySig := 0 } else x'
  { (s.setQueue q x'').finish t (.ok ()) with
    sent := s.sent ++ [(q, m)]
    signals := if told then s.signals ++ [(x.notifyPid, x.notifySig)] else s.signals }

/-- The queue has no room, or no message, for task `t`. -/
def waitStep (t : Nat) (w : MqWait) (signal : Bool) (now : Nat) : MqSys :=
  match mqWaitStep w signal now with
  | some e => s.finish t (.error e)
  | none => s

/-- One pass of `_mq_do_send`; `user` is what the copy from the caller's buffer gave. -/
def sendPass (t q len prio : Nat) (w : MqWait) (memOk : Bool) (user : Option (List UInt8))
    (signal : Bool) (now : Nat) : MqSys :=
  let x := (s.node q).priv
  if x.msgsize < len then s.finish t (.error .emsgsize)
  else if x.curmsgs < x.maxmsg then
    match mqAllocMsg s.bytes len memOk, user with
    | (bytes, false), _ => { s with bytes := bytes }.finish t (.error .enomem)
    | (bytes, true), none =>
      { s with bytes := mqReleaseBytes bytes (mqMsgHeader + len) }.finish t (.error .efault)
    | (bytes, true), some data =>
      { s with bytes := bytes }.put t q ⟨prio, data, s.sent.length⟩
  else s.waitStep t w signal now

/-- One pass of `_mq_do_receive`, with the outcomes of its two copies. -/
def receivePass (t q offered : Nat) (w : MqWait) (dataOk argOk : Bool) (signal : Bool)
    (now : Nat) : MqSys :=
  let x := (s.node q).priv
  match x.head with
  | [] => s.waitStep t w signal now
  | m :: rest =>
    let s' := s.setQueue q { x with head := rest, curmsgs := x.curmsgs - 1 }
    let r := if !dataOk then .error .efault else if !argOk then .error .eperm else .ok ()
    { s'.finish t r with
      bytes := mqFreeMsg s.bytes m
      taken := s.taken ++ [⟨q, m, x.head, offered, dataOk && argOk⟩] }

/-- `_mq_do_notify` by process `pid`. -/
def doNotify (t q pid : Nat) (signo : MqArg Nat) : MqSys :=
  let x := (s.node q).priv
  match signo with
  | .null => s.finish t (.error .einval)
  | .bad => s.finish t (.error .efault)
  | .ok 0 => (s.setQueue q { x with notifyPid := 0, notifySig := 0 }).finish t (.ok ())
  | .ok (n + 1) =>
    if pid = 0 then s.finish t (.error .einval)
    else if x.notifyPid ≠ 0 then s.finish t (.error .ebusy)
    else if 0 < x.curmsgs then { s.finish t (.ok ()) with signals := s.signals ++ [(pid, n + 1)] }
    else (s.setQueue q { x with notifyPid := pid, notifySig := n + 1 }).finish t (.ok ())

/-! ### Runs -/

inductive Event where
  | create (name : List UInt8) (memOk : Bool)
  | unlink (name : List UInt8)
  | openFile (name : List UInt8) (flags : MqFlags)
  | close (f : Nat)
  | setattr (f : Nat) (nonblock : Bool)
  | init (t f : Nat) (arg : MqArg (Int × Int))
  | notify (t f pid : Nat) (signo : MqArg Nat)
  | send (t f : Nat) (arg : MqArg Arg) (now : Nat)
  | receive (t f : Nat) (arg : MqArg Arg) (now : Nat)
  /-- A pass of the call that task `t` is in.  `user` is what a sender copies in, `dataOk` and
  `argOk` whether a receiver's two copies out succeed. -/
  | pass (t : Nat) (memOk : Bool) (user : Option (List UInt8)) (dataOk argOk signal : Bool) (now : Nat)

/-- Task `t` is in user space and `f` is an open description. -/
def mayCall (t f : Nat) : Prop := t < s.tasks ∧ s.call t = .idle ∧ (s.file f).used = true
deriving Decidable

/-- A pass on the queue `q`, which may be gone. -/
def onQueue (t q : Nat) (s' : MqSys) : MqSys :=
  if (s.node q).live then s' else { s with fault := true }.finish t (.ok ())

def step (s : MqSys) : Event → Option MqSys
  | .create name memOk => some (s.create name memOk)
  | .unlink name => some (s.delete name)
  | .openFile name flags => some (s.openFile name flags)
  | .close f => if (s.file f).used then some (s.close f) else none
  | .setattr f nonblock =>
    if (s.file f).used then
      let x := s.file f
      some { s with file := update s.file f { x with flags := { x.flags with nonblock := nonblock } } }
    else none
  | .init t f arg => if s.mayCall t f then some (s.doInit t (s.file f).node arg) else none
  | .notify t f pid signo =>
    if s.mayCall t f then some (s.doNotify t (s.file f).node pid signo) else none
  | .send t f arg now =>
    if s.mayCall t f then some (s.doSend t (s.file f).node (s.file f).flags arg now) else none
  | .receive t f arg now =>
    if s.mayCall t f then some (s.doReceive t (s.file f).node (s.file f).flags arg now) else none
  | .pass t memOk user dataOk argOk signal now =>
    match s.call t with
    | .idle => none
    | .sending q len prio w =>
      -- a copy that succeeds copies `len` bytes
      if ∀ data ∈ user, data.length = len then
        some (s.onQueue t q (s.sendPass t q len prio w memOk user signal now))
      else none
    | .receiving q offered w =>
      some (s.onQueue t q (s.receivePass t q offered w dataOk argOk signal now))

end MqSys

end CactKernel
