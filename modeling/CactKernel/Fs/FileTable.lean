/-
CactKernel/Fs/FileTable.lean

Open file descriptions and who refers to them: `file_alloc`, `file_ref` and
`file_unref` (`fs/rust_vfs/src/file.rs`), the descriptor calls of
`kernel/core/syscall/io/fd.c`, fork, exec and exit (`task_fork.rs`,
`task_exec.rs`), epoll registrations (`fs/epoll/epoll.c`) and descriptors sent
over AF_UNIX sockets (`unix_sock.c`).

All references are in one list of holds.  A holder is a slot of the descriptor
table of a process, a registration of an epoll file, an entry of the SCM_RIGHTS
queue of a socket endpoint, the private pointer of an open `/dev/fd` alias, or
`flight`: a reference that some code is about to give back with `file_unref`.
The call of `file_unref` is a step of its own (`release`), because freeing a
description closes its node, which gives back the references that node holds.

`opens` and `closes` count the calls of `node->ops->open` and `close` for each
description, and `disturbed` records the descriptors whose FD_CLOEXEC flag was
changed by setting that of another one.  Ids of descriptions are never used twice.
-/
import CactKernel.Lib.Holds
import CactKernel.Syscall.FdIo

namespace CactKernel

open Function Holds

/-- Who holds a reference. -/
inductive FileHolder where
  | slot (pid fd : Nat)
  | epoll (file : Nat)
  | queue (endpoint : Nat)
  | aliasOf (file : Nat)
  | flight
deriving DecidableEq, Repr

abbrev FileHold := Hold FileHolder Nat

/-- `file_t` with what its node holds references for. -/
structure FileT where
  refcount : Nat
  cloexec : Bool
  /-- The node is an epoll node. -/
  isEpoll : Bool
  /-- The endpoint of an AF_UNIX socket. -/
  endpoint : Option Nat
deriving DecidableEq, Repr

structure FileSys where
  files : Nat → Option FileT
  holds : List FileHold
  next : Nat
  /-- The other end of a connection. -/
  peer : Nat → Option Nat
  opens : Nat → Nat
  closes : Nat → Nat
  disturbed : List (Nat × Nat)

def epollMaxEntries : Nat := 128
def unixFdQueueMax : Nat := 16

namespace FileSys

def empty : FileSys where
  files _ := none
  holds := []
  next := 0
  peer _ := none
  opens _ := 0
  closes _ := 0
  disturbed := []

/-! ### Holds -/

/-- The slot of a holder, if it is one. -/
def slotKey : FileHolder → Option (Nat × Nat)
  | .slot pid fd => some (pid, fd)
  | _ => none

def isHolder (k : FileHolder) (h : FileHold) : Bool := decide (h.holder = k)

/-- A slot of a process. -/
def isSlotOf (pid : Nat) (h : FileHold) : Bool :=
  match h.holder with
  | .slot p _ => decide (p = pid)
  | _ => false

variable (s : FileSys)

/-- `files[fd]` of a process. -/
def fileAt (pid fd : Nat) : Option Nat :=
  if fd < maxFd then (s.holds.find? (isHolder (.slot pid fd))).map (·.object) else none

/-- The first free slot from `low` on. -/
def freeSlot (pid low : Nat) : Option Nat :=
  (List.range' low (maxFd - low)).find? fun fd => (s.fileAt pid fd).isNone

def setFile (f : Nat) (g : FileT → FileT) : FileSys :=
  { s with files := update s.files f ((s.files f).map g) }

/-- Hand references over. -/
def hand (p : FileHold → Bool) (k : FileHolder) : FileSys :=
  { s with holds := relabel p k s.holds }

/-- `file_ref`, the new reference being held by `k`. -/
def fileRef (k : FileHolder) (f : Nat) : FileSys :=
  { s.setFile f fun ft => { ft with refcount := ft.refcount + 1 } with
    holds := ⟨k, f⟩ :: s.holds }

/-- `file_alloc`: the reference is held by the code that called it. -/
def fileAlloc (cloexec isEpoll : Bool) (endpoint : Option Nat) : FileSys :=
  { s with
    files := update s.files s.next (some ⟨1, cloexec, isEpoll, endpoint⟩)
    holds := ⟨.flight, s.next⟩ :: s.holds
    next := s.next + 1
    opens := update s.opens s.next (s.opens s.next + 1) }

/-- `node->ops->close`. -/
def closeNode (f : Nat) : FileSys := { s with closes := update s.closes f (s.closes f + 1) }

/-- The references that the node and the private pointer of a description hold. -/
def heldBy (f : Nat) (ft : FileT) (h : FileHold) : Bool :=
  match h.holder with
  | .epoll e => decide (e = f)
  | .queue e => decide (ft.endpoint = some e)
  | .aliasOf g => decide (g = f)
  | _ => false

/-- Closing one end of a connection breaks it. -/
def breakPeer (endpoint : Option Nat) : FileSys :=
  { s with peer := fun e' =>
      match endpoint with
      | none => s.peer e'
      | some e => if e' = e ∨ s.peer e = some e' then none else s.peer e' }

/-- `file_free`: the references held by the node are given back. -/
def fileFree (f : Nat) (ft : FileT) : FileSys :=
  let s' := ((s.hand (heldBy f ft) .flight).closeNode f).breakPeer ft.endpoint
  { s' with files := update s'.files f none }

/-- One `file_unref`. -/
def release : Option FileSys :=
  (s.holds.find? (isHolder .flight)).map fun h =>
    let s' := { s with holds := s.holds.eraseP (isHolder .flight) }
    match s.files h.object with
    | none => s'
    | some ft =>
      if ft.refcount = 0 then s'
      else if ft.refcount = 1 then s'.fileFree h.object ft
      else s'.setFile h.object fun ft => { ft with refcount := ft.refcount - 1 }

/-! ### Descriptor calls -/

/-- Put the reference in flight to a new description into a slot, or leave it to be given back. -/
def install (pid : Nat) (f : Nat) : FileSys :=
  match s.freeSlot pid 3 with
  | none => s
  | some fd =>
    { s with holds := relabelFirst (fun h => decide (h = ⟨.flight, f⟩)) (.slot pid fd) s.holds }

/-- `sys_open` once the node is found, and the calls built on `alloc_fd`.  `ok` is false
if the truncation that was asked for fails. -/
def openFile (pid : Nat) (cloexec isEpoll ok : Bool) : FileSys :=
  let s' := s.fileAlloc cloexec isEpoll none
  if ok then s'.install pid s.next else s'

/-- The open of `/dev/fd/N` refers to the description of `N`. -/
def openAlias (pid fd : Nat) : FileSys :=
  let s' := s.openFile pid false false true
  match s.fileAt pid fd with
  | none => s'
  | some f => s'.fileRef (.aliasOf s.next) f

/-- `unix_socketpair`, with endpoints `a` and `b`.  When `alloc_fd` finds no slot it has
closed the node, and the caller closes it again. -/
def socketpair (pid a b : Nat) : FileSys :=
  let s₁ := s.fileAlloc false false (some a)
  let s₁ := { s₁ with peer := update (update s₁.peer a (some b)) b (some a) }
  match s₁.freeSlot pid 3 with
  | none => s₁.closeNode s.next
  | some fa =>
    let s₂ := (s₁.install pid s.next).fileAlloc false false (some b)
    match s₂.freeSlot pid 3 with
    | none => (s₂.hand (isHolder (.slot pid fa)) .flight).closeNode s₁.next
    | some _ => s₂.install pid s₁.next

/-- `sys_close`. -/
def sysClose (pid fd : Nat) : FileSys := s.hand (isHolder (.slot pid fd)) .flight

/-- `sys_dup`, and from `low` on `F_DUPFD`. -/
def dup (pid fd low : Nat) : FileSys :=
  match s.fileAt pid fd, s.freeSlot pid low with
  | some f, some fd' => s.fileRef (.slot pid fd') f
  | _, _ => s

/-- `CACT_FDCTL_DUP2`. -/
def dup2 (pid fd newfd : Nat) : FileSys :=
  match s.fileAt pid fd with
  | none => s
  | some f =>
    if newfd < maxFd ∧ fd ≠ newfd then
      (s.hand (isHolder (.slot pid newfd)) .flight).fileRef (.slot pid newfd) f
    else s

/-- `F_GETFD`: the flag is that of the description. -/
def cloexecOf (f : Nat) : Bool := (s.files f).any (·.cloexec)

/-- The other descriptors of a description. -/
def otherSlots (pid fd f : Nat) : List (Nat × Nat) :=
  (keys slotKey (s.holds.filter fun h => decide (h.object = f))).filter fun k => decide (k ≠ (pid, fd))

/-- `F_SETFD`. -/
def setfd (pid fd : Nat) (cloexec : Bool) : FileSys :=
  match s.fileAt pid fd with
  | none => s
  | some f =>
    { s.setFile f fun ft => { ft with cloexec := cloexec } with
      disturbed := (if s.cloexecOf f = cloexec then [] else s.otherSlots pid fd f) ++ s.disturbed }

/-! ### Processes -/

/-- The descriptors of a process. -/
def slotsOf (pid : Nat) : List (Nat × Nat) :=
  s.holds.filterMap fun h =>
    match h.holder with
    | .slot p fd => if p = pid then some (fd, h.object) else none
    | _ => none

/-- The copy of the table that fork makes. -/
def copySlots (child : Nat) (slots : List (Nat × Nat)) : FileSys :=
  slots.foldl (fun s slot => s.fileRef (.slot child slot.1) slot.2) s

/-- fork.  When the memory for the next table is missing, the copy is freed and
the references it took are kept. -/
def fork (pid child : Nat) (mem : Bool) : FileSys :=
  if mem then s.copySlots child (s.slotsOf pid)
  else (s.slotsOf pid).foldl (fun s slot => s.setFile slot.2 fun ft =>
    { ft with refcount := ft.refcount + 1 }) s

/-- exec closes the descriptors from 3 on whose description has the flag. -/
def exec (pid : Nat) : FileSys :=
  s.hand (fun h => match h.holder with
    | .slot p fd => decide (p = pid) && decide (3 ≤ fd) && s.cloexecOf h.object
    | _ => false) .flight

/-- `close_all_fds`, and the loop of `reap_task_free`. -/
def exit (pid : Nat) : FileSys := s.hand (isSlotOf pid) .flight

/-! ### epoll -/

def registered (e f : Nat) : Bool := s.holds.any fun h => decide (h = ⟨.epoll e, f⟩)

def epollCtlAdd (pid efd tfd : Nat) : FileSys :=
  match s.fileAt pid efd, s.fileAt pid tfd with
  | some e, some f =>
    if (s.files e).any (·.isEpoll) ∧ f ≠ e ∧ ¬ s.registered e f ∧
        (s.holds.countP (isHolder (.epoll e)) < epollMaxEntries) then
      s.fileRef (.epoll e) f
    else s
  | _, _ => s

def epollCtlDel (pid efd tfd : Nat) : FileSys :=
  match s.fileAt pid efd, s.fileAt pid tfd with
  | some e, some f => s.hand (fun h => decide (h = ⟨.epoll e, f⟩)) .flight
  | _, _ => s

/-- `_epoll_collect` holds every registered file while it is polled. -/
def epollCollect (pid efd : Nat) : FileSys :=
  match s.fileAt pid efd with
  | none => s
  | some e =>
    ((s.holds.filter (isHolder (.epoll e))).map (·.object)).foldl
      (fun s f => s.fileRef .flight f) s

/-! ### SCM_RIGHTS -/

/-- The endpoint of a socket descriptor. -/
def endpointAt (pid fd : Nat) : Option Nat :=
  (s.fileAt pid fd).bind fun f => (s.files f).bind (·.endpoint)

/-- `unix_sendmsg_ioctl`: all descriptors are queued or none is. -/
def sendmsg (pid fd : Nat) (fds : List Nat) : FileSys :=
  match (s.endpointAt pid fd).bind s.peer, fds.mapM (s.fileAt pid) with
  | some e, some fs =>
    if s.holds.countP (isHolder (.queue e)) + fs.length ≤ unixFdQueueMax then
      fs.foldl (fun s f => s.fileRef (.queue e) f) s
    else s
  | _, _ => s

/-- Take up to `n` entries of the queue, oldest first. -/
def recvFds (pid e : Nat) : Nat → FileSys → FileSys
  | 0, s => s
  | n + 1, s =>
    match s.freeSlot pid 3 with
    | none => s
    | some fd =>
      -- new entries are put in front, so that the oldest one is the last
      recvFds pid e n { s with
        holds := (relabelFirst (isHolder (.queue e)) (.slot pid fd) s.holds.reverse).reverse }

/-- `unix_recvmsg_ioctl`. -/
def recvmsg (pid fd cap : Nat) : FileSys :=
  match s.endpointAt pid fd with
  | none => s
  | some e =>
    if cap ≤ unixFdQueueMax then recvFds pid e (min cap (s.holds.countP (isHolder (.queue e)))) s
    else s

/-! ### Runs -/

inductive Event where
  | openFile (pid : Nat) (cloexec isEpoll ok : Bool)
  | openAlias (pid fd : Nat)
  | socketpair (pid a b : Nat)
  | close (pid fd : Nat)
  | dup (pid fd low : Nat)
  | dup2 (pid fd newfd : Nat)
  | setfd (pid fd : Nat) (cloexec : Bool)
  | fork (pid child : Nat) (mem : Bool)
  | exec (pid : Nat)
  | exit (pid : Nat)
  | epollAdd (pid efd tfd : Nat)
  | epollDel (pid efd tfd : Nat)
  | epollCollect (pid efd : Nat)
  | sendmsg (pid fd : Nat) (fds : List Nat)
  | recvmsg (pid fd cap : Nat)
  | release
deriving DecidableEq, Repr

/-- One call, or one `file_unref` of a call in progress.  The child of a fork is a
new process. -/
def step : Event → Option FileSys
  | .openFile pid cloexec isEpoll ok => some (s.openFile pid cloexec isEpoll ok)
  | .openAlias pid fd => some (s.openAlias pid fd)
  | .socketpair pid a b => some (s.socketpair pid a b)
  | .close pid fd => some (s.sysClose pid fd)
  | .dup pid fd low => some (s.dup pid fd low)
  | .dup2 pid fd newfd => some (s.dup2 pid fd newfd)
  | .setfd pid fd cloexec => some (s.setfd pid fd cloexec)
  | .fork pid child mem =>
    if (s.slotsOf child).isEmpty ∧ pid ≠ child then some (s.fork pid child mem) else none
  | .exec pid => some (s.exec pid)
  | .exit pid => some (s.exit pid)
  | .epollAdd pid efd tfd => some (s.epollCtlAdd pid efd tfd)
  | .epollDel pid efd tfd => some (s.epollCtlDel pid efd tfd)
  | .epollCollect pid efd => some (s.epollCollect pid efd)
  | .sendmsg pid fd fds => some (s.sendmsg pid fd fds)
  | .recvmsg pid fd cap => some (s.recvmsg pid fd cap)
  | .release => s.release

end FileSys

end CactKernel
