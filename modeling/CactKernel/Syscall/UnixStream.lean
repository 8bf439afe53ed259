/-
CactKernel/Syscall/UnixStream.lean

A connected pair of AF_UNIX sockets (`kernel/core/syscall/sock/unix_sock.c`).

`UnixEp` is an endpoint: its flags, whether its peer pointer is set, the ring of
bytes that the other side wrote, and the queue of descriptors.  `PairSys` is a
pair in use: the two endpoints, which of them were closed, the calls in progress,
and records of the bytes that went into each ring, of those that came out, and of
what the calls returned.  The streams are named by the endpoint that receives
them.

A call moves by sections: one pass of a loop under a lock, or the part without a
lock in front of it.  `unix_node_write`, `ep_write_payload`, `sendmsg` and
`shutdown` load the peer pointer before they lock the peer, so they stand with a
loaded pointer in between.  A close goes through the sections of `ep_break` and
`ep_put`, of which the last one frees the endpoint; `reuse` is the allocator giving
its memory to somebody else.  SIGPIPE is left out.
-/
import CactKernel.Fs.FileTable
import CactKernel.Fs.Pipe

namespace CactKernel

open Function

@[irreducible] def unixBufSize : Nat := 4096

theorem unixBufSize_pos : 0 < unixBufSize := by
  simp [unixBufSize]

inductive UnixSide where
  | a
  | b
deriving DecidableEq, Repr

def UnixSide.other : UnixSide → UnixSide
  | .a => .b
  | .b => .a

structure UnixEp where
  used : Bool
  shutRd : Bool
  shutWr : Bool
  eof : Bool
  peerNoRead : Bool
  nonblock : Bool
  /-- `peer` is not null; it is the other endpoint. -/
  peer : Bool
  /-- The node and the peer. -/
  refs : Nat
  rx : Nat → UInt8
  rxLen : Nat
  rxOff : Nat
  /-- The files in `fdq`. -/
  fdq : List Nat

namespace UnixEp

/-- After `socketpair`, or `connect` and `accept`. -/
def connected : UnixEp where
  used := true
  shutRd := false
  shutWr := false
  eof := false
  peerNoRead := false
  nonblock := false
  peer := true
  refs := 2
  rx _ := 0
  rxLen := 0
  rxOff := 0
  fdq := []

/-- `ep_push`, byte by byte. -/
def push (ep : UnixEp) (src : List UInt8) : UnixEp :=
  src.foldl (fun ep c =>
    { ep with
      rx := update ep.rx ((ep.rxOff + ep.rxLen) % unixBufSize) c
      rxLen := ep.rxLen + 1 }) ep

/-- The loop of `ep_pop`: the bytes it copies out and where `rx_off` ends up. -/
def popLoop (rx : Nat → UInt8) : Nat → Nat → List UInt8 × Nat
  | 0, off => ([], off)
  | n + 1, off =>
    let (bs, off') := popLoop rx n ((off + 1) % unixBufSize)
    (rx off :: bs, off')

/-- `ep_pop`: an empty ring starts at zero again. -/
def pop (ep : UnixEp) (max : Nat) : List UInt8 × UnixEp :=
  let n := min ep.rxLen max
  let (bs, off) := popLoop ep.rx n ep.rxOff
  (bs,
    { ep with
      rxLen := ep.rxLen - n
      rxOff := if ep.rxLen - n = 0 then 0 else off })

end UnixEp

/-- SHUT_RD, SHUT_WR, SHUT_RDWR. -/
inductive ShutHow where
  | rd
  | wr
  | rdwr
deriving DecidableEq, Repr

/-- The pair at some moment, as the user of one endpoint sees it. -/
structure UnixNow where
  /-- Bytes written to this endpoint and not yet read. -/
  unread : Nat
  selfRd : Bool
  selfWr : Bool
  peerRd : Bool
  peerWr : Bool
  peerClosed : Bool
deriving DecidableEq, Repr

/-- Where a call stands between two of its sections. -/
inductive UnixCall where
  | idle
  /-- `unix_node_read`, before the lock. -/
  | reading (x : UnixSide) (size : Nat)
  /-- The top of the loop of `unix_node_write`, or (`msg`) of `ep_write_payload`. -/
  | writing (x : UnixSide) (written : Nat) (rest : List UInt8) (msg : Bool)
  /-- The peer is loaded and not yet locked. -/
  | pushing (x : UnixSide) (written : Nat) (rest : List UInt8) (msg : Bool)
  /-- `sendmsg`, before `ep_fdq_push` on the loaded peer. -/
  | sending (x : UnixSide) (fds : List Nat) (bs : List UInt8)
  /-- The wait loop of `recvmsg`. -/
  | waiting (x : UnixSide) (cap fdsCap : Nat)
  /-- It found something and has not taken the payload yet. -/
  | taking (x : UnixSide) (cap fdsCap : Nat)
  /-- Before the descriptors are installed; `ended` says that the payload section found the
  stream at its end, and `now` what it looked like then. -/
  | installing (x : UnixSide) (got cap fdsCap : Nat) (ended : Bool) (now : UnixNow)
  /-- `shut_rd` is set and the peer loaded; SHUT_WR may have to follow. -/
  | shutReader (x : UnixSide) (more : Bool)
  /-- Before the lock of SHUT_WR. -/
  | shutNext (x : UnixSide)
  /-- `shut_wr` is set and the peer loaded. -/
  | shutWriter (x : UnixSide)
deriving DecidableEq

/-- Where the close of an endpoint stands. -/
inductive UnixClosing where
  /-- Not begun, or over. -/
  | none
  /-- Before the first section of `ep_break`. -/
  | breaking
  /-- Before the second one; `dead` says that the first one found no reference left. -/
  | telling (dead : Bool)
  /-- Before `ep_put`. -/
  | dropping
deriving DecidableEq

inductive UnixOp where
  | read
  | write
  /-- `recvmsg` with a buffer of `cap` bytes (none without a buffer) that got `fds` descriptors. -/
  | recv (cap fds : Nat)
deriving DecidableEq, Repr

structure UnixReturn where
  side : UnixSide
  op : UnixOp
  value : Int
  now : UnixNow
deriving DecidableEq, Repr

structure PairSys where
  ep : UnixSide → UnixEp
  closed : UnixSide → Bool
  closing : UnixSide → UnixClosing
  freed : UnixSide → Bool
  call : Nat → UnixCall
  /-- The tasks that have made a call. -/
  tasks : List Nat
  accepted : UnixSide → List UInt8
  delivered : UnixSide → List UInt8
  log : List UnixReturn

namespace PairSys

def unixEintr : Int := -4

def created : PairSys where
  ep _ := .connected
  closed _ := false
  closing _ := .none
  freed _ := false
  call _ := .idle
  tasks := []
  accepted _ := []
  delivered _ := []
  log := []

variable (s : PairSys)

def now (x : UnixSide) : UnixNow where
  unread := (s.accepted x).length - (s.delivered x).length
  selfRd := (s.ep x).shutRd
  selfWr := (s.ep x).shutWr
  peerRd := (s.ep x.other).shutRd
  peerWr := (s.ep x.other).shutWr
  peerClosed := s.closed x.other

def setEp (x : UnixSide) (f : UnixEp → UnixEp) : PairSys :=
  { s with ep := update s.ep x (f (s.ep x)) }

def setCall (t : Nat) (c : UnixCall) : PairSys :=
  { s with
    call := update s.call t c
    tasks := t :: s.tasks }

/-- The call returns, judged by the situation `now`. -/
def retAs (t : Nat) (x : UnixSide) (op : UnixOp) (v : Int) (now : UnixNow) : PairSys :=
  { s.setCall t .idle with log := ⟨x, op, v, now⟩ :: s.log }

def ret (t : Nat) (x : UnixSide) (op : UnixOp) (v : Int) : PairSys := s.retAs t x op v (s.now x)

/-- The count of bytes written so far, or the error if there are none. -/
def short (written : Nat) (err : Int) : Int := if 0 < written then toI32 written else err

/-- The count when everything is written; only `unix_node_write` keeps it below `2 ^ 31`. -/
def whole (written : Nat) (msg : Bool) : Int :=
  if msg then toI32 written else if 0x7FFFFFFF < written then 0x7FFFFFFF else written

/-- Bytes leave the ring of `x` for a reader. -/
def take (x : UnixSide) (max : Nat) : PairSys :=
  { s.setEp x fun ep => (ep.pop max).2 with
    delivered := update s.delivered x (s.delivered x ++ ((s.ep x).pop max).1) }

/-- A pass of `unix_node_read`.  `signal` and `fault` are the answers of
`task_signal_pending_current` and `validate_user_ptr`. -/
def onRead (t : Nat) (x : UnixSide) (size : Nat) (signal fault : Bool) : PairSys :=
  let ep := s.ep x
  if ep.shutRd then s.ret t x .read 0
  else if 0 < ep.rxLen then (s.take x size).ret t x .read (ep.pop size).1.length
  else if ep.eof then s.ret t x .read 0
  else if ep.nonblock then s.ret t x .read pipeEagain
  else if signal then s.ret t x .read unixEintr
  else if fault then s.ret t x .read (-1)
  else s.setCall t (.reading x size)

/-- In front of the lock: `unix_node_write` looks at `shut_wr`, `ep_write_payload` does not. -/
def onLook (t : Nat) (x : UnixSide) (written : Nat) (rest : List UInt8) (msg : Bool) : PairSys :=
  if !msg && (s.ep x).shutWr then s.ret t x .write (short written pipeEpipe)
  else if (s.ep x).peer then s.setCall t (.pushing x written rest msg)
  else s.ret t x .write (short written pipeEpipe)

/-- The bytes go into the ring of the peer of `x`. -/
def put (x : UnixSide) (chunk : List UInt8) : PairSys :=
  { s.setEp x.other (·.push chunk) with
    accepted := update s.accepted x.other (s.accepted x.other ++ chunk) }

/-- Under the lock of the peer. -/
def onPush (t : Nat) (x : UnixSide) (written : Nat) (rest : List UInt8) (msg signal fault : Bool) :
    PairSys :=
  let peer := s.ep x.other
  if !peer.used || peer.peerNoRead || peer.shutRd then s.ret t x .write (short written pipeEpipe)
  else if unixBufSize - peer.rxLen = 0 then
    if !msg && (s.ep x).nonblock then s.ret t x .write (short written pipeEagain)
    else if !msg && signal then s.ret t x .write (short written unixEintr)
    else if fault then s.ret t x .write (short written (-1))
    else s.setCall t (.writing x written rest msg)
  else
    let chunk := rest.take (unixBufSize - peer.rxLen)
    let s' := s.put x chunk
    let written' := written + chunk.length
    if rest.length ≤ chunk.length then s'.ret t x .write (whole written' msg)
    else if !msg && ((s.ep x).nonblock || signal) then s'.ret t x .write (toI32 written')
    else if fault then s'.ret t x .write (short written' (-1))
    else s'.setCall t (.writing x written' (rest.drop chunk.length) msg)

/-- `ep_fdq_push`, then `ep_write_payload`: an empty payload returns at once, and one that is no longer
in user space (`fault`) returns with the descriptors queued. -/
def onSend (t : Nat) (x : UnixSide) (fds : List Nat) (bs : List UInt8) (fault : Bool) : PairSys :=
  if fds ≠ [] ∧ unixFdQueueMax < (s.ep x.other).fdq.length + fds.length then
    s.ret t x .write pipeEagain
  else
    let s' := s.setEp x.other fun ep => { ep with fdq := ep.fdq ++ fds }
    if bs = [] then s'.ret t x .write 0
    else if fault then s'.ret t x .write (-14)
    else s'.setCall t (.writing x 0 bs true)

/-- The test of the wait loop of `recvmsg`. -/
def ready (x : UnixSide) (fdsCap : Nat) : Bool :=
  decide (0 < (s.ep x).rxLen) || (s.ep x).eof || (s.ep x).shutRd ||
    (decide (0 < (s.ep x).fdq.length) && decide (0 < fdsCap))

def onWait (t : Nat) (x : UnixSide) (cap fdsCap : Nat) (signal : Bool) : PairSys :=
  if s.ready x fdsCap then s.setCall t (.taking x cap fdsCap)
  else if signal then s.ret t x (.recv cap 0) unixEintr
  else s.setCall t (.waiting x cap fdsCap)

/-- The payload section; `fault` is a failure of `copy_to_user` behind `ep_pop`. -/
def onTake (t : Nat) (x : UnixSide) (cap fdsCap : Nat) (fault : Bool) : PairSys :=
  let ep := s.ep x
  let got := if ep.shutRd then 0 else min ep.rxLen cap
  let ended := ep.eof || ep.shutRd
  if 0 < got then
    if fault then
      -- the bytes are out of the ring and nobody has them
      (s.setEp x fun ep => (ep.pop got).2).ret t x (.recv cap 0) (-14)
    else (s.take x got).setCall t (.installing x got cap fdsCap ended (s.now x))
  else s.setCall t (.installing x got cap fdsCap ended (s.now x))

/-- The descriptors that fit into the caller's table are installed; `fault` is a failure to
write the argument back. -/
def onInstall (t : Nat) (x : UnixSide) (got cap fdsCap : Nat) (now : UnixNow) (freeSlots : Nat)
    (fault : Bool) : PairSys :=
  let want := min (min fdsCap (s.ep x).fdq.length) freeSlots
  (s.setEp x fun ep => { ep with fdq := ep.fdq.drop want }).retAs t x (.recv cap want)
    (if fault then -14 else got) now

/-- The first half of SHUT_WR. -/
def onShutWrite (t : Nat) (x : UnixSide) : PairSys :=
  let s' := s.setEp x fun ep => { ep with shutWr := true }
  if (s.ep x).peer then s'.setCall t (.shutWriter x) else s'.setCall t .idle

/-- The first section of `shutdown`. -/
def onShutdown (t : Nat) (x : UnixSide) (how : ShutHow) : PairSys :=
  if how = .wr then s.onShutWrite t x
  else
    let s' := s.setEp x fun ep => { ep with shutRd := true }
    let more := decide (how = .rdwr)
    if (s.ep x).peer then s'.setCall t (.shutReader x more)
    else if more then s'.setCall t (.shutNext x)
    else s'.setCall t .idle

/-- `ep_destroy`; `peer` is null by then. -/
def destroy (x : UnixSide) : PairSys :=
  if (s.ep x).used then
    { s.setEp x fun ep => { ep with used := false } with freed := update s.freed x true }
  else s

def setClosing (x : UnixSide) (c : UnixClosing) : PairSys := { s with closing := update s.closing x c }

/-- `unix_node_close_conn` looks whether there is a peer. -/
def onClose (x : UnixSide) : PairSys :=
  { s.setClosing x (if (s.ep x).peer then .breaking else .dropping) with closed := update s.closed x true }

/-- The first section of `ep_break`. -/
def onBreak (x : UnixSide) : PairSys :=
  if (s.ep x).peer then
    (s.setEp x fun ep => { ep with peer := false, refs := ep.refs - 1 }).setClosing x
      (.telling (decide ((s.ep x).refs - 1 = 0)))
  else (if (s.ep x).refs = 0 then s.destroy x else s).setClosing x .dropping

/-- The second one: the peer is told. -/
def onTell (x : UnixSide) (dead : Bool) : PairSys :=
  let s₁ := s.setEp x.other fun ep =>
    { ep with peer := false, eof := true, peerNoRead := true, refs := ep.refs - 1 }
  let s₂ := if dead then s₁.destroy x else s₁
  (if (s₁.ep x.other).refs = 0 then s₂.destroy x.other else s₂).setClosing x .dropping

/-- `ep_put` gives the reference of the node back. -/
def onDrop (x : UnixSide) : PairSys :=
  let s₁ := s.setEp x fun ep => { ep with refs := ep.refs - 1 }
  (if (s₁.ep x).refs = 0 then s₁.destroy x else s₁).setClosing x .none

/-- A call, one section of a call, or what happens outside the calls. -/
inductive Event where
  | setNonblock (x : UnixSide) (on_ : Bool)
  | read (t : Nat) (x : UnixSide) (size : Nat)
  | write (t : Nat) (x : UnixSide) (bs : List UInt8)
  | sendmsg (t : Nat) (x : UnixSide) (fds : List Nat) (bs : List UInt8)
  | recvmsg (t : Nat) (x : UnixSide) (cap fdsCap : Nat)
  | shutdown (t : Nat) (x : UnixSide) (how : ShutHow)
  | close (x : UnixSide)
  /-- The next section of the close of `x`. -/
  | closeOn (x : UnixSide)
  /-- The next section of the call of task `t`. -/
  | go (t : Nat) (signal fault : Bool) (freeSlots : Nat)
  | reuse (x : UnixSide) (ep : UnixEp)

/-- A call can be made: by a task that makes no other, on an endpoint that is open. -/
def mayCall (t : Nat) (x : UnixSide) : Prop := s.call t = .idle ∧ s.closed x = false
deriving Decidable

/-- The next section of a call. -/
def onGo (t : Nat) (signal fault : Bool) (freeSlots : Nat) : UnixCall → Option PairSys
  | .idle => none
  | .reading x size => some (s.onRead t x size signal fault)
  | .writing x written rest msg => some (s.onLook t x written rest msg)
  | .pushing x written rest msg => some (s.onPush t x written rest msg signal fault)
  | .sending x fds bs => some (s.onSend t x fds bs fault)
  | .waiting x cap fdsCap => some (s.onWait t x cap fdsCap signal)
  | .taking x cap fdsCap => some (s.onTake t x cap fdsCap fault)
  | .installing x got cap fdsCap _ now => some (s.onInstall t x got cap fdsCap now freeSlots fault)
  | .shutReader x more =>
    let s' := s.setEp x.other fun ep => { ep with peerNoRead := true }
    some (s'.setCall t (if more then .shutNext x else .idle))
  | .shutNext x => some (s.onShutWrite t x)
  | .shutWriter x => some ((s.setEp x.other fun ep => { ep with eof := true }).setCall t .idle)

/-- `none` is an event that cannot happen.  Empty reads and writes and buffers outside user
space are refused before the endpoint is looked at. -/
def step : Event → Option PairSys
  | .setNonblock x on_ =>
    if s.closed x then none else some (s.setEp x fun ep => { ep with nonblock := on_ })
  | .read t x size =>
    if s.mayCall t x ∧ 0 < size ∧ size < kernelBase then some (s.setCall t (.reading x size))
    else none
  | .write t x bs =>
    if s.mayCall t x ∧ 0 < bs.length ∧ bs.length < kernelBase then
      some (s.setCall t (.writing x 0 bs false))
    else none
  | .sendmsg t x fds bs =>
    if s.mayCall t x ∧ fds.length ≤ unixFdQueueMax ∧ bs.length < kernelBase then
      some (if (s.ep x).peer then s.setCall t (.sending x fds bs) else s.ret t x .write pipeEpipe)
    else none
  | .recvmsg t x cap fdsCap =>
    if s.mayCall t x ∧ fdsCap ≤ unixFdQueueMax then some (s.setCall t (.waiting x cap fdsCap))
    else none
  | .shutdown t x how => if s.mayCall t x then some (s.onShutdown t x how) else none
  | .close x => if s.closed x then none else some (s.onClose x)
  | .closeOn x =>
    match s.closing x with
    | .none => none
    | .breaking => some (s.onBreak x)
    | .telling dead => some (s.onTell x dead)
    | .dropping => some (s.onDrop x)
  | .go t signal fault freeSlots => s.onGo t signal fault freeSlots (s.call t)
  | .reuse x ep => if s.freed x then some { s with ep := update s.ep x ep } else none

end PairSys

end CactKernel
