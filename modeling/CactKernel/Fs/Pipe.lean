/-
CactKernel/Fs/Pipe.lean

Anonymous pipes (`fs/rust_vfs/src/pipe.rs`).

A `Pipe` is the kernel object: the ring of `PIPE_BUF_SIZE` bytes, its two
positions and its length, the counters of open ends and of node wrappers, and
the magic word that marks a live object.  The functions below are the sections
of the source that run under the pipe's mutex, in the order in which a call
takes them: `pipe_read` and `pipe_write` release the mutex between their passes,
and sleep while the ring is empty or full.

`PipeSys` is a pipe in use: the object, its two wrapper nodes, the descriptions
(`file_t`) open on each end, the calls in progress, and three records of what
happened: the bytes that writes put into the ring, the bytes that reads took
out, and what each call returned.  Neither `sys_read` nor `sys_write` holds a
reference to its description, so a call can outlive the object; `reuse` is the
allocator giving the freed memory to somebody else.
-/
import CactKernel.Lib.Ring
import CactKernel.Lib.Run
import CactKernel.Mm.Layout

namespace CactKernel

open Function

@[irreducible] def pipeBufSize : Nat := 4096

/-- Negated error numbers. -/
def pipeEagain : Int := -11
def pipeEpipe : Int := -32

theorem pipeBufSize_pos : 0 < pipeBufSize := by
  simp [pipeBufSize]

structure Pipe where
  /-- `magic == PIPE_MAGIC`. -/
  magic : Bool
  buf : Nat → UInt8
  readPos : Nat
  writePos : Nat
  len : Nat
  /-- `flags & PIPE_O_NONBLOCK`. -/
  nonblock : Bool
  writeOpen : Nat
  readOpen : Nat
  /-- Live node wrappers. -/
  refCount : Int

/-- `inode` of the node: 0 is the read end, 1 the write end. -/
inductive PipeEnd where
  | rd
  | wr
deriving DecidableEq, Repr

/-- The fields of a wrapper node that the pipe uses. -/
structure PipeNode where
  /-- `priv` is not null. -/
  priv : Bool
  /-- The open count of the node. -/
  refcount : Nat
  live : Bool

namespace Pipe

/-- What one pass of `pipe_read` does. -/
inductive ReadPass where
  | eof
  | again
  | sleep
  | bytes (p : Pipe) (bs : List UInt8)

/-- The locked section of `pipe_read`. -/
def readPass (p : Pipe) (size : Nat) (nonblock : Bool) : ReadPass :=
  if p.len = 0 then
    if p.writeOpen = 0 then .eof
    else if nonblock then .again
    else .sleep
  else
    let chunk := if size < p.len then size else p.len
    .bytes { p with readPos := (p.readPos + chunk) % pipeBufSize, len := p.len - chunk }
      (Ring.load pipeBufSize p.buf p.readPos chunk)

/-- What one pass of `pipe_write` does. -/
inductive WritePass where
  | epipe
  | again
  | sleep
  | wrote (p : Pipe) (bs : List UInt8)

/-- The locked section of the loop of `pipe_write`, with `want` still to write. -/
def writePass (p : Pipe) (want : List UInt8) (nonblock : Bool) : WritePass :=
  if p.readOpen = 0 then .epipe
  else if p.len = pipeBufSize then
    if nonblock then .again else .sleep
  else
    -- as much as fits, also of a small write
    let space := pipeBufSize - p.len
    let chunk := want.take (if want.length < space then want.length else space)
    .wrote
      { p with
        buf := Ring.store pipeBufSize p.buf p.writePos chunk
        writePos := (p.writePos + chunk.length) % pipeBufSize
        len := p.len + chunk.length }
      chunk

/-- The counters after `pipe_node_open`. -/
def opened (p : Pipe) : PipeEnd → Pipe
  | .wr => { p with writeOpen := p.writeOpen + 1 }
  | .rd => { p with readOpen := p.readOpen + 1 }

/-- The counters after the locked section of `pipe_node_close`, which also
takes the magic word away from the last wrapper's object. -/
def closed (p : Pipe) (e : PipeEnd) : Pipe :=
  let p' := match e with
    | .wr => { p with writeOpen := p.writeOpen - 1 }
    | .rd => { p with readOpen := p.readOpen - 1 }
  { p' with refCount := p.refCount - 1, magic := p.magic && decide (p.refCount - 1 ≠ 0) }

end Pipe

/-! ### A pipe in use -/

/-- Where a call stands between two of its sections. -/
inductive PipeCall where
  | idle
  /-- Before the lock of a pass of `pipe_read`. -/
  | reading (size : Nat) (nonblock : Bool)
  /-- In `sched_sleep_ticks` of `pipe_read`. -/
  | readAsleep (size : Nat) (nonblock : Bool)
  /-- `pipe_write` found a reader and has not read the flags yet. -/
  | checked (bs : List UInt8)
  /-- Before the lock of a pass of `pipe_write`; `rest` is still to write. -/
  | writing (written : Nat) (rest : List UInt8) (nonblock : Bool)
  | writeAsleep (written : Nat) (rest : List UInt8) (nonblock : Bool)
deriving DecidableEq

/-- What a call returned, with the stream and the open ends at that moment. -/
structure PipeReturn where
  op : PipeEnd
  value : Int
  /-- Bytes written and not yet read. -/
  unread : Nat
  readers : Nat
  writers : Nat
deriving DecidableEq

structure PipeSys where
  pipe : Pipe
  /-- The object went back to the allocator. -/
  released : Bool
  node : PipeEnd → PipeNode
  /-- The descriptions open on an end. -/
  held : PipeEnd → Nat
  /-- Was the end ever opened, or closed in its place? -/
  used : PipeEnd → Bool
  call : Nat → PipeCall
  accepted : List UInt8
  delivered : List UInt8
  log : List PipeReturn

namespace PipeSys

/-- `pipe_create`: both wrappers exist, neither is open. -/
def created (nonblock : Bool) : PipeSys where
  pipe :=
    { magic := true, buf := fun _ => 0, readPos := 0, writePos := 0, len := 0, nonblock,
      writeOpen := 0, readOpen := 0, refCount := 2 }
  released := false
  node := fun _ => ⟨true, 0, true⟩
  held := fun _ => 0
  used := fun _ => false
  call := fun _ => .idle
  accepted := []
  delivered := []
  log := []

/-- The call of task `t` stands at `c`. -/
def setCall (s : PipeSys) (t : Nat) (c : PipeCall) : PipeSys := { s with call := update s.call t c }

/-- The call of task `t` returns `v`. -/
def ret (s : PipeSys) (t : Nat) (op : PipeEnd) (v : Int) : PipeSys :=
  { s with
    call := update s.call t .idle
    log := ⟨op, v, s.accepted.length - s.delivered.length, s.held .rd, s.held .wr⟩ :: s.log }

/-- What `pipe_write` returns when it stops with `written` bytes behind it. -/
def short (written : Nat) (err : Int) : Int := if 0 < written then toI32 written else err

/-- A count of bytes of a user buffer is not an error number. -/
theorem toI32_ne {n : Nat} (hn : n < kernelBase) : toI32 n ≠ pipeEpipe := by
  unfold toI32 pipeEpipe
  simp only [kernelBase] at hn
  split_ifs <;> omega

theorem short_ne {n : Nat} {v : Int} (hn : n < kernelBase) (hv : v ≠ pipeEpipe) : short n v ≠ pipeEpipe := by
  unfold short
  split_ifs
  · exact toI32_ne hn
  · exact hv

/-- `file_alloc` on an end: `pipe_node_open`. -/
def pipeNodeOpen (s : PipeSys) (e : PipeEnd) : PipeSys :=
  let s := { s with held := update s.held e (s.held e + 1), used := update s.used e true }
  if (s.node e).priv = false ∨ s.pipe.magic = false then s
  else
    { s with
      node := update s.node e { s.node e with refcount := (s.node e).refcount + 1 }
      pipe := s.pipe.opened e }

/-- The wrapper is released with its last open. -/
def PipeNode.drop (n : PipeNode) : PipeNode :=
  if n.refcount ≤ 1 then { n with live := false } else { n with refcount := n.refcount - 1 }

/-- `file_free` on an end: `pipe_node_close`. -/
def pipeNodeClose (s : PipeSys) (e : PipeEnd) : PipeSys :=
  let s := { s with held := update s.held e (s.held e - 1) }
  -- the object is gone already: only the wrapper is dropped
  if (s.node e).priv = false ∨ s.pipe.magic = false then
    { s with node := update s.node e (PipeNode.drop (s.node e)) }
  else
    let free := decide (s.pipe.refCount - 1 = 0)
    { s with
      pipe := s.pipe.closed e
      released := s.released || free
      node := update s.node e
        (PipeNode.drop { s.node e with priv := (s.node e).priv && !free }) }

/-- One section of one call, or one system call without a wait. -/
inductive Event where
  | openEnd (e : PipeEnd)
  | closeEnd (e : PipeEnd)
  /-- `_pipe_ioctl` gets no description for an end, and closes the node itself. -/
  | dropEnd (e : PipeEnd)
  | setNonblock (nb : Bool)
  /-- `read` of `size` bytes enters `pipe_read`. -/
  | read (t size : Nat)
  | readPass (t : Nat)
  /-- The sleep ends; `ok` is `validate_user_ptr`. -/
  | readWake (t : Nat) (ok : Bool)
  /-- `write` of `bs` enters `pipe_write`. -/
  | write (t : Nat) (bs : List UInt8)
  | writeFlags (t : Nat)
  | writePass (t : Nat)
  | writeWake (t : Nat) (ok : Bool)
  /-- The freed memory is handed out again and written to. -/
  | reuse (p : Pipe)

/-- A pass of `pipe_read` by task `t`. -/
def onRead (s : PipeSys) (t size : Nat) (nonblock : Bool) : PipeSys :=
  match s.pipe.readPass size nonblock with
  | .eof => s.ret t .rd 0
  | .again => s.ret t .rd pipeEagain
  | .sleep => s.setCall t (.readAsleep size nonblock)
  | .bytes p bs => { s with pipe := p, delivered := s.delivered ++ bs }.ret t .rd (toI32 bs.length)

/-- A pass of `pipe_write` by task `t`. -/
def onWrite (s : PipeSys) (t written : Nat) (rest : List UInt8) (nonblock : Bool) : PipeSys :=
  match s.pipe.writePass rest nonblock with
  | .epipe => s.ret t .wr (short written pipeEpipe)
  | .again => s.ret t .wr (short written pipeEagain)
  | .sleep => s.setCall t (.writeAsleep written rest nonblock)
  | .wrote p bs =>
    let s := { s with pipe := p, accepted := s.accepted ++ bs }
    let rest := rest.drop bs.length
    if rest = [] then s.ret t .wr (toI32 (written + bs.length))
    else s.setCall t (.writing (written + bs.length) rest nonblock)

/-- `none` is an event that cannot happen: no description to call through, or
the call does not stand there.  `sys_read` and `sys_write` refuse an empty
buffer and one that leaves user space, before the pipe is reached. -/
def step (s : PipeSys) : Event → Option PipeSys
  | .openEnd e => if s.used e = true ∧ s.held e = 0 then none else some (s.pipeNodeOpen e)
  | .closeEnd e => if 0 < s.held e then some (s.pipeNodeClose e) else none
  | .dropEnd e =>
    if s.used e = false then some ({ s with used := update s.used e true }.pipeNodeClose e) else none
  | .setNonblock nb =>
    if 0 < s.held .rd ∨ 0 < s.held .wr then
      some (if s.pipe.magic then { s with pipe := { s.pipe with nonblock := nb } } else s)
    else none
  | .read t size =>
    if s.call t = .idle ∧ 0 < s.held .rd ∧ 0 < size ∧ size < kernelBase then
      some (if (s.node .rd).priv = false ∨ s.pipe.magic = false then s.ret t .rd (-1)
        else s.setCall t (.reading size s.pipe.nonblock))
    else none
  | .readPass t =>
    match s.call t with
    | .reading size nonblock => some (s.onRead t size nonblock)
    | _ => none
  | .readWake t ok =>
    match s.call t with
    | .readAsleep size nonblock =>
      some (if ok then s.setCall t (.reading size nonblock) else s.ret t .rd (-1))
    | _ => none
  | .write t bs =>
    if s.call t = .idle ∧ 0 < s.held .wr ∧ 0 < bs.length ∧ bs.length < kernelBase then
      some (if (s.node .wr).priv = false ∨ s.pipe.magic = false then s.ret t .wr (-1)
        else if s.pipe.readOpen = 0 then s.ret t .wr pipeEpipe
        else s.setCall t (.checked bs))
    else none
  | .writeFlags t =>
    match s.call t with
    | .checked bs => some (s.setCall t (.writing 0 bs s.pipe.nonblock))
    | _ => none
  | .writePass t =>
    match s.call t with
    | .writing written rest nonblock => some (s.onWrite t written rest nonblock)
    | _ => none
  | .writeWake t ok =>
    match s.call t with
    | .writeAsleep written rest nonblock =>
      some (if ok then s.setCall t (.writing written rest nonblock)
        else s.ret t .wr (short written (-1)))
    | _ => none
  | .reuse p => if s.released then some { s with pipe := p } else none

end PipeSys

end CactKernel
