/-
CactKernel/Syscall/SignalFrame.lean

Entering a signal handler and returning from it: `deliver_pending_signal`
(`kernel/core/syscall/helper.c`) and `sys_sigreturn` (`process/signal.c`).

The frame is 40 words in user memory: the return address and the arguments of
the handler, the interrupted registers, the mask to put back, and the payloads
that the second and third argument point at.  It is put on the alternate stack
or below the interrupted stack pointer, inside one page.  `sys_sigreturn` reads
it back from wherever the user stack pointer then points.

`SigSys` is a process between user and kernel mode.  `user` stands for anything
user code and its other system calls do.  It can change registers, memory, masks,
handlers and mappings as it likes, but not the privileged flags, and not the bit
that says whether the alternate stack is in use.  `active` records the deliveries
whose handlers have not returned, innermost first, with the context that each
interrupted, and `returns` what each `sys_sigreturn` did.
-/
import CactKernel.Lib.Words
import CactKernel.Mm.Layout
import CactKernel.Sched.Mlfq

namespace CactKernel

open Words

/-- `sizeof(signal_frame_t)`. -/
def signalFrameSize : Nat := 160

def saOnstack : BitVec 32 := 0x08000000
def saNodefer : BitVec 32 := 0x40000000
def ssOnstack : BitVec 32 := 1
def ssDisable : BitVec 32 := 2

/-- IF, IOPL, NT and VM. -/
def eflagsPrivileged : BitVec 32 := 0x200 ||| 0x3000 ||| 0x4000 ||| 0x20000

/-- The registers that the frame saves. -/
structure SavedRegs where
  eax : BitVec 32
  ecx : BitVec 32
  edx : BitVec 32
  ebx : BitVec 32
  useresp : BitVec 32
  ebp : BitVec 32
  esi : BitVec 32
  edi : BitVec 32
  eip : BitVec 32
  eflags : BitVec 32
deriving DecidableEq

/-- The registers of `struct syscall_frame`. -/
structure UserRegs extends SavedRegs where
  es : BitVec 32
  ds : BitVec 32
  cs : BitVec 32
  ss : BitVec 32
deriving DecidableEq

/-- The signal fields of `proc_metadata`; the arrays are indexed by signal number. -/
structure SigProc where
  pendingSignals : BitVec 32
  signalMask : BitVec 32
  handlers : Nat → BitVec 32
  flags : Nat → BitVec 32
  masks : Nat → BitVec 32
  codes : Nat → BitVec 32
  signalAddr : BitVec 32
  signalValue : BitVec 32
  altstackSp : BitVec 32
  altstackSize : BitVec 32
  altstackFlags : BitVec 32
  trampoline : BitVec 32

/-- What a handler has to leave as it was. -/
structure SigContext where
  regs : SavedRegs
  mask : BitVec 32
  altstackSp : BitVec 32
  altstackSize : BitVec 32
  altstackFlags : BitVec 32
deriving DecidableEq

/-- A delivery whose handler has not returned. -/
structure Delivery where
  base : Nat
  onAlt : Bool
  before : SigContext

/-- What a `sys_sigreturn` did: the context it found, the one it left, and the
context that the returning handler interrupted. -/
structure SigReturn where
  found : SigContext
  left : SigContext
  interrupted : Option SigContext

structure SigSys where
  regs : UserRegs
  proc : SigProc
  mem : Nat → BitVec 8
  /-- The page is present. -/
  present : Nat → Bool
  /-- The page is a writable user page. -/
  writable : Nat → Bool
  active : List Delivery
  returns : List SigReturn

/-- What user code leaves behind. -/
structure UserStep where
  regs : UserRegs
  proc : SigProc
  mem : Nat → BitVec 8
  present : Nat → Bool
  writable : Nat → Bool

namespace SigSys

variable (s : SigSys)

def context : SigContext where
  regs := s.regs.toSavedRegs
  mask := s.proc.signalMask
  altstackSp := s.proc.altstackSp
  altstackSize := s.proc.altstackSize
  altstackFlags := s.proc.altstackFlags

/-! ### Where the frame goes -/

/-- `a - b` in 32 bits. -/
def sub32 (a b : Nat) : Nat := (a + 2 ^ 32 - b) % 2 ^ 32

/-- Down to 12 modulo 16, where a `call` would leave the stack pointer. -/
def callAlign (esp : Nat) : Nat := (sub32 esp 12 / 16 * 16 + 12) % 2 ^ 32

/-- `frame_fits`. -/
def frameFits (esp : Nat) : Bool :=
  decide (userSpaceStart ≤ esp ∧ esp < kernelBase ∧ esp % 4096 + signalFrameSize ≤ 4096)

/-- `frame_mapped`. -/
def frameMapped (esp : Nat) : Bool := s.present (esp / 4096) && s.writable (esp / 4096)

/-- The top of the alternate stack, if the frame can go there. -/
def altPlace (bit : Nat) : Option Nat :=
  let sp := s.proc.altstackSp.toNat
  let cand := callAlign (sub32 ((sp + s.proc.altstackSize.toNat) % 2 ^ 32) signalFrameSize)
  if s.proc.flags bit &&& saOnstack ≠ 0 ∧ s.proc.altstackSp ≠ 0 ∧
      s.proc.altstackFlags &&& (ssDisable ||| ssOnstack) = 0 ∧
      sp ≤ cand ∧ frameFits cand ∧ s.frameMapped cand then some cand
  else none

/-- Below the interrupted stack pointer, or at the end of the page before. -/
def stackPlace : Option Nat :=
  let esp := s.regs.useresp.toNat
  let near := callAlign (sub32 esp signalFrameSize)
  let far := callAlign (sub32 (esp / 4096 * 4096) signalFrameSize)
  -- a frame may not cross a page
  if frameFits near then if s.frameMapped near then some near else none
  else if frameFits far ∧ s.frameMapped far then some far
  else none

/-- The place of the frame for a signal, and whether it is on the alternate stack. -/
def framePlace (bit : Nat) : Option (Nat × Bool) :=
  match s.altPlace bit with
  | some cand => some (cand, true)
  | none => s.stackPlace.map fun esp => (esp, false)

/-! ### The frame -/

/-- The interrupted registers and the mask, in the order of the frame. -/
def savedWords (c : SigContext) : List (BitVec 32) :=
  [c.regs.eax, c.regs.ecx, c.regs.edx, c.regs.ebx, c.regs.useresp, c.regs.ebp, c.regs.esi,
    c.regs.edi, c.regs.eip, c.regs.eflags, c.mask]

/-- `siginfo`, `uc_link`, `uc_flags` and `gregs`. -/
def payloadWords (bit : Nat) : List (BitVec 32) :=
  [1#32 <<< bit, s.proc.codes bit, s.proc.signalAddr, s.proc.signalValue, 0, 0,
    0, 0, s.regs.es, s.regs.ds, s.regs.edi, s.regs.esi, s.regs.ebp, s.regs.useresp,
    s.regs.ebx, s.regs.edx, s.regs.ecx, s.regs.eax, 0, 0, s.regs.eip, s.regs.cs,
    s.regs.eflags, s.regs.useresp, s.regs.ss]

/-- `signal_frame_t` at `base`. -/
def frameWords (bit base : Nat) : List (BitVec 32) :=
  [s.proc.trampoline, 1#32 <<< bit, BitVec.ofNat 32 (base + 60), BitVec.ofNat 32 (base + 76)] ++
    savedWords s.context ++ s.payloadWords bit

/-! ### Delivery and return -/

/-- The signal is deliverable to user code. -/
def deliverable (bit : Nat) : Bool :=
  (s.proc.pendingSignals &&& ~~~s.proc.signalMask).getLsbD bit &&
    decide (userSpaceStart ≤ (s.proc.handlers bit).toNat ∧ (s.proc.handlers bit).toNat < kernelBase)

/-- The frame for `bit` is built at `base` and the handler entered. -/
def enterHandler (bit base : Nat) (onAlt : Bool) : SigSys :=
  let p := s.proc
  { s with
    mem := pokeWords s.mem base (s.frameWords bit base)
    regs := { s.regs with useresp := BitVec.ofNat 32 base, eip := p.handlers bit }
    proc := { p with
      codes := Function.update p.codes bit 0
      signalAddr := 0
      signalValue := 0
      signalMask := p.signalMask ||| (if p.flags bit &&& saNodefer = 0 then 1#32 <<< bit else 0) |||
        p.masks bit
      altstackFlags := if onAlt then p.altstackFlags ||| ssOnstack else p.altstackFlags
      pendingSignals := p.pendingSignals &&& ~~~(1#32 <<< bit) }
    active := ⟨base, onAlt, s.context⟩ :: s.active }

/-- `deliver_pending_signal`: the first signal for which there is a place. -/
def deliverPendingSignal : SigSys :=
  match (List.range 13).findSome? fun bit =>
    if s.deliverable bit then (s.framePlace bit).map fun place => (bit, place) else none with
  | none => s
  | some (bit, base, onAlt) => s.enterHandler bit base onAlt

/-- The registers and the mask as the frame at the stack pointer has them. -/
def restored : SigSys :=
  let esp := s.regs.useresp.toNat
  let word := fun i => peekWord s.mem (esp + 16 + 4 * i)
  { s with
    regs := { s.regs with
      eax := word 0, ecx := word 1, edx := word 2, ebx := word 3, useresp := word 4
      ebp := word 5, esi := word 6, edi := word 7, eip := word 8, eflags := word 9 }
    proc := { s.proc with
      -- neither `eflags` nor the mask is filtered
      signalMask := word 10
      altstackFlags := s.proc.altstackFlags &&& ~~~ssOnstack } }

/-- The innermost handler, if it returns with the stack pointer at its frame. -/
def returning : Option Delivery :=
  s.active.head?.filter fun d => decide (d.base = s.regs.useresp.toNat)

/-- `sys_sigreturn`; `none` where it returns -1. -/
def sysSigreturn : Option SigSys :=
  let esp := s.regs.useresp.toNat
  if frameFits esp ∧ s.present (esp / 4096) then
    some { s.restored with
      active := if s.returning.isSome then s.active.tail else s.active
      returns := ⟨s.context, s.restored.context, s.returning.map (·.before)⟩ :: s.returns }
  else none

inductive Event where
  /-- A system call returns to user mode. -/
  | deliver
  | user (u : UserStep)
  | sigreturn

/-- One step; user code cannot change the privileged flags or the mark of the
alternate stack. -/
def step : Event → Option SigSys
  | .deliver => some s.deliverPendingSignal
  | .user u =>
    if u.regs.eflags &&& eflagsPrivileged = s.regs.eflags &&& eflagsPrivileged ∧
        u.proc.altstackFlags &&& ssOnstack = s.proc.altstackFlags &&& ssOnstack then
      some { s with
        regs := u.regs, proc := u.proc, mem := u.mem, present := u.present, writable := u.writable }
    else none
  | .sigreturn => some (s.sysSigreturn.getD s)

end SigSys

end CactKernel
