/-
CactKernel/Drivers/Tty.lean

The line discipline of a terminal (`drivers/tty/tty.c`).

The first part says what canonical input is for.  `Edited.type` is a line
editor: what is typed makes a sequence of pieces, each a line (with its newline,
or cut short by VEOF) or an end-of-file mark, and `serve` is a reader that takes
such a sequence apart piece by piece.

The second part is the driver.  Typed bytes are edited in a line buffer; a
committed line is pushed byte by byte into a ring that drops what does not fit;
VEOF at the start of a line sets a flag.  A reader takes byte after byte from
the ring and sleeps while it is empty.  The interrupt handler that types and
the reader may run on two processors, so that each push is an event of its own, and
so are the two tests of a turn of the reader's loop: whether the ring is empty, and,
if it was, whether the flag is set.

Echo, which goes to the screen only, is left out.  The record of what was typed
and of what each read returned is not part of the driver.
-/
import CactKernel.Lib.Ring
import CactKernel.Lib.Run

namespace CactKernel

open Function

/-! ### Keys -/

/-- The signals of the control characters. -/
inductive TtySignal where
  | int
  | quit
  | stop
deriving DecidableEq, Repr

/-- What a byte does to the line. -/
inductive TtyKey where
  | eof
  | newline
  | erase
  | kill
  | werase
  | plain
deriving DecidableEq, Repr

/-- The flags and control characters that the line discipline reads. -/
structure TtyTermios where
  isig : Bool
  icanon : Bool
  vintr : UInt8
  vquit : UInt8
  verase : UInt8
  vkill : UInt8
  veof : UInt8
  vsusp : UInt8
  vwerase : UInt8
deriving DecidableEq, Repr

def ttyNewline : UInt8 := 10
def ttyReturn : UInt8 := 13
def ttyBackspace : UInt8 := 8

namespace TtyTermios

/-- The signal that a byte stands for. -/
def sigKey (t : TtyTermios) (c : UInt8) : Option TtySignal :=
  if !t.isig then none
  else if c = t.vintr then some .int
  else if c = t.vquit then some .quit
  else if c = t.vsusp then some .stop
  else none

def editKey (t : TtyTermios) (c : UInt8) : TtyKey :=
  if c = t.veof then .eof
  else if c = ttyNewline ∨ c = ttyReturn then .newline
  else if c = t.verase ∨ c = ttyBackspace then .erase
  else if c = t.vkill then .kill
  else if c = t.vwerase then .werase
  else .plain

end TtyTermios

def ttyBlank (c : UInt8) : Bool := c = 32 || c = 9

/-- `line_werase`: trailing blanks go, then the word before them. -/
def lineWerase (line : List UInt8) : List UInt8 :=
  ((line.reverse.dropWhile ttyBlank).dropWhile fun c => !ttyBlank c).reverse

/-! ### The edited input -/

/-- What a reader can be given. -/
inductive TtyPiece where
  | line (bytes : List UInt8)
  | eof
deriving DecidableEq, Repr

namespace TtyPiece

def bytes : TtyPiece → List UInt8
  | line bs => bs
  | eof => []

end TtyPiece

/-- The line being edited, and the pieces that are finished. -/
structure Edited where
  line : List UInt8
  pieces : List TtyPiece

namespace Edited

def empty : Edited := ⟨[], []⟩

/-- One byte is typed.  A signal character throws the line away. -/
def type (t : TtyTermios) (e : Edited) (c : UInt8) : Edited :=
  match t.sigKey c with
  | some _ => { e with line := [] }
  | none =>
    match t.editKey c with
    | .eof =>
      if e.line = [] then { e with pieces := e.pieces ++ [.eof] }
      else ⟨[], e.pieces ++ [.line e.line]⟩
    | .newline => ⟨[], e.pieces ++ [.line (e.line ++ [ttyNewline])]⟩
    | .erase => { e with line := e.line.dropLast }
    | .kill => { e with line := [] }
    | .werase => { e with line := lineWerase e.line }
    | .plain => { e with line := e.line ++ [c] }

end Edited

/-- What was typed, edited. -/
def edited (t : TtyTermios) (cs : List UInt8) : Edited := cs.foldl (Edited.type t) .empty

/-- A read: its size, and the bytes it returned, or `none` for `-EINTR`. -/
structure TtyRead where
  size : Nat
  result : Option (List UInt8)
deriving DecidableEq, Repr

/-- Serve a read of `n` bytes: a line up to its end, or the report of an end of file.  `none`
while there is nothing to report. -/
def serve : List TtyPiece → Nat → Option (List UInt8 × List TtyPiece)
  | ps, 0 => some ([], ps)
  | [], _ + 1 => none
  | .eof :: ps, _ + 1 => some ([], ps)
  | .line bs :: ps, n + 1 =>
    some (bs.take (n + 1), if n + 1 < bs.length then .line (bs.drop (n + 1)) :: ps else ps)

/-- The pieces left after a sequence of reads, if the reads took the pieces apart exactly. -/
def replay : List TtyPiece → List TtyRead → Option (List TtyPiece)
  | ps, [] => some ps
  | ps, ⟨_, none⟩ :: rs => replay ps rs
  | ps, ⟨n, some bs⟩ :: rs =>
    match serve ps n with
    | some (bs', ps') => if bs = bs' then replay ps' rs else none
    | none => none

/-! ### The driver -/

@[irreducible] def ttyIbuf : Nat := 1024

theorem ttyIbuf_pos : 0 < ttyIbuf := by
  simp [ttyIbuf]

/-- `TTY_LINE_MAX`. -/
def ttyLineMax : Nat := ttyIbuf - 2

structure Tty where
  tio : TtyTermios
  /-- There is a foreground process group. -/
  fg : Bool
  /-- The terminal is the active one. -/
  active : Bool
  inBuf : Nat → UInt8
  inWr : Nat
  inRd : Nat
  /-- `line_buf` up to `line_len`. -/
  lineBuf : List UInt8
  eofPending : Bool
  /-- The `in_push` calls that the interrupt handler has still to make. -/
  pushing : List UInt8
  /-- The read in progress: its size, and what it has put into its buffer. -/
  reader : Option (Nat × List UInt8)
  /-- It has found the ring empty, and has not looked at the flag yet. -/
  drained : Bool
  signals : List TtySignal
  typed : List UInt8
  reads : List TtyRead

namespace Tty

variable (s : Tty)

def start (tio : TtyTermios) (buf : Nat → UInt8) : Tty where
  tio := tio
  fg := false
  active := true
  inBuf := buf
  inWr := 0
  inRd := 0
  lineBuf := []
  eofPending := false
  pushing := []
  reader := none
  drained := false
  signals := []
  typed := []
  reads := []

/-- `in_push`. -/
def inPush (c : UInt8) : Tty :=
  let next := (s.inWr + 1) % ttyIbuf
  if next = s.inRd then s
  else { s with inBuf := update s.inBuf s.inWr c, inWr := next }

/-- `line_commit`: the pushes that follow. -/
def lineCommit (addNewline : Bool) : Tty :=
  { s with
    pushing := s.lineBuf ++ if addNewline then [ttyNewline] else []
    lineBuf := [] }

/-- The canonical part of `tty_input`. -/
def edit (c : UInt8) : Tty :=
  match s.tio.editKey c with
  | .eof => if s.lineBuf = [] then { s with eofPending := true } else s.lineCommit false
  | .newline => s.lineCommit true
  | .erase => { s with lineBuf := s.lineBuf.dropLast }
  | .kill => { s with lineBuf := [] }
  | .werase => { s with lineBuf := lineWerase s.lineBuf }
  | .plain =>
    if s.lineBuf.length < ttyLineMax then { s with lineBuf := s.lineBuf ++ [c] } else s

/-- `tty_input`. -/
def input (c : UInt8) : Tty :=
  if c = 0 then s
  else
    match s.tio.sigKey c with
    | some g =>
      if s.fg then { s with signals := s.signals ++ [g], lineBuf := [] }
      else { s with pushing := [c] }
    | none => if s.tio.icanon then s.edit c else { s with pushing := [c] }

/-- The read in progress returns. -/
def finish (n : Nat) (r : Option (List UInt8)) : Tty :=
  { s with reader := none, drained := false, reads := s.reads ++ [⟨n, r⟩] }

/-- A turn of the loop of `tty_read`, with `got` in the buffer, once it has found the ring
empty: the ring is not looked at again. -/
def readDrained (n : Nat) (got : List UInt8) (signal : Bool) : Tty :=
  if s.eofPending then { s with eofPending := false }.finish n (some got)
  else if signal then s.finish n none
  else { s with drained := false }

/-- A turn of the loop of `tty_read` from its start. -/
def readTurn (n : Nat) (got : List UInt8) : Tty :=
  if !s.active then s
  else if s.inRd = s.inWr then { s with drained := true }
  else
    let c := s.inBuf s.inRd
    let s' := { s with inRd := (s.inRd + 1) % ttyIbuf }
    let got' := got ++ [c]
    if c = ttyNewline ∨ n ≤ 1 then s'.finish n (some got')
    else if !s.tio.icanon && decide (s'.inRd = s'.inWr) then s'.finish n (some got')
    else if got'.length < n then { s' with reader := some (n, got') }
    else s'.finish n (some got')

inductive Event where
  | input (c : UInt8)
  | push
  | read (n : Nat)
  /-- The next part of a turn of the reader's loop; `signal` says whether a signal is pending. -/
  | turn (signal : Bool)
  | activate (b : Bool)
  | foreground (b : Bool)
deriving DecidableEq, Repr

def step (s : Tty) : Event → Option Tty
  | .input c =>
    -- the handler is not entered again before it is done
    if s.pushing = [] then some { s.input c with typed := s.typed ++ [c] } else none
  | .push =>
    match s.pushing with
    | [] => none
    | c :: cs => some { s.inPush c with pushing := cs }
  | .read n =>
    if s.reader = none then
      if n = 0 then some (s.finish 0 (some [])) else some { s with reader := some (n, []) }
    else none
  | .turn signal =>
    match s.reader with
    | none => none
    | some (n, got) => some (if s.drained then s.readDrained n got signal else s.readTurn n got)
  | .activate b => some { s with active := b }
  | .foreground b => some { s with fg := b }

/-- What is in the ring. -/
def ring : List UInt8 := Ring.window ttyIbuf s.inBuf s.inRd (Ring.span ttyIbuf s.inRd s.inWr)

/-- What the read in progress has in its buffer. -/
def got : List UInt8 :=
  match s.reader with
  | none => []
  | some (_, got) => got

/-- The committed bytes that no read has returned yet. -/
def held : List UInt8 := s.got ++ s.ring ++ s.pushing

end Tty

end CactKernel
