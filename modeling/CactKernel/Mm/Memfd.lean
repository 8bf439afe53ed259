/-
CactKernel/Mm/Memfd.lean

The memfd objects behind shared mappings (`process/memfd.rs`): growing an
object, reading its frames, the two counts (open descriptors and live mappings)
whose last drop gives the frames back, and the file operations `memfd_read`,
`memfd_write` and `memfd_truncate`.

An object is looked up by its handle, 1 to `MEMFD_MAX`.  The page array of an
object lives on the kernel heap; `heapOk` says whether `kmalloc` can provide
a larger one.  Names and creation flags are left out.
-/
import CactKernel.Mm.Vm

namespace CactKernel

open Function

def memfdMax : Nat := 128
def memfdPagesInitial : Nat := 1024
def memfdPagesGrow : Nat := 16384

/-- `USER_FRAME_CEIL / PAGE_SIZE`. -/
@[irreducible] def memfdPagesMax : Nat := 524288

/-- Replace the object of one handle. -/
def Mm.setMemfd (m : Mm) (h : Nat) (o : MemFd) : Mm := { m with memfds := update m.memfds h o }

def handleValid (m : Mm) (h : Nat) : Bool :=
  decide (1 ≤ h) && decide (h ≤ memfdMax) && (m.memfds h).valid

/-- `bytes.div_ceil(PAGE_SIZE)`. -/
def ceilPages (bytes : Nat) : Nat := (bytes + (pageSize - 1)) / pageSize

/-- The capacity loop of `ensure_capacity_locked`; 33 steps reach the maximum
from any start. -/
def growCap (need : Nat) : Nat → Nat → Nat
  | 0, cap => cap
  | n + 1, cap => if cap < need then growCap need n (min (cap + memfdPagesGrow) memfdPagesMax) else cap

/-- The page array has room for `need` frames. -/
def ensureCapacity (m : Mm) (h need : Nat) (heapOk : Bool) : Option Mm :=
  if need ≤ (m.memfds h).pagesCap then some m
  else if memfdPagesMax < need then none
  else if heapOk then
    some (m.setMemfd h { m.memfds h with
      pagesCap := growCap need 33
        (if (m.memfds h).pagesCap = 0 then memfdPagesInitial else (m.memfds h).pagesCap) })
  else none

/-- Put `f` into slot `i` of the page array. -/
def Mm.setMemfdPage (m : Mm) (h i f : Nat) : Mm :=
  m.setMemfd h { m.memfds h with pages := update (m.memfds h).pages i f }

/-- Give the frames of slots `start, …, start + n - 1` back. -/
def dropPages (m : Mm) (h start n : Nat) : Mm :=
  (List.range' start n).foldl
    (fun m j => (m.freePage ((m.memfds h).pages j)).setMemfdPage h j 0) m

/-- Zeroed frames for `n` more slots from `i` on; all of them or none. -/
def growPages (h start : Nat) : Mm → Nat → Nat → Mm × Bool
  | m, 0, _ => (m, true)
  | m, n + 1, i =>
    match m.kalloc with
    | none => (dropPages m h start (i - start), false)
    | some (f, m') => growPages h start ((m'.setPage f zeroPage).setMemfdPage h i f) n (i + 1)

def growLocked (m : Mm) (h need : Nat) (heapOk : Bool) : Mm × Bool :=
  if need ≤ (m.memfds h).numPages then (m, true)
  else
    match ensureCapacity m h need heapOk with
    | none => (m, false)
    | some m₁ =>
      let r := growPages h (m₁.memfds h).numPages m₁ (need - (m₁.memfds h).numPages)
        (m₁.memfds h).numPages
      if r.2 then (r.1.setMemfd h { r.1.memfds h with numPages := need }, true) else (r.1, false)

/-- `memfd_grow_to`; the flag is the success of the call. -/
def memfdGrowTo (m : Mm) (h last : Nat) (heapOk : Bool) : Mm × Bool :=
  if handleValid m h then
    let r := growLocked m h (ceilPages last) heapOk
    if r.2 then
      (r.1.setMemfd h { r.1.memfds h with size := max last (r.1.memfds h).size }, true)
    else (r.1, false)
  else (m, false)

/-- The frame of page `idx`, if the object has it. -/
def memfdGetPage (m : Mm) (h idx : Nat) : Option Nat :=
  if handleValid m h ∧ idx < (m.memfds h).numPages ∧ (m.memfds h).pages idx ≠ 0 then
    some ((m.memfds h).pages idx)
  else none

/-- One more mapping of the object; the flag is the success of the call. -/
def memfdMapInc (m : Mm) (h : Nat) : Mm × Bool :=
  if handleValid m h then
    (m.setMemfd h { m.memfds h with maps := (m.memfds h).maps + 1 }, true)
  else (m, false)

/-- Give the frames of an object back once nothing refers to it. -/
def maybeFree (m : Mm) (h : Nat) : Mm :=
  if (m.memfds h).valid = false ∨ (m.memfds h).fds ≠ 0 ∨ (m.memfds h).maps ≠ 0 then m
  else
    let m' := (List.range (m.memfds h).numPages).foldl
      (fun m' j => if (m.memfds h).pages j ≠ 0 then m'.freePage ((m.memfds h).pages j) else m') m
    m'.setMemfd h { m.memfds h with pagesCap := 0, numPages := 0, size := 0, valid := false }

/-- One mapping of the object less. -/
def memfdMapDec (m : Mm) (h : Nat) : Mm :=
  if handleValid m h then
    maybeFree (m.setMemfd h { m.memfds h with maps := (m.memfds h).maps - 1 }) h
  else m

/-! ### The file operations -/

/-- The copy loop of `memfd_read`, page by page; `fuel` bounds its passes. -/
def copyOut (m : Mm) (h : Nat) : Nat → Nat → Nat → List UInt8
  | 0, _, _ => []
  | fuel + 1, pos, n =>
    if n = 0 then []
    else
      let chunk := min n (pageSize - pos % pageSize)
      (List.range chunk).map (fun j => m.mem ((m.memfds h).pages (pos / pageSize)) (pos % pageSize + j)) ++
        copyOut m h fuel (pos + chunk) (n - chunk)

/-- The page `p` with the bytes `bs` at `start`. -/
def splice (p : Page) (start : Nat) (bs : List UInt8) : Page := fun k =>
  if start ≤ k then (bs[k - start]?).getD (p k) else p k

/-- The copy loop of `memfd_write`. -/
def copyIn (h : Nat) : Nat → Mm → Nat → List UInt8 → Mm
  | 0, m, _, _ => m
  | fuel + 1, m, pos, bs =>
    if bs = [] then m
    else
      let chunk := min bs.length (pageSize - pos % pageSize)
      let f := (m.memfds h).pages (pos / pageSize)
      copyIn h fuel (m.setPage f (splice (m.mem f) (pos % pageSize) (bs.take chunk))) (pos + chunk)
        (bs.drop chunk)

/-- `memfd_read`: the return value and the bytes copied; `null` says that the buffer is null. -/
def memfdRead (m : Mm) (h off size : Nat) (null : Bool) : Int × List UInt8 :=
  if size = 0 then (0, [])
  else if null then (-1, [])
  else if handleValid m h = false then (-1, [])
  else if (m.memfds h).size ≤ off then (0, [])
  else
    let n := if off + size < u32Size ∧ off + size ≤ (m.memfds h).size then size else (m.memfds h).size - off
    (toI32 n, copyOut m h n off n)

/-- `memfd_write` of the bytes `bs`. -/
def memfdWrite (m : Mm) (h off : Nat) (bs : List UInt8) (null heapOk : Bool) : Mm × Int :=
  if bs = [] then (m, 0)
  else if null then (m, -1)
  else if handleValid m h = false then (m, -1)
  else
    let last := satAdd off bs.length
    if last < off ∨ memfdPagesMax < ceilPages last then (m, -1)
    else
      let r := growLocked m h (ceilPages last) heapOk
      if r.2 = false then (r.1, -1)
      else
        let m' := r.1.setMemfd h { r.1.memfds h with size := max last (r.1.memfds h).size }
        (copyIn h bs.length m' off bs, toI32 bs.length)

/-- `memfd_truncate`. -/
def memfdTruncate (m : Mm) (h newSize : Nat) (heapOk : Bool) : Mm × Int :=
  if memfdPagesMax < ceilPages newSize then (m, -1)
  else if handleValid m h = false then (m, -1)
  else if (m.memfds h).size < newSize then
    let r := growLocked m h (ceilPages newSize) heapOk
    if r.2 = false then (r.1, -1)
    else (r.1.setMemfd h { r.1.memfds h with size := newSize }, 0)
  -- a shrink keeps the frames
  else (m.setMemfd h { m.memfds h with size := newSize }, 0)

/-- The object `memfd_create` leaves in the slot of the handle `h`. -/
def memfdCreated (m : Mm) (h : Nat) : Mm := m.setMemfd h ⟨true, 0, 0, 0, fun _ => 0, 0, 0⟩

end CactKernel
