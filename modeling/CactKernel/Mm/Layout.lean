/-
CactKernel/Mm/Layout.lean

The 4 GiB layout shared by the memory manager (`rust_mm/src/ffi.rs`,
`core/syscall/validate.h`) and its page arithmetic (`pmm_math.rs`).

Addresses, lengths and frame numbers are natural numbers.  The kernel is
built with overflow checks, so an addition that leaves the 32-bit range is a
panic: functions that can reach one return an `Option`, with `none` for the
halted kernel, and go through `checkedAdd` below.  Additions that the source
saturates go through `satAdd`.
-/
import Mathlib.Data.Nat.Basic
import Mathlib.Tactic.Common

namespace CactKernel

/-! ### Machine arithmetic -/

/-- One past the largest `u32`. -/
@[irreducible] def u32Size : Nat := 0x100000000

/-- A `u32` addition under overflow checks: `none` is a kernel panic. -/
def checkedAdd (a b : Nat) : Option Nat :=
  if a + b < u32Size then some (a + b) else none

/-- `u32::saturating_add`. -/
def satAdd (a b : Nat) : Nat := min (a + b) (u32Size - 1)

/-- A `u32` returned as an `i32`. -/
def toI32 (n : Nat) : Int := if n < 0x80000000 then n else (n : Int) - 0x100000000

theorem checkedAdd_eq_some {a b c : Nat} :
    checkedAdd a b = some c ↔ a + b < u32Size ∧ c = a + b := by
  unfold checkedAdd
  by_cases h : a + b < u32Size
  · simp [eq_comm]
  · simp [h]

theorem checkedAdd_of_lt {a b : Nat} (h : a + b < u32Size) : checkedAdd a b = some (a + b) :=
  if_pos h

/-! ### Constants

The constants are irreducible: unification never computes with them, and a
proof that needs a value names the constant. -/

@[irreducible] def pageSize : Nat := 4096

/-- The user/kernel split and the default base of the MMIO window. -/
@[irreducible] def pciHoleStart : Nat := 0xC0000000

/-- Number of 4 KiB frames of the 4 GiB physical address space. -/
@[irreducible] def totalPages : Nat := 0x100000

/-- Exclusive upper bound of the physical address space. -/
@[irreducible] def pmmMaxAddr : Nat := totalPages * pageSize

@[irreducible] def heapStart : Nat := 0x20000000
@[irreducible] def heapSize : Nat := 0x1000000

/-- Every frame below this address is reserved at boot and never handed out. -/
@[irreducible] def reservedEndMin : Nat := 0x20000000

@[irreducible] def userStackTop : Nat := 0xC0000000
@[irreducible] def userStackLimit : Nat := 0xBF000000
@[irreducible] def userSpaceStart : Nat := 0x08000000
@[irreducible] def mmapBase : Nat := 0x80000000
@[irreducible] def mmapLimit : Nat := 0xBF000000

/-- Lowest address of every user window, and the frame ceiling of the PMM. -/
@[irreducible] def userFrameCeil : Nat := 0x80000000

/-- `KERNEL_BASE` of the system call layer. -/
@[irreducible] def kernelBase : Nat := 0xC0000000

/-- True when a user mapping at `[va, va+len)` cannot shadow a kernel frame. -/
def userVaIsSafe (va len : Nat) : Bool :=
  decide (userFrameCeil ≤ va) || decide (satAdd va len ≤ reservedEndMin)

/-! ### Page arithmetic -/

theorem pageSize_pos : 0 < pageSize := by
  simp [pageSize]

/-- The slots of a descriptor table. -/
def maxFd : Nat := 256

def pageToAddr (idx : Nat) : Nat := idx * pageSize

def addrToPage (addr : Nat) : Nat := addr / pageSize

/-- `(x + a - 1) & !(a - 1)` for a power of two `a`, on the exact sum. -/
def alignUp (a x : Nat) : Nat := (x + (a - 1)) / a * a

@[simp] theorem addrToPage_pageToAddr (f : Nat) : addrToPage (pageToAddr f) = f :=
  Nat.mul_div_cancel f pageSize_pos

theorem pageToAddr_mod (f : Nat) : pageToAddr f % pageSize = 0 :=
  Nat.mul_mod_left f pageSize

end CactKernel
