/-
CactKernel/Mm/Fault.lean

The page fault handler (`fault/page_fault.rs`, `vmm_handle_cow` of
`fault/page_fault_map.rs`).

A fault is described by the page and the three error bits the CPU pushes.
The handler's answer is the new state and whether the access is retried;
`false` stands for `kill_current`.  The second attempt after `oom_kill` is
left out with the kill itself, and so are the statistics counters.

The handler is cut along its branches: resolving copy-on-write
(`handleCow`), growing the stack (`growStack`), and what it does for a page
that is not present (`handleMissing`).
-/
import CactKernel.Mm.Swap

namespace CactKernel

/-- The error code of a page fault. -/
structure FaultErr where
  present : Bool
  write : Bool
  user : Bool
deriving DecidableEq, Repr

/-- `vmm_handle_cow`; `none` when it returns -1. -/
def handleCow (m : Mm) (pd : PageDir) (v : Nat) : Option (Mm × PageDir) :=
  let e := pd.pte v
  if pd.pde (pdIndex v) = .absent ∨ e.cow = false then none
  -- the sole owner keeps the frame
  else if m.pageRefGet e.frame = 1 then
    some (m, pd.setPte v { e with cow := false, rw := true, present := true })
  else
    m.kalloc.map fun r =>
      ((r.2.setPage r.1 (r.2.mem e.frame)).freePage e.frame,
        pd.setPte v { e with frame := r.1, cow := false, rw := true, present := true })

/-- A fresh zeroed user page in the stack window; `none` kills the task. -/
def growStack (m : Mm) (pd : PageDir) (v : Nat) : Option (Mm × PageDir) :=
  m.kalloc.map fun r =>
    vmmMap (r.2.setPage r.1 zeroPage) pd (pageToAddr v) (pageToAddr r.1) true

/-- A demand page gets its frame: always writable. -/
def fillDemand (m : Mm) (pd : PageDir) (v : Nat) : Option (Mm × PageDir) :=
  let e := pd.pte v
  m.kalloc.map fun r =>
    (if e.zero then r.2.setPage r.1 zeroPage else r.2,
      pd.setPte v { e with frame := r.1, demand := false, zero := false, present := true, rw := true })

/-- Copy-on-write of an entry that is not present. -/
def fillCow (m : Mm) (pd : PageDir) (v : Nat) : Option (Mm × PageDir) :=
  let e := pd.pte v
  if m.pageRefGet e.frame ≤ 1 then
    some (m, pd.setPte v { e with cow := false, present := true, rw := true })
  else
    m.kalloc.map fun r =>
      ((r.2.setPage r.1 (r.2.mem e.frame)).freePage e.frame,
        pd.setPte v { e with frame := r.1, cow := false, present := true, rw := true })

/-- The answer of a step that may fail: retry, or kill the task. -/
def orKill (s : Mm × PageDir) (r : Option (Mm × PageDir)) : (Mm × PageDir) × Bool :=
  match r with
  | some s' => (s', true)
  | none => (s, false)

/-- The fault of a page that is not present. -/
def handleMissing (m : Mm) (pd : PageDir) (v : Nat) (ioOut ioIn : Bool) : (Mm × PageDir) × Bool :=
  let e := pd.pte v
  let found := (pd.pde (pdIndex v)).isPresent
  if found ∧ e.isSwapped then swapHandleFault m pd v ioOut ioIn
  else if found ∧ e.demand then orKill (m, pd) (fillDemand m pd v)
  else if found ∧ e.cow then orKill (m, pd) (fillCow m pd v)
  else if inStack v ∧ (found = false ∨ e.present = false ∨ e.user = false) then
    orKill (m, pd) (growStack m pd v)
  else ((m, pd), false)

/-- The fault of a page that is present: the access lacked a permission. -/
def handleDenied (m : Mm) (pd : PageDir) (v : Nat) (write user : Bool) : (Mm × PageDir) × Bool :=
  let e := pd.pte v
  let found := (pd.pde (pdIndex v)).isPresent
  if write then
    match handleCow m pd v with
    | some s => (s, true)
    | none =>
      -- the stack grew into a page of the kernel's identity map
      if user ∧ inStack v ∧ found ∧ e.user = false then orKill (m, pd) (growStack m pd v)
      else ((m, pd), false)
  else if user ∧ inStack v ∧ found ∧ e.user = false then orKill (m, pd) (growStack m pd v)
  else ((m, pd), false)

/-- `page_fault_handler`; the flag says that the access is retried. -/
def pageFaultHandler (m : Mm) (pd : PageDir) (v : Nat) (err : FaultErr) (ioOut ioIn : Bool) :
    (Mm × PageDir) × Bool :=
  if err.present then handleDenied m pd v err.write err.user else handleMissing m pd v ioOut ioIn

/-! ### What a fault does -/

section Cases

variable {m : Mm} {pd : PageDir} {v : Nat} {err : FaultErr} {x : Mm × PageDir}

/-- **What a fault on `v` can do to the directory.** -/
inductive Faulted (m : Mm) (pd : PageDir) (v : Nat) (err : FaultErr) : PageDir → Prop
  | same : Faulted m pd v err pd
  | swapped {ioOut ioIn : Bool} : Faulted m pd v err (swapHandleFault m pd v ioOut ioIn).1.2
  /-- The entry gets a frame, or the frame for itself. -/
  | filled {e : Pte} : err.present = false → (pd.pte v).isSwapped = false →
      (pd.pte v).demand = true ∨ (pd.pte v).cow = true → Faulted m pd v err (pd.setPte v e)
  | owned {e : Pte} : err.present = true → err.write = true → (pd.pte v).cow = true →
      Faulted m pd v err (pd.setPte v e)
  | grown {m' : Mm} {f : Nat} : inStack v = true →
      Faulted m pd v err (vmmMap m' pd (pageToAddr v) (pageToAddr f) true).2

theorem handleCow_some (h : handleCow m pd v = some x) : (pd.pte v).cow = true ∧ ∃ e, x.2 = pd.setPte v e := by
  unfold handleCow at h
  dsimp only at h
  split at h
  · cases h
  next hcow =>
  refine ⟨by simpa using (not_or.mp hcow).2, ?_⟩
  split at h
  · obtain rfl := Option.some.inj h
    exact ⟨_, rfl⟩
  · obtain ⟨r, -, rfl⟩ := Option.map_eq_some_iff.mp h
    exact ⟨_, rfl⟩

theorem fillCow_some (h : fillCow m pd v = some x) : ∃ e, x.2 = pd.setPte v e := by
  unfold fillCow at h
  dsimp only at h
  split at h
  · obtain rfl := Option.some.inj h
    exact ⟨_, rfl⟩
  · obtain ⟨r, -, rfl⟩ := Option.map_eq_some_iff.mp h
    exact ⟨_, rfl⟩

/-- A step that kills the task leaves the directory. -/
theorem Faulted.orKill {o : Option (Mm × PageDir)} (h : ∀ x, o = some x → Faulted m pd v err x.2) :
    Faulted m pd v err (orKill (m, pd) o).1.2 := by
  rcases o with - | x
  · exact .same
  · exact h x rfl

theorem Faulted.growStack (hst : inStack v = true) :
    Faulted m pd v err (CactKernel.orKill (m, pd) (growStack m pd v)).1.2 := by
  refine .orKill fun x hx => ?_
  obtain ⟨r, -, rfl⟩ := Option.map_eq_some_iff.mp hx
  exact .grown hst

theorem handleMissing_faulted (hp : err.present = false) (ioOut ioIn : Bool) :
    Faulted m pd v err (handleMissing m pd v ioOut ioIn).1.2 := by
  unfold handleMissing
  dsimp only
  split
  · exact .swapped
  next hswap =>
  split
  · next hd =>
    refine .orKill fun x hx => ?_
    obtain ⟨r, -, rfl⟩ := Option.map_eq_some_iff.mp hx
    exact .filled hp (by simpa [hd.1] using hswap) (Or.inl hd.2)
  split
  · next hc =>
    refine .orKill fun x hx => ?_
    obtain ⟨e, he⟩ := fillCow_some hx
    rw [he]
    exact .filled hp (by simpa [hc.1] using hswap) (Or.inr hc.2)
  split
  · next hst => exact .growStack hst.1
  · exact .same

theorem handleDenied_faulted (hp : err.present = true) :
    Faulted m pd v err (handleDenied m pd v err.write err.user).1.2 := by
  unfold handleDenied
  dsimp only
  split
  · next hw =>
    rcases hc : handleCow m pd v with - | x
    · dsimp only
      split
      · next hst => exact .growStack hst.2.1
      · exact .same
    · obtain ⟨hcow, e, he⟩ := handleCow_some hc
      rw [he]
      exact .owned hp hw hcow
  · split
    · next hst => exact .growStack hst.2.1
    · exact .same

theorem pageFaultHandler_faulted (m : Mm) (pd : PageDir) (v : Nat) (err : FaultErr) (ioOut ioIn : Bool) :
    Faulted m pd v err (pageFaultHandler m pd v err ioOut ioIn).1.2 := by
  unfold pageFaultHandler
  split
  · next hp => exact handleDenied_faulted hp
  · next hp => exact handleMissing_faulted (Bool.not_eq_true _ ▸ hp) ioOut ioIn

end Cases

/-! ### User accesses -/

/-- The page `v` can be read (written, if `write`) from ring 3: the slot and
the entry both allow it. -/
def Accessible (pd : PageDir) (v : Nat) (write : Bool) : Prop :=
  (pd.pde (pdIndex v)).user = true ∧ (pd.pte v).IsUser ∧
    (write = true → (pd.pde (pdIndex v)).rw = true ∧ (pd.pte v).rw = true)
deriving Decidable

/-- The error code of an access from ring 3 that was refused. -/
def accessErr (pd : PageDir) (v : Nat) (write : Bool) : FaultErr :=
  ⟨(pd.pde (pdIndex v)).isPresent && (pd.pte v).present, write, true⟩

end CactKernel
