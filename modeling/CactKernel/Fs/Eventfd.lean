/-
CactKernel/Fs/Eventfd.lean

Event counters (`fs/eventfd/eventfd.c`).

`EventfdSys` is a counter in use: the 64-bit counter with its two flags, the
calls in their loops, and the sums of what came in and went out.  `onRead`,
`onWrite` and `eventfdNodeSignal` are the sections under the mutex.  A read
that finds zero and a write that does not fit leave the section, call
`schedule` and come back for another pass.
-/
import CactKernel.Lib.Run
import Mathlib.Algebra.Group.Nat.Defs

namespace CactKernel

open Function Runs

/-- `EVENTFD_MAX_COUNTER`. -/
def eventfdMaxCounter : UInt64 := ~~~0 - 1

inductive EventfdCall where
  /-- The last call returned `value`. -/
  | idle (value : Int)
  | reading
  /-- The value of all ones is refused before the loop. -/
  | writing (add : { n : UInt64 // n ≠ ~~~0 })

structure EventfdSys where
  counter : UInt64
  /-- `flags & CACT_EFD_SEMAPHORE`. -/
  semaphore : Bool
  /-- `flags & CACT_EFD_NONBLOCK`. -/
  nonblock : Bool
  call : Nat → EventfdCall
  /-- What accepted writes and signals added, and the values that reads returned. -/
  accepted : Nat
  raised : Nat
  returned : Nat

namespace EventfdSys

/-- `eventfd_create_vnode`. -/
def created (initval : UInt32) (semaphore nonblock : Bool) : EventfdSys :=
  ⟨initval.toUInt64, semaphore, nonblock, fun _ => .idle 0, 0, 0, 0⟩

def setCall (s : EventfdSys) (t : Nat) (c : EventfdCall) : EventfdSys := { s with call := update s.call t c }

/-- A read returns the value `v`, which leaves the counter at `c`. -/
def took (s : EventfdSys) (t : Nat) (v c : UInt64) : EventfdSys :=
  { s with counter := c, returned := s.returned + v.toNat }.setCall t (.idle 8)

/-- A pass of the loop of `_eventfd_read`. -/
def onRead (s : EventfdSys) (t : Nat) : EventfdSys :=
  if 0 < s.counter then
    if s.semaphore then s.took t 1 (s.counter - 1) else s.took t s.counter 0
  else if s.nonblock then s.setCall t (.idle (-11))
  else s

/-- A write of `add` is accepted. -/
def added (s : EventfdSys) (t : Nat) (add : UInt64) : EventfdSys :=
  { s with counter := s.counter + add, accepted := s.accepted + add.toNat }.setCall t (.idle 8)

/-- A pass of the loop of `_eventfd_write`. -/
def onWrite (s : EventfdSys) (t : Nat) (add : UInt64) : EventfdSys :=
  if s.counter ≤ eventfdMaxCounter - add then s.added t add
  else if s.nonblock then s.setCall t (.idle (-11))
  else s

/-- The state after `eventfd_node_signal`, and what it returns. -/
def eventfdNodeSignal (s : EventfdSys) (n : UInt64) : EventfdSys × Int :=
  if n = ~~~0 then (s, -22)
  else
    let c := if s.counter ≤ eventfdMaxCounter - n then s.counter + n else eventfdMaxCounter
    ({ s with counter := c, raised := s.raised + (c.toNat - s.counter.toNat) }, 0)

inductive Event where
  | read (t size : Nat)
  | write (t size : Nat) (add : UInt64)
  /-- Task `t` takes the mutex for its next pass. -/
  | turn (t : Nat)
  | signal (n : UInt64)

def step (s : EventfdSys) (ev : Event) : Option EventfdSys :=
  match ev with
  | .read t size =>
    match s.call t with
    | .idle _ => some (s.setCall t (if size < 8 then .idle (-22) else .reading))
    | _ => none
  | .write t size add =>
    match s.call t with
    | .idle _ =>
      some (s.setCall t
        (if h : size < 8 ∨ add = ~~~0 then .idle (-22) else .writing ⟨add, (not_or.mp h).2⟩))
    | _ => none
  | .turn t =>
    match s.call t with
    | .idle _ => none
    | .reading => some (s.onRead t)
    | .writing add => some (s.onWrite t add)
  | .signal n => some (s.eventfdNodeSignal n).1

/-- The count is in range, and it is what came in less what went out. -/
def Conserved (initval : UInt32) (s : EventfdSys) : Prop :=
  s.counter.toNat ≤ 2 ^ 64 - 2 ∧ s.counter.toNat + s.returned = initval.toNat + s.accepted + s.raised

variable {initval : UInt32} {s s' : EventfdSys} {n : UInt64}

/-- The subtraction does not wrap, so the test is the one on the sum. -/
theorem fits_iff (c : UInt64) (h : n ≠ ~~~0) :
    c ≤ eventfdMaxCounter - n ↔ c.toNat + n.toNat ≤ 2 ^ 64 - 2 := by
  have hlt := n.toNat_lt
  have hne : n.toNat ≠ 2 ^ 64 - 1 := fun he => h (UInt64.toNat_inj.mp he)
  have hmax : eventfdMaxCounter.toNat = 2 ^ 64 - 2 := rfl
  have hle : n ≤ eventfdMaxCounter := UInt64.le_iff_toNat_le.mpr (by omega)
  rw [UInt64.le_iff_toNat_le, UInt64.toNat_sub_of_le _ _ hle]
  omega

theorem toNat_add_of_fits {c : UInt64} (h : c.toNat + n.toNat ≤ 2 ^ 64 - 2) :
    (c + n).toNat = c.toNat + n.toNat := by
  rw [UInt64.toNat_add]
  omega

/-- A signal adds `n`, or what is left below the largest count. -/
theorem toNat_signalled (h : n ≠ ~~~0) :
    (s.eventfdNodeSignal n).1.counter.toNat = min (s.counter.toNat + n.toNat) (2 ^ 64 - 2) := by
  simp only [eventfdNodeSignal, if_neg h, fits_iff s.counter h]
  split
  · next hfit => rw [toNat_add_of_fits hfit, Nat.min_eq_left hfit]
  · exact (Nat.min_eq_right (show 2 ^ 64 - 2 ≤ _ by omega)).symm

theorem Conserved.onRead (h : Conserved initval s) (t : Nat) : Conserved initval (s.onRead t) := by
  obtain ⟨hb, hbal⟩ := h
  unfold EventfdSys.onRead
  split
  · next hpos =>
    have hpos : 1 ≤ s.counter.toNat := UInt64.lt_iff_toNat_lt.mp hpos
    have hsub : (s.counter - 1).toNat = s.counter.toNat - 1 :=
      UInt64.toNat_sub_of_le _ _ (UInt64.le_iff_toNat_le.mpr hpos)
    split <;> simp only [Conserved, took, setCall, UInt64.toNat_one, UInt64.toNat_zero] <;> omega
  · split <;> exact ⟨hb, hbal⟩

/-- A pass of a write that fits completes it; another one fails at once or changes nothing. -/
theorem onWrite_eq (t : Nat) (hn : n ≠ ~~~0) :
    s.onWrite t n = if s.counter.toNat + n.toNat ≤ 2 ^ 64 - 2 then s.added t n
      else if s.nonblock then s.setCall t (.idle (-11)) else s := by
  simp only [onWrite, fits_iff _ hn]

section

variable (h : Conserved initval s)
include h

theorem Conserved.onWrite (t : Nat) (hn : n ≠ ~~~0) :
    Conserved initval (s.onWrite t n) := by
  obtain ⟨hb, hbal⟩ := h
  rw [onWrite_eq t hn]
  split
  · next hfit =>
    simp only [Conserved, added, setCall, toNat_add_of_fits hfit]
    omega
  · split <;> exact ⟨hb, hbal⟩

theorem Conserved.signal (n : UInt64) :
    Conserved initval (s.eventfdNodeSignal n).1 := by
  obtain ⟨hb, hbal⟩ := h
  by_cases hn : n = ~~~0
  · rw [eventfdNodeSignal, if_pos hn]
    exact ⟨hb, hbal⟩
  · have hsum := toNat_signalled (s := s) hn
    simp only [Conserved, eventfdNodeSignal, if_neg hn] at hsum ⊢
    omega

theorem Conserved.step {ev : Event} (hs : s.step ev = some s') :
    Conserved initval s' := by
  cases ev with
  | read | write =>
    simp only [EventfdSys.step] at hs
    split at hs <;> cases hs
    exact h
  | turn t =>
    simp only [EventfdSys.step] at hs
    split at hs <;> cases hs
    · exact h.onRead t
    · next add _ => exact h.onWrite t add.2
  | signal n =>
    obtain rfl := Option.some.inj hs
    exact h.signal n

end

/-- **The count is conserved** in every run: it stays in range and is the
initial value with the accepted writes and signals, less the values read.  A
write that waits completes in its first pass in which the value fits, and
until then changes nothing.  A signal is refused for the value of all ones;
any other one does not lower the count, and does not leave it at zero. -/
theorem eventfd_conserves (initval : UInt32) (semaphore nonblock : Bool) (es : List Event) (s : EventfdSys)
    (hrun : run step (created initval semaphore nonblock) es = some s) :
    s.counter.toNat ≤ 2 ^ 64 - 2 ∧
    s.counter.toNat + s.returned = initval.toNat + s.accepted + s.raised ∧
    (∀ t add, s.call t = .writing add → s.step (.turn t) =
      if s.counter.toNat + add.1.toNat ≤ 2 ^ 64 - 2 then some (s.added t add)
      else if s.nonblock then some (s.setCall t (.idle (-11))) else some s) ∧
    ∀ n, if n = ~~~0 then s.eventfdNodeSignal n = (s, -22) else
      s.counter ≤ (s.eventfdNodeSignal n).1.counter ∧ (0 < n → 0 < (s.eventfdNodeSignal n).1.counter) := by
  have hinit := initval.toNat_lt
  obtain ⟨hb, hbal⟩ : Conserved initval s := run_invariant (fun h _ hs => h.step hs)
    ⟨by simp only [created, UInt32.toNat_toUInt64]; omega, rfl⟩ (meetsAll_true _ es) hrun
  refine ⟨hb, hbal, fun t add hcall => ?_, fun n => ?_⟩
  · simp only [EventfdSys.step, hcall, onWrite_eq t add.2, apply_ite some]
  · split
    · next hn => rw [eventfdNodeSignal, if_pos hn]
    · next hn =>
      have hsum := toNat_signalled (s := s) hn
      simp only [UInt64.le_iff_toNat_le, UInt64.lt_iff_toNat_lt, UInt64.toNat_zero]
      omega

/-- A write on top of the largest count waits until a read makes room for it. -/
theorem waiting_write_completes :
    ∃ s, run step (created 0 false false)
        [.write 0 8 (~~~0 - 1), .turn 0, .write 1 8 5, .turn 1, .read 0 8, .turn 0, .turn 1] = some s ∧
      s.counter = 5 ∧ s.counter.toNat + s.returned = 0 + s.accepted + s.raised :=
  exists_of_check (p := fun s => s.counter = 5) (by decide +kernel) fun s hs hc =>
    ⟨hc, (eventfd_conserves 0 false false _ s hs).2.1⟩

/-- A signal of all ones is above zero and leaves the count at zero. -/
theorem signal_refused : (0 : UInt64) < ~~~0 ∧
    ((created 0 false false).eventfdNodeSignal (~~~0)).1.counter = 0 := by
  decide

end EventfdSys

end CactKernel
