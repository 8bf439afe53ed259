/-
CactKernel/Net/RxQueue.lean

The receive path of the stack (`net/rust_net/src/stack.rs`).

`stack_enqueue_rx` puts frames of the NIC into the ring `rx`; the TX token stages
loopback frames in the ring `lo`; `receive` moves these to `rx` and hands the stack
the first frame of `rx`, which the stack reads in its slot until it calls `receive`
again.  `rx_head` has passed that slot by then.  What keeps the producers off it is
the slot that the full test leaves free (`push_slot`).

`accepted`, `staged` and `delivered` record the frames that went in and came out.
**Main result** `rx_fifo`.
-/
import CactKernel.Lib.Ring
import CactKernel.Lib.Run

namespace CactKernel

open Function Runs Ring

def phyMtu : Nat := 1536
def rxQueueLen : Nat := 8

/-! ### The rings -/

/-- A ring of frames; a slot holds the bytes of a frame up to its length. -/
structure FrameRing (α : Type) where
  slot : Nat → α
  head : Nat
  tail : Nat
  dropped : BitVec 32

namespace FrameRing

variable {α : Type} {r : FrameRing α} {f : α} {p : Nat}

def new (z : α) : FrameRing α := ⟨fun _ => z, 0, 0, 0⟩

/-- One slot is left free. -/
def full (r : FrameRing α) : Bool := (r.tail + 1) % rxQueueLen = r.head

/-- Into a full ring a frame is only counted. -/
def push (r : FrameRing α) (f : α) : FrameRing α :=
  if r.full then { r with dropped := r.dropped + 1 }
  else { r with slot := update r.slot r.tail f, tail := (r.tail + 1) % rxQueueLen }

def pop (r : FrameRing α) : FrameRing α := { r with head := (r.head + 1) % rxQueueLen }

/-- The frames in the ring, from the head on. -/
def frames (r : FrameRing α) : List α := window rxQueueLen r.slot r.head (span rxQueueLen r.head r.tail)

/-- The positions are slots. -/
structure Ok (r : FrameRing α) : Prop where
  head : r.head < rxQueueLen
  tail : r.tail < rxQueueLen

theorem frames_nil (h : r.Ok) (he : r.head = r.tail) : r.frames = [] :=
  (window_eq_nil h.head h.tail).mpr he

/-- A full ring has a frame in every slot but one. -/
theorem full_length (h : r.Ok) (hf : r.full = true) : r.frames.length = rxQueueLen - 1 := by
  have hf := of_decide_eq_true hf
  obtain ⟨hh, ht⟩ := h
  unfold frames
  rw [window_length, span_eq hh ht]
  rw [succ_mod ht] at hf
  split_ifs at hf ⊢ <;> omega

theorem push_ok (h : r.Ok) : (r.push f).Ok := by
  unfold push
  split
  · exact ⟨h.head, h.tail⟩
  · exact ⟨h.head, Nat.mod_lt _ (by decide)⟩

/-- A frame that is accepted is the last one. -/
theorem push_frames (h : r.Ok) (hf : r.full = false) : (r.push f).frames = r.frames ++ [f] := by
  unfold push
  rw [if_neg (Bool.eq_false_iff.mp hf)]
  exact window_push h.head h.tail (of_decide_eq_false hf)

/-- **The slot in front of the head** is left alone. -/
theorem push_slot (hp : (p + 1) % rxQueueLen = r.head) : (r.push f).slot p = r.slot p := by
  unfold push
  split
  · rfl
  · next hf =>
    refine update_of_ne ?_ ..
    rintro rfl
    exact hf (decide_eq_true hp)

theorem push_head : (r.push f).head = r.head := by
  unfold push
  split <;> rfl

theorem pop_ok (h : r.Ok) : r.pop.Ok := ⟨Nat.mod_lt _ (by decide), h.tail⟩

/-- The head is the first one. -/
theorem pop_frames (h : r.Ok) (hne : r.head ≠ r.tail) : r.frames = r.slot r.head :: r.pop.frames :=
  window_pop h.head h.tail hne

end FrameRing

/-! ### The device -/

/-- A frame of the ring `rx`, and where it came from. -/
inductive RxFrame where
  | nic (bytes : List UInt8)
  | looped (bytes : List UInt8)
deriving DecidableEq

namespace RxFrame

def nic? : RxFrame → Option (List UInt8)
  | .nic bytes => some bytes
  | .looped _ => none

def looped? : RxFrame → Option (List UInt8)
  | .nic _ => none
  | .looped bytes => some bytes

end RxFrame

open RxFrame

/-- The two rings, the frame that is read, and the records. -/
structure CactPhy where
  rx : FrameRing RxFrame
  lo : FrameRing (List UInt8)
  /-- The slot that the stack reads. -/
  held : Option Nat
  accepted : List (List UInt8)
  staged : List (List UInt8)
  delivered : List RxFrame

namespace CactPhy

def new : CactPhy := ⟨.new (.nic []), .new [], none, [], [], []⟩

/-- A frame of the NIC. -/
def stackEnqueueRx (s : CactPhy) (frame : List UInt8) (stackReady : Bool) : CactPhy :=
  if frame.length = 0 ∨ phyMtu < frame.length ∨ stackReady = false then s
  else
    { s with
      rx := s.rx.push (.nic frame)
      accepted := if s.rx.full then s.accepted else s.accepted ++ [frame] }

/-- The TX token has sent a frame to this host. -/
def pushLoopback (s : CactPhy) (frame : List UInt8) : CactPhy :=
  { s with
    lo := s.lo.push frame
    staged := if s.lo.full then s.staged else s.staged ++ [frame] }

/-- The loop of `receive`, which has at most as many passes as there are slots. -/
def reinject : Nat → CactPhy → CactPhy
  | 0, s => s
  | fuel + 1, s =>
    if s.lo.head = s.lo.tail ∨ s.rx.full then s
    else reinject fuel { s with rx := s.rx.push (.looped (s.lo.slot s.lo.head)), lo := s.lo.pop }

def receive (s : CactPhy) : CactPhy :=
  let s := s.reinject rxQueueLen
  if s.rx.head = s.rx.tail then { s with held := none }
  else
    { s with
      rx := s.rx.pop
      held := some s.rx.head
      delivered := s.delivered ++ [s.rx.slot s.rx.head] }

/-- A section under the lock of the stack. -/
inductive Event where
  | enqueue (frame : List UInt8) (stackReady : Bool)
  | loopback (frame : List UInt8)
  | receive

/-- A frame longer than the buffer of the TX token panics. -/
def step (s : CactPhy) : Event → Option CactPhy
  | .enqueue frame stackReady => some (s.stackEnqueueRx frame stackReady)
  | .loopback frame => if frame.length ≤ phyMtu then some (s.pushLoopback frame) else none
  | .receive => some s.receive

/-! ### The invariant -/

/-- No frame is lost, and none changes while it is read. -/
structure Inv (s : CactPhy) : Prop where
  rx : s.rx.Ok
  lo : s.lo.Ok
  nic : (s.delivered ++ s.rx.frames).filterMap nic? = s.accepted
  looped : (s.delivered ++ s.rx.frames).filterMap looped? ++ s.lo.frames = s.staged
  held : ∀ p ∈ s.held, (p + 1) % rxQueueLen = s.rx.head ∧ s.delivered.getLast? = some (s.rx.slot p)

variable {s s' : CactPhy} {e : Event} {fuel : Nat}

/-- A frame goes into `rx`, from the NIC or from the head of `lo`. -/
theorem Inv.pushRx {f : RxFrame} {lo : FrameRing (List UInt8)} {accepted : List (List UInt8)} (h : s.Inv)
    (hfull : s.rx.full = false) (hlo : lo.Ok) (hframes : [f].filterMap looped? ++ lo.frames = s.lo.frames)
    (hacc : s.accepted ++ [f].filterMap nic? = accepted) :
    Inv { s with rx := s.rx.push f, lo := lo, accepted := accepted } where
  rx := FrameRing.push_ok h.rx
  lo := hlo
  nic := by
    rw [FrameRing.push_frames h.rx hfull, ← List.append_assoc, List.filterMap_append, h.nic, hacc]
  looped := by
    rw [FrameRing.push_frames h.rx hfull, ← List.append_assoc, List.filterMap_append, List.append_assoc,
      hframes, h.looped]
  held p hp := by
    obtain ⟨hhead, hlast⟩ := h.held p hp
    exact ⟨hhead.trans FrameRing.push_head.symm, by rw [FrameRing.push_slot hhead, hlast]⟩

/-- The loop ends when `lo` is empty or `rx` is full. -/
theorem Inv.reinject (h : s.Inv) (hfuel : s.lo.frames.length < fuel) :
    (s.reinject fuel).Inv ∧
      ((s.reinject fuel).lo.head = (s.reinject fuel).lo.tail ∨ (s.reinject fuel).rx.full = true) := by
  fun_induction CactPhy.reinject with
  | case1 => exact absurd hfuel (Nat.not_lt_zero _)
  | case2 fuel s hstop => exact ⟨h, hstop⟩
  | case3 fuel s hgo ih =>
    rw [not_or, Bool.not_eq_true] at hgo
    have hpop := FrameRing.pop_frames h.lo hgo.1
    rw [hpop] at hfuel
    exact ih (h.pushRx hgo.2 (FrameRing.pop_ok h.lo) hpop.symm (List.append_nil _)) (Nat.lt_of_succ_lt_succ hfuel)

/-- **`receive`** hands out the first frame, if there is one in either ring. -/
theorem Inv.receive (h : s.Inv) : s.receive.Inv ∧ (s.receive.held = none →
    s.receive.delivered.filterMap nic? = s.receive.accepted ∧
      s.receive.delivered.filterMap looped? = s.receive.staged) := by
  have hlen : s.lo.frames.length < rxQueueLen := by
    rw [FrameRing.frames, window_length]
    exact Nat.mod_lt _ (by decide)
  obtain ⟨h, hend⟩ := h.reinject hlen
  unfold CactPhy.receive
  dsimp only
  generalize s.reinject rxQueueLen = s at h hend
  split
  · next he =>
    -- an empty ring is not full
    have hlo : s.lo.head = s.lo.tail := hend.resolve_right fun hf => by
      have := FrameRing.full_length h.rx hf
      rw [FrameRing.frames_nil h.rx he] at this
      cases this
    have hnic := h.nic
    have hlooped := h.looped
    rw [FrameRing.frames_nil h.rx he, List.append_nil] at hnic hlooped
    rw [FrameRing.frames_nil h.lo hlo, List.append_nil] at hlooped
    exact ⟨{ h with held := nofun }, fun _ => ⟨hnic, hlooped⟩⟩
  · next hne =>
    have hall : s.delivered ++ [s.rx.slot s.rx.head] ++ s.rx.pop.frames = s.delivered ++ s.rx.frames := by
      rw [List.append_assoc, List.singleton_append, ← FrameRing.pop_frames h.rx hne]
    refine ⟨⟨FrameRing.pop_ok h.rx, h.lo, hall ▸ h.nic, hall ▸ h.looped, fun p hp => ?_⟩, nofun⟩
    obtain rfl := Option.some.inj hp
    exact ⟨rfl, List.getLast?_concat⟩

/-- One section keeps the invariant. -/
theorem Inv.step (h : s.Inv) (hs : s.step e = some s') : s'.Inv := by
  cases e
  case enqueue frame stackReady =>
    obtain rfl := Option.some.inj hs
    unfold stackEnqueueRx
    split
    · exact h
    by_cases hfull : s.rx.full = true
    · rw [FrameRing.push, if_pos hfull, if_pos hfull]
      exact { h with rx := ⟨h.rx.head, h.rx.tail⟩ }
    · rw [if_neg hfull]
      exact h.pushRx (Bool.eq_false_iff.mpr hfull) h.lo rfl rfl
  case loopback frame =>
    obtain ⟨-, rfl⟩ := of_guard hs
    unfold pushLoopback
    by_cases hfull : s.lo.full = true
    · rw [FrameRing.push, if_pos hfull, if_pos hfull]
      exact { h with lo := ⟨h.lo.head, h.lo.tail⟩ }
    · rw [if_neg hfull]
      refine { h with lo := FrameRing.push_ok h.lo, looped := ?_ }
      rw [FrameRing.push_frames h.lo (Bool.eq_false_iff.mpr hfull), ← List.append_assoc, h.looped]
  case receive =>
    obtain rfl := Option.some.inj hs
    exact h.receive.1

/-- What the receive path guarantees. -/
structure Fifo (s : CactPhy) : Prop where
  /-- Of each kind, the frames delivered and then those that wait are those that were put in. -/
  nic : (s.delivered ++ s.rx.frames).filterMap nic? = s.accepted
  looped : (s.delivered ++ s.rx.frames).filterMap looped? ++ s.lo.frames = s.staged
  /-- `receive` comes back with nothing only when all of them have been delivered. -/
  drained : s.receive.held = none → s.receive.delivered.filterMap nic? = s.receive.accepted ∧
    s.receive.delivered.filterMap looped? = s.receive.staged
  /-- The slot that the stack reads still has the frame that it was handed. -/
  intact : ∀ p ∈ s.held, s.delivered.getLast? = some (s.rx.slot p)
  /-- A frame is dropped only if its ring is full. -/
  nicDrop : ∀ frame, 0 < frame.length → frame.length ≤ phyMtu →
    (s.stackEnqueueRx frame true).accepted = s.accepted ++ [frame] ∨ s.rx.frames.length = rxQueueLen - 1
  loopedDrop : ∀ frame, (s.pushLoopback frame).staged = s.staged ++ [frame] ∨
    s.lo.frames.length = rxQueueLen - 1

/-- **The receive path is a queue** for each of its two producers, and leaves the frame alone that
the stack reads. -/
theorem rx_fifo {es : List Event} (hrun : run step new es = some s) : s.Fifo := by
  have h : s.Inv := run_invariant (fun h _ hs => h.step hs)
    ⟨⟨by decide, by decide⟩, ⟨by decide, by decide⟩, rfl, rfl, fun _ hp => (by cases hp)⟩ (meetsAll_true _ _) hrun
  refine ⟨h.nic, h.looped, h.receive.2, fun p hp => (h.held p hp).2, fun frame hpos hle => ?_, fun frame => ?_⟩
  · unfold stackEnqueueRx
    rw [if_neg (by rintro (h | h | h) <;> first | omega | cases h)]
    by_cases hfull : s.rx.full = true
    · exact Or.inr (FrameRing.full_length h.rx hfull)
    · exact Or.inl (if_neg hfull)
  · by_cases hfull : s.lo.full = true
    · exact Or.inr (FrameRing.full_length h.lo hfull)
    · exact Or.inl (if_neg hfull)

/-- Eight frames fill the ring and the last one is dropped; while the first one is read, the next frame of
the NIC goes round the end of the ring. -/
def roundTheRing : List Event :=
  [1, 2, 3, 4, 5, 6, 7, 8].map (fun b => .enqueue [b] true) ++ [.receive, .loopback [9], .enqueue [10] true] ++
    List.replicate 8 .receive

theorem rx_fifo_round : ∃ s, run step new roundTheRing = some s ∧ s.Fifo ∧
    (s.delivered = [1, 2, 3, 4, 5, 6, 7, 10].map (fun b => .nic [b]) ++ [.looped [9]] ∧
      s.rx.dropped = 1 ∧ s.rx.tail = 1) :=
  exists_of_check (by decide +kernel) fun _ hs hview => ⟨rx_fifo hs, hview⟩

end CactPhy

end CactKernel
