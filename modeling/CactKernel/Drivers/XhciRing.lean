/-
CactKernel/Drivers/XhciRing.lean

The producer rings of the xHCI driver (`drivers/usb/xhci/xhci_ring.c`).

Who owns a TRB is said by its cycle bit: the driver writes the bit of its lap, and
the controller reads on as long as it finds the bit of its own.  Both change laps at
the link TRB, the last slot.  `XhciSys` is a ring with its controller; `accepted`
and `consumed` record the TRBs that went in and came out, and `retired` how many had
gone in when `dequeue` moved last.

A completion moves `dequeue` to `enqueue`, whatever it completes.  If the controller
has not come so far, as after the event for a short data stage, later TRBs go over
some that it has not read.  **Main result** `ring_feeds`.
-/
import CactKernel.Lib.Ring
import CactKernel.Lib.Run

namespace CactKernel

open Function Runs

/-- `xhci_trb_t` without the cycle bit of `control`. -/
structure XhciTrb where
  paramLo : UInt32
  paramHi : UInt32
  status : UInt32
  control : UInt32
deriving DecidableEq

structure XhciRing where
  /-- The slots for data, with their cycle bits. -/
  ring : Nat → XhciTrb × Bool
  /-- The last slot. -/
  link : XhciTrb × Bool
  enqueue : Nat
  dequeue : Nat
  cycle : Bool
  size : Nat

namespace XhciRing

/-- `xhci_ring_init`; `pa` is the address of the ring. -/
def init (size : Nat) (pa : UInt32) : XhciRing :=
  ⟨fun _ => (⟨0, 0, 0, 0⟩, false), (⟨pa, 0, 0, 0x1802⟩, true), 0, 0, true, size⟩

variable (r : XhciRing)

def slots : Nat := r.size - 1

/-- The slot behind `enqueue`. -/
def next : Nat := if r.slots ≤ r.enqueue + 1 then 0 else r.enqueue + 1

/-- `xhci_ring_enqueue`. -/
def put (trb : XhciTrb) : Option XhciRing :=
  if r.next ≠ r.dequeue then
    some { r with
      ring := update r.ring r.enqueue (trb, r.cycle)
      enqueue := r.next
      link := (r.link.1, if r.next = 0 then r.cycle else r.link.2)
      cycle := if r.next = 0 then !r.cycle else r.cycle }
  else none

end XhciRing

structure XhciSys where
  prod : XhciRing
  /-- Where the controller reads, and its cycle state. -/
  pos : Nat
  ccs : Bool
  /-- Events the driver has not processed yet. -/
  posted : Nat
  accepted : List XhciTrb
  consumed : List XhciTrb
  retired : Nat

namespace XhciSys

def start (size : Nat) (pa : UInt32) : XhciSys := ⟨.init size pa, 0, true, 0, [], [], 0⟩

variable (s : XhciSys)

/-- The controller follows the link and changes its cycle state. -/
def follow : Option XhciSys :=
  if s.pos = s.prod.slots ∧ s.prod.link.2 = s.ccs then some { s with pos := 0, ccs := !s.ccs } else none

/-- The TRB the controller is at, if it is its turn. -/
def fetch : Option XhciTrb :=
  if s.pos ≠ s.prod.slots ∧ (s.prod.ring s.pos).2 = s.ccs then some (s.prod.ring s.pos).1 else none

/-- Everything up to `enqueue` is taken for consumed. -/
def retire : XhciSys :=
  { s with
    prod := { s.prod with dequeue := s.prod.enqueue }
    retired := s.accepted.length }

inductive Event where
  | enqueue (trb : XhciTrb)
  | follow
  /-- The controller consumes a TRB and may post an event. -/
  | consume (post : Bool)
  /-- `xhci_process_event` for a transfer; re-arming an endpoint is an `enqueue` behind it. -/
  | complete
  /-- `xhci_cmd_retire`, also after a timeout. -/
  | cmdRetire

def step : Event → Option XhciSys
  | .enqueue trb =>
    some ((s.prod.put trb).elim s fun r => { s with prod := r, accepted := s.accepted ++ [trb] })
  | .follow => s.follow
  | .consume post => s.fetch.map fun trb =>
    { s with
      pos := s.pos + 1
      posted := if post then s.posted + 1 else s.posted
      consumed := s.consumed ++ [trb] }
  | .complete => if 0 < s.posted then some { s.retire with posted := s.posted - 1 } else none
  | .cmdRetire => some s.retire

/-- What the controller has to find. -/
structure Feeds (s : XhciSys) : Prop where
  order : s.consumed <+: s.accepted
  /-- Nothing is overwritten before it is consumed. -/
  kept : ∀ i trb, s.consumed.length ≤ i → s.accepted[i]? = some trb → (s.prod.ring (i % s.prod.slots)).1 = trb
  /-- It goes on with the TRB behind those it has consumed. -/
  goesOn : (s.follow.getD s).fetch = s.accepted[s.consumed.length]?
  /-- A TRB is refused when all slots but two are outstanding: accepted since `dequeue` moved last. -/
  refused : ∀ trb, s.prod.put trb = none → s.accepted.length - s.retired = s.prod.size - 2

/-- A completion is processed when the controller has consumed everything. -/
def Clean (s : XhciSys) : Event → Prop
  | .complete | .cmdRetire => s.consumed.length = s.accepted.length
  | _ => True

instance decidableXhciClean (s : XhciSys) (e : Event) : Decidable (s.Clean e) := by
  cases e <;> unfold Clean <;> infer_instance

/-! ### Laps -/

section Lap

variable {m i j : Nat}

/-- The cycle bit of the TRB number `i` in a ring of `m` slots. -/
def lap (m i : Nat) : Bool := i / m % 2 = 0

theorem lap_add (hm : 0 < m) : lap m (i + m) = !lap m i := by
  unfold lap
  rw [Nat.add_div_right _ hm, ← decide_not]
  exact decide_eq_decide.mpr (by omega)

theorem lap_succ : lap m (i + 1) = if (i + 1) % m = 0 then !lap m i else lap m i := by
  unfold lap
  rw [Nat.succ_div, ← decide_not]
  simp only [Nat.dvd_iff_mod_eq_zero]
  split
  · exact decide_eq_decide.mpr (by omega)
  · rfl

theorem lap_of_lt (hi : i % m = 0) (hij : i ≤ j) (hj : j < i + m) : lap m j = lap m i := by
  obtain ⟨k, rfl⟩ := Nat.dvd_of_mod_eq_zero hi
  unfold lap
  rw [Nat.mul_div_cancel_left _ (by omega), Nat.div_eq_of_lt_le (by rwa [Nat.mul_comm])
    (by rwa [Nat.mul_comm])]

/-- Numbers less than a lap apart have different slots. -/
theorem slot_ne (hne : i ≠ j) (h₁ : i < j + m) (h₂ : j < i + m) : i % m ≠ j % m := by
  rw [← Nat.zero_add i, ← Nat.zero_add j]
  rcases Nat.lt_or_gt_of_ne hne with hlt | hgt
  · exact Ring.mod_ne_of_lt hlt (by omega)
  · exact (Ring.mod_ne_of_lt hgt (by omega)).symm

/-- The slots after the TRBs `acc`: those of the last lap, and the bits of the lap before in the
slots that come next. -/
structure Laid (m : Nat) (acc : List XhciTrb) (ring : Nat → XhciTrb × Bool) : Prop where
  kept : ∀ i trb, acc.length < i + m → acc[i]? = some trb → ring (i % m) = (trb, lap m i)
  ahead : ∀ i, acc.length ≤ i → i < acc.length + m → (ring (i % m)).2 = !lap m i

theorem Laid.push {acc : List XhciTrb} {ring : Nat → XhciTrb × Bool} {trb : XhciTrb} (h : Laid m acc ring)
    (hm : 0 < m) : Laid m (acc ++ [trb]) (update ring (acc.length % m) (trb, lap m acc.length)) := by
  have hlen : (acc ++ [trb]).length = acc.length + 1 := List.length_append
  refine ⟨fun i t hi ht => ?_, fun i hi hlt => ?_⟩
  · rw [hlen] at hi
    rcases Nat.lt_or_ge i acc.length with hin | hin
    · rw [List.getElem?_append_left hin] at ht
      rw [update_of_ne (slot_ne (by omega) (by omega) (by omega))]
      exact h.kept i t (by omega) ht
    · have hi := (List.getElem?_eq_some_iff.mp ht).1
      obtain rfl : i = acc.length := by omega
      rw [List.getElem?_concat_length] at ht
      obtain rfl := Option.some.inj ht
      exact update_self ..
  · rw [hlen] at hi hlt
    rcases Nat.lt_or_ge i (acc.length + m) with hin | hin
    · rw [update_of_ne (slot_ne (by omega) (by omega) (by omega))]
      exact h.ahead i (by omega) hin
    · obtain rfl : i = acc.length + m := by omega
      rw [Nat.add_mod_right, update_self, lap_add hm, Bool.not_not]

end Lap

variable {s s' : XhciSys} {e : Event}

/-- With the numbers of the TRBs that went in, came out and were retired, the positions and bits
are those of a lap. -/
structure Inv (s : XhciSys) : Prop where
  size : 2 ≤ s.prod.slots
  enqueue : s.prod.enqueue = s.accepted.length % s.prod.slots
  cycle : s.prod.cycle = lap s.prod.slots s.accepted.length
  dequeue : s.prod.dequeue = s.retired % s.prod.slots
  retired : s.retired ≤ s.consumed.length
  full : s.accepted.length < s.retired + s.prod.slots
  order : s.consumed <+: s.accepted
  laid : Laid s.prod.slots s.accepted s.prod.ring
  link : s.prod.slots ≤ s.accepted.length → s.prod.link.2 = !lap s.prod.slots s.accepted.length
  pos : s.pos = s.consumed.length % s.prod.slots ∧ s.ccs = lap s.prod.slots s.consumed.length ∨
    s.pos = s.prod.slots ∧ s.consumed.length % s.prod.slots = 0 ∧ 0 < s.consumed.length ∧
      s.ccs = !lap s.prod.slots s.consumed.length

theorem start_inv {size : Nat} {pa : UInt32} (h : 3 ≤ size) : (start size pa).Inv where
  size := Nat.le_sub_of_add_le h
  enqueue := (Nat.zero_mod _).symm
  cycle := by simp [lap, start, XhciRing.init]
  dequeue := (Nat.zero_mod _).symm
  retired := Nat.le_refl 0
  full := by show 0 < 0 + (size - 1); omega
  order := List.prefix_refl _
  laid := ⟨nofun, fun i _ hi => by
    rw [lap, Nat.div_eq_of_lt (by rwa [← Nat.zero_add (XhciRing.slots _)])]
    rfl⟩
  link hno := by
    have hno : size - 1 ≤ 0 := hno
    omega
  pos := Or.inl ⟨(Nat.zero_mod _).symm, by simp [lap, start]⟩

section

variable (h : s.Inv) {trb : XhciTrb} {k : Nat}
include h

theorem Inv.slots_pos : 0 < s.prod.slots := Nat.lt_of_lt_of_le Nat.two_pos h.size

theorem Inv.next_eq : s.prod.next = (s.accepted.length + 1) % s.prod.slots := by
  have hlt := Nat.mod_lt s.accepted.length h.slots_pos
  rw [← Nat.mod_add_mod, Ring.succ_mod hlt, XhciRing.next, h.enqueue]
  split_ifs <;> omega

/-- **An enqueue** writes the slot behind the last one. -/
theorem Inv.put {r : XhciRing} (hput : s.prod.put trb = some r) :
    { s with prod := r, accepted := s.accepted ++ [trb] }.Inv := by
  obtain ⟨hroom, rfl⟩ := of_guard hput
  rw [h.next_eq, h.dequeue] at hroom
  rw [h.next_eq, h.cycle, h.enqueue]
  have hlen : (s.accepted ++ [trb]).length = s.accepted.length + 1 := List.length_append
  refine
    { h with
      enqueue := by rw [hlen]; rfl
      cycle := by rw [hlen, lap_succ]; rfl
      full := ?_
      order := h.order.trans (List.prefix_append _ _)
      laid := h.laid.push h.slots_pos
      link := fun hle => ?_ }
  · -- the slot behind is not the one of `dequeue`
    rw [hlen]
    refine Nat.lt_of_le_of_ne h.full fun heq => hroom ?_
    have heq : s.accepted.length + 1 = s.retired + s.prod.slots := heq
    rw [heq, Nat.add_mod_right]
  · rw [hlen] at hle ⊢
    have hle : s.prod.slots ≤ s.accepted.length + 1 := hle
    show (if _ then _ else _) = !lap s.prod.slots _
    rw [lap_succ]
    split_ifs with hwrap
    · rw [Bool.not_not]
    · refine h.link (Nat.le_of_lt_succ (Nat.lt_of_le_of_ne hle fun heq => hwrap ?_))
      rw [← Nat.succ_eq_add_one, ← heq, Nat.mod_self]

/-- The controller finds the bit of its lap on what was enqueued and on nothing else. -/
theorem Inv.fetch_eq (hpos : s.pos = s.consumed.length % s.prod.slots)
    (hccs : s.ccs = lap s.prod.slots s.consumed.length) : s.fetch = s.accepted[s.consumed.length]? := by
  have hlt : s.pos < s.prod.slots := hpos ▸ Nat.mod_lt _ h.slots_pos
  have hle := h.order.length_le
  have hfull := h.full
  have hret := h.retired
  unfold fetch
  rw [hpos, hccs]
  cases htrb : s.accepted[s.consumed.length]? with
  | none =>
    rw [h.laid.ahead _ (List.getElem?_eq_none_iff.mp htrb) (by omega)]
    simp
  | some trb =>
    rw [h.laid.kept _ trb (by omega) htrb]
    exact if_pos ⟨by omega, rfl⟩

/-- **A TRB is consumed.** -/
theorem Inv.consume (hf : s.fetch = some trb) :
    { s with pos := s.pos + 1, posted := k, consumed := s.consumed ++ [trb] }.Inv := by
  have hlt := Nat.mod_lt s.consumed.length h.slots_pos
  obtain ⟨hpos, hccs⟩ := h.pos.resolve_right fun hno => by simp [fetch, hno.1] at hf
  rw [h.fetch_eq hpos hccs] at hf
  have hlen : (s.consumed ++ [trb]).length = s.consumed.length + 1 := List.length_append
  have hmod : (s.consumed.length + 1) % s.prod.slots = if s.pos + 1 = s.prod.slots then 0 else s.pos + 1 := by
    rw [← Nat.mod_add_mod, Ring.succ_mod hlt, hpos]
  refine
    { h with
      retired := by rw [hlen]; exact Nat.le_succ_of_le h.retired
      order := ?_
      pos := ?_ }
  · rw [List.prefix_iff_eq_take, hlen, List.take_add_one, hf, ← List.prefix_iff_eq_take.mp h.order]
    rfl
  · rw [hlen, lap_succ]
    show s.pos + 1 = _ % s.prod.slots ∧ s.ccs = _ ∨ s.pos + 1 = s.prod.slots ∧ _ % s.prod.slots = 0 ∧ _ ∧ s.ccs = _
    rw [hmod, hccs]
    by_cases hend : s.pos + 1 = s.prod.slots
    · exact Or.inr ⟨hend, if_pos hend, Nat.succ_pos _, by simp [hend]⟩
    · exact Or.inl ⟨(if_neg hend).symm, by simp [hend]⟩

/-- **The link** leads the controller into its next lap. -/
theorem Inv.follow (hs : s.follow = some s') : s'.Inv := by
  obtain ⟨⟨hat, -⟩, rfl⟩ := of_guard hs
  rcases h.pos with ⟨hpos, -⟩ | ⟨-, hmod, -, hccs⟩
  · have hlt := Nat.mod_lt s.consumed.length h.slots_pos
    omega
  · refine { h with pos := Or.inl ⟨hmod.symm, ?_⟩ }
    show (!s.ccs) = _
    rw [hccs, Bool.not_not]

theorem Inv.retire (hall : s.consumed.length = s.accepted.length) :
    { s.retire with posted := k }.Inv :=
  { h with
    dequeue := h.enqueue
    retired := Nat.le_of_eq hall.symm
    full := Nat.lt_add_of_pos_right h.slots_pos }

theorem Inv.step (hc : s.Clean e) (hs : s.step e = some s') : s'.Inv := by
  cases e with
  | enqueue trb =>
    obtain rfl := Option.some.inj hs
    cases hput : s.prod.put trb with
    | none => exact h
    | some r => exact h.put hput
  | follow => exact h.follow hs
  | consume post =>
    obtain ⟨trb, hf, rfl⟩ := Option.map_eq_some_iff.mp hs
    exact h.consume hf
  | complete =>
    obtain ⟨-, rfl⟩ := of_guard hs
    exact h.retire hc
  | cmdRetire =>
    obtain rfl := Option.some.inj hs
    exact h.retire (k := s.posted) hc

theorem Inv.feeds : s.Feeds := by
  have hle := h.order.length_le
  have hfull := h.full
  have hret := h.retired
  refine ⟨h.order, fun i trb hi ht => ?_, ?_, fun trb hput => ?_⟩
  · rw [h.laid.kept i trb (by omega) ht]
  · rcases h.pos with ⟨hpos, hccs⟩ | ⟨hpos, hmod, hsome, hccs⟩
    · have hlt := Nat.mod_lt s.consumed.length h.slots_pos
      rw [XhciSys.follow, if_neg (by omega)]
      exact h.fetch_eq hpos hccs
    · -- the link has the bit of the lap it ends
      have hlap := Nat.le_of_dvd hsome (Nat.dvd_of_mod_eq_zero hmod)
      have hbit : s.prod.link.2 = s.ccs := by
        rw [h.link (by omega), hccs, lap_of_lt hmod hle (by omega)]
      have hf : s.follow = some { s with pos := 0, ccs := !s.ccs } := if_pos ⟨hpos, hbit⟩
      rw [hf]
      exact (h.follow hf).fetch_eq hmod.symm (by rw [hccs, Bool.not_not])
  · have hnext : s.prod.next = s.prod.dequeue := by
      by_contra hno
      rw [XhciRing.put, if_pos hno] at hput
      exact nomatch hput
    rw [h.next_eq, h.dequeue] at hnext
    have hgap : s.accepted.length + 1 = s.retired + s.prod.slots := by
      by_contra hne
      exact slot_ne (by omega) (by omega) (by omega) hnext
    have hsize : s.prod.slots = s.prod.size - 1 := rfl
    omega

end

/-- **Main result.**  In every run of a ring of at least three slots in which completions are
processed when the controller has consumed all that was enqueued, the controller gets what
was enqueued, in every state reached. -/
theorem ring_feeds {size : Nat} {pa : UInt32} {es : List Event} {s : XhciSys} (hsize : 3 ≤ size)
    (hclean : MeetsAll step Clean (start size pa) es) (hrun : run step (start size pa) es = some s) :
    s.Feeds :=
  (run_invariant Inv.step (start_inv hsize) hclean hrun).feeds

def trb (n : UInt32) : XhciTrb := ⟨n, 0, 0, 0⟩

/-- Around the ring, with a completion after each pair. -/
theorem ring_feeds_wrap : ∃ s, run step (start 4 0) [.enqueue (trb 1), .enqueue (trb 2), .consume false,
      .consume true, .complete, .enqueue (trb 3), .enqueue (trb 4), .enqueue (trb 5), .consume false, .follow,
      .consume true] = some s ∧ s.Feeds ∧ s.consumed = [trb 1, trb 2, trb 3, trb 4] ∧ s.accepted = s.consumed :=
  exists_of_check (by decide +kernel) fun _ hs hview => ⟨ring_feeds (by decide) (by decide +kernel) hs, hview⟩

/-- The first TRB of each pair posts an event: the sixth TRB goes over the third. -/
theorem ring_overwrites : ∃ s, run step (start 4 0) [.enqueue (trb 1), .enqueue (trb 2), .consume true,
      .complete, .enqueue (trb 3), .enqueue (trb 4), .consume true, .complete, .enqueue (trb 5),
      .enqueue (trb 6)] = some s ∧ ¬s.Feeds := by
  refine exists_of_check (p := fun s => s.consumed.length = 2 ∧ s.accepted[2]? = some (trb 3) ∧
    (s.prod.ring (2 % s.prod.slots)).1 ≠ trb 3) (by decide +kernel) fun s _ hv h => ?_
  obtain ⟨hcons, hacc, hover⟩ := hv
  exact hover (h.kept 2 _ (Nat.le_of_eq hcons) hacc)

end XhciSys

end CactKernel
