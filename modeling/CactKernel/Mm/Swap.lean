/-
CactKernel/Mm/Swap.lean

The swap area (`fault/swap.rs`): slots, eviction by a clock over one
directory, and faulting a page back in.

The device is the array of slots; whether a transfer succeeds is an
argument (`io`).  A failed write gives its slot back, which leaves the
bitmap as it was, so a failed call changes nothing here.  The statistics
counters are left out.

The clock loop is bounded in the source (`max_iter`), and the bound is its
fuel.  Main results: what an eviction does (`swapEvictPage_spec`): it clears
accessed bits on its way, and either stops there or swaps out one present
user page; that two sweeps are enough to find one
(`clock_eviction_succeeds`); and what a fault-in does
(`swapHandleFault_spec`).
-/
import CactKernel.Mm.Vm

namespace CactKernel

open Function Runs

/-! ### Slots -/

/-- `bitmap_alloc`: the first free slot. -/
def bitmapAlloc (w : Swap) : Option (Nat × Swap) :=
  (scan w.bitmap 0 w.totalSlots).map fun i => (i, { w with bitmap := update w.bitmap i true })

/-- `bitmap_free`. -/
def bitmapFree (w : Swap) (slot : Nat) : Swap :=
  if w.totalSlots ≤ slot then w else { w with bitmap := update w.bitmap slot false }

/-- Write a frame to a fresh slot. -/
def swapOutPage (m : Mm) (f : Nat) (io : Bool) : Option (Nat × Mm) :=
  if m.swap.enabled = false ∨ io = false then none
  else (bitmapAlloc m.swap).map fun r =>
    (r.1, { m with swap := { r.2 with slots := update r.2.slots r.1 (m.mem f) } })

/-- Read a slot into a frame and give the slot back. -/
def swapInPage (m : Mm) (slot f : Nat) (io : Bool) : Option Mm :=
  if m.swap.enabled = false ∨ m.swap.totalSlots ≤ slot ∨ io = false then none
  else some { m.setPage f (m.swap.slots slot) with swap := bitmapFree m.swap slot }

theorem bitmapAlloc_spec {w w' : Swap} {i : Nat} (h : bitmapAlloc w = some (i, w')) :
    w.bitmap i = false ∧ i < w.totalSlots ∧ w' = { w with bitmap := update w.bitmap i true } := by
  obtain ⟨j, hj, rfl, rfl⟩ := of_map_pair h
  obtain ⟨-, hlt, hfree, -⟩ := scan_some hj
  exact ⟨hfree, by omega, rfl⟩

variable {m m' : Mm} {pd pd' pd₁ : PageDir} {io b : Bool} {hand : Nat × Nat}

theorem swapOutPage_spec {f slot : Nat} (h : swapOutPage m f io = some (slot, m')) :
    m.swap.bitmap slot = false ∧ slot < m.swap.totalSlots ∧
    m' = { m with swap := { m.swap with
      bitmap := update m.swap.bitmap slot true
      slots := update m.swap.slots slot (m.mem f) } } := by
  unfold swapOutPage at h
  split_ifs at h
  obtain ⟨⟨i, w⟩, hi, rfl, rfl⟩ := of_map_pair h
  obtain ⟨h₁, h₂, rfl⟩ := bitmapAlloc_spec hi
  exact ⟨h₁, h₂, rfl⟩

/-! ### Eviction -/

/-- The entry of a page that was swapped out to `slot`: only the permission
bits survive. -/
def Pte.swapEncode (e : Pte) (slot : Nat) : Pte :=
  ⟨slot, false, e.rw, e.user, true, false, false, false, false⟩

/-- The entry after a fault-in to the frame `f`. -/
def Pte.swapRestore (e : Pte) (f : Nat) : Pte :=
  ⟨f, true, e.rw, e.user, false, false, false, false, false⟩

/-- Move the clock hand one entry on. -/
def clockNext (pdi ptj : Nat) : Nat × Nat := if 1024 ≤ ptj + 1 then (pdi + 1, 0) else (pdi, ptj + 1)

/-- Past the last directory slot the hand goes back to slot 32. -/
def clockWrap (hand : Nat × Nat) : Nat × Nat := if 1024 ≤ hand.1 then (32, 0) else hand

/-- Swap the page `v` out and save the clock hand; the flag is the success. -/
def evictVictim (m : Mm) (pd : PageDir) (v : Nat) (hand : Nat × Nat) (io : Bool) :
    (Mm × PageDir) × Bool :=
  match swapOutPage m (pd.pte v).frame io with
  | none => ((m, pd), false)
  | some (slot, m') =>
    (({ m' with swap := { m'.swap with clockPdi := hand.1, clockPtj := hand.2 } }.freePage
        (pd.pte v).frame,
      pd.setPte v ((pd.pte v).swapEncode slot)), true)

/-- The clock loop; the flag is the success of the eviction. -/
def evictLoop (m : Mm) (io : Bool) : Nat → Nat × Nat → PageDir → (Mm × PageDir) × Bool
  | 0, _, pd => ((m, pd), false)
  | n + 1, hand, pd =>
    let hand := clockWrap hand
    let v := hand.1 * 1024 + hand.2
    if (pd.pde hand.1).isPriv = false then evictLoop m io n (hand.1 + 1, 0) pd
    else if (pd.pte v).present = false ∨ (pd.pte v).user = false then
      evictLoop m io n (clockNext hand.1 hand.2) pd
    else if (pd.pte v).accessed then
      evictLoop m io n (clockNext hand.1 hand.2) (pd.setPte v { pd.pte v with accessed := false })
    else evictVictim m pd v (clockNext hand.1 hand.2) io

/-- `max_iter` of `swap_evict_page`. -/
@[irreducible] def evictMaxIter : Nat := 2031616

/-- `swap_evict_page`; the flag is the success of the call. -/
def swapEvictPage (m : Mm) (pd : PageDir) (io : Bool) : (Mm × PageDir) × Bool :=
  if m.swap.enabled = false then ((m, pd), false)
  else evictLoop m io evictMaxIter (m.swap.clockPdi, m.swap.clockPtj) pd

/-- Two entries that agree but for the accessed bit, which the second one does not have where the first
does not. -/
def Pte.SameMapping (e e' : Pte) : Prop := e' = { e with accessed := e.accessed && e'.accessed }

/-- `pd'` is `pd` with some accessed bits cleared. -/
structure AccessCleared (pd pd' : PageDir) : Prop where
  frame : pd'.frame = pd.frame
  pde : pd'.pde = pd.pde
  pte : ∀ v, (pd.pte v).SameMapping (pd'.pte v)

theorem AccessCleared.refl (pd : PageDir) : AccessCleared pd pd :=
  ⟨rfl, rfl, fun v => by rw [Pte.SameMapping, Bool.and_self]⟩

/-- Clearing one accessed bit. -/
theorem AccessCleared.setPte (h : AccessCleared pd pd') (v : Nat) :
    AccessCleared pd (pd'.setPte v { pd'.pte v with accessed := false }) := by
  refine ⟨by rw [PageDir.setPte_frame, h.frame], by rw [PageDir.setPte_pde, h.pde],
    PageDir.forall_setPte h.pte ?_⟩
  rw [h.pte v, Pte.SameMapping, Bool.and_false]

/-- **What an eviction does**: on its way it clears accessed bits; if it
succeeds, it swaps out one present user page. -/
structure Evicted (m : Mm) (pd : PageDir) (m' : Mm) (pd' : PageDir) (v slot : Nat) : Prop where
  user : (pd.pte v).IsUser
  free : m.swap.bitmap slot = false
  slot_lt : slot < m.swap.totalSlots
  mm : ∃ hand : Nat × Nat, m' = ({ m with swap := { m.swap with
    bitmap := update m.swap.bitmap slot true
    slots := update m.swap.slots slot (m.mem (pd.pte v).frame)
    clockPdi := hand.1
    clockPtj := hand.2 } } : Mm).freePage (pd.pte v).frame
  pd : ∃ pd₁, AccessCleared pd pd₁ ∧ pd' = pd₁.setPte v ((pd.pte v).swapEncode slot)

theorem Pte.SameMapping.swapEncode {e e' : Pte} (h : e.SameMapping e') (slot : Nat) :
    e'.swapEncode slot = e.swapEncode slot := by
  rw [h]
  rfl

theorem evictVictim_spec {v : Nat} (hc : AccessCleared pd pd₁) (hu : (pd₁.pte v).IsUser)
    (h : evictVictim m pd₁ v hand io = ((m', pd'), b)) :
    b = false ∧ m' = m ∧ AccessCleared pd pd' ∨
    b = true ∧ ∃ slot, Evicted m pd m' pd' v slot := by
  have hsame := hc.pte v
  have hframe : (pd₁.pte v).frame = (pd.pte v).frame := by rw [hsame]
  have huser : (pd.pte v).IsUser := by
    rw [hsame] at hu
    exact hu
  unfold evictVictim at h
  rcases ho : swapOutPage m (pd₁.pte v).frame io with - | ⟨slot, m₁⟩ <;> rw [ho] at h
  · obtain ⟨⟨rfl, rfl⟩, rfl⟩ : (m = m' ∧ pd₁ = pd') ∧ false = b := by simpa using h
    exact Or.inl ⟨rfl, rfl, hc⟩
  · obtain ⟨h₁, h₂, rfl⟩ := swapOutPage_spec ho
    obtain ⟨⟨rfl, rfl⟩, rfl⟩ := by simpa only [Prod.mk.injEq] using h
    refine Or.inr ⟨rfl, slot, huser, h₁, h₂, ⟨hand, by rw [hframe]⟩, pd₁, hc, ?_⟩
    rw [hsame.swapEncode]

theorem evictLoop_spec {n : Nat} (hc : AccessCleared pd pd₁)
    (h : evictLoop m io n hand pd₁ = ((m', pd'), b)) :
    b = false ∧ m' = m ∧ AccessCleared pd pd' ∨
    b = true ∧ ∃ v slot, Evicted m pd m' pd' v slot := by
  induction n generalizing hand pd₁ with
  | zero =>
    obtain ⟨⟨rfl, rfl⟩, rfl⟩ : (m = m' ∧ pd₁ = pd') ∧ false = b := by simpa [evictLoop] using h
    exact Or.inl ⟨rfl, rfl, hc⟩
  | succ n ih =>
    unfold evictLoop at h
    dsimp only at h
    split_ifs at h with h₁ h₂ h₃
    · exact ih hc h
    · exact ih hc h
    · exact ih (hc.setPte _) h
    · rcases evictVictim_spec hc (by simpa [Pte.IsUser] using h₂) h with hf | ⟨hb, slot, he⟩
      · exact Or.inl hf
      · exact Or.inr ⟨hb, _, slot, he⟩

theorem swapEvictPage_spec (h : swapEvictPage m pd io = ((m', pd'), b)) :
    b = false ∧ m' = m ∧ AccessCleared pd pd' ∨
    b = true ∧ ∃ v slot, Evicted m pd m' pd' v slot := by
  unfold swapEvictPage at h
  split_ifs at h
  · obtain ⟨⟨rfl, rfl⟩, rfl⟩ : (m = m' ∧ pd = pd') ∧ false = b := by simpa using h
    exact Or.inl ⟨rfl, rfl, .refl pd⟩
  · exact evictLoop_spec (.refl pd) h

/-! ### The clock finds a victim -/

/-- Entries of one sweep of the clock. -/
@[irreducible] def clockSweep : Nat := 1015808

/-- The positions of the clock hand: it starts at slot 32, and never goes below it. -/
def ClockHand (hand : Nat × Nat) : Prop := 32 ≤ hand.1 ∧ hand.2 < 1024

/-- The entry that the hand looks at. -/
def clockEntry (hand : Nat × Nat) : Nat := (clockWrap hand).1 * 1024 + (clockWrap hand).2

/-- How many entries the hand passes from the entry `start` to the entry `p`. -/
def clockGap (start p : Nat) : Nat := if start ≤ p then p - start else p + clockSweep - start

/-- A user page that the clock comes to. -/
def Evictable (pd : PageDir) (p : Nat) : Prop := 32 ≤ pdIndex p ∧ (pd.pte p).IsUser
deriving Decidable

/-- **The victim** of a clock that starts at the entry `start`: the first user page whose accessed bit
is clear, or, when all of them are set, the first user page, in the second sweep. -/
inductive ClockVictim (pd : PageDir) (start v : Nat) : Prop
  | clear : (pd.pte v).accessed = false →
      (∀ w, Evictable pd w → clockGap start w < clockGap start v → (pd.pte w).accessed = true) →
      ClockVictim pd start v
  | round : (∀ w, Evictable pd w → (pd.pte w).accessed = true ∧ clockGap start v ≤ clockGap start w) →
      ClockVictim pd start v

/-- The directory when the hand gets to its victim `v`: the accessed bits of the user pages before it
are clear, and all of them if it is there for the second time. -/
structure PassedOver (pd pd₁ : PageDir) (start v : Nat) : Prop where
  frame : pd₁.frame = pd.frame
  pde : pd₁.pde = pd.pde
  pte : ∀ w, pd₁.pte w =
    if Evictable pd w ∧ (clockGap start w < clockGap start v ∨ (pd.pte v).accessed = true) then
      { pd.pte w with accessed := false }
    else pd.pte w

/-- The outcome `r` is that of swapping out the victim of the clock, whose accessed bit is clear when the
hand gets there, and of leaving the hand behind it. -/
def FoundVictim (m : Mm) (pd : PageDir) (io : Bool) (start : Nat) (r : (Mm × PageDir) × Bool) : Prop :=
  ∃ pd₁ v, Evictable pd v ∧ ClockVictim pd start v ∧ PassedOver pd pd₁ start v ∧
    (pd₁.pte v).accessed = false ∧ ClockHand (clockNext (pdIndex v) (v % 1024)) ∧
    r = evictVictim m pd₁ v (clockNext (pdIndex v) (v % 1024)) io

section Clock

variable {m : Mm} {pd pd₁ : PageDir} {io : Bool} {i j p n start t k v w : Nat} {hand : Nat × Nat}

theorem ClockHand.wrap (h : ClockHand hand) : ClockHand (clockWrap hand) ∧ (clockWrap hand).1 < 1024 := by
  unfold clockWrap
  split
  · exact ⟨⟨le_rfl, by decide⟩, by decide⟩
  · exact ⟨h, by omega⟩

theorem ClockHand.next (h : ClockHand (i, j)) : ClockHand (clockNext i j) := by
  obtain ⟨h₁, h₂⟩ := h
  unfold clockNext
  split
  · exact ⟨Nat.le_succ_of_le h₁, Nat.zero_lt_succ _⟩
  · exact ⟨h₁, by omega⟩

/-- The entries of the clock. -/
def OnClock (p : Nat) : Prop := 32768 ≤ p ∧ p < 1048576

theorem Evictable.onClock (h : Evictable pd p) : OnClock p := by
  obtain ⟨h₁, h₂⟩ := h
  have := (PageDir.private_of_isUser h₂).lt_userPages
  simp only [pdIndex, userPages] at *
  exact ⟨by omega, by omega⟩

theorem ClockHand.onClock (h : ClockHand hand) : OnClock (clockEntry hand) := by
  obtain ⟨⟨h₁, h₂⟩, h₃⟩ := h.wrap
  exact ⟨by unfold clockEntry; omega, by unfold clockEntry; omega⟩

/-! The hand is `t` entries from where it started. -/

/-- The entry that is `t` entries from `start`. -/
def clockAt (start t : Nat) : Nat := 32768 + (start - 32768 + t) % clockSweep

theorem clockAt_add (hk : k ≤ 1024) : clockAt start (t + k) =
    if clockAt start t + k < 1048576 then clockAt start t + k else clockAt start t + k - clockSweep := by
  unfold clockAt
  rw [← Nat.add_assoc]
  generalize start - 32768 + t = x
  simp only [clockSweep]
  split <;> omega

theorem clockAt_zero (h : OnClock start) : clockAt start 0 = start := by
  unfold clockAt OnClock at *
  simp only [clockSweep]
  omega

section

variable (hs : OnClock start)
include hs

theorem clockGap_lt (hp : OnClock p) : clockGap start p < clockSweep := by
  unfold OnClock clockGap at *
  simp only [clockSweep]
  split_ifs <;> omega

/-- The hand is at `p` when it has passed the entries before it, with any number of whole sweeps. -/
theorem clockAt_eq_iff (hp : OnClock p) : clockAt start t = p ↔ t % clockSweep = clockGap start p := by
  unfold OnClock clockAt clockGap at *
  simp only [clockSweep]
  split_ifs <;> omega

end

section

variable (hh : ClockHand (i, j)) (hi : i < 1024) (hat : i * 1024 + j = clockAt start t)
include hh hi hat

theorem clockEntry_next : clockEntry (clockNext i j) = clockAt start (t + 1) := by
  obtain ⟨h₁, h₂⟩ := hh
  rw [clockAt_add (by decide), ← hat]
  clear hat
  unfold clockEntry clockNext clockWrap
  simp only [clockSweep]
  split_ifs <;> dsimp only at * <;> omega

theorem clockEntry_skip : clockEntry (i + 1, 0) = clockAt start (t + (1024 - j)) := by
  obtain ⟨h₁, h₂⟩ := hh
  rw [clockAt_add (by omega), ← hat]
  clear hat
  unfold clockEntry clockWrap
  simp only [clockSweep]
  split_ifs <;> dsimp only at * <;> omega

/-- The entries up to the end of a slot are entries of the slot. -/
theorem clockAt_slot (hle : t ≤ k) (hlt : k < t + (1024 - j)) : pdIndex (clockAt start k) = i := by
  obtain ⟨h₁, h₂⟩ := hh
  unfold pdIndex clockAt at *
  simp only [clockSweep] at *
  omega

end

/-! ### What the hand has passed -/

/-- The hand has passed `t` entries and no victim. -/
structure Swept (pd pd₁ : PageDir) (start t : Nat) : Prop where
  frame : pd₁.frame = pd.frame
  pde : pd₁.pde = pd.pde
  pte : ∀ w, pd₁.pte w =
    if Evictable pd w ∧ clockGap start w < t then { pd.pte w with accessed := false } else pd.pte w
  seen : ∀ w, Evictable pd w → clockGap start w < t → (pd.pte w).accessed = true
  /-- No user page is passed twice. -/
  once : ∀ w, Evictable pd w → t ≤ clockGap start w + clockSweep

theorem Swept.isUser_iff (h : Swept pd pd₁ start t) : (pd₁.pte w).IsUser ↔ (pd.pte w).IsUser := by
  rw [h.pte w]
  split <;> rfl

section

variable (hs : OnClock start)
include hs

/-- Entries that are not user pages change nothing. -/
theorem Swept.skip (h : Swept pd pd₁ start t)
    (hnone : ∀ k', t ≤ k' → k' < t + k → ¬Evictable pd (clockAt start k')) : Swept pd pd₁ start (t + k) := by
  have hout : ∀ w, Evictable pd w → ∀ k', t ≤ k' → k' < t + k → k' % clockSweep ≠ clockGap start w :=
    fun w hw k' h₁ h₂ heq => hnone k' h₁ h₂ ((clockAt_eq_iff hs hw.onClock).mpr heq ▸ hw)
  have hnew : ∀ w, Evictable pd w → clockGap start w < t + k → clockGap start w < t := by
    intro w hw hlt
    by_contra hge
    exact hout w hw _ (by omega) hlt (Nat.mod_eq_of_lt (clockGap_lt hs hw.onClock))
  refine ⟨h.frame, h.pde, fun w => ?_, fun w hw hlt => h.seen w hw (hnew w hw hlt), fun w hw => ?_⟩
  · rw [h.pte w]
    exact if_congr ⟨fun h => ⟨h.1, by omega⟩, fun h => ⟨h.1, hnew w h.1 h.2⟩⟩ rfl rfl
  · by_contra hlt
    refine hout w hw (clockGap start w + clockSweep) (h.once w hw) (by omega) ?_
    rw [Nat.add_mod_right, Nat.mod_eq_of_lt (clockGap_lt hs hw.onClock)]

variable (h : Swept pd pd₁ start t) (hv : Evictable pd v) (hat : clockAt start t = v)
include h hv hat

/-- In the first sweep the hand finds a page as it was. -/
theorem Swept.first (hlt : t < clockSweep) : clockGap start v = t ∧ pd₁.pte v = pd.pte v := by
  have hgap := (clockAt_eq_iff hs hv.onClock).mp hat
  rw [Nat.mod_eq_of_lt hlt] at hgap
  exact ⟨hgap.symm, (h.pte v).trans (if_neg (by omega))⟩

/-- In the second sweep every accessed bit is clear. -/
theorem Swept.second (hge : clockSweep ≤ t) : clockGap start v + clockSweep = t ∧
    (∀ w, Evictable pd w → (pd.pte w).accessed = true) ∧ (pd₁.pte v).accessed = false := by
  have hgap := (clockAt_eq_iff hs hv.onClock).mp hat
  have hlt := clockGap_lt hs hv.onClock
  have honce := h.once v hv
  refine ⟨?_, fun w hw => h.seen w hw (by have := clockGap_lt hs hw.onClock; omega), ?_⟩
  · rw [Nat.mod_eq_sub_mod hge, Nat.mod_eq_of_lt (by omega)] at hgap
    omega
  · rw [h.pte v, if_pos ⟨hv, by omega⟩]

/-- A user page whose accessed bit is set is passed over. -/
theorem Swept.clear (hacc : (pd₁.pte v).accessed = true) :
    Swept pd (pd₁.setPte v { pd₁.pte v with accessed := false }) start (t + 1) := by
  have hlt : t < clockSweep := by
    by_contra hge
    rw [(h.second hs hv hat (not_lt.mp hge)).2.2] at hacc
    cases hacc
  obtain ⟨hgap, hsame⟩ := h.first hs hv hat hlt
  -- no other user page is that far from the start
  have hother : ∀ w, Evictable pd w → w ≠ v → clockGap start w ≠ t := fun w hw hne heq =>
    hne ((clockAt_eq_iff hs hw.onClock).mpr ((Nat.mod_eq_of_lt hlt).trans heq.symm) ▸ hat)
  have hpriv := PageDir.private_of_isUser (h.isUser_iff.mpr hv.2)
  refine ⟨by rw [PageDir.setPte_frame, h.frame], by rw [PageDir.setPte_pde, h.pde], fun w => ?_,
    fun w hw hle => ?_, fun w hw => by omega⟩
  · by_cases hw : w = v
    · subst hw
      rw [PageDir.setPte_of_private hpriv, update_self, hsame, if_pos ⟨hv, by omega⟩]
    · rw [PageDir.setPte_ne hw, h.pte w]
      refine if_congr (and_congr_right fun hwe => ?_) rfl rfl
      have := hother w hwe hw
      omega
  · by_cases hw' : w = v
    · rw [hw', ← hsame]
      exact hacc
    · have := hother w hw hw'
      exact h.seen w hw (by omega)

/-- A user page whose accessed bit is clear is the victim. -/
theorem Swept.victim (hacc : (pd₁.pte v).accessed = false) :
    ClockVictim pd start v ∧ PassedOver pd pd₁ start v := by
  rcases lt_or_ge t clockSweep with hlt | hge
  · obtain ⟨hgap, hsame⟩ := h.first hs hv hat hlt
    rw [hsame] at hacc
    refine ⟨.clear hacc fun w hw hlt => h.seen w hw (hgap ▸ hlt), h.frame, h.pde, fun w => ?_⟩
    rw [h.pte w, hgap]
    exact if_congr (by simp [hacc]) rfl rfl
  · obtain ⟨hgap, hall, -⟩ := h.second hs hv hat hge
    refine ⟨.round fun w hw => ⟨hall w hw, ?_⟩, h.frame, h.pde, fun w => ?_⟩
    · have := h.once w hw
      omega
    · rw [h.pte w]
      refine if_congr (and_congr_right fun hw => ?_) rfl rfl
      have := clockGap_lt hs hw.onClock
      simp [hall v hv]
      omega

end

/-- **The loop finds its victim** before the hand has gone round twice. -/
theorem evictLoop_found (hstart : OnClock start) (hs : Swept pd pd₁ start t) (hh : ClockHand hand)
    (hat : clockEntry hand = clockAt start t) (hp : Evictable pd p) (hn : 2 * clockSweep ≤ n + t) :
    FoundVictim m pd io start (evictLoop m io n hand pd₁) := by
  induction n generalizing hand pd₁ t with
  | zero =>
    have h₁ := hs.once p hp
    have h₂ := clockGap_lt hstart hp.onClock
    omega
  | succ n ih =>
    obtain ⟨hw, hi⟩ := hh.wrap
    unfold evictLoop
    unfold clockEntry at hat
    generalize clockWrap hand = hand at *
    obtain ⟨i, j⟩ := hand
    dsimp only at *
    have hslot : pdIndex (i * 1024 + j) = i ∧ (i * 1024 + j) % 1024 = j := by
      have := hw.2
      unfold pdIndex
      omega
    by_cases hpde : (pd₁.pde i).isPriv = false
    · rw [if_pos hpde]
      refine ih (hs.skip hstart fun k h₁ h₂ hev => ?_) ⟨Nat.le_succ_of_le hw.1, Nat.zero_lt_succ _⟩
        (clockEntry_skip hw hi hat) (by have := hw.2; omega)
      -- a user page has a private table
      have hpriv := PageDir.private_of_isUser hev.2
      rw [PageDir.Private, clockAt_slot hw hi hat h₁ h₂, ← hs.pde, hpde] at hpriv
      cases hpriv
    rw [if_neg hpde]
    by_cases huser : (pd₁.pte (i * 1024 + j)).present = false ∨ (pd₁.pte (i * 1024 + j)).user = false
    · rw [if_pos huser]
      refine ih (hs.skip hstart fun k h₁ h₂ hev => ?_) hw.next (clockEntry_next hw hi hat) (by omega)
      obtain rfl : k = t := by omega
      obtain ⟨hpres, hus⟩ := hs.isUser_iff.mpr hev.2
      rw [← hat] at hpres hus
      simp [hpres, hus] at huser
    rw [if_neg huser]
    have hev : Evictable pd (i * 1024 + j) :=
      ⟨by rw [hslot.1]; exact hw.1, hs.isUser_iff.mp (by simpa [Pte.IsUser] using huser)⟩
    by_cases hacc : (pd₁.pte (i * 1024 + j)).accessed = true
    · rw [if_pos hacc]
      exact ih (hs.clear hstart hev hat.symm hacc) hw.next (clockEntry_next hw hi hat) (by omega)
    · rw [if_neg hacc]
      have hclear : (pd₁.pte (i * 1024 + j)).accessed = false := by simpa using hacc
      obtain ⟨hvictim, hpassed⟩ := hs.victim hstart hev hat.symm hclear
      refine ⟨pd₁, i * 1024 + j, hev, hvictim, hpassed, hclear, ?_, ?_⟩ <;> rw [hslot.1, hslot.2]
      exact hw.next

/-- With a free slot and a working device a page can be written out. -/
theorem evictVictim_succeeds (he : m.swap.enabled = true)
    (hslot : ∃ i < m.swap.totalSlots, m.swap.bitmap i = false) :
    (evictVictim m pd p hand true).2 = true := by
  obtain ⟨i, hi, hfree⟩ := hslot
  rcases hs : scan m.swap.bitmap 0 m.swap.totalSlots with - | k
  · have := scan_eq_none_iff.mp hs i (Nat.zero_le _) (by omega)
    rw [hfree] at this
    cases this
  · simp [evictVictim, swapOutPage, he, bitmapAlloc, hs]

end Clock

/-- **Clock eviction finds a victim.**  If some user page lies in slot 32 or above, the call succeeds
from every position of the hand, whatever the accessed bits and the slots of the directory are: it
swaps out the first user page, in the order of the clock, whose accessed bit is clear when the hand
reaches it, clears the accessed bits of those before it, and leaves the hand behind it. -/
theorem clock_eviction_succeeds (m : Mm) (pd : PageDir) (p : Nat) (he : m.swap.enabled = true)
    (hhand : ClockHand (m.swap.clockPdi, m.swap.clockPtj))
    (hslot : ∃ i < m.swap.totalSlots, m.swap.bitmap i = false) (hp : Evictable pd p) :
    (swapEvictPage m pd true).2 = true ∧
      FoundVictim m pd true (clockEntry (m.swap.clockPdi, m.swap.clockPtj)) (swapEvictPage m pd true) := by
  have hstart := hhand.onClock
  have hnone : Swept pd pd (clockEntry (m.swap.clockPdi, m.swap.clockPtj)) 0 :=
    ⟨rfl, rfl, fun w => (if_neg fun h => Nat.not_lt_zero _ h.2).symm,
      fun w _ h => absurd h (Nat.not_lt_zero _), fun w _ => Nat.zero_le _⟩
  have hfound : FoundVictim m pd true (clockEntry (m.swap.clockPdi, m.swap.clockPtj))
      (swapEvictPage m pd true) := by
    unfold swapEvictPage
    rw [if_neg (by rw [he]; decide)]
    exact evictLoop_found hstart hnone hhand (clockAt_zero hstart).symm hp
      (by simp only [evictMaxIter, clockSweep]; omega)
  refine ⟨?_, hfound⟩
  obtain ⟨pd₁, v, -, -, -, -, -, hr⟩ := hfound
  rw [hr]
  exact evictVictim_succeeds he hslot

/-- A memory manager with one swap slot, whose clock hand is at the last entry. -/
def lateHand : Mm :=
  { Mm.boot 0 plainMap with swap := ⟨true, 1, fun _ => false, fun _ => zeroPage, 1023, 1023⟩ }

/-- Two user pages at the first two entries of the clock, the first one accessed. -/
def twoPages : PageDir :=
  (((PageDir.template 0).makePriv 32 true true 0).setPte 32768
    { Pte.mapped 0x21000 true with accessed := true }).setPte 32769 (.mapped 0x21001 true)

/-- The hand goes round, passes over the first page and swaps out the second. -/
theorem clock_eviction_succeeds_wrapped :
    ((swapEvictPage lateHand twoPages true).1.2.pte 32768).accessed = false ∧
      ((swapEvictPage lateHand twoPages true).1.2.pte 32769).isSwapped = true ∧
      (swapEvictPage lateHand twoPages true).2 = true ∧
      FoundVictim lateHand twoPages true 1048575 (swapEvictPage lateHand twoPages true) :=
  ⟨by decide +kernel, by decide +kernel, clock_eviction_succeeds lateHand twoPages 32768 rfl
    ⟨by decide, by decide⟩ ⟨0, by decide, rfl⟩ ⟨by decide, by decide +kernel⟩⟩

/-! ### Fault-in -/

/-- A frame for the page; when there is none, one page is evicted first. -/
def faultFrame (m : Mm) (pd : PageDir) (io : Bool) : Option Nat × (Mm × PageDir) :=
  match m.kalloc with
  | some (f, m') => (some f, (m', pd))
  | none =>
    let r := swapEvictPage m pd io
    if r.2 then
      match r.1.1.kalloc with
      | some (f, m') => (some f, (m', r.1.2))
      | none => (none, r.1)
    else (none, r.1)

/-- `swap_handle_fault` on the page `v`; the flag is the success of the call. -/
def swapHandleFault (m : Mm) (pd : PageDir) (v : Nat) (ioOut ioIn : Bool) : (Mm × PageDir) × Bool :=
  if pd.pde (pdIndex v) = .absent ∨ (pd.pte v).isSwapped = false then ((m, pd), false)
  else
    match faultFrame m pd ioOut with
    | (none, s) => (s, false)
    | (some f, s) =>
      match swapInPage s.1 (pd.pte v).frame f ioIn with
      | none => ((s.1.freePage f, s.2), false)
      | some m' => ((m', s.2.setPte v ((pd.pte v).swapRestore f)), true)

/-- **What `faultFrame` can do.** -/
inductive FaultFrame (m : Mm) (pd : PageDir) : Option Nat → Mm → PageDir → Prop
  | direct {f : Nat} {m' : Mm} : m.kalloc = some (f, m') → FaultFrame m pd (some f) m' pd
  | evicted {m₁ m' : Mm} {pd' : PageDir} {f v slot : Nat} : Evicted m pd m₁ pd' v slot →
      m₁.kalloc = some (f, m') → FaultFrame m pd (some f) m' pd'
  | starved {m' : Mm} {pd' : PageDir} {v slot : Nat} : Evicted m pd m' pd' v slot →
      FaultFrame m pd none m' pd'
  | failed {pd' : PageDir} : AccessCleared pd pd' → FaultFrame m pd none m pd'

theorem faultFrame_spec (m : Mm) (pd : PageDir) (io : Bool) :
    FaultFrame m pd (faultFrame m pd io).1 (faultFrame m pd io).2.1 (faultFrame m pd io).2.2 := by
  unfold faultFrame
  rcases hk : m.kalloc with - | ⟨f, m'⟩
  · rcases he : swapEvictPage m pd io with ⟨⟨m₁, pd₁⟩, b⟩
    rcases swapEvictPage_spec he with ⟨rfl, rfl, hc⟩ | ⟨rfl, v, slot, hv⟩
    · exact .failed hc
    · rw [if_pos rfl]
      rcases hk' : m₁.kalloc with - | ⟨f, m'⟩
      · exact .starved hv
      · exact .evicted hv hk'
  · exact .direct hk

/-- **What making room does to the swap area**: nothing, or one eviction. -/
inductive MadeRoom (m : Mm) (pd : PageDir) (m' : Mm) (pd' : PageDir) : Prop
  | kept : m'.swap = m.swap → AccessCleared pd pd' → MadeRoom m pd m' pd'
  | evicted {m₁ : Mm} {v slot : Nat} : Evicted m pd m₁ pd' v slot → m'.swap = m₁.swap → MadeRoom m pd m' pd'

theorem FaultFrame.madeRoom {o : Option Nat} (h : FaultFrame m pd o m' pd') :
    MadeRoom m pd m' pd' := by
  cases h with
  | direct hk => exact .kept (Mm.kalloc_swap hk) (.refl pd)
  | evicted he hk => exact .evicted he (Mm.kalloc_swap hk)
  | starved he => exact .evicted he rfl
  | failed hc => exact .kept rfl hc

theorem MadeRoom.of_swap {m₁ m₂ : Mm} (h : MadeRoom m pd m₁ pd') (hs : m₂.swap = m₁.swap) :
    MadeRoom m pd m₂ pd' := by
  cases h with
  | kept hm hc => exact .kept (hs.trans hm) hc
  | evicted he hm => exact .evicted he (hs.trans hm)

/-- **What a fault-in does**: it makes room, and either stops there or reads the slot of the page into a
frame and gives the slot back. -/
theorem swapHandleFault_spec (m : Mm) (pd : PageDir) (v : Nat) (ioOut ioIn : Bool) :
    ∃ m₁ pd₁, MadeRoom m pd m₁ pd₁ ∧ (swapHandleFault m pd v ioOut ioIn = ((m₁, pd₁), false) ∨
      ∃ f m', (pd.pte v).isSwapped = true ∧ swapInPage m₁ (pd.pte v).frame f ioIn = some m' ∧
        swapHandleFault m pd v ioOut ioIn = ((m', pd₁.setPte v ((pd.pte v).swapRestore f)), true)) := by
  unfold swapHandleFault
  split
  · exact ⟨m, pd, .kept rfl (.refl pd), Or.inl rfl⟩
  next hc =>
  have hroom := (faultFrame_spec m pd ioOut).madeRoom
  rcases hf : faultFrame m pd ioOut with ⟨- | f, m₁, pd₁⟩ <;> rw [hf] at hroom
  · exact ⟨m₁, pd₁, hroom, Or.inl rfl⟩
  · rcases hin : swapInPage m₁ (pd.pte v).frame f ioIn with - | m'
    · refine ⟨m₁.freePage f, pd₁, hroom.of_swap rfl, Or.inl ?_⟩
      dsimp only
      rw [hin]
    · refine ⟨m₁, pd₁, hroom, Or.inr ⟨f, m', by simpa using (not_or.mp hc).2, hin, ?_⟩⟩
      dsimp only
      rw [hin]

end CactKernel
