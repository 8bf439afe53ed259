/-
CactKernel/Sched/Deadline.lean

When the timer wheel wakes a task.

`sched_sleep_ticks` records the deadline as a 32-bit word and the task is put
into the wheel later, when it has been switched away from.  From then on only
two things matter: the word, and the number of ticks.  `Fires word now` says
that the tick `now`, counted without wrapping, finds the task: its slot comes
up and the word is not larger than the 32-bit tick.

`Leaves t` is a section that leaves the state and the deadline of the task `t`,
its place in the wheel and the clock alone, or a tick of the wheel; a run of such
sections is a run in which nobody else wakes the task.  Its other words may
change: a tick charges the core's current task, and a signal it does not ask
for becomes pending.  `hanging_wakesAt` says when the wheel wakes it in every such run,
`loose_wakesAt` that it never does if the task does not hang in the wheel.

**Main result** `wheel_wakes_on_time_iff`: for which ticks, durations and delays the
wake-up is exact, and when a wait without a deadline is safe from the wheel.
-/
import CactKernel.Sched.Mlfq

namespace CactKernel

open Function Places Runs

namespace SchedEvent

def isWheelTick : SchedEvent → Bool
  | wheelTick _ => true
  | _ => false

end SchedEvent

/-- The words of a task that the wheel reads. -/
def TaskStruct.timing (r : TaskStruct) : TaskState × Nat := (r.state, r.sleepUntil)

/-- The number of wheel ticks of a run. -/
def wheelTicks (es : List SchedEvent) : Nat := es.countP SchedEvent.isWheelTick

namespace Sched

variable {s s' : Sched} {c t u k n word now p level : Nat} {es : List SchedEvent} {e : SchedEvent}

/-! ### One tick, seen by one task -/

/-- The timing words have the state in them. -/
theorem state_of_timing {r r' : TaskStruct} (h : r'.timing = r.timing) : r'.state = r.state :=
  congrArg Prod.fst h

theorem sleepUntil_of_timing {r r' : TaskStruct} (h : r'.timing = r.timing) :
    r'.sleepUntil = r.sleepUntil := congrArg Prod.snd h

/-- How often the task hangs in a slot. -/
def hung (s : Sched) (t k : Nat) : Nat := (s.q (.slot k)).count t

/-- The task hangs in no slot. -/
def Loose (s : Sched) (t : Nat) : Prop := ∀ k, s.hung t k = 0

/-- The task hangs once in the wheel, in the slot of its deadline. -/
def Hanging (s : Sched) (t : Nat) : Prop :=
  ∀ k, s.hung t k = if k = slotOf (s.task t).sleepUntil then 1 else 0

/-- The task's state and deadline, its entries in the wheel and the clock are the same. -/
structure Same (s s' : Sched) (t : Nat) : Prop where
  timing : (s'.task t).timing = (s.task t).timing
  hung : ∀ k, s'.hung t k = s.hung t k
  tick : s'.tick = s.tick

namespace Same

variable {s'' : Sched}

theorem refl (s : Sched) (t : Nat) : Same s s t := ⟨rfl, fun _ => rfl, rfl⟩

theorem trans (h : Same s s' t) (h' : Same s' s'' t) : Same s s'' t :=
  ⟨h'.timing.trans h.timing, fun k => (h'.hung k).trans (h.hung k), h'.tick.trans h.tick⟩

theorem loose (h : Same s s' t) (hl : s.Loose t) : s'.Loose t := fun k => (h.hung k).trans (hl k)

theorem hanging (h : Same s s' t) (hh : s.Hanging t) : s'.Hanging t := fun k => by
  rw [h.hung, sleepUntil_of_timing h.timing]
  exact hh k

end Same

theorem mlfqEnqueueLocked_q {p : Place} (h : ∀ k l, p ≠ .runq k l) :
    (s.mlfqEnqueueLocked c u level).q p = s.q p := update_of_ne (h _ _) ..

theorem timerWheelInsert_q {p : Place} (h : ∀ k, p ≠ .slot k) : (s.timerWheelInsert u).q p = s.q p :=
  update_of_ne (h _) ..

theorem mlfqSleepLocked_q {p : Place} (h : p ≠ .sleepQueue) : (s.mlfqSleepLocked u).q p = s.q p :=
  update_of_ne h ..

theorem drainSlot_q {p : Place} (h : ∀ k, p ≠ .slot k) : s.drainSlot.q p = s.q p :=
  update_of_ne (h _) ..

/-- No slot changes when a task is queued. -/
theorem mlfqEnqueueLocked_hung : (s.mlfqEnqueueLocked c u level).hung t k = s.hung t k :=
  congrArg (List.count t) (mlfqEnqueueLocked_q nofun)

/-- A task is hung into the slot of its deadline word. -/
theorem timerWheelInsert_hung :
    (s.timerWheelInsert u).hung t k =
      s.hung t k + if k = slotOf (s.task u).sleepUntil ∧ u = t then 1 else 0 := by
  unfold hung timerWheelInsert putFirst
  dsimp only
  by_cases hk : k = slotOf (s.task u).sleepUntil
  · subst hk
    rw [update_self, List.count_cons]
    simp
  · simp [hk]

/-- Another task of the drained slot is dealt with. -/
theorem wheelPass_same (h : u ≠ t) : Same s (s.wheelPass c u) t := by
  unfold wheelPass
  dsimp only
  split
  · split
    · refine ⟨?_, fun k => mlfqEnqueueLocked_hung, rfl⟩
      exact congrArg TaskStruct.timing ((update_of_ne h.symm ..).trans (update_of_ne h.symm ..))
    · exact Same.refl s t
  · refine ⟨rfl, fun k => ?_, rfl⟩
    rw [timerWheelInsert_hung, if_neg (fun hc => h hc.2), Nat.add_zero]

/-- The tasks of a slot do not touch the others. -/
theorem foldl_wheelPass_same {l : List Nat} (h : t ∉ l) :
    Same s (l.foldl (fun s u => s.wheelPass c u) s) t :=
  List.foldlRecOn (motive := fun s' => Same s s' t) l _ (Same.refl s t) fun _ hs _ hu =>
    hs.trans (wheelPass_same fun he => h (he ▸ hu))

/-- The tick after the present one. -/
def nextTick (s : Sched) : Nat := (s.tick + 1) % tickMod

/-- The slot of the new time is empty, the others are as they were. -/
theorem drainSlot_hung :
    s.drainSlot.hung t k = if k = slotOf s.nextTick then 0 else s.hung t k := by
  have hq : s.drainSlot.q = update s.q (.slot (slotOf s.nextTick)) [] := rfl
  unfold hung
  rw [hq]
  by_cases hk : k = slotOf s.nextTick
  · subst hk
    simp
  · rw [update_of_ne (by simpa using hk), if_neg hk]

theorem timerWheelTick_eq : s.timerWheelTick c =
    (s.q (.slot (slotOf s.nextTick))).foldl (fun s u => s.wheelPass c u) s.drainSlot := rfl

/-- A tick that does not reach the task's slot. -/
theorem timerWheelTick_pass (h : s.hung t (slotOf s.nextTick) = 0) :
    ((s.timerWheelTick c).task t).timing = (s.task t).timing ∧ (∀ k, (s.timerWheelTick c).hung t k = s.hung t k) ∧
      (s.timerWheelTick c).tick = s.nextTick := by
  have hsame := foldl_wheelPass_same (s := s.drainSlot) (c := c) (List.count_eq_zero.mp h)
  rw [timerWheelTick_eq]
  refine ⟨hsame.timing, fun k => ?_, hsame.tick⟩
  rw [hsame.hung, drainSlot_hung]
  split
  · next hk => rw [hk, h]
  · rfl

/-- **The tick reaches the task's slot**: the task wakes up, or hangs there again. -/
theorem timerWheelTick_reach (hst : (s.task t).state = .sleeping) (hh : s.Hanging t)
    (hk : slotOf (s.task t).sleepUntil = slotOf s.nextTick) :
    (s.timerWheelTick c).tick = s.nextTick ∧
      if (s.task t).sleepUntil ≤ s.nextTick then
        ((s.timerWheelTick c).task t).state = .ready ∧ (s.timerWheelTick c).Loose t
      else ((s.timerWheelTick c).task t).timing = (s.task t).timing ∧
        (s.timerWheelTick c).Hanging t := by
  have hcount : (s.q (.slot (slotOf s.nextTick))).count t = 1 := by
    have := hh (slotOf s.nextTick)
    rwa [if_pos hk.symm] at this
  obtain ⟨l₁, l₂, hl⟩ := List.append_of_mem (List.count_pos_iff.mp (hcount ▸ Nat.one_pos))
  rw [hl, List.count_append, List.count_cons_self] at hcount
  have h₁ : t ∉ l₁ := List.count_eq_zero.mp (by omega)
  have h₂ : t ∉ l₂ := List.count_eq_zero.mp (by omega)
  -- before its turn the task hangs nowhere
  have hdrain : s.drainSlot.Loose t := fun k => by
    rw [drainSlot_hung, hh k, hk]
    split <;> rfl
  have hs₁ := foldl_wheelPass_same (s := s.drainSlot) (c := c) h₁
  rw [timerWheelTick_eq, hl, List.foldl_append, List.foldl_cons]
  generalize l₁.foldl (fun s u => s.wheelPass c u) s.drainSlot = s₁ at hs₁ ⊢
  have hst₁ : (s₁.task t).state = (s.task t).state := state_of_timing hs₁.timing
  have hword : (s₁.task t).sleepUntil = (s.task t).sleepUntil := sleepUntil_of_timing hs₁.timing
  have htick : s₁.tick = s.nextTick := hs₁.tick
  have hloose : s₁.Loose t := hs₁.loose hdrain
  have hs₂ := foldl_wheelPass_same (s := s₁.wheelPass c t) (c := c) h₂
  rw [hs₂.tick]
  by_cases hdue : (s.task t).sleepUntil ≤ s.nextTick
  · have hpass : s₁.wheelPass c t = (s₁.setTask t { s₁.task t with
        sleepUntil := 0, state := .ready }).mlfqEnqueueLocked c t (s₁.task t).priority := by
      simp only [wheelPass, hword, hst₁, htick, if_pos hdue, if_pos hst]
    rw [hpass] at hs₂
    rw [if_pos hdue, hpass]
    refine ⟨htick, ?_, hs₂.loose fun k => hloose k⟩
    rw [state_of_timing hs₂.timing]
    simp [mlfqEnqueueLocked, setTask]
  · have hpass : s₁.wheelPass c t = s₁.timerWheelInsert t := by
      simp only [wheelPass, hword, htick, if_neg hdue]
    rw [hpass] at hs₂
    rw [if_neg hdue, hpass]
    refine ⟨htick, hs₂.timing.trans hs₁.timing, hs₂.hanging fun k => ?_⟩
    rw [timerWheelInsert_hung, hloose k, Nat.zero_add]
    exact if_congr (and_iff_left rfl) rfl rfl

/-! ### Runs in which nobody else wakes the task -/

/-- A tick of the wheel, or a section that leaves the task's state, deadline and wheel place and
the clock alone. -/
def Leaves (t : Nat) (s : Sched) (e : SchedEvent) : Prop :=
  e.isWheelTick = true ∨ ∀ s', schedStep s e = some s' → Same s s' t

theorem Leaves.of_eq (he : schedStep s e = some s') (h : Same s s' t) : Leaves t s e :=
  Or.inr fun _ he' => Option.some.inj (he.symm.trans he') ▸ h

theorem schedStep_wheelTick (h : schedStep s (.wheelTick c) = some s') : s' = s.timerWheelTick c := by
  unfold schedStep at h
  split at h
  · exact (Option.some.inj h).symm
  · exact nomatch h

/-- **When the task wakes up**: in every run in which nobody else wakes it, it is `Ready` after
exactly those numbers of ticks that satisfy `P`. -/
def WakesAt (s : Sched) (t : Nat) (P : Nat → Prop) : Prop :=
  ∀ es s', MeetsAll schedStep (Leaves t) s es → run schedStep s es = some s' →
    ((s'.task t).state = .ready ↔ P (wheelTicks es))

/-- A step of such a run is a tick or changes nothing for the task. -/
theorem leaves_cases (h : Leaves t s e) (he : schedStep s e = some s') :
    (∃ c, e = .wheelTick c ∧ s' = s.timerWheelTick c) ∨ e.isWheelTick = false ∧ Same s s' t := by
  cases e with
  | wheelTick c => exact Or.inl ⟨c, rfl, schedStep_wheelTick he⟩
  | _ => exact Or.inr ⟨rfl, h.resolve_left nofun s' he⟩

theorem wheelTicks_cons_of_not (h : e.isWheelTick = false) : wheelTicks (e :: es) = wheelTicks es := by
  simp [wheelTicks, h]

/-- The ticks of a run are counted. -/
theorem wheelTicks_cons_tick : wheelTicks (.wheelTick c :: es) = wheelTicks es + 1 :=
  List.countP_cons_of_pos rfl

/-- A task off the wheel keeps its state and deadline, however many ticks go by. -/
theorem run_loose (hl : s.Loose t) (hes : MeetsAll schedStep (Leaves t) s es)
    (hrun : run schedStep s es = some s') :
    s'.Loose t ∧ (s'.task t).timing = (s.task t).timing ∧ s'.tick % tickMod = (s.tick + wheelTicks es) % tickMod := by
  induction es generalizing s with
  | nil =>
    obtain rfl := Option.some.inj hrun
    exact ⟨hl, rfl, rfl⟩
  | cons e es ih =>
    obtain ⟨s₁, he, hrest⟩ := run_cons_some hrun
    rcases leaves_cases hes.1 he with ⟨c, rfl, rfl⟩ | ⟨hn, hsame⟩
    · obtain ⟨htask, hhung, htick⟩ := timerWheelTick_pass (hl (slotOf s.nextTick))
      obtain ⟨h₁, h₂, h₃⟩ := ih (fun k => (hhung k).trans (hl k)) (hes.2 _ he) hrest
      refine ⟨h₁, h₂.trans htask, ?_⟩
      rw [h₃, htick, wheelTicks_cons_tick, nextTick, Nat.mod_add_mod]
      congr 1
      omega
    · obtain ⟨h₁, h₂, h₃⟩ := ih (hsame.loose hl) (hes.2 _ he) hrest
      exact ⟨h₁, h₂.trans hsame.timing, by rw [h₃, hsame.tick, wheelTicks_cons_of_not hn]⟩

/-- The tick `now`, counted without wrapping, finds the task with the deadline `word`. -/
def Fires (word now : Nat) : Prop := slotOf word = slotOf (now % tickMod) ∧ word ≤ now % tickMod

/-- A tick up to the `m`-th after `p` finds the task. -/
def Fired (word p m : Nat) : Prop := ∃ i, 1 ≤ i ∧ i ≤ m ∧ Fires word (p + i)

/-- Nothing fires before the first tick. -/
theorem not_fired_zero : ¬Fired word p 0 := fun ⟨i, h₁, h₂, _⟩ => by omega

/-- It fires at the first tick or at one of the others. -/
theorem fired_succ {m : Nat} : Fired word p (m + 1) ↔ Fires word (p + 1) ∨ Fired word (p + 1) m := by
  constructor
  · rintro ⟨i, h₁, h₂, hf⟩
    obtain rfl | hi : i = 1 ∨ 2 ≤ i := by omega
    · exact Or.inl hf
    · exact Or.inr ⟨i - 1, by omega, by omega, by rwa [show p + 1 + (i - 1) = p + i by omega]⟩
  · rintro (hf | ⟨i, h₁, h₂, hf⟩)
    · exact ⟨1, by omega, by omega, hf⟩
    · exact ⟨i + 1, by omega, by omega, by rwa [show p + (i + 1) = p + 1 + i by omega]⟩

/-- The clock goes round at 2³². -/
theorem nextTick_eq (hp : s.tick % tickMod = p % tickMod) : s.nextTick = (p + 1) % tickMod := by
  unfold nextTick tickMod at *
  omega

theorem nextTick_mod : s.nextTick % tickMod = s.nextTick := Nat.mod_mod ..

/-- **A task in the wheel** wakes up at the first tick that finds it. -/
theorem hanging_wakesAt (hst : (s.task t).state = .sleeping) (hh : s.Hanging t)
    (hp : s.tick % tickMod = p % tickMod) : s.WakesAt t (Fired (s.task t).sleepUntil p) := by
  intro es s' hes hrun
  induction es generalizing s p with
  | nil =>
    obtain rfl := Option.some.inj hrun
    rw [hst]
    exact ⟨nofun, fun h => absurd h not_fired_zero⟩
  | cons e es ih =>
    obtain ⟨s₁, he, hrest⟩ := run_cons_some hrun
    rcases leaves_cases hes.1 he with ⟨c, rfl, rfl⟩ | ⟨hn, hsame⟩
    · have hp' := nextTick_eq hp
      rw [wheelTicks_cons_tick, fired_succ, Fires, ← hp']
      rw [← nextTick_mod] at hp'
      by_cases hk : slotOf (s.task t).sleepUntil = slotOf s.nextTick
      · obtain ⟨htick, hcase⟩ := timerWheelTick_reach hst hh hk
        split at hcase
        · next hdue =>
          -- woken: from here on the task is left alone
          obtain ⟨-, htask, -⟩ := run_loose hcase.2 (hes.2 _ he) hrest
          rw [state_of_timing htask]
          exact ⟨fun _ => Or.inl ⟨hk, hdue⟩, fun _ => hcase.1⟩
        · next hdue =>
          rw [ih (state_of_timing hcase.1 ▸ hst) hcase.2 (htick ▸ hp') (hes.2 _ he) hrest,
            sleepUntil_of_timing hcase.1]
          exact ⟨Or.inr, fun h => h.resolve_left fun hf => hdue hf.2⟩
      · have hz : s.hung t (slotOf s.nextTick) = 0 := by
          rw [hh, if_neg (Ne.symm hk)]
        obtain ⟨htask, hhung, htick⟩ := timerWheelTick_pass hz
        have hh' : (s.timerWheelTick c).Hanging t := fun k => by
          rw [hhung, sleepUntil_of_timing htask]
          exact hh k
        rw [ih (state_of_timing htask ▸ hst) hh' (htick ▸ hp') (hes.2 _ he) hrest,
          sleepUntil_of_timing htask]
        exact ⟨Or.inr, fun h => h.resolve_left fun hf => hk hf.1⟩
    · rw [wheelTicks_cons_of_not hn, ← sleepUntil_of_timing hsame.timing]
      exact ih (state_of_timing hsame.timing ▸ hst) (hsame.hanging hh) (hsame.tick ▸ hp) (hes.2 _ he) hrest

/-- A task that does not hang in the wheel is not woken by it. -/
theorem loose_wakesAt (hst : (s.task t).state ≠ .ready) (hl : s.Loose t) :
    s.WakesAt t fun _ => False := by
  intro es s' hes hrun
  rw [state_of_timing (run_loose hl hes hrun).2.1]
  exact iff_of_false hst id

/-- Any number of ticks can go by with nothing else happening. -/
theorem exists_ticks (hc : c < maxCpus) (hout : s.q (.out c) = []) (t m : Nat) :
    ∃ es s', MeetsAll schedStep (Leaves t) s es ∧ run schedStep s es = some s' ∧ wheelTicks es = m := by
  induction m generalizing s with
  | zero => exact ⟨[], s, trivial, rfl, rfl⟩
  | succ m ih =>
    have hstep : schedStep s (.wheelTick c) = some (s.timerWheelTick c) :=
      if_pos ⟨hc, Or.inl hout, nofun⟩
    -- the wheel does not touch the core
    have hfold : ∀ (l : List Nat) (s : Sched), s.q (.out c) = [] →
        (l.foldl (fun s u => s.wheelPass c u) s).q (.out c) = [] := fun l s h => by
      refine List.foldlRecOn (motive := fun s : Sched => s.q (.out c) = []) l _ h ?_
      intro s hs u _
      unfold wheelPass
      dsimp only
      split
      · split
        · exact (mlfqEnqueueLocked_q (p := .out c) nofun).trans hs
        · exact hs
      · exact (timerWheelInsert_q (p := .out c) nofun).trans hs
    have hout' : (s.timerWheelTick c).q (.out c) = [] :=
      hfold _ s.drainSlot ((drainSlot_q (p := .out c) nofun).trans hout)
    obtain ⟨es, s', hes, hrun, hm⟩ := ih hout'
    refine ⟨.wheelTick c :: es, s', ⟨Or.inl rfl, fun s₁ hs₁ => ?_⟩, ?_, ?_⟩
    · obtain rfl := schedStep_wheelTick hs₁
      exact hes
    · rw [run_cons, hstep]
      exact hrun
    · rw [wheelTicks_cons_tick, hm]

/-- What the wheel does decides which statement about it is true. -/
theorem WakesAt.iff {P Q : Nat → Prop} (h : s.WakesAt t P) (hc : c < maxCpus)
    (hout : s.q (.out c) = []) : s.WakesAt t Q ↔ ∀ m, P m ↔ Q m := by
  constructor
  · intro hQ m
    obtain ⟨es, s', hes, hrun, rfl⟩ := exists_ticks hc hout t m
    exact (h es s' hes hrun).symm.trans (hQ es s' hes hrun)
  · intro hPQ es s' hes hrun
    exact (h es s' hes hrun).trans (hPQ _)

/-! ### Parking -/

/-- The section in which the task is put to sleep. -/
theorem schedStep_park (hout : s.q (.out c) = [t]) (h : schedStep s (.park c) = some s') :
    c < maxCpus ∧ s' = s.schedParkPrev c t := by
  unfold schedStep at h
  split at h
  · next hen =>
    refine ⟨hen.1, ?_⟩
    simp only [exec, hout, List.head?_cons, Option.map_some, Option.some.injEq] at h
    exact h.symm
  · exact nomatch h

/-- `sched_park_prev` for a blocked task: into the wheel if it is `Sleeping` with a deadline
word, into the blocked queue otherwise. -/
theorem schedParkPrev_blocked (hout : s.q (.out c) = [t])
    (hst : (s.task t).state = .sleeping ∨ (s.task t).state = .waiting) (hl : s.Loose t) :
    (s.schedParkPrev c t).q (.out c) = [] ∧ (s.schedParkPrev c t).task t = s.task t ∧
      (s.schedParkPrev c t).tick = s.tick ∧
      if (s.task t).state = .sleeping ∧ (s.task t).sleepUntil ≠ 0 then (s.schedParkPrev c t).Hanging t
      else (s.schedParkPrev c t).Loose t := by
  set s₁ : Sched := { s with q := takeOut s.q (.out c) t } with hs₁
  have hq : ∀ k, s₁.hung t k = s.hung t k := fun k =>
    congrArg (List.count t) (takeOut_of_ne (t := t) (nofun : Place.slot k ≠ .out c))
  have hout' : s₁.q (.out c) = [] := by
    show update s.q (.out c) _ (.out c) = []
    rw [hout]
    simp
  -- a deadline puts the task on the wheel; without one it only sleeps
  by_cases hw : (s.task t).state = .sleeping ∧ (s.task t).sleepUntil ≠ 0
  · have hpark : s.schedParkPrev c t = s₁.timerWheelInsert t := by
      simp only [schedParkPrev, hw.1, if_neg hw.2, hs₁]
    rw [hpark, if_pos hw]
    refine ⟨(timerWheelInsert_q (p := .out c) nofun).trans hout', rfl, rfl, fun k => ?_⟩
    rw [timerWheelInsert_hung, hq, hl k, Nat.zero_add]
    exact if_congr (and_iff_left rfl) rfl rfl
  · have hpark : s.schedParkPrev c t = s₁.mlfqSleepLocked t := by
      rcases hst with hst | hst
      · have h0 : (s.task t).sleepUntil = 0 := not_not.mp fun h0 => hw ⟨hst, h0⟩
        simp only [schedParkPrev, hst, if_pos h0, hs₁]
      · simp only [schedParkPrev, hst, hs₁]
    rw [hpark, if_neg hw]
    refine ⟨(mlfqSleepLocked_q (p := .out c) nofun).trans hout', rfl, rfl, fun k => ?_⟩
    have hsleep : (s₁.mlfqSleepLocked t).hung t k = s₁.hung t k :=
      congrArg (List.count t) (mlfqSleepLocked_q nofun)
    rw [hsleep, hq, hl k]

/-! ### The arithmetic of a deadline -/

/-- **The condition**: `sched_sleep_ticks(n)` at tick `now`, parked `delay` ticks later.  The
deadline must not be the word `0`.  If it is still ahead when the task is parked, it must not lie
beyond the wrap of the tick while the slot comes up once more before the wrap.  If it has gone
by, the very next tick must reach its slot. -/
def OnTime (now n delay : Nat) : Prop :=
  (now + n) % tickMod ≠ 0 ∧
    if delay < n then now + n < tickMod ∨ tickMod - wheelSize + (now + n) % wheelSize ≤ now + delay
    else (now + delay + 1) % wheelSize = (now + n) % wheelSize ∧
      (now + n) % tickMod ≤ (now + delay + 1) % tickMod
deriving Decidable

/-- The slot comes up, and the deadline has passed. -/
theorem fires_iff {word x : Nat} :
    Fires word x ↔ word % 256 = x % 256 ∧ word ≤ x % 2 ^ 32 := by
  unfold Fires slotOf wheelSize tickMod
  rw [Nat.mod_mod_of_dvd x (by decide : 256 ∣ 2 ^ 32)]

/-- The first tick that finds the task is the right one. -/
theorem fired_exact_iff {now n delay : Nat} (hnow : now < tickMod) (hn : n < tickMod) :
    (∀ m, Fired ((now + n) % tickMod) (now + delay) m ↔ 1 ≤ m ∧ now + n ≤ now + delay + m) ↔
      if delay < n then now + n < tickMod ∨ tickMod - wheelSize + (now + n) % wheelSize ≤ now + delay
      else (now + delay + 1) % wheelSize = (now + n) % wheelSize ∧
        (now + n) % tickMod ≤ (now + delay + 1) % tickMod := by
  simp only [tickMod, wheelSize] at *
  constructor
  · intro h
    split
    · next hd =>
      by_contra hlate
      -- the slot comes up once more before the tick wraps
      obtain ⟨i, hi⟩ : ∃ i, now + delay + i = 2 ^ 32 - 256 + (now + n) % 256 :=
        ⟨2 ^ 32 - 256 + (now + n) % 256 - (now + delay), by omega⟩
      have hfired := (h i).mp ⟨i, by omega, Nat.le_refl _, fires_iff.mpr ⟨by omega, by omega⟩⟩
      omega
    · next hd =>
      obtain ⟨i, h₁, h₂, hf⟩ := (h 1).mpr ⟨Nat.le_refl _, by omega⟩
      have := fires_iff.mp hf
      omega
  · intro h m
    constructor
    · rintro ⟨i, h₁, h₂, hf⟩
      have := fires_iff.mp hf
      refine ⟨by omega, ?_⟩
      split at h <;> omega
    · rintro ⟨h₁, h₂⟩
      split at h
      · next hd => exact ⟨n - delay, by omega, by omega, fires_iff.mpr ⟨by omega, by omega⟩⟩
      · next hd => exact ⟨1, Nat.le_refl _, h₁, fires_iff.mpr ⟨by omega, by omega⟩⟩

/-- Every deadline word but `0` is found in the end. -/
theorem exists_fired (hw : word < tickMod) : ∃ m, Fired word p m := by
  simp only [tickMod] at hw
  refine ⟨word + 2 ^ 32 * (p + 1) - p, word + 2 ^ 32 * (p + 1) - p, by omega, Nat.le_refl _, ?_⟩
  rw [fires_iff]
  omega

end Sched

open Sched in
/-- **Deadlines.**  A task that calls `sched_sleep_ticks(n)` at tick `s.tick`, is parked after
the ticks of `es`, and is woken by nobody else, becomes `Ready` at the first tick after its
parking that is not before its deadline, exactly under `OnTime`.  A task that blocks without a
deadline is safe from the wheel exactly if it does not wait as `Sleeping` with an old deadline
word. -/
theorem wheel_wakes_on_time_iff {s s' s₁ s₂ : Sched} {c d t n : Nat} {es : List SchedEvent}
    (hcur : s.current c = some t) (hz : (s.task t).state ≠ .zombie) (hoff : s.Loose t)
    (htick : s.tick < tickMod) (hn : n < tickMod)
    (hcall : schedStep s (.sleepTicks c n) = some s')
    (hes : MeetsAll schedStep (Leaves t) s' es) (hrun : run schedStep s' es = some s₁)
    (hout : s₁.q (.out d) = [t]) (hpark : schedStep s₁ (.park d) = some s₂) :
    (s₂.WakesAt t (fun m => 1 ≤ m ∧ s.tick + n ≤ s.tick + wheelTicks es + m) ↔
        OnTime s.tick n (wheelTicks es)) ∧
      ∀ {u k : Nat} {r r' : Sched}, (r.task u).state = .sleeping ∨ (r.task u).state = .waiting →
        (r.task u).sleepUntil < tickMod → r.Loose u → r.q (.out k) = [u] →
        schedStep r (.park k) = some r' →
        (r'.WakesAt u (fun _ => False) ↔ (r.task u).state = .waiting ∨ (r.task u).sleepUntil = 0) := by
  constructor
  · -- the words of the task from the call to the park
    have hs' : s' = s.setTask t { s.task t with
        state := .sleeping, sleepUntil := (s.tick + n) % tickMod } := by
      unfold schedStep at hcall
      split at hcall
      · simp only [exec, onCurrent, hcur, Option.map_some, Option.some.injEq, sleepTicks, if_neg hz]
          at hcall
        exact hcall.symm
      · exact nomatch hcall
    have htask' : s'.task t = { s.task t with
        state := .sleeping, sleepUntil := (s.tick + n) % tickMod } := by
      rw [hs']
      exact update_self ..
    obtain ⟨hl₁, htask₁, htick₁⟩ := run_loose (hs' ▸ hoff : s'.Loose t) hes hrun
    rw [htask'] at htask₁
    have hst₁ : (s₁.task t).state = .sleeping := state_of_timing htask₁
    have hword₁ : (s₁.task t).sleepUntil = (s.tick + n) % tickMod := sleepUntil_of_timing htask₁
    obtain ⟨hd, rfl⟩ := schedStep_park hout hpark
    obtain ⟨hout₂, htask₂, htick₂, hwheel⟩ := schedParkPrev_blocked hout (Or.inl hst₁) hl₁
    unfold OnTime
    by_cases h0 : (s.tick + n) % tickMod = 0
    · -- no deadline: the task goes to the blocked queue and stays there
      rw [if_neg (fun hw => hw.2 (hword₁.trans h0))] at hwheel
      have hloose := loose_wakesAt (by rw [htask₂, hst₁]; decide) hwheel
      rw [hloose.iff hd hout₂]
      refine ⟨fun h => absurd ((h (n + 1)).mpr ⟨by omega, by omega⟩) id, fun h => absurd h0 h.1⟩
    · rw [if_pos ⟨hst₁, by rwa [hword₁]⟩] at hwheel
      have htick' : s'.tick = s.tick := hs' ▸ rfl
      have hwakes := hanging_wakesAt (p := s.tick + wheelTicks es) (by rw [htask₂, hst₁]) hwheel
        (by rw [htick₂, htick₁, htick'])
      rw [hwakes.iff hd hout₂, htask₂, hword₁, fired_exact_iff htick hn]
      exact ⟨fun h => ⟨h0, h⟩, fun h => h.2⟩
  · intro u k r r' hst hword hl hout hpark
    obtain ⟨hk, rfl⟩ := schedStep_park hout hpark
    obtain ⟨hout', htask, -, hwheel⟩ := schedParkPrev_blocked hout hst hl
    split at hwheel
    · next hw =>
      have hwakes := hanging_wakesAt (by rw [htask, hw.1]) hwheel rfl
      rw [hwakes.iff hk hout', htask]
      refine ⟨fun h => ?_, ?_⟩
      · obtain ⟨m, hm⟩ := exists_fired (p := (r.schedParkPrev k u).tick) hword
        exact absurd ((h m).mp hm) id
      · rintro (h | h)
        · exact absurd (hw.1.symm.trans h) (by decide)
        · exact absurd h hw.2
    · next hw =>
      refine iff_of_true (loose_wakesAt ?_ hwheel) ?_
      · rw [htask]
        rcases hst with h | h <;> rw [h] <;> decide
      · rcases hst with h | h
        · exact Or.inr (not_not.mp fun h0 => hw ⟨h, h0⟩)
        · exact Or.inl h

/-- One running task on core 0. -/
def Sched.alone (tick : Nat) : Sched where
  q p := if p = .cpu 0 then [1] else []
  task _ := { state := .running }
  list := [1]
  tick := tick
  boostCounter := 0

/-- Where nothing is queued, a task that has marked itself asleep is taken off the core. -/
theorem Sched.schedule_alone {s : Sched} {c t : Nat} (hcur : s.current c = some t)
    (hst : (s.task t).state = .sleeping) (hsleep : s.q .sleepQueue = []) (hpick : s.pickNextTask c = none) :
    s.schedule c = s.switchOut c t := by
  have hwakes : s.scheduleWakes c = s := by
    unfold Sched.scheduleWakes Sched.wakeExpiredSleepers
    rw [hcur]
    simp [hst, hsleep]
  rw [Sched.schedule, hwakes]
  unfold Sched.scheduleSwitch
  rw [hpick, hcur]
  simp [hst]

/-- Before the switch the timer interrupt of core 0 charges the task and advances the wheel, and a
signal the task does not wait for becomes pending. -/
theorem Sched.alone_busy : ∃ s₁ s₂ s₃, schedStep ((Sched.alone 0).sleepTicks 1 10) (.timerTick 0) = some s₁ ∧
    schedStep s₁ (.wheelTick 0) = some s₂ ∧ schedStep s₂ (.signal 0 1 sigChld) = some s₃ ∧
    schedStep s₃ (.schedule 0) = some (s₃.switchOut 0 1) ∧ Same ((Sched.alone 0).sleepTicks 1 10) s₁ 1 ∧
    Same s₂ s₃ 1 ∧ s₃.q (.cpu 0) = [1] ∧ s₃.q (.out 0) = [] := by
  refine ⟨_, _, _, rfl, rfl, rfl, congrArg some (schedule_alone rfl rfl rfl ?_), ⟨rfl, fun _ => rfl, rfl⟩,
    ⟨rfl, fun _ => rfl, rfl⟩, rfl, rfl⟩
  decide +kernel

/-- Ten ticks from the start, and a switch one tick later. -/
theorem wheel_wakes_on_time_iff_fresh :
    ∃ s₁ s₂, run schedStep ((Sched.alone 0).sleepTicks 1 10)
        [.timerTick 0, .wheelTick 0, .signal 0 1 sigChld, .schedule 0] = some s₁ ∧
      schedStep s₁ (.park 0) = some s₂ ∧ s₂.WakesAt 1 fun m => 1 ≤ m ∧ 0 + 10 ≤ 0 + 1 + m := by
  obtain ⟨s₁, s₂, s₃, h₁, h₂, h₃, h₄, hsame₁, hsame₃, hcpu, hout⟩ := Sched.alone_busy
  have hrun : run schedStep ((Sched.alone 0).sleepTicks 1 10)
      [.timerTick 0, .wheelTick 0, .signal 0 1 sigChld, .schedule 0] = some (s₃.switchOut 0 1) := by
    simp only [run, h₁, h₂, h₃, h₄, Option.bind_some]
  have hswitch : (s₃.switchOut 0 1).q (.out 0) = [1] := by
    simp [Sched.switchOut, putLast, takeOut, hout]
  have hpark : schedStep (s₃.switchOut 0 1) (.park 0) = some ((s₃.switchOut 0 1).schedParkPrev 0 1) := by
    unfold schedStep
    rw [if_pos ⟨by decide, Or.inr rfl, nofun⟩]
    simp [Sched.exec, hswitch]
  refine ⟨_, _, hrun, hpark, ?_⟩
  refine (wheel_wakes_on_time_iff (s := Sched.alone 0) (c := 0) (d := 0) rfl (by decide) (fun _ => rfl) (by decide)
    (by decide) rfl ?_ hrun hswitch hpark).1.mpr (by decide)
  refine ⟨.of_eq h₁ hsame₁, fun _ e₁ => ?_⟩
  obtain rfl := Option.some.inj (h₁.symm.trans e₁)
  refine ⟨Or.inl rfl, fun _ e₂ => ?_⟩
  obtain rfl := Option.some.inj (h₂.symm.trans e₂)
  refine ⟨.of_eq h₃ hsame₃, fun _ e₃ => ?_⟩
  obtain rfl := Option.some.inj (h₃.symm.trans e₃)
  refine ⟨.of_eq h₄ ⟨rfl, fun _ => rfl, rfl⟩, fun _ _ => trivial⟩

/-- Three deadlines that are not kept: ten ticks that end on tick `0` are never over; six hundred
ticks across the wrap are over after 88; and a semaphore's sleeper is woken because of a wait that
was ended long before. -/
theorem deadlines_missed :
    (run schedStep (Sched.alone (2 ^ 32 - 10))
        ([.sleepTicks 0 10, .schedule 0, .park 0] ++ List.replicate 12 (.wheelTick 0))).map
        (fun s => ((s.task 1).state, s.tick, s.q .sleepQueue)) = some (.sleeping, 2, [1]) ∧
      (run schedStep (Sched.alone (2 ^ 32 - 300))
        ([.sleepTicks 0 600, .schedule 0, .park 0] ++ List.replicate 88 (.wheelTick 0))).map
        (fun s => (s.task 1).state) = some .ready ∧
      (run schedStep (Sched.alone 0)
        ([.sleepTicks 0 10, .schedule 0, .park 0, .wake 0 1, .schedule 0, .parkSleeping 0, .schedule 0,
          .park 0] ++ List.replicate 10 (.wheelTick 0))).map
        (fun s => (s.task 1).state) = some .ready := by
  decide +kernel

end CactKernel
