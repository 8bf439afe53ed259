/-
CactKernel/Sync/MutexLaw.lean

Two laws of the sleeping mutex over whole runs.

The first is that a released mutex does not strand its waiters.  A waiter
takes part in the hand-over through its entry in the waiter array, and
`mutex_unlock` spends its single wake-up on the first entry.  As long as
entries and parked tasks correspond (`MutexSys.Orderly`), a mutex that is
free and has waiters also has a task on its way back to `mutex_lock`.  A
signal that makes a waiter `Ready` leaves its entry behind, and the
correspondence is lost (`waiter_stranded`).  So does the clock, if the waiter
sleeps with the deadline of an earlier wait.

The second is that a task never dies with a mutex.  It fails because
`task_handle_signals` runs from the timer tick at any point of the victim's
kernel code (`killed_owner`); it holds if signals are only acted on while the
task owns nothing.
-/
import CactKernel.Sync.Mutex
import Mathlib.Data.List.Nodup

namespace CactKernel

open Function Runs

/-! ### Waiters -/

namespace MutexSys

/-- The task is inside `mutex_lock` and not parked: it will contend again. -/
def Eager (s : MutexSys) (m t : Nat) : Prop :=
  ((s.task t).phase = .contending m ∨ (s.task t).phase = .waiting m) ∧
    ((s.task t).state = .ready ∨ (s.task t).state = .running)

/-- Nothing but its waker disturbs a task in a mutex call: it has no signal to act on, and no deadline
while it may sleep. -/
structure Calm (r : Runner) : Prop where
  pending : r.phase ≠ .outside → ∀ sig, r.pending sig = false
  deadline : ∀ m, r.phase = .contending m ∨ r.phase = .waiting m → r.sleepUntil = 0

theorem Calm.of_outside {r : Runner} (h : r.phase = .outside) : Calm r :=
  ⟨fun hne => absurd h hne, fun m hm => by rcases hm with hm | hm <;> rw [h] at hm <;> cases hm⟩

/-- **Entries and parked tasks correspond.**  A registered task sleeps; a task
that sleeps is registered or about to be woken, by one unlock only; a task in
a mutex call is disturbed by nobody else. -/
structure Orderly (s : MutexSys) : Prop where
  nodup : ∀ m, (s.mutex m).waiters.Nodup
  entry : ∀ m t, t ∈ (s.mutex m).waiters → (s.task t).phase = .waiting m ∧ (s.task t).state = .sleeping
  waking : ∀ u t, (s.task u).phase = .waking t →
    (∃ m, (s.task t).phase = .waiting m) ∧ (s.task t).state = .sleeping ∧
    (∀ m, t ∉ (s.mutex m).waiters) ∧ ∀ u', (s.task u').phase = .waking t → u' = u
  asleep : ∀ m t, (s.task t).phase = .waiting m → (s.task t).state = .sleeping →
    t ∈ (s.mutex m).waiters ∨ ∃ u, (s.task u).phase = .waking t
  calm : ∀ t, Calm (s.task t)
  alive : ∀ t, (s.task t).phase ≠ .outside → (s.task t).state = .ready ∨ (s.task t).state = .running ∨
    (s.task t).state = .sleeping ∧ ∃ m, (s.task t).phase = .waiting m
  hand : ∀ m, (s.mutex m).locked = false → (s.mutex m).waiters ≠ [] →
    ∃ t, s.Eager m t ∨ (s.task t).phase = .waiting m ∧ ∃ u, (s.task u).phase = .waking t

/-- The condition of the first law: a signal hits no task that is inside a
mutex call, a task with a signal to act on, or one that is dead already,
starts none, and a task calls `mutex_lock` with its deadline word clear. -/
def Quiet (s : MutexSys) : MutexEvent → Prop
  | .signal t _ => (s.task t).phase = .outside
  | .call t _ =>
    (s.task t).state = .running ∧ (∀ sig, (s.task t).pending sig = false) ∧ (s.task t).sleepUntil = 0
  | .unlock t _ => (s.task t).state = .running ∧ ∀ sig, (s.task t).pending sig = false
  | _ => True

variable {s s' : MutexSys} {t m : Nat} {r : Runner} {x : Mutex}

/-- What makes a task with this record eager. -/
def Contends (r : Runner) (m : Nat) : Prop :=
  (r.phase = .contending m ∨ r.phase = .waiting m) ∧ r.state.Runnable

/-- Parked for good: the state a registered task is in. -/
def Asleep (s : MutexSys) (t : Nat) : Prop :=
  ∃ m, (s.task t).phase = .waiting m ∧ (s.task t).state = .sleeping

theorem Orderly.not_entry (h : s.Orderly) (ht : ¬s.Asleep t) (m : Nat) : t ∉ (s.mutex m).waiters :=
  fun hm => ht ⟨m, h.entry m t hm⟩

theorem Orderly.not_target (h : s.Orderly) (ht : ¬s.Asleep t) (u : Nat) :
    (s.task u).phase ≠ .waking t := by
  intro hu
  obtain ⟨⟨m, hm⟩, hsl, -⟩ := h.waking u t hu
  exact ht ⟨m, hm, hsl⟩

/-- Tasks in different phases are different. -/
theorem ne_of_phase {u : Nat} {p q : Phase} (hu : (s.task u).phase = p) (ht : (s.task t).phase = q)
    (hpq : p ≠ q) : u ≠ t := by
  rintro rfl
  exact hpq (hu.symm.trans ht)

theorem not_asleep_of_phase {p : Phase} (ht : (s.task t).phase = p) (hp : ∀ m, p ≠ .waiting m) :
    ¬s.Asleep t := by
  rintro ⟨k, hk, -⟩
  exact hp k (ht.symm.trans hk)

/-- What another task does leaves an eager one eager. -/
theorem Eager.setTask_of_ne {k y : Nat} (h : s.Eager k y) (hy : y ≠ t) : (s.setTask t r).Eager k y := by
  unfold Eager
  rw [MutexSys.setTask_of_ne hy]
  exact h

/-! ### The correspondence is kept -/

section

variable (h : s.Orderly) {w : Nat}
include h

/-- A mutex may change as long as its entries stay and it is not released. -/
theorem Orderly.setMutex (hw : x.waiters = (s.mutex m).waiters)
    (hl : x.locked = false → x.waiters ≠ [] → (s.mutex m).locked = false) :
    (s.setMutex m x).Orderly := by
  have hwait : ∀ k, ((s.setMutex m x).mutex k).waiters = (s.mutex k).waiters := by
    intro k
    exact setMutex_ind k (fun hk => hk ▸ hw) fun _ => rfl
  refine ⟨fun k => ?_, fun k t ht => ?_, fun u t hu => ?_, fun k t h₁ h₂ => ?_, h.calm, h.alive,
    fun k h₁ h₂ => ?_⟩
  · rw [hwait]
    exact h.nodup k
  · rw [hwait] at ht
    exact h.entry k t ht
  · obtain ⟨h₁, h₂, h₃, h₄⟩ := h.waking u t hu
    exact ⟨h₁, h₂, fun k => by rw [hwait]; exact h₃ k, h₄⟩
  · rw [hwait]
    exact h.asleep k t h₁ h₂
  · refine h.hand k ?_ (hwait k ▸ h₂)
    revert h₁ h₂
    exact setMutex_ind k (fun hk h₁ h₂ => hk ▸ hl h₁ h₂) fun _ h₁ _ => h₁

/-- A task that is not asleep changes a mutex and itself.  It may add its own
entry as it falls asleep, and take entries out of the array to wake them. -/
theorem Orderly.change (ht : ¬s.Asleep t) (hnodup : x.waiters.Nodup)
    (hold : ∀ u ∈ x.waiters, u ≠ t → u ∈ (s.mutex m).waiters)
    (hself : t ∈ x.waiters → r.phase = .waiting m ∧ r.state = .sleeping)
    (hleft : ∀ u ∈ (s.mutex m).waiters, u ∈ x.waiters ∨ r.phase = .waking u)
    (hsleep : ∀ k, r.phase = .waiting k → r.state = .sleeping → k = m ∧ t ∈ x.waiters)
    (hwake : ∀ w, r.phase = .waking w →
      (s.task t).phase = .waking w ∨ w ∈ (s.mutex m).waiters ∧ w ∉ x.waiters)
    (hkeep : ∀ w, (s.task t).phase = .waking w → r.phase = .waking w)
    (hcalm : Calm r)
    (halive : r.phase ≠ .outside → r.state = .ready ∨ r.state = .running ∨
      r.state = .sleeping ∧ ∃ m, r.phase = .waiting m)
    (hfree : x.locked = false → x.waiters ≠ [] →
      (s.mutex m).locked = false ∧ (s.mutex m).waiters ≠ [] ∨ ∃ w ∈ (s.mutex m).waiters, r.phase = .waking w)
    (heager : ∀ k, ((s.setMutex m x).mutex k).locked = false → s.Eager k t → Contends r k) :
    ((s.setMutex m x).setTask t r).Orderly := by
  have hne : ∀ {k u}, u ∈ (s.mutex k).waiters → u ≠ t := fun hu he => h.not_entry ht _ (he ▸ hu)
  -- an entry that is not the task's own was there before
  have hin : ∀ k u, u ≠ t → u ∈ ((s.setMutex m x).mutex k).waiters → u ∈ (s.mutex k).waiters := by
    intro k u hu
    exact setMutex_ind k (fun hk hux => hk ▸ hold u hux hu) fun _ => id
  -- a target was one before, or it has just lost its entry to the task
  have htarget : ∀ u y, (((s.setMutex m x).setTask t r).task u).phase = .waking y →
      (s.task u).phase = .waking y ∨ u = t ∧ y ∈ (s.mutex m).waiters ∧ y ∉ x.waiters := fun u y =>
    setTask_ind u (fun hu hy => (hwake y hy).imp (hu ▸ ·) (⟨hu, ·⟩)) fun _ => Or.inl
  have hkept : ∀ u y, (s.task u).phase = .waking y →
      (((s.setMutex m x).setTask t r).task u).phase = .waking y := by
    intro u y hy
    exact setTask_ind u (fun he => hkeep y (he ▸ hy)) fun _ => hy
  refine ⟨fun k => ?_, fun k u hu => ?_, fun u y hu => ?_, fun k u h₁ h₂ => ?_, fun u => ?_, fun u => ?_,
    fun k h₁ h₂ => ?_⟩
  · exact setMutex_ind k (fun _ => hnodup) fun _ => h.nodup k
  · by_cases hut : u = t
    · subst hut
      rw [setTask_self]
      by_cases hk : k = m
      · subst hk
        exact hself (by rwa [setTask_mutex, setMutex_self] at hu)
      · rw [setTask_mutex, setMutex_of_ne hk] at hu
        exact absurd hu (h.not_entry ht k)
    · rw [setTask_of_ne hut]
      exact h.entry k u (hin k u hut hu)
  · rcases htarget u y hu with hy | ⟨rfl, hmem, hout⟩
    · obtain ⟨h₁, h₂, h₃, h₄⟩ := h.waking u y hy
      have hyt : y ≠ t := fun he => h.not_target ht u (he ▸ hy)
      rw [setTask_of_ne hyt]
      refine ⟨h₁, h₂, fun k hk => h₃ k (hin k y hyt hk), fun u' hu' => ?_⟩
      rcases htarget u' y hu' with hy' | ⟨-, hmem, -⟩
      · exact h₄ u' hy'
      · exact absurd hmem (h₃ m)
    · obtain ⟨h₁, h₂⟩ := h.entry m y hmem
      rw [setTask_of_ne (hne hmem)]
      refine ⟨⟨m, h₁⟩, h₂, fun k hk => ?_, fun u' hu' => ?_⟩
      · have hphase := (h.entry k y (hin k y (hne hmem) hk)).1
        obtain rfl : m = k := Phase.waiting.inj (h₁.symm.trans hphase)
        rw [setTask_mutex, setMutex_self] at hk
        exact hout hk
      · rcases htarget u' y hu' with hy' | ⟨he, -⟩
        · exact absurd hmem ((h.waking u' y hy').2.2.1 m)
        · exact he
  · by_cases hut : u = t
    · subst hut
      rw [setTask_self] at h₁ h₂
      obtain ⟨rfl, hmem⟩ := hsleep k h₁ h₂
      exact Or.inl (by rwa [setTask_mutex, setMutex_self])
    · rw [setTask_of_ne hut] at h₁ h₂
      rcases h.asleep k u h₁ h₂ with hmem | ⟨v, hv⟩
      · by_cases hk : k = m
        · subst hk
          rcases hleft u hmem with hx | hw
          · exact Or.inl (by rwa [setTask_mutex, setMutex_self])
          · exact Or.inr ⟨t, by rwa [setTask_self]⟩
        · exact Or.inl (by rwa [setTask_mutex, setMutex_of_ne hk])
      · exact Or.inr ⟨v, hkept v u hv⟩
  · exact setTask_ind u (fun _ => hcalm) fun _ => h.calm u
  · exact setTask_ind u (fun _ => halive) fun _ => h.alive u
  · have hcase : (s.mutex k).locked = false ∧ (s.mutex k).waiters ≠ [] ∨
        ∃ w ∈ (s.mutex k).waiters, r.phase = .waking w := by
      revert h₁ h₂
      exact setMutex_ind k (fun hk h₁ h₂ => hk ▸ hfree h₁ h₂) fun _ h₁ h₂ => Or.inl ⟨h₁, h₂⟩
    rcases hcase with ⟨hl, hw⟩ | ⟨w, hmem, hw⟩
    · obtain ⟨y, hy | ⟨hy, u, hu⟩⟩ := h.hand k hl hw
      · by_cases hyt : y = t
        · subst hyt
          refine ⟨y, Or.inl ?_⟩
          unfold Eager
          rw [setTask_self]
          exact heager k h₁ hy
        · exact ⟨y, Or.inl (Eager.setTask_of_ne hy hyt)⟩
      · have hyt : y ≠ t := fun he => h.not_target ht u (he ▸ hu)
        exact ⟨y, Or.inr ⟨by rwa [setTask_of_ne hyt], u, hkept u y hu⟩⟩
    · -- the task has taken this entry out, to wake it
      refine ⟨w, Or.inr ⟨?_, t, by rwa [setTask_self]⟩⟩
      rw [setTask_of_ne (hne hmem)]
      exact (h.entry k w hmem).1

/-- A task that is not asleep may change its state and its phase, as long as
it does not fall asleep, stays the waker it is, and keeps contending for the
mutexes whose waiters may rely on it. -/
theorem Orderly.setTask (ht : ¬s.Asleep t)
    (hr : ∀ m, r.phase = .waiting m → r.state ≠ .sleeping)
    (hw : ∀ w, r.phase = .waking w ↔ (s.task t).phase = .waking w)
    (hcalm : Calm r)
    (halive : r.phase ≠ .outside → r.state.Runnable)
    (heager : ∀ m, (s.mutex m).locked = false → s.Eager m t → Contends r m) :
    (s.setTask t r).Orderly := by
  have hsame : s.setMutex 0 (s.mutex 0) = s := by
    unfold MutexSys.setMutex
    rw [update_eq_self]
  have hnew := h.change ht (h.nodup 0) (fun _ hu _ => hu) (fun hin => absurd hin (h.not_entry ht 0))
    (fun _ hu => Or.inl hu) (fun k hk hsl => absurd hsl (hr k hk)) (fun w hrw => Or.inl ((hw w).mp hrw))
    (fun w htw => (hw w).mpr htw) hcalm (fun hne => (halive hne).imp_right Or.inl)
    (fun hl hne => Or.inl ⟨hl, hne⟩) (by rw [hsame]; exact heager)
  rwa [hsame] at hnew

/-- A task outside every mutex call may do as it likes there. -/
theorem Orderly.outside (ht : (s.task t).phase = .outside) (hr : r.phase = .outside) :
    (s.setTask t r).Orderly := by
  refine h.setTask (not_asleep_of_phase ht (by simp)) (fun m hm => ?_) (fun w => ?_)
    (.of_outside hr) (fun hne => absurd hr hne) (fun m _ he => ?_)
  · rw [hr] at hm
    cases hm
  · rw [ht, hr]
  · rcases he.1 with hp | hp <;> rw [ht] at hp <;> cases hp

/-- A task that contends registers itself and falls asleep. -/
theorem Orderly.register (ht : (s.task t).phase = .contending m)
    (hl : (s.mutex m).locked = true) :
    ((s.setMutex m { s.mutex m with waiters := (s.mutex m).waiters ++ [t] }).setTask t
      { s.task t with phase := .waiting m, state := .sleeping }).Orderly := by
  have hnot : ¬s.Asleep t := not_asleep_of_phase ht (by simp)
  refine h.change hnot ?_ (fun u hu hut => ?_) (fun _ => ⟨rfl, rfl⟩)
    (fun u hu => Or.inl (List.mem_append_left _ hu)) (fun k hk _ => ?_) (fun w hw => ?_) (fun w hw => ?_)
    ⟨fun _ => (h.calm t).pending (by rw [ht]; simp), fun _ _ => (h.calm t).deadline m (Or.inl ht)⟩
    (fun _ => Or.inr (Or.inr ⟨rfl, m, rfl⟩)) (fun hf => ?_)
    (fun k hk he => ?_)
  · exact List.Nodup.append (h.nodup m) (List.nodup_singleton t)
      (List.disjoint_singleton.mpr (h.not_entry hnot m))
  · exact (List.mem_append.mp hu).resolve_right fun hu' => hut (List.mem_singleton.mp hu')
  · exact ⟨(Phase.waiting.inj hk).symm, List.mem_append_right _ (List.mem_singleton_self t)⟩
  · cases hw
  · rw [ht] at hw
    cases hw
  · exact absurd (hl.symm.trans hf) (by simp)
  · -- the task contends for `m` only, which is locked
    rcases he.1 with hp | hp <;> rw [ht] at hp
    · obtain rfl : m = k := Phase.contending.inj hp
      rw [setMutex_self] at hk
      exact absurd (hl.symm.trans hk) (by simp)
    · cases hp

/-- An unlock takes the first waiter out of the array, to wake it. -/
theorem Orderly.release (ht : (s.task t).phase = .outside)
    (hrun : (s.task t).state = .running) (hcalm : ∀ sig, (s.task t).pending sig = false)
    {ws : List Nat} (hw : (s.mutex m).waiters = w :: ws) (hx : x.waiters = ws)
    (hr : r.phase = .waking w) (hrs : r.state = (s.task t).state)
    (hrp : r.pending = (s.task t).pending) : ((s.setMutex m x).setTask t r).Orderly := by
  have hnot : ¬s.Asleep t := not_asleep_of_phase ht (by simp)
  have hwin : w ∈ (s.mutex m).waiters := hw ▸ List.mem_cons_self
  obtain ⟨hwws, hws⟩ := List.nodup_cons.mp (hw ▸ h.nodup m)
  have hsub : ∀ u ∈ x.waiters, u ∈ (s.mutex m).waiters := fun u hu => hw ▸ List.mem_cons_of_mem w (hx ▸ hu)
  refine h.change hnot (hx ▸ hws) (fun u hu _ => hsub u hu)
    (fun hin => absurd (hsub t hin) (h.not_entry hnot m)) (fun u hu => ?_) (fun k hk _ => ?_)
    (fun y hy => Or.inr ?_) (fun y hy => ?_)
    ⟨fun _ => hrp ▸ hcalm, fun k hk => by rcases hk with hk | hk <;> rw [hr] at hk <;> cases hk⟩
    (fun _ => Or.inr (Or.inl (hrs.trans hrun))) (fun _ _ => Or.inr ⟨w, hwin, hr⟩) (fun k _ he => ?_)
  · rw [hw] at hu
    rcases List.mem_cons.mp hu with rfl | hu'
    · exact Or.inr hr
    · exact Or.inl (hx ▸ hu')
  · rw [hr] at hk
    cases hk
  · obtain rfl : w = y := Phase.waking.inj (hr.symm.trans hy)
    exact ⟨hwin, hx ▸ hwws⟩
  · rw [ht] at hy
    cases hy
  · rcases he.1 with hp | hp <;> rw [ht] at hp <;> cases hp

/-- The wake-up: the waiter is `Ready` and will contend again. -/
theorem Orderly.wake (ht : (s.task t).phase = .waking w) :
    ((s.setTask t { s.task t with phase := .outside }).setTask w
      { s.task w with state := .ready }).Orderly := by
  obtain ⟨⟨m, hm⟩, hsl, hout, huniq⟩ := h.waking t w ht
  have hwt : w ≠ t := ne_of_phase hm ht (by simp)
  have hnot : ¬s.Asleep t := not_asleep_of_phase ht (by simp)
  set s' := (s.setTask t { s.task t with phase := .outside }).setTask w
    { s.task w with state := .ready } with hs'
  -- `t` and `w` change; every other task stays
  have hw : s'.task w = { s.task w with state := .ready } := setTask_self
  have hself : (s'.task t).phase = .outside := by
    rw [setTask_of_ne hwt.symm, setTask_self]
  have htask : ∀ u, u ≠ t → u ≠ w → s'.task u = s.task u := fun u h₁ h₂ => by
    rw [setTask_of_ne h₂, setTask_of_ne h₁]
  have hphase : ∀ u, u ≠ t → (s'.task u).phase = (s.task u).phase := fun u hu =>
    setTask_ind u (fun he => by rw [he]) fun _ => by rw [setTask_of_ne hu]
  have hne : ∀ u, (s'.task u).phase ≠ .outside → u ≠ t := fun u hu he => hu (he ▸ hself)
  have hwaking : ∀ u y, (s'.task u).phase = .waking y → u ≠ t ∧ (s.task u).phase = .waking y := by
    intro u y hu
    have hut := hne u (by rw [hu]; simp)
    exact ⟨hut, (hphase u hut).symm.trans hu⟩
  -- a waker of another task goes on
  have hother : ∀ u y, y ≠ w → (s.task u).phase = .waking y → (s'.task u).phase = .waking y := by
    intro u y hyw hu
    refine (hphase u fun he => hyw ?_).trans hu
    exact Phase.waking.inj ((he ▸ hu).symm.trans ht)
  refine ⟨h.nodup, fun k u hu => ?_, fun u y hu => ?_, fun k u h₁ h₂ => ?_, fun u => ?_,
    fun u hu => ?_, fun k h₁ h₂ => ?_⟩
  · have h₁ : u ≠ t := fun he => h.not_entry hnot k (he ▸ hu)
    have h₂ : u ≠ w := fun he => hout k (he ▸ hu)
    rw [htask u h₁ h₂]
    exact h.entry k u hu
  · obtain ⟨hut, hy⟩ := hwaking u y hu
    have hyw : y ≠ w := fun he => hut (huniq u (he ▸ hy))
    have hyt : y ≠ t := fun he => h.not_target hnot u (he ▸ hy)
    rw [htask y hyt hyw]
    obtain ⟨h₁, h₂, h₃, h₄⟩ := h.waking u y hy
    exact ⟨h₁, h₂, h₃, fun u' hu' => h₄ u' (hwaking u' y hu').2⟩
  · have huw : u ≠ w := by
      rintro rfl
      rw [hw] at h₂
      cases h₂
    have hut := hne u (by rw [h₁]; simp)
    rw [htask u hut huw] at h₁ h₂
    rcases h.asleep k u h₁ h₂ with hin | ⟨v, hv⟩
    · exact Or.inl hin
    · exact Or.inr ⟨v, hother v u huw hv⟩
  · by_cases huw : u = w
    · rw [huw, hw]
      exact ⟨(h.calm w).pending, (h.calm w).deadline⟩
    · by_cases hut : u = t
      · exact hut ▸ .of_outside hself
      · exact htask u hut huw ▸ h.calm u
  · by_cases huw : u = w
    · rw [huw, hw]
      exact Or.inl rfl
    · have hut := hne u hu
      rw [htask u hut huw] at hu ⊢
      exact h.alive u hu
  · obtain ⟨y, hy | ⟨hy, u, hu⟩⟩ := h.hand k h₁ h₂
    · have hyw : y ≠ w := by
        rintro rfl
        rcases hy.2 with hst | hst <;> rw [hsl] at hst <;> cases hst
      have hyt : y ≠ t := by
        rintro rfl
        rcases hy.1 with hp | hp <;> rw [ht] at hp <;> cases hp
      refine ⟨y, Or.inl ?_⟩
      unfold Eager
      rw [htask y hyt hyw]
      exact hy
    · by_cases hyw : y = w
      · -- the task woken now
        subst hyw
        refine ⟨y, Or.inl ?_⟩
        unfold Eager
        rw [hw]
        exact ⟨Or.inr hy, Or.inl rfl⟩
      · have hyt : y ≠ t := fun he => h.not_target hnot u (he ▸ hu)
        exact ⟨y, Or.inr ⟨(hphase y hyt).trans hy, u, hother u y hyw hu⟩⟩

end

section

variable (h : s.Orderly)
include h

/-- A task in a mutex call that executes is running. -/
theorem Orderly.running (ht : (s.task t).phase ≠ .outside) (hx : s.Executing t) :
    (s.task t).state = .running := by
  rcases hx with hr | ⟨hz, -⟩
  · exact hr
  · rcases h.alive t ht with hs | hs | ⟨hs, -⟩ <;> rw [hz] at hs <;> cases hs

/-- A running task changes nothing but its state word and stays runnable. -/
theorem Orderly.reschedule (ht : (s.task t).state.Runnable)
    (hr : r.phase = (s.task t).phase) (hp : r.pending = (s.task t).pending)
    (hd : r.sleepUntil = (s.task t).sleepUntil) (hs : r.state.Runnable) : (s.setTask t r).Orderly := by
  refine h.setTask ?_ (fun m _ hsl => ?_) (fun w => by rw [hr]) ⟨fun hne => ?_, fun m hm => ?_⟩
    (fun _ => hs) (fun m _ he => ?_)
  · rintro ⟨m, -, hsl⟩
    rcases ht with ht | ht <;> rw [hsl] at ht <;> cases ht
  · rcases hs with hs | hs <;> rw [hsl] at hs <;> cases hs
  · rw [hp]
    exact (h.calm t).pending (hr ▸ hne)
  · exact hd.trans ((h.calm t).deadline m (hr ▸ hm))
  · exact ⟨hr ▸ he.1, hs⟩

/-- A granted lock: the task leaves `mutex_lock` and the mutex is locked. -/
theorem Orderly.grant (ht : ¬s.Asleep t)
    (hphase : (s.task t).phase = .outside ∨ (s.task t).phase = .contending m)
    (hw : x.waiters = (s.mutex m).waiters) (hl : x.locked = true) :
    ((s.setMutex m x).setTask t ((s.task t).grant m)).Orderly := by
  have hm : (s.setMutex m x).Orderly := h.setMutex hw fun hf => absurd hf (by simp [hl])
  refine hm.setTask ht (fun k hk => by cases hk) (fun w => ⟨fun hk => (by cases hk), fun hk => ?_⟩)
    (.of_outside rfl) (fun hne => absurd rfl hne) (fun k hk he => ?_)
  · rw [setMutex_task] at hk
    rcases hphase with hp | hp <;> rw [hp] at hk <;> cases hk
  · -- the only mutex the task contended for is locked now
    rcases hphase with hp | hp
    · rcases he.1 with he | he <;> rw [setMutex_task, hp] at he <;> cases he
    · rcases he.1 with he | he <;> rw [setMutex_task, hp] at he
      · obtain rfl := Phase.contending.inj he
        rw [setMutex_self, hl] at hk
        cases hk
      · cases he

/-- **Every step keeps the correspondence** when signals leave mutex calls alone. -/
theorem Orderly.step (hsafe : s.Safe) {e : MutexEvent} (hq : s.Quiet e)
    (he : mutexStep s e = some s') : s'.Orderly := by
  cases mutexStep_move he with
  | @call t m hx hp =>
    refine h.setTask (not_asleep_of_phase hp (by simp)) (fun k hk => by cases hk) (fun w => ?_)
      ⟨fun _ => hq.2.1, fun _ _ => hq.2.2⟩ (fun _ => Or.inr hq.1) (fun k _ hea => ?_)
    · rw [hp]
      exact ⟨fun hk => (by cases hk), fun hk => (by cases hk)⟩
    · rcases hea.1 with hk | hk <;> rw [hp] at hk <;> cases hk
  | @lock t m hp hx =>
    have hrun := h.running (by rw [hp]; simp) hx
    have hnot : ¬s.Asleep t := not_asleep_of_phase hp (by simp)
    have hz : decide ((s.task t).state = .zombie) = false := by simp [hrun]
    rw [hz]
    rcases mutexLockSection_cases (s.mutex m) t false with
      ⟨ho, hr⟩ | ⟨-, -, hr⟩ | ⟨-, hl, -, hr⟩ | ⟨-, -, ⟨hzt, -⟩ | hr⟩
    · rw [hr]
      refine h.grant hnot (Or.inr hp) rfl ?_
      rw [(hsafe m).locked_iff, ho]
      rfl
    · rw [hr]
      exact h.grant hnot (Or.inr hp) rfl rfl
    · rw [hr]
      exact h.register hp hl
    · cases hzt
    · rw [hr]
      exact (h.setMutex rfl fun hf _ => hf).reschedule (Or.inr hrun) rfl rfl rfl (Or.inr hrun)
  | @trylock t m hx hp =>
    have hnot : ¬s.Asleep t := not_asleep_of_phase hp (by simp)
    rcases mutexTrylock_cases (s.mutex m) t with ⟨hr, -, -⟩ | ⟨hr, ha⟩
    · rw [hr]
      exact (h.setMutex rfl fun hf _ => hf).outside hp hp
    · rw [hr]
      obtain ⟨hl, hw⟩ : (mutexLockSection (s.mutex m) t false).1.locked = true ∧
          (mutexLockSection (s.mutex m) t false).1.waiters = (s.mutex m).waiters := by
        rcases mutexLockSection_cases (s.mutex m) t false with
          ⟨ho, hr⟩ | ⟨-, -, hr⟩ | ⟨-, -, -, hr⟩ | ⟨-, -, ⟨-, hr⟩ | hr⟩ <;> rw [hr] at ha ⊢
        · refine ⟨?_, rfl⟩
          rw [(hsafe m).locked_iff, ho]
          rfl
        · exact ⟨rfl, rfl⟩
        all_goals cases ha
      exact h.grant hnot (Or.inl hp) hw hl
  | @unlock t m hx hp hd =>
    obtain ⟨-, hl, ⟨-, hr⟩ | ⟨-, hr⟩⟩ := mutexUnlockSection_cases (hsafe m) hd
    · rw [hr]
      refine Orderly.outside ?_ hp rfl
      exact h.setMutex rfl fun hf => absurd (hl.symm.trans hf) (by simp)
    · rw [hr]
      rcases hw : (s.mutex m).waiters with - | ⟨w, ws⟩
      · refine Orderly.outside ?_ hp rfl
        exact h.setMutex (by rw [hw]; rfl) fun _ hne => absurd rfl hne
      · exact h.release hp hq.1 hq.2 hw rfl rfl rfl rfl
  | @wake t w hp hx =>
    obtain ⟨⟨m, hm⟩, hsl, -⟩ := h.waking t w hp
    have hwt : w ≠ t := ne_of_phase hm hp (by simp)
    rw [setTask_of_ne hwt, hsl]
    exact h.wake hp
  | @resume t m hp hx =>
    have hrun := h.running (by rw [hp]; simp) hx
    refine h.setTask ?_ (fun k hk => by cases hk) (fun w => ?_)
      ⟨fun _ => (h.calm t).pending (by rw [hp]; simp), fun _ _ => (h.calm t).deadline m (Or.inr hp)⟩
      (fun _ => Or.inr hrun) (fun k _ hea => ?_)
    · rintro ⟨k, -, hk⟩
      rw [hrun] at hk
      cases hk
    · rw [hp]
      exact ⟨fun hk => (by cases hk), fun hk => (by cases hk)⟩
    · refine ⟨Or.inl ?_, Or.inr hrun⟩
      rcases hea.1 with hk | hk <;> rw [hp] at hk
      · cases hk
      · obtain rfl := Phase.waiting.inj hk
        rfl
  | @dispatch t hst => exact h.reschedule (Or.inl hst) rfl rfl rfl (Or.inr rfl)
  | @preempt t hx =>
    by_cases hp : (s.task t).phase = .outside
    · exact h.outside hp hp
    · have hrun := h.running hp hx
      rw [Life.park_running hrun]
      exact h.reschedule (Or.inr hrun) rfl rfl rfl (Or.inl rfl)
  | signal => exact h.outside hq hq
  | @handle t _ =>
    by_cases hp : (s.task t).phase = .outside
    · exact h.outside hp hp
    · have hsame : s.setTask t ((s.task t).live (s.task t).handle) = s := by
        rw [Life.handle_eq ((h.calm t).pending hp)]
        exact congrArg (MutexSys.mk s.mutex) (update_eq_self t s.task)
      rw [hsame]
      exact h
  | deadline _ hp => exact h.outside hp hp
  | @expire t ht =>
    by_cases hp : (s.task t).phase = .outside
    · exact h.outside hp hp
    · -- a task that is blocked in a mutex call has no deadline
      rcases h.alive t hp with hs | hs | ⟨-, m, hm⟩
      · exact absurd ht.1 (by rw [hs]; decide)
      · exact absurd ht.1 (by rw [hs]; decide)
      · exact absurd ((h.calm t).deadline m (Or.inr hm)) ht.2

end

end MutexSys

/-! ### The first law -/

instance MutexSys.decidableQuiet (s : MutexSys) (e : MutexEvent) : Decidable (s.Quiet e) := by
  cases e <;> unfold MutexSys.Quiet <;> infer_instance

/-- The condition of the second law: a terminating signal is acted on only
while the task owns no mutex, and a task that is dead already takes none. -/
def MutexSys.Clean (s : MutexSys) : MutexEvent → Prop
  | .handle t => (s.task t).Dies → ∀ m, (s.mutex m).owner ≠ some t
  | .lock t | .trylock t _ => (s.task t).state ≠ .zombie
  | _ => True

/-- A dead task owns no mutex, and one that is gone is dead. -/
structure MutexSys.Released (s : MutexSys) : Prop where
  zombie : ∀ t, (s.task t).state = .zombie → ∀ m, (s.mutex m).owner ≠ some t
  gone : ∀ t, (s.task t).exited = true → (s.task t).state = .zombie

namespace MutexSys

variable {s s' : MutexSys} {t m : Nat} {r : Runner} {x : Mutex}

/-- Only the task changes: it must not die with a mutex. -/
theorem Released.setTask (h : s.Released)
    (hz : r.state = .zombie → ∀ m, (s.mutex m).owner ≠ some t)
    (hg : r.exited = true → r.state = .zombie) : (s.setTask t r).Released := by
  refine ⟨fun u => ?_, fun u => ?_⟩
  · exact setTask_ind u (fun hu => hu ▸ hz) fun _ => h.zombie u
  · exact setTask_ind u (fun _ => hg) fun _ => h.gone u

/-- Only the owner of a mutex changes: to nobody, or to a task that lives. -/
theorem Released.setMutex (h : s.Released)
    (hx : ∀ t, x.owner = some t → (s.mutex m).owner = some t ∨ (s.task t).state ≠ .zombie) :
    (s.setMutex m x).Released := by
  refine ⟨fun u hu k => setMutex_ind k (fun _ hk => ?_) fun _ => h.zombie u hu k, h.gone⟩
  rcases hx u hk with ho | hne
  · exact h.zombie u hu m ho
  · exact hne hu

theorem Released.keep (h : s.Released) (hs : r.state = (s.task t).state)
    (hx : r.exited = (s.task t).exited) : (s.setTask t r).Released :=
  h.setTask (fun hz => h.zombie t (hs ▸ hz)) fun hg => hs ▸ h.gone t (hx ▸ hg)

end MutexSys

variable {m : Mutex}

/-- The owner after an attempt is the one from before or the task itself. -/
theorem mutexLockSection_owner {t u : Nat} {z : Bool}
    (h : (mutexLockSection m t z).1.owner = some u) : m.owner = some u ∨ u = t := by
  rcases mutexLockSection_cases m t z with ⟨-, hr⟩ | ⟨-, -, hr⟩ | ⟨-, -, -, hr⟩ | ⟨-, -, ⟨-, hr⟩ | hr⟩ <;>
    rw [hr] at h
  · exact Or.inl h
  · exact Or.inr (Option.some.inj h).symm
  · exact Or.inl h
  · exact Or.inl h
  · exact Or.inl h

theorem mutexTrylock_owner {t u : Nat} (h : (mutexTrylock m t).1.owner = some u) :
    m.owner = some u ∨ u = t := by
  rcases mutexTrylock_cases m t with ⟨hr, -, -⟩ | ⟨hr, -⟩ <;> rw [hr] at h
  · exact Or.inl h
  · exact mutexLockSection_owner h

theorem mutexUnlockSection_owner {t u : Nat}
    (h : (mutexUnlockSection m t).1.owner = some u) : m.owner = some u := by
  unfold mutexUnlockSection at h
  split_ifs at h
  · exact h
  · exact h

/-- **Every clean step keeps dead tasks without a mutex.** -/
theorem MutexSys.Released.step {s s' : MutexSys} {e : MutexEvent} (h : s.Released) (hc : s.Clean e)
    (he : mutexStep s e = some s') : s'.Released := by
  cases mutexStep_move he with
  | call _ _ | deadline _ _ => exact h.keep rfl rfl
  | @expire t ht =>
    refine h.setTask (fun hz => by cases hz) fun hg => ?_
    -- a task that is gone is no longer blocked
    have hz := h.gone t hg
    exact absurd ht.1 (by rw [hz]; decide)
  | @lock t m hp hx =>
    have hm : (s.setMutex m
        (mutexLockSection (s.mutex m) t (decide ((s.task t).state = .zombie))).1).Released := by
      refine h.setMutex fun u hu => ?_
      rcases mutexLockSection_owner hu with ho | rfl
      · exact Or.inl ho
      · exact Or.inr hc
    cases (mutexLockSection (s.mutex m) t (decide ((s.task t).state = .zombie))).2 with
    | acquired | yields | spins => exact hm.keep rfl rfl
    | parked =>
      refine hm.setTask (fun hz => absurd hz (by simp [Runner.afterLock])) fun hg => ?_
      exact absurd (h.gone t hg) hc
  | @trylock t m hx hp =>
    have hm : (s.setMutex m (mutexTrylock (s.mutex m) t).1).Released := by
      refine h.setMutex fun u hu => ?_
      rcases mutexTrylock_owner hu with ho | rfl
      · exact Or.inl ho
      · exact Or.inr hc
    cases (mutexTrylock (s.mutex m) t).2 with
    | true | false => exact hm.keep rfl rfl
  | @unlock t m hx hp hd =>
    have hm : (s.setMutex m (mutexUnlockSection (s.mutex m) t).1).Released :=
      h.setMutex fun u hu => Or.inl (mutexUnlockSection_owner hu)
    exact hm.keep rfl rfl
  | @wake t w hp hx =>
    have ht : (s.setTask t { s.task t with phase := .outside }).Released := h.keep rfl rfl
    refine ht.setTask (fun hz => ht.zombie w (TaskState.wake_zombie.mp hz)) fun hg => ?_
    exact TaskState.wake_zombie.mpr (ht.gone w hg)
  | resume _ _ => exact h.keep rfl rfl
  | @dispatch t hst =>
    refine h.setTask (fun hz => by cases hz) fun hg => ?_
    have hz := h.gone t hg
    rw [hst] at hz
    cases hz
  | @preempt t hx =>
    refine h.setTask (fun hz => h.zombie t (Life.park_zombie.mp hz)) fun hg => ?_
    rcases Life.park_exited hg with hg | hz
    · exact Life.park_zombie.mpr (h.gone t hg)
    · exact Life.park_zombie.mpr hz
  | @signal t sig =>
    refine h.setTask (fun hz => h.zombie t (Life.signal_zombie.mp hz)) fun hg => ?_
    exact Life.signal_zombie.mpr (h.gone t hg)
  | @handle t hx =>
    refine h.setTask (fun hz => ?_) fun hg => ?_
    · rcases Life.handle_zombie hz with hd | hz
      · exact hc hd
      · exact h.zombie t hz
    · -- a task that is gone does not execute
      replace hg : (s.task t).exited = true := (Life.handle_exited _).symm.trans hg
      have hz := h.gone t hg
      rcases hx with (hr | ⟨-, hx⟩) | hr
      · rw [hz] at hr
        cases hr
      · rw [hg] at hx
        cases hx
      · rw [hz] at hr
        cases hr

/-- **Killing a task leaves no mutex locked**, in every run in which terminating
signals are acted on only while the task owns no mutex. -/
theorem exited_task_owns_no_mutex (state : Nat → TaskState) (es : List MutexEvent) (s : MutexSys)
    (hclean : MeetsAll mutexStep MutexSys.Clean (.start state) es)
    (hrun : run mutexStep (.start state) es = some s) (t : Nat) (ht : (s.task t).exited = true)
    (m : Nat) : ¬((s.mutex m).locked = true ∧ (s.mutex m).owner = some t) := by
  have hinit : (MutexSys.start state).Released :=
    ⟨fun t _ m ho => (by cases ho), fun t hg => (by cases hg)⟩
  have hrel : s.Released := run_invariant MutexSys.Released.step hinit hclean hrun
  exact fun hm => hrel.zombie t (hrel.gone t ht) m hm.2

/-- A task locks, unlocks, is killed and switched away from. -/
def cleanDeath : List MutexEvent :=
  [.call 0 0, .lock 0, .unlock 0 0, .signal 0 .kill, .handle 0, .preempt 0]

/-- The same with the tick before the unlock. -/
def deathInside : List MutexEvent := [.call 0 0, .lock 0, .signal 0 .kill, .handle 0, .preempt 0]

theorem exited_task_owns_no_mutex_cleanDeath :
    ∃ s, run mutexStep (.start fun _ => .running) cleanDeath = some s ∧ (s.task 0).exited = true ∧
      ¬((s.mutex 0).locked = true ∧ (s.mutex 0).owner = some 0) := by
  refine exists_of_check (by decide) fun s hs hex => ⟨hex, ?_⟩
  -- up to the tick only the second event asks for anything; at the tick the mutex is free
  have hclean : MeetsAll mutexStep MutexSys.Clean (.start fun _ => .running) cleanDeath := by
    refine ⟨trivial, fun s₁ h₁ => ⟨?_, fun s₂ h₂ => ⟨trivial, fun s₃ h₃ => ⟨trivial, fun s₄ h₄ =>
      ⟨?_, fun s₅ h₅ => ⟨trivial, fun s₆ h₆ => trivial⟩⟩⟩⟩⟩⟩ <;>
      obtain rfl := Option.some.inj h₁
    · show ¬_ = _
      decide
    · obtain rfl := Option.some.inj h₂
      obtain rfl := Option.some.inj h₃
      obtain rfl := Option.some.inj h₄
      rintro - m
      rcases m with - | m
      · decide
      · show ¬none = _
        decide
  exact exited_task_owns_no_mutex _ cleanDeath s hclean hs 0 hex 0

/-- **A task killed inside its section**: it is gone and the mutex is still locked. -/
theorem killed_owner :
    ∃ s, run mutexStep (.start fun _ => .running) deathInside = some s ∧
      (s.task 0).exited = true ∧ (s.mutex 0).locked = true ∧ (s.mutex 0).owner = some 0 := by
  refine exists_of_check (by decide) fun s _ hv => hv

end CactKernel
