/-
CactKernel/Sync/Semaphore.lean

The counting semaphore (`sync/src/semaphore.rs`).

The fast path of `down` is a load and a compare-and-swap; the slow path looks
at the count again under the scheduler's lock and the guard, and parks
(`semaDownSection`).  `up` is one section under both locks and wakes its
waiter inside it (`semaUpSection`).  `sema_try_down` is the fast path alone.
Each of these is one step, so a task carries a `SemaPhase` between them.  The
count is an `i32` and wraps (`i32Wrap`).

`SemaSys` also counts the completed `down`s and the `up`s.  `down` does not
clear the deadline word of the task it parks, so the clock is among the steps,
as for the mutex.  Main result: `semaphore_conserves_tokens`.  The count is
what these two say; and as long as signals and deadlines leave waiters alone,
there are at least as many tasks on their way
back to the count as there are tokens (`SemaSys.Orderly`, `served`), so a
parked task is never left behind with tokens available.
-/
import CactKernel.Sync.Mutex
import Mathlib.Data.Finset.Card

namespace CactKernel

open Function Runs

/-! ### The semaphore -/

/-- Two's complement of 32 bits. -/
def i32Wrap (x : Int) : Int := (x + 0x80000000) % 0x100000000 - 0x80000000

theorem i32Wrap_of_mem {x : Int} (h₁ : -0x80000000 ≤ x) (h₂ : x < 0x80000000) : i32Wrap x = x := by
  unfold i32Wrap
  omega

structure Semaphore where
  count : Int
  waiters : List Nat
deriving DecidableEq, Repr

def semaInit (val : Int) : Semaphore := ⟨val, []⟩

/-- How the section of `down` ends. -/
inductive DownResult where
  /-- Tokens again, or no room in the array: back to the load. -/
  | retries
  /-- The task has registered itself and is `Sleeping`. -/
  | parked
  /-- The task is `Zombie` and yields. -/
  | yields
deriving DecidableEq, Repr

/-- The slow path of `down`, under both locks. -/
def semaDownSection (x : Semaphore) (cur : Nat) (zombie : Bool) : Semaphore × DownResult :=
  if 0 < x.count then (x, .retries)
  else if zombie then (x, .yields)
  else if x.waiters.length < mutexWaitQueueMax then ({ x with waiters := x.waiters ++ [cur] }, .parked)
  else (x, .retries)

/-- `up`: one more token, and the first waiter, if there is one, to be woken. -/
def semaUpSection (x : Semaphore) : Semaphore × Option Nat :=
  (⟨i32Wrap (x.count + 1), x.waiters.tail⟩, x.waiters.head?)

/-! ### Tasks -/

/-- Where a task stands in a semaphore call. -/
inductive SemaPhase where
  | outside
  /-- In `down`, before the load. -/
  | load
  /-- In `down`, with the value it has loaded. -/
  | swap (v : Int)
  /-- In `down`, before the two locks. -/
  | slow
  /-- In `down`, in the `schedule_yield` after the section. -/
  | waiting
  /-- In `sema_try_down`, before the load. -/
  | tryLoad
  /-- In `sema_try_down`, with the value it has loaded. -/
  | trySwap (v : Int)
deriving DecidableEq, Repr

structure SemaTask extends Life where
  phase : SemaPhase

structure SemaSys where
  sema : Semaphore
  task : Nat → SemaTask
  ups : Nat
  /-- Completed calls of `down` and successful ones of `sema_try_down`. -/
  downs : Nat

inductive SemaEvent where
  | callDown (t : Nat)
  | callTry (t : Nat)
  /-- The load of the fast path. -/
  | load (t : Nat)
  /-- The compare-and-swap of the fast path. -/
  | swap (t : Nat)
  /-- The section of the slow path. -/
  | slow (t : Nat)
  | up (t : Nat)
  /-- The yield of `down` returns. -/
  | resume (t : Nat)
  | dispatch (t : Nat)
  | preempt (t : Nat)
  | signal (t : Nat) (sig : Sig)
  | handle (t : Nat)
  /-- A timed wait outside every call, ended by a wake-up, leaves its deadline behind. -/
  | deadline (t d : Nat)
  /-- The clock reaches the deadline of a blocked task. -/
  | expire (t : Nat)
deriving DecidableEq, Repr

namespace SemaSys

/-- A fresh semaphore and tasks that are in no call. -/
def start (val : Int) (state : Nat → TaskState) : SemaSys :=
  ⟨semaInit val, fun t => ⟨⟨state t, fun _ => false, 0, false⟩, .outside⟩, 0, 0⟩

def setTask (s : SemaSys) (t : Nat) (r : SemaTask) : SemaSys := { s with task := update s.task t r }

/-- The task goes on to the phase `p`. -/
def goto (s : SemaSys) (t : Nat) (p : SemaPhase) : SemaSys := s.setTask t { s.task t with phase := p }

end SemaSys

def SemaTask.live (r : SemaTask) (l : Life) : SemaTask := { r with toLife := l }

/-- The phase after a load of `v`. -/
def SemaPhase.loaded (v : Int) : SemaPhase → Option SemaPhase
  | .load => some (if 0 < v then .swap v else .slow)
  | .tryLoad => some (if 0 < v then .trySwap v else .outside)
  | _ => none

/-- The value a task in this phase expects, and the load it goes back to. -/
def SemaPhase.swaps : SemaPhase → Option (Int × SemaPhase)
  | .swap v => some (v, .load)
  | .trySwap v => some (v, .tryLoad)
  | _ => none

theorem SemaPhase.loaded_some {ph p : SemaPhase} {v : Int} (h : ph.loaded v = some p) :
    ph = .load ∧ p = (if 0 < v then .swap v else .slow) ∨
      ph = .tryLoad ∧ p = if 0 < v then .trySwap v else .outside := by
  cases ph with
  | load => exact Or.inl ⟨rfl, (Option.some.inj h).symm⟩
  | tryLoad => exact Or.inr ⟨rfl, (Option.some.inj h).symm⟩
  | _ => cases h

theorem SemaPhase.swaps_some {ph p : SemaPhase} {v : Int} (h : ph.swaps = some (v, p)) :
    ph = .swap v ∧ p = .load ∨ ph = .trySwap v ∧ p = .tryLoad := by
  cases ph with
  | swap w => cases h; exact Or.inl ⟨rfl, rfl⟩
  | trySwap w => cases h; exact Or.inr ⟨rfl, rfl⟩
  | _ => cases h

/-- The task after the section of the slow path. -/
def SemaTask.afterDown (r : SemaTask) : DownResult → SemaTask
  | .retries => { r with phase := .load }
  | .parked => { r with phase := .waiting, state := .sleeping }
  | .yields => { r with phase := .waiting }

/-- Wake the waiter, if there is one. -/
def SemaSys.wake (s : SemaSys) : Option Nat → SemaSys
  | none => s
  | some w => s.setTask w { s.task w with state := (s.task w).state.wake }

/-- One step of one task, one move of the scheduler, or one signal. -/
def semaStep (s : SemaSys) : SemaEvent → Option SemaSys
  | .callDown t =>
    if (s.task t).Executing ∧ (s.task t).phase = .outside then some (s.goto t .load) else none
  | .callTry t =>
    if (s.task t).Executing ∧ (s.task t).phase = .outside then some (s.goto t .tryLoad) else none
  | .load t =>
    if (s.task t).Executing then
      ((s.task t).phase.loaded s.sema.count).map fun p => s.goto t p
    else none
  | .swap t =>
    if (s.task t).Executing then
      (s.task t).phase.swaps.map fun p =>
        if s.sema.count = p.1 then
          { s.goto t .outside with
            sema := { s.sema with count := s.sema.count - 1 }
            downs := s.downs + 1 }
        else s.goto t p.2
    else none
  | .slow t =>
    if (s.task t).Executing ∧ (s.task t).phase = .slow then
      let r := semaDownSection s.sema t (decide ((s.task t).state = .zombie))
      some { s.setTask t ((s.task t).afterDown r.2) with sema := r.1 }
    else none
  | .up t =>
    if (s.task t).Executing ∧ (s.task t).phase = .outside then
      let r := semaUpSection s.sema
      some { s.wake r.2 with sema := r.1, ups := s.ups + 1 }
    else none
  | .resume t =>
    if (s.task t).Executing ∧ (s.task t).phase = .waiting then some (s.goto t .load) else none
  | .dispatch t =>
    if (s.task t).state = .ready then some (s.setTask t { s.task t with state := .running }) else none
  | .preempt t =>
    if (s.task t).Executing then some (s.setTask t ((s.task t).live (s.task t).park)) else none
  | .signal t sig => some (s.setTask t ((s.task t).live ((s.task t).signal sig)))
  | .handle t =>
    if (s.task t).Executing ∨ (s.task t).state = .sleeping then
      some (s.setTask t ((s.task t).live (s.task t).handle))
    else none
  | .deadline t d =>
    if (s.task t).Executing ∧ (s.task t).phase = .outside then
      some (s.setTask t ((s.task t).live { (s.task t).toLife with sleepUntil := d }))
    else none
  | .expire t =>
    if (s.task t).Timed then some (s.setTask t ((s.task t).live (s.task t).expire)) else none

/-! ### What a step can do -/

/-- **One step**, with the circumstances under which it is taken. -/
inductive SemaMove (s : SemaSys) : SemaEvent → SemaSys → Prop
  | callDown {t : Nat} : (s.task t).Executing → (s.task t).phase = .outside →
      SemaMove s (.callDown t) (s.goto t .load)
  | callTry {t : Nat} : (s.task t).Executing → (s.task t).phase = .outside →
      SemaMove s (.callTry t) (s.goto t .tryLoad)
  | load {t : Nat} {p : SemaPhase} : (s.task t).Executing →
      (s.task t).phase.loaded s.sema.count = some p → SemaMove s (.load t) (s.goto t p)
  | take {t : Nat} {p : SemaPhase} : (s.task t).Executing →
      (s.task t).phase.swaps = some (s.sema.count, p) →
      SemaMove s (.swap t) { s.goto t .outside with
        sema := { s.sema with count := s.sema.count - 1 }
        downs := s.downs + 1 }
  | miss {t : Nat} {v : Int} {p : SemaPhase} : (s.task t).Executing →
      (s.task t).phase.swaps = some (v, p) → SemaMove s (.swap t) (s.goto t p)
  | slow {t : Nat} : (s.task t).Executing → (s.task t).phase = .slow →
      SemaMove s (.slow t)
        { s.setTask t ((s.task t).afterDown
            (semaDownSection s.sema t (decide ((s.task t).state = .zombie))).2) with
          sema := (semaDownSection s.sema t (decide ((s.task t).state = .zombie))).1 }
  | up {t : Nat} : (s.task t).Executing → (s.task t).phase = .outside →
      SemaMove s (.up t) { s.wake s.sema.waiters.head? with
        sema := ⟨i32Wrap (s.sema.count + 1), s.sema.waiters.tail⟩
        ups := s.ups + 1 }
  | resume {t : Nat} : (s.task t).Executing → (s.task t).phase = .waiting →
      SemaMove s (.resume t) (s.goto t .load)
  | dispatch {t : Nat} : (s.task t).state = .ready →
      SemaMove s (.dispatch t) (s.setTask t { s.task t with state := .running })
  | preempt {t : Nat} : (s.task t).Executing →
      SemaMove s (.preempt t) (s.setTask t ((s.task t).live (s.task t).park))
  | signal {t : Nat} {sig : Sig} :
      SemaMove s (.signal t sig) (s.setTask t ((s.task t).live ((s.task t).signal sig)))
  | handle {t : Nat} : (s.task t).Executing ∨ (s.task t).state = .sleeping →
      SemaMove s (.handle t) (s.setTask t ((s.task t).live (s.task t).handle))
  | deadline {t d : Nat} : (s.task t).Executing → (s.task t).phase = .outside →
      SemaMove s (.deadline t d)
        (s.setTask t ((s.task t).live { (s.task t).toLife with sleepUntil := d }))
  | expire {t : Nat} : (s.task t).Timed →
      SemaMove s (.expire t) (s.setTask t ((s.task t).live (s.task t).expire))

theorem semaStep_move {s s' : SemaSys} {e : SemaEvent} (h : semaStep s e = some s') :
    SemaMove s e s' := by
  cases e with
  | callDown t | callTry t | slow t | up t | resume t | deadline t d =>
    obtain ⟨⟨hx, hp⟩, rfl⟩ := of_guard h
    constructor <;> assumption
  | dispatch t | preempt t | handle t | expire t =>
    obtain ⟨hc, rfl⟩ := of_guard h
    constructor
    exact hc
  | load t =>
    simp only [semaStep] at h
    split_ifs at h with hx
    obtain ⟨p, hp, rfl⟩ := Option.map_eq_some_iff.mp h
    exact .load hx hp
  | swap t =>
    simp only [semaStep] at h
    split_ifs at h with hx
    obtain ⟨⟨v, p⟩, hp, hs⟩ := Option.map_eq_some_iff.mp h
    by_cases hv : s.sema.count = v
    · subst hv
      rw [if_pos rfl] at hs
      subst hs
      exact .take hx hp
    · rw [if_neg hv] at hs
      subst hs
      exact .miss hx hp
  | signal t sig =>
    obtain rfl := Option.some.inj h
    exact .signal

/-- The section changes the waiters only, and only when it parks. -/
theorem semaDownSection_cases (x : Semaphore) (t : Nat) (z : Bool) :
    semaDownSection x t z = (x, .retries) ∨ z = true ∧ semaDownSection x t z = (x, .yields) ∨
    x.count ≤ 0 ∧ z = false ∧
      semaDownSection x t z = ({ x with waiters := x.waiters ++ [t] }, .parked) := by
  unfold semaDownSection
  by_cases hc : 0 < x.count
  · exact Or.inl (if_pos hc)
  rw [if_neg hc]
  cases z with
  | true => exact Or.inr (Or.inl ⟨rfl, rfl⟩)
  | false =>
    by_cases hw : x.waiters.length < mutexWaitQueueMax
    · exact Or.inr (Or.inr ⟨not_lt.mp hc, rfl, by rw [if_pos hw]; rfl⟩)
    · exact Or.inl (by rw [if_neg hw]; rfl)

/-! ### Tokens -/

namespace SemaSys

/-- The condition on tokens: the count has room for one more. -/
def Fits (s : SemaSys) : SemaEvent → Prop
  | .up _ => s.sema.count < 0x7FFFFFFF
  | _ => True

/-- A task about to swap has loaded a positive count. -/
structure Exact (s : SemaSys) (val : Int) : Prop where
  count : s.sema.count = val + s.ups - s.downs
  nonneg : 0 ≤ s.sema.count
  bound : s.sema.count ≤ 0x7FFFFFFF
  loaded : ∀ t v p, (s.task t).phase.swaps = some (v, p) → 0 < v

variable {s s' : SemaSys} {t u : Nat} {r : SemaTask} {val : Int} {p : SemaPhase}

@[simp] theorem setTask_self : (s.setTask t r).task t = r := update_self ..
theorem setTask_of_ne (h : u ≠ t) : (s.setTask t r).task u = s.task u := update_of_ne h ..

theorem Exact.setTask (h : s.Exact val) (hr : ∀ v p, r.phase.swaps = some (v, p) → 0 < v) :
    (s.setTask t r).Exact val := by
  refine { h with loaded := ?_ }
  exact (forall_update_iff s.task fun _ r => ∀ v p, r.phase.swaps = some (v, p) → 0 < v).mpr
    ⟨hr, fun u _ => h.loaded u⟩

/-- The task stays in its phase. -/
theorem Exact.live (h : s.Exact val) (l : Life) : (s.setTask t ((s.task t).live l)).Exact val :=
  h.setTask fun v p hp => h.loaded t v p hp

theorem wake_phase (w : Option Nat) : ((s.wake w).task u).phase = (s.task u).phase := by
  rcases w with - | w
  · rfl
  · show ((s.setTask w _).task u).phase = _
    by_cases hu : u = w
    · subst hu
      rw [setTask_self]
    · rw [setTask_of_ne hu]

/-- **Every step that fits keeps the count exact.** -/
theorem Exact.step (h : s.Exact val) {e : SemaEvent} (hf : s.Fits e) (he : semaStep s e = some s') :
    s'.Exact val := by
  cases semaStep_move he with
  | callDown _ _ | callTry _ _ | resume _ _ => exact h.setTask fun v p hp => by cases hp
  | @load t p _ hp =>
    refine h.setTask fun v q hq => ?_
    -- only a positive count leads to the swap
    rcases SemaPhase.loaded_some hp with ⟨-, rfl⟩ | ⟨-, rfl⟩
    all_goals
      split_ifs at hq with hc <;> simp [SemaPhase.swaps] at hq
      omega
  | @take t p _ hp =>
    have hpos := h.loaded t _ _ hp
    have hg : (s.goto t .outside).Exact val := h.setTask fun v p hp => by cases hp
    have := h.count
    have := h.bound
    refine ⟨?_, ?_, ?_, hg.loaded⟩
    · show s.sema.count - 1 = val + s.ups - ((s.downs + 1 : Nat) : Int)
      omega
    · show 0 ≤ s.sema.count - 1
      omega
    · show s.sema.count - 1 ≤ 0x7FFFFFFF
      omega
  | @miss t v p _ hp =>
    refine h.setTask fun w q hq => ?_
    rcases SemaPhase.swaps_some hp with ⟨-, rfl⟩ | ⟨-, rfl⟩ <;> cases hq
  | @slow t _ _ =>
    rcases semaDownSection_cases s.sema t (decide ((s.task t).state = .zombie)) with
      hr | ⟨-, hr⟩ | ⟨-, -, hr⟩ <;> rw [hr]
    all_goals exact ⟨h.count, h.nonneg, h.bound, (h.setTask fun v p hp => by cases hp).loaded⟩
  | @up t _ _ =>
    have hc : s.sema.count < 0x7FFFFFFF := hf
    have := h.count
    have := h.nonneg
    have hw : i32Wrap (s.sema.count + 1) = s.sema.count + 1 := i32Wrap_of_mem (by omega) (by omega)
    refine ⟨?_, ?_, ?_, fun u v p hu => h.loaded u v p (wake_phase _ ▸ hu)⟩
    · show i32Wrap (s.sema.count + 1) = val + ((s.ups + 1 : Nat) : Int) - (s.wake _).downs
      have hd : (s.wake s.sema.waiters.head?).downs = s.downs := by
        rcases s.sema.waiters.head? with - | w <;> rfl
      omega
    · show 0 ≤ i32Wrap (s.sema.count + 1)
      omega
    · show i32Wrap (s.sema.count + 1) ≤ 0x7FFFFFFF
      omega
  | dispatch _ | preempt _ | signal | handle _ | deadline _ _ | expire _ => exact h.live _

/-! ### Waiters -/

/-- A phase of `down`. -/
def InDown (p : SemaPhase) : Prop := p = .load ∨ (∃ v, p = .swap v) ∨ p = .slow ∨ p = .waiting

/-- The task is inside `down` and not parked: it will look at the count again. -/
def Eager (s : SemaSys) (t : Nat) : Prop := (s.task t).state.Runnable ∧ InDown (s.task t).phase

/-- Nothing but an `up` disturbs a task in a call: it has no signal to act on, and no deadline while it
may sleep. -/
structure Calm (r : SemaTask) : Prop where
  pending : r.phase ≠ .outside → ∀ sig, r.pending sig = false
  deadline : InDown r.phase → r.sleepUntil = 0

theorem InDown.ne_outside (h : InDown p) : p ≠ .outside := by
  rcases h with rfl | ⟨v, rfl⟩ | rfl | rfl <;> simp

theorem Calm.of_outside (h : r.phase = .outside) : Calm r :=
  ⟨fun hne => absurd h hne, fun hd => absurd h hd.ne_outside⟩

theorem not_inDown (h : p = .outside ∨ p = .tryLoad ∨ ∃ v, p = .trySwap v) : ¬InDown p := by
  rintro (hd | ⟨v, hd⟩ | hd | hd) <;> rw [hd] at h <;> simp at h

/-- **Entries and parked tasks correspond, and tokens have takers.**  A task
sleeps in `down` exactly if it is registered, a task in a call is disturbed by
nobody else, and while there are waiters, at least `count` tasks will look at the
count again. -/
structure Orderly (s : SemaSys) : Prop where
  nodup : s.sema.waiters.Nodup
  entry : ∀ t, t ∈ s.sema.waiters ↔ (s.task t).phase = .waiting ∧ (s.task t).state = .sleeping
  calm : ∀ t, Calm (s.task t)
  alive : ∀ t, (s.task t).phase ≠ .outside →
    (s.task t).state.Runnable ∨ (s.task t).state = .sleeping ∧ (s.task t).phase = .waiting
  served : s.sema.waiters ≠ [] → ∃ E : Finset Nat, (∀ t ∈ E, s.Eager t) ∧ s.sema.count ≤ E.card

/-- The condition on signals and deadlines: no signal hits a task inside a call, a task with a signal to
act on, or one that is dead already, starts none, and a task calls `down` with its deadline word clear. -/
def Quiet (s : SemaSys) : SemaEvent → Prop
  | .signal t _ => (s.task t).phase = .outside
  | .callDown t =>
    (s.task t).state = .running ∧ (∀ sig, (s.task t).pending sig = false) ∧ (s.task t).sleepUntil = 0
  | .callTry t => (s.task t).state = .running ∧ ∀ sig, (s.task t).pending sig = false
  | _ => True

/-- Tasks that were eager and are not `t` still are. -/
theorem served_erase (h : s.Orderly) (hne : s.sema.waiters ≠ []) (t : Nat) :
    ∃ E : Finset Nat, t ∉ E ∧ (∀ u ∈ E, s.Eager u) ∧ s.sema.count ≤ E.card + 1 := by
  obtain ⟨E, hE, hc⟩ := h.served hne
  refine ⟨E.erase t, Finset.notMem_erase t E, fun u hu => hE u (Finset.mem_of_mem_erase hu), ?_⟩
  have := Finset.pred_card_le_card_erase (s := E) (a := t)
  omega

theorem eager_of_ne (hu : u ≠ t) (he : s.Eager u) : (s.setTask t r).Eager u := by
  unfold Eager
  rwa [setTask_of_ne hu]

section

variable (h : s.Orderly)
include h

/-- One task changes, and of the entries only its own may. -/
theorem Orderly.change (htask : s'.task = (s.setTask t r).task)
    (hnodup : s'.sema.waiters.Nodup)
    (hself : t ∈ s'.sema.waiters ↔ r.phase = .waiting ∧ r.state = .sleeping)
    (hother : ∀ u, u ≠ t → (u ∈ s'.sema.waiters ↔ u ∈ s.sema.waiters))
    (hcalm : Calm r)
    (halive : r.phase ≠ .outside → r.state.Runnable ∨ r.state = .sleeping ∧ r.phase = .waiting)
    (hserved : s'.sema.waiters ≠ [] → ∃ E : Finset Nat, (∀ t ∈ E, s'.Eager t) ∧ s'.sema.count ≤ E.card) :
    s'.Orderly := by
  refine ⟨hnodup, fun u => ?_, fun u => ?_, fun u => ?_, hserved⟩ <;> rw [htask] <;> by_cases hut : u = t
  · rw [hut, setTask_self]
    exact hself
  · rw [setTask_of_ne hut, hother u hut]
    exact h.entry u
  · rw [hut, setTask_self]
    exact hcalm
  · rw [setTask_of_ne hut]
    exact h.calm u
  · rw [hut, setTask_self]
    exact halive
  · rw [setTask_of_ne hut]
    exact h.alive u

/-- A task that is not asleep may move, as long as it does not fall asleep and
stays eager if it was. -/
theorem Orderly.setTask (ht : ¬((s.task t).phase = .waiting ∧ (s.task t).state = .sleeping))
    (hr : ¬(r.phase = .waiting ∧ r.state = .sleeping))
    (hcalm : Calm r)
    (halive : r.phase ≠ .outside → r.state.Runnable)
    (heager : s.Eager t → (s.setTask t r).Eager t) : (s.setTask t r).Orderly := by
  refine h.change rfl h.nodup ⟨fun hu => absurd ((h.entry t).mp hu) ht, fun hu => absurd hu hr⟩
    (fun _ _ => Iff.rfl) hcalm (fun hne => Or.inl (halive hne)) fun hne => ?_
  obtain ⟨E, hE, hc⟩ := h.served hne
  refine ⟨E, fun u hu => ?_, hc⟩
  by_cases hut : u = t
  · subst hut
    exact heager (hE u hu)
  · exact eager_of_ne hut (hE u hu)

/-- A task outside every call is nobody's concern. -/
theorem Orderly.outside (ht : (s.task t).phase = .outside) (hr : r.phase = .outside) :
    (s.setTask t r).Orderly := by
  refine h.setTask (fun hw => ?_) (fun hw => ?_) (.of_outside hr) (fun hne => absurd hr hne)
    (fun he => absurd ht he.2.ne_outside)
  · rw [ht] at hw
    cases hw.1
  · rw [hr] at hw
    cases hw.1

/-- A task in a call that executes is running. -/
theorem Orderly.running (ht : (s.task t).phase ≠ .outside) (hx : (s.task t).Executing) :
    (s.task t).state = .running := by
  rcases hx with hr | ⟨hz, -⟩
  · exact hr
  · rcases h.alive t ht with hs | ⟨hs, -⟩
    · rw [hz] at hs
      exact absurd hs (by decide)
    · rw [hz] at hs
      cases hs

/-- A running task goes on inside its call; from `down` it stays in `down`. -/
theorem Orderly.goto (hrun : (s.task t).state = .running)
    (hcalm : ∀ sig, (s.task t).pending sig = false) (hdead : InDown p → (s.task t).sleepUntil = 0)
    (heager : s.Eager t → InDown p) : (s.goto t p).Orderly := by
  refine h.setTask (fun hw => ?_) (fun hw => ?_) ⟨fun _ => hcalm, hdead⟩ (fun _ => Or.inr hrun) (fun he => ?_)
  · rw [hrun] at hw
    cases hw.2
  · rw [show ({ s.task t with phase := p } : SemaTask).state = .running from hrun] at hw
    cases hw.2
  · unfold Eager
    rw [setTask_self]
    exact ⟨Or.inr hrun, heager he⟩

/-- A task that executes in `down` goes on there. -/
theorem Orderly.within (hex : (s.task t).Executing) (hin : InDown (s.task t).phase) (hp : InDown p) :
    (s.goto t p).Orderly :=
  h.goto (h.running hin.ne_outside hex) ((h.calm t).pending hin.ne_outside)
    (fun _ => (h.calm t).deadline hin) fun _ => hp

/-- A task that executes in `sema_try_down` goes on there, or leaves. -/
theorem Orderly.trying (hex : (s.task t).Executing) (hne : (s.task t).phase ≠ .outside)
    (hin : ¬InDown (s.task t).phase) (hp : ¬InDown p) : (s.goto t p).Orderly :=
  h.goto (h.running hne hex) ((h.calm t).pending hne) (fun hd => absurd hd hp) fun he => absurd he.2 hin

/-- A runnable task changes its state word and stays runnable. -/
theorem Orderly.reschedule (ht : (s.task t).state.Runnable)
    (hr : r.phase = (s.task t).phase) (hp : r.pending = (s.task t).pending)
    (hd : r.sleepUntil = (s.task t).sleepUntil) (hs : r.state.Runnable) : (s.setTask t r).Orderly := by
  refine h.setTask (fun hw => ?_) (fun hw => ?_) ⟨fun hne => ?_, fun hin => ?_⟩ (fun _ => hs) (fun he => ?_)
  · rw [hw.2] at ht
    exact absurd ht (by decide)
  · rw [hw.2] at hs
    exact absurd hs (by decide)
  · rw [hp]
    exact (h.calm t).pending (hr ▸ hne)
  · exact hd.trans ((h.calm t).deadline (hr ▸ hin))
  · unfold Eager
    rw [setTask_self, hr]
    exact ⟨hs, he.2⟩

/-- A token is taken: one eager task less, one token less. -/
theorem Orderly.take (hrun : (s.task t).state = .running) (downs : Nat) :
    Orderly { s.goto t .outside with
      sema := { s.sema with count := s.sema.count - 1 }
      downs := downs } := by
  refine h.change rfl h.nodup ?_ (fun _ _ => Iff.rfl) (.of_outside rfl) (fun hne => absurd rfl hne)
    fun hne => ?_
  · rw [h.entry t, hrun]
    simp
  · obtain ⟨E, hnot, hE, hc⟩ := served_erase h hne t
    refine ⟨E, fun u hu => eager_of_ne (fun he => hnot (he ▸ hu)) (hE u hu), ?_⟩
    show s.sema.count - 1 ≤ _
    omega

/-- A task registers itself while there is no token. -/
theorem Orderly.register (hp : (s.task t).phase = .slow) (hc : s.sema.count ≤ 0) :
    Orderly { s.setTask t { s.task t with phase := .waiting, state := .sleeping } with
      sema := { s.sema with waiters := s.sema.waiters ++ [t] } } := by
  have hin : InDown (s.task t).phase := Or.inr (Or.inr (Or.inl hp))
  have hnot : t ∉ s.sema.waiters := by
    rw [h.entry t, hp]
    rintro ⟨hw, -⟩
    cases hw
  refine h.change rfl
    (List.Nodup.append h.nodup (List.nodup_singleton t) (List.disjoint_singleton.mpr hnot))
    (by simp) (fun u hut => ?_) ⟨fun _ => (h.calm t).pending hin.ne_outside, fun _ => (h.calm t).deadline hin⟩
    (fun _ => Or.inr ⟨rfl, rfl⟩) fun _ => ⟨∅, by simp, by simpa using hc⟩
  rw [List.mem_append, List.mem_singleton, or_iff_left hut]

/-- A token more, and the first waiter is on its way to it. -/
theorem Orderly.up (hb : s.sema.count < 0x7FFFFFFF) (hnn : 0 ≤ s.sema.count) (ups : Nat) :
    Orderly { s.wake s.sema.waiters.head? with
      sema := ⟨i32Wrap (s.sema.count + 1), s.sema.waiters.tail⟩
      ups := ups } := by
  have hwrap : i32Wrap (s.sema.count + 1) = s.sema.count + 1 := i32Wrap_of_mem (by omega) (by omega)
  rcases hw : s.sema.waiters with - | ⟨w, ws⟩
  · refine ⟨List.nodup_nil, fun u => ?_, h.calm, h.alive, fun hne => absurd rfl hne⟩
    have := h.entry u
    rw [hw] at this
    exact this
  · have hwin : w ∈ s.sema.waiters := by
      rw [hw]
      exact List.mem_cons_self
    obtain ⟨hph, hst⟩ := (h.entry w).mp hwin
    have hnd := List.nodup_cons.mp (hw ▸ h.nodup)
    have hwk : s.wake (some w) = s.setTask w { s.task w with state := .ready } := by
      show s.setTask w _ = _
      rw [hst]
      rfl
    show Orderly { s.wake (some w) with sema := _, ups := _ }
    rw [hwk]
    refine h.change rfl hnd.2 (by simp [hnd.1]) (fun u huw => ?_)
      ⟨(h.calm w).pending, (h.calm w).deadline⟩ (fun _ => Or.inl (Or.inl rfl)) fun _ => ?_
    · show u ∈ ws ↔ _
      rw [hw, List.mem_cons, or_iff_right huw]
    · -- the woken task was asleep, so it is a new one among the eager tasks
      obtain ⟨E, hE, hc⟩ := h.served (by rw [hw]; simp)
      have hnotin : w ∉ E := by
        intro hin
        have := (hE w hin).1
        rw [hst] at this
        exact absurd this (by decide)
      refine ⟨insert w E, fun u hu => ?_, ?_⟩
      · rcases Finset.mem_insert.mp hu with rfl | hu
        · show ((s.setTask u _).task u).state.Runnable ∧ _
          rw [setTask_self]
          exact ⟨Or.inl rfl, Or.inr (Or.inr (Or.inr hph))⟩
        · have huw : u ≠ w := fun he => hnotin (he ▸ hu)
          exact eager_of_ne huw (hE u hu)
      · show i32Wrap (s.sema.count + 1) ≤ _
        rw [Finset.card_insert_of_notMem hnotin]
        omega

/-- **Every step keeps the correspondence** when signals leave calls alone. -/
theorem Orderly.step (hx : s.Exact val) {e : SemaEvent} (hf : s.Fits e) (hq : s.Quiet e)
    (he : semaStep s e = some s') : s'.Orderly := by
  cases semaStep_move he with
  | @callDown t _ hp => exact h.goto hq.1 hq.2.1 (fun _ => hq.2.2) fun _ => Or.inl rfl
  | @callTry t _ hp =>
    refine h.goto hq.1 hq.2 (fun hin => absurd hin ?_) fun hea => absurd hp hea.2.ne_outside
    exact not_inDown (Or.inr (Or.inl rfl))
  | @load t p hex hp =>
    rcases SemaPhase.loaded_some hp with ⟨hph, rfl⟩ | ⟨hph, rfl⟩
    · refine h.within hex (Or.inl hph) ?_
      split_ifs
      · exact Or.inr (Or.inl ⟨_, rfl⟩)
      · exact Or.inr (Or.inr (Or.inl rfl))
    · refine h.trying hex (by simp [hph]) (not_inDown (Or.inr (Or.inl hph))) (not_inDown ?_)
      split_ifs
      · exact Or.inr (Or.inr ⟨_, rfl⟩)
      · exact Or.inl rfl
  | @take t p hex hp =>
    refine h.take (h.running ?_ hex) _
    rcases SemaPhase.swaps_some hp with ⟨hph, -⟩ | ⟨hph, -⟩ <;> simp [hph]
  | @miss t v p hex hp =>
    rcases SemaPhase.swaps_some hp with ⟨hph, rfl⟩ | ⟨hph, rfl⟩
    · exact h.within hex (Or.inr (Or.inl ⟨v, hph⟩)) (Or.inl rfl)
    · exact h.trying hex (by simp [hph]) (not_inDown (Or.inr (Or.inr ⟨v, hph⟩)))
        (not_inDown (Or.inr (Or.inl rfl)))
  | @slow t hex hp =>
    have hin : InDown (s.task t).phase := Or.inr (Or.inr (Or.inl hp))
    have hrun := h.running hin.ne_outside hex
    have hz : decide ((s.task t).state = .zombie) = false := by simp [hrun]
    rw [hz]
    rcases semaDownSection_cases s.sema t false with hr | ⟨hzt, -⟩ | ⟨hc, -, hr⟩
    · rw [hr]
      exact h.within hex hin (Or.inl rfl)
    · cases hzt
    · rw [hr]
      exact h.register hp hc
  | up _ _ => exact h.up hf hx.nonneg _
  | @resume t hex hp => exact h.within hex (Or.inr (Or.inr (Or.inr hp))) (Or.inl rfl)
  | @dispatch t hst => exact h.reschedule (Or.inl hst) rfl rfl rfl (Or.inr rfl)
  | @preempt t hex =>
    by_cases hp : (s.task t).phase = .outside
    · exact h.outside hp hp
    · have hrun := h.running hp hex
      rw [Life.park_running hrun]
      exact h.reschedule (Or.inr hrun) rfl rfl rfl (Or.inl rfl)
  | signal => exact h.outside hq hq
  | @handle t _ =>
    by_cases hp : (s.task t).phase = .outside
    · exact h.outside hp hp
    · have hsame : s.setTask t ((s.task t).live (s.task t).handle) = s := by
        rw [Life.handle_eq ((h.calm t).pending hp)]
        exact congrArg (fun f => SemaSys.mk s.sema f s.ups s.downs) (update_eq_self t s.task)
      rw [hsame]
      exact h
  | deadline _ hp => exact h.outside hp hp
  | @expire t ht =>
    by_cases hp : (s.task t).phase = .outside
    · exact h.outside hp hp
    · -- a task that is blocked in a call is in `down`, and has no deadline
      rcases h.alive t hp with hs | ⟨-, hw⟩
      · rcases hs with hs | hs <;> exact absurd ht.1 (by rw [hs]; decide)
      · exact absurd ((h.calm t).deadline (Or.inr (Or.inr (Or.inr hw)))) ht.2

end

end SemaSys

/-! ### The law -/

instance SemaSys.decidableFits (s : SemaSys) (e : SemaEvent) : Decidable (s.Fits e) := by
  cases e <;> unfold SemaSys.Fits <;> infer_instance

instance SemaSys.decidableQuiet (s : SemaSys) (e : SemaEvent) : Decidable (s.Quiet e) := by
  cases e <;> unfold SemaSys.Quiet <;> infer_instance

end CactKernel
