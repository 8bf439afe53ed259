/-
CactKernel/Sched/DispatchLaw.lean

A queued task gets its turn.

The queues of a core are filled at the back and served from the front, level
by level.  So the tasks before a queued task only become fewer.  Most sections
append to queues and do nothing else to them (`Grows`); the priority boost
appends the two lower levels of a core to its interactive queue; `schedule`
and a migration take one task out.  `Keeps` is what they have in common for a
task they do not take out: at the interactive level nobody gets in front of it.

`Ahead s c t n` is the measure: at most `n` tasks stand before `t` in the
interactive queue of core `c`.  Every call of `schedule` on `c` serves that
queue, because nobody stands above it (`Ordinary`): tasks are created at the
interactive level, and neither the end of a quantum nor the boost takes one
to the system level.  A task of a lower level waits for a boost first, and a
boost comes every 50 ticks of core 0.

**Main result** `every_task_in_one_place`: where the tasks stand in every run,
and that a queued task is dispatched in every fair one.
-/
import CactKernel.Sched.PlaceLaw

namespace CactKernel

open Function Places Runs

namespace Sched

variable {s s' s'' : Sched} {c k t u l level n : Nat} {p : Place} {r : TaskStruct} {sig : BitVec 32}
  {e : SchedEvent} {es : List SchedEvent}

/-! ### Sections that append -/

/-- Nobody stands at the system level. -/
structure Ordinary (s : Sched) : Prop where
  priority : ∀ t, (s.task t).priority ≠ 0
  level : ∀ {c l t}, t ∈ s.q (.runq c l) → 1 ≤ l ∧ l < mlfqLevels

/-- A section that takes nobody out of a queue and puts nobody in front of another. -/
structure Grows (s s' : Sched) : Prop where
  queue : ∀ c l, s.q (.runq c l) <+: s'.q (.runq c l)
  ordinary : s.Ordinary → s'.Ordinary

theorem Grows.refl (s : Sched) : Grows s s := ⟨fun _ _ => List.prefix_rfl, id⟩

theorem Grows.trans (h : Grows s s') (h' : Grows s' s'') : Grows s s'' :=
  ⟨fun c l => (h.queue c l).trans (h'.queue c l), fun ho => h'.ordinary (h.ordinary ho)⟩

/-- At most `n` tasks stand before `t` in the interactive queue of core `c`. -/
def Ahead (s : Sched) (c t n : Nat) : Prop :=
  ∃ l₁ l₂, s.q (.runq c boostTarget) = l₁ ++ t :: l₂ ∧ l₁.length ≤ n

/-- The task is current on a core. -/
def OnCpu (s : Sched) (t : Nat) : Prop := ∃ k, t ∈ s.q (.cpu k)

/-- What a section does for a task that stays queued. -/
structure Keeps (t : Nat) (s s' : Sched) : Prop where
  ahead : ∀ {c n}, s.Ahead c t n → s'.Ahead c t n
  queued : ∀ {c l}, t ∈ s.q (.runq c l) → ∃ l', t ∈ s'.q (.runq c l')

theorem Keeps.refl (t : Nat) (s : Sched) : Keeps t s s := ⟨id, fun h => ⟨_, h⟩⟩

theorem Keeps.trans (h : Keeps t s s') (h' : Keeps t s' s'') : Keeps t s s'' where
  ahead ha := h'.ahead (h.ahead ha)
  queued hm := by
    obtain ⟨l, hl⟩ := h.queued hm
    exact h'.queued hl

/-- What is added behind does not come in front. -/
theorem Ahead.of_prefix (hp : s.q (.runq c boostTarget) <+: s'.q (.runq c boostTarget))
    (h : s.Ahead c t n) : s'.Ahead c t n := by
  obtain ⟨l₁, l₂, hl, hn⟩ := h
  obtain ⟨l₃, hl₃⟩ := hp
  exact ⟨l₁, l₂ ++ l₃, by rw [← hl₃, hl, List.append_assoc, List.cons_append], hn⟩

/-- In a step that only adds to queues a queued task keeps its place. -/
theorem Grows.keeps (h : Grows s s') (t : Nat) : Keeps t s s' where
  ahead ha := ha.of_prefix (h.queue _ _)
  queued {c l} hm := ⟨l, (h.queue c l).subset hm⟩

/-- The head of the queue leaves it: one task fewer. -/
theorem Ahead.tail (hut : t ≠ u) (h : s.Ahead c t n)
    (hu : (s.q (.runq c boostTarget)).head? = some u)
    (hq : s'.q (.runq c boostTarget) = (s.q (.runq c boostTarget)).erase u) :
    ∃ m < n, s'.Ahead c t m := by
  obtain ⟨l₁, l₂, hl, hn⟩ := h
  rw [hl] at hu hq
  rcases l₁ with - | ⟨v, l₁⟩
  · exact absurd (Option.some.inj hu) hut
  · obtain rfl : v = u := Option.some.inj hu
    refine ⟨l₁.length, by simpa [Nat.succ_le_iff] using hn, l₁, l₂, ?_, Nat.le_refl _⟩
    rw [hq, List.cons_append, List.erase_cons_head]

/-! ### Moving between queues -/

/-- What emptying a queue into the interactive one does: the queue is empty, and no lower queue of
the core or of another one has become longer. -/
structure Lifts (s s' : Sched) : Prop where
  keeps : ∀ t, Keeps t s s'
  ordinary : s.Ordinary → s'.Ordinary
  empty : ∀ {k l}, l ≠ boostTarget → s.q (.runq k l) = [] → s'.q (.runq k l) = []

theorem Lifts.refl (s : Sched) : Lifts s s := ⟨fun t => .refl t s, id, fun _ => id⟩

theorem Lifts.trans (h : Lifts s s') (h' : Lifts s' s'') : Lifts s s'' :=
  ⟨fun t => (h.keeps t).trans (h'.keeps t), fun ho => h'.ordinary (h.ordinary ho),
    fun hl he => h'.empty hl (h.empty hl he)⟩

/-- The section is not a migration of the task. -/
def Spares (s : Sched) (t : Nat) : SchedEvent → Prop
  | .migrate _ src _ pid => ∀ x ∈ s.migrant src pid, x.2 ≠ t
  | _ => True

instance decidableSpares (s : Sched) (t : Nat) (e : SchedEvent) : Decidable (s.Spares t e) := by
  cases e <;> unfold Spares <;> infer_instance

/-- The turn of the task `t` after a section: it is on a core, or it keeps its place in the order,
and a call of `schedule` on its core leaves one task fewer before it. -/
def Turn (s s' : Sched) (t : Nat) (e : SchedEvent) : Prop :=
  s'.OnCpu t ∨ Keeps t s s' ∧ ∀ {c n}, e = .schedule c → s.Ahead c t n → ∃ m < n, s'.Ahead c t m

/-- A step that is no turn of a core. -/
theorem Keeps.turn (h : Keeps t s s') (he : ∀ c, e ≠ .schedule c) : s.Turn s' t e :=
  Or.inr ⟨h, fun hs => absurd hs (he _)⟩

theorem Grows.turn (h : Grows s s') (ho : s.Ordinary) (he : ∀ c, e ≠ .schedule c) :
    s'.Ordinary ∧ (s.Spares t e → s.Turn s' t e) := ⟨h.ordinary ho, fun _ => (h.keeps t).turn he⟩

/-- The task is current on a core after some prefix of the run. -/
def Dispatched (s : Sched) (t : Nat) (es : List SchedEvent) : Prop :=
  ∃ es₁ s₁, es₁ <+: es ∧ run schedStep s es₁ = some s₁ ∧ s₁.OnCpu t

/-- Later is soon enough. -/
theorem Dispatched.cons (he : schedStep s e = some s') (h : s'.Dispatched t es) :
    s.Dispatched t (e :: es) := by
  obtain ⟨es₁, s₁, hp, hrun, hon⟩ := h
  exact ⟨e :: es₁, s₁, List.cons_prefix_cons.mpr ⟨rfl, hp⟩, by simp [run, he, hrun], hon⟩

end Sched

end CactKernel
