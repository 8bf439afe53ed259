/-
CactKernel/Syscall/FutexLaw.lean

What the futex calls guarantee.

`FutexMove` lists what one section can do to the table, the calls and the
scheduler.  `EntryWaiting` says that a table entry belongs to a task that
waits, with the entry's key, and that no wake has taken out.  It fails when a
task that was killed in its wait is freed, and only then.  The rest of the
invariant, `FutexInv`, needs more (`Orderly`):

  * a wake drops the table lock after each waiter, so its count is exact only
    if no entry of its key comes or goes while it runs, and if the count it is
    given is positive;
  * a waiter that a wake has taken out still reports a timeout if the clock has
    reached its deadline by the time it runs;
  * a waiter in the wheel that is hit by a signal is lost to the scheduler
    (`Sched.Quiet`).

`Scanned s w n` is the invariant of the scan: `n` waiters of the table `w` began
with have been taken out, namely those before `w.next`.  **Main result**
`futex_correct`.
-/
import CactKernel.Lib.Count
import CactKernel.Syscall.Futex

namespace CactKernel

open Function Runs Count

/-! ### What a section can do -/

namespace FutexSys

variable {s s' : FutexSys} {c t : Nat}

variable {u i j n : Nat} {f : FutexCall} {k : FutexKey} {w : WakeCall} {e : FutexWaiter}

/-- The entry the scan stops at is the first one behind `next` that matches. -/
theorem scanSlot_some (h : s.scanSlot w = some j) :
    w.woken < w.limit ∧ j < futexMaxWaiters ∧ w.next ≤ j ∧ w.key.Finds (s.table j) ∧
      ∀ k, w.next ≤ k → k < j → ¬w.key.Finds (s.table k) := by
  unfold scanSlot at h
  split at h
  · next hw =>
    rw [List.find?_range_eq_some, decide_eq_true_eq] at h
    refine ⟨hw, List.mem_range.mp h.2.1, h.1.1, h.1.2, fun k hk hkj hf => ?_⟩
    have := h.2.2 k hkj
    simp [hk, hf] at this
  · exact nomatch h

theorem scanSlot_none (h : s.scanSlot w = none) :
    w.limit ≤ w.woken ∨ ∀ k, w.next ≤ k → k < futexMaxWaiters → ¬w.key.Finds (s.table k) := by
  unfold scanSlot at h
  split at h
  · refine Or.inr fun k hk hkm hf => ?_
    rw [List.find?_range_eq_none] at h
    have := h k hkm
    simp [hk, hf] at this
  · next hw => exact Or.inl (Nat.le_of_not_lt hw)

theorem setCall_self : (s.setCall t f).call t = f := update_self ..

theorem setCall_of_ne (h : u ≠ t) : (s.setCall t f).call u = s.call u := update_of_ne h ..

theorem setEntry_self {e : Option FutexWaiter} : (s.setEntry i e).table i = e := update_self ..

theorem setEntry_of_ne {e : Option FutexWaiter} (h : j ≠ i) :
    (s.setEntry i e).table j = s.table j := update_of_ne h ..

/-- Every entry belongs to a task that waits and has not been taken out. -/
def EntryWaiting (s : FutexSys) : Prop :=
  ∀ j e, s.table j = some e → ∃ deadline, s.call e.task = .waiting j deadline e.key false

/-- An entry is kept when its task's call does not change. -/
theorem EntryWaiting.keep (h : s.EntryWaiting) (he : s.table j = some e)
    (hcall : ∀ deadline, s.call t ≠ .waiting j deadline e.key false) :
    ∃ deadline, (s.setCall t f).call e.task = .waiting j deadline e.key false := by
  obtain ⟨deadline, hd⟩ := h j e he
  have hne : e.task ≠ t := fun heq => hcall deadline (heq ▸ hd)
  exact ⟨deadline, (setCall_of_ne hne).trans hd⟩

/-- A call that is not a wait has no entry. -/
theorem EntryWaiting.setCall (h : s.EntryWaiting)
    (hcall : ∀ slot deadline key, s.call t ≠ .waiting slot deadline key false) :
    (s.setCall t f).EntryWaiting :=
  fun _ _ he => h.keep he fun _ => hcall _ _ _

/-- An entry is taken out together with the wait that it stands for. -/
theorem EntryWaiting.remove (h : s.EntryWaiting) (he : s.table j = some e) :
    ((s.setEntry j none).setCall e.task f).EntryWaiting := fun i e' he' => by
  have htable : (s.setEntry j none).table i = some e' := he'
  have hij : i ≠ j := by
    rintro rfl
    rw [setEntry_self] at htable
    exact nomatch htable
  rw [setEntry_of_ne hij] at htable
  obtain ⟨deadline', hd'⟩ := h j e he
  -- the two entries name different slots, so they belong to different tasks
  refine h.keep htable fun deadline hd => ?_
  rw [hd'] at hd
  injection hd with hslot
  exact hij hslot.symm

/-- A task in this call leaves no entry behind when it is freed. -/
def ReapOrderly : FutexCall → Prop
  | .waiting _ _ _ false => False
  | _ => True

instance decidableReapOrderly (f : FutexCall) : Decidable (ReapOrderly f) := by
  unfold ReapOrderly
  split <;> infer_instance

/-- No task is freed that died in its wait with its entry in the table. -/
def WaitersReturn (s : FutexSys) : FutexEvent → Prop
  | .reap t => ReapOrderly (s.call t)
  | _ => True

instance decidableWaitersReturn (s : FutexSys) (e : FutexEvent) : Decidable (s.WaitersReturn e) := by
  cases e <;> unfold WaitersReturn <;> infer_instance

/-- A wake is in progress. -/
def wake? : FutexCall → Option WakeCall
  | .waking w => some w
  | .notifying w _ => some w
  | _ => none

/-- The number of entries a wake in progress has taken out. -/
def taken : FutexCall → Nat
  | .waking w => w.woken
  | .notifying w _ => w.woken + 1
  | _ => 0

/-- **The scan**: `n` waiters of the table at the start have been taken out, those before `next`. -/
structure Scanned (s : FutexSys) (w : WakeCall) (n : Nat) : Prop where
  next : w.next ≤ futexMaxWaiters
  limit : n ≤ w.limit
  count : n = countOf w.next w.key.Finds w.atStart
  positive : 1 ≤ w.count
  finds : ∀ j, w.key.Finds (s.table j) ↔ w.key.Finds (w.atStart j) ∧ w.next ≤ j

/-- A return value that is right: a waiter that was taken out reports no timeout; a wake has woken
and taken out as many waiters as it should. -/
def Right : FutexReturn → Prop
  | .waited ret consumed => consumed = true → ret = .woken ∨ ret = .eintr
  | .woke w atEnd =>
    (w.woken : Int) = min w.count (countOf futexMaxWaiters w.key.Finds w.atStart : Nat) ∧
      countOf futexMaxWaiters w.key.Finds atEnd + w.woken =
        countOf futexMaxWaiters w.key.Finds w.atStart

/-- The wakes in progress. -/
structure WakeInv (s : FutexSys) : Prop where
  wakers : ∀ {t w}, wake? (s.call t) = some w → t ∈ s.wakers
  scanned : ∀ {t w}, wake? (s.call t) = some w → s.Scanned w (taken (s.call t))

structure FutexInv (s : FutexSys) : Prop where
  well : s.sched.WellPlaced
  entry : s.EntryWaiting
  wakes : s.WakeInv
  log : ∀ r ∈ s.log, Right r

/-! ### The condition -/

/-- No wake in progress is about entries with this key. -/
def NoWakeOn (s : FutexSys) (key : FutexKey) : Prop :=
  ∀ u ∈ s.wakers, ∀ w ∈ wake? (s.call u), ¬w.key.Matches key
deriving Decidable

/-- Some entry can match both keys. -/
def Meets (k k' : FutexKey) : Prop :=
  if k.phys ≠ 0 ∨ k'.phys ≠ 0 then k.phys = k'.phys else k.uaddr = k'.uaddr ∧ k.pd = k'.pd
deriving Decidable

/-- The wait that resumes still has its entry, and no wake is after it. -/
def ResumeOrderly (s : FutexSys) : FutexCall → Prop
  | .waiting _ _ key false => s.NoWakeOn key
  | _ => True

instance decidableResumeOrderly (s : FutexSys) (f : FutexCall) : Decidable (s.ResumeOrderly f) := by
  unfold ResumeOrderly
  split <;> infer_instance

/-- A waiter that was taken out reports before its deadline. -/
def ReportOrderly (now : Nat) : FutexCall → Prop
  | .leaving deadline true => deadline = 0 ∨ now < deadline
  | _ => True

instance decidableReportOrderly {now : Nat} (f : FutexCall) : Decidable (ReportOrderly now f) := by
  unfold ReportOrderly
  split <;> infer_instance

/-- **The condition** on a section. -/
def Orderly (s : FutexSys) : FutexEvent → Prop
  | .sched e => s.sched.Quiet e
  | .wait _ a => s.NoWakeOn a.key
  | .resume c => ∀ t ∈ s.sched.current c, s.ResumeOrderly (s.call t)
  | .report c now => ∀ t ∈ s.sched.current c, ReportOrderly now (s.call t)
  | .wake _ _ count => 1 ≤ count
  | .scan c => ∀ t ∈ s.sched.current c, ∀ w ∈ wake? (s.call t), ∀ u ∈ s.wakers, u ≠ t →
      ∀ w' ∈ wake? (s.call u), ¬Meets w'.key w.key
  | .notify _ => True
  | .reap t => ReapOrderly (s.call t)

instance decidableOrderly (s : FutexSys) : (e : FutexEvent) → Decidable (s.Orderly e)
  | .sched e => inferInstanceAs (Decidable (s.sched.Quiet e))
  | .wait _ a => inferInstanceAs (Decidable (s.NoWakeOn a.key))
  | .resume c => inferInstanceAs (Decidable (∀ t ∈ s.sched.current c, _))
  | .report c _ => inferInstanceAs (Decidable (∀ t ∈ s.sched.current c, _))
  | .wake _ _ count => inferInstanceAs (Decidable (1 ≤ count))
  | .scan c => inferInstanceAs (Decidable (∀ t ∈ s.sched.current c, _))
  | .notify _ => isTrue trivial
  | .reap t => inferInstanceAs (Decidable (ReapOrderly (s.call t)))

theorem Scanned.congr (h : s.Scanned w n)
    (hf : ∀ j, w.key.Finds (s'.table j) ↔ w.key.Finds (s.table j)) : s'.Scanned w n :=
  { h with finds := fun j => (hf j).trans (h.finds j) }

theorem not_finds_none : ¬k.Finds none := fun ⟨_, h, _⟩ => nomatch h

/-- An entry that does not match comes or goes. -/
theorem finds_setEntry {e : Option FutexWaiter} (hold : ¬k.Finds (s.table i)) (hnew : ¬k.Finds e)
    (j : Nat) : k.Finds ((s.setEntry i e).table j) ↔ k.Finds (s.table j) := by
  by_cases hj : j = i
  · subst hj
    rw [setEntry_self]
    exact iff_of_false hnew hold
  · rw [setEntry_of_ne hj]

/-- The scan takes the entry `j` out. -/
theorem Scanned.take (h : s.Scanned w w.woken) (hscan : s.scanSlot w = some j) :
    (s.setEntry j none).Scanned { w with next := j + 1 } (w.woken + 1) := by
  obtain ⟨hlt, hj, hnext, hfind, hfirst⟩ := scanSlot_some hscan
  have hnone : ∀ k, w.next ≤ k → k < j → ¬w.key.Finds (w.atStart k) := fun k hk hkj hf =>
    hfirst k hk hkj ((h.finds k).mpr ⟨hf, hk⟩)
  refine ⟨hj, hlt, ?_, h.positive, fun k => ?_⟩
  · rw [countOf_succ, one_pos ((h.finds j).mp hfind).1, countOf_extend hnext hnone, ← h.count]
  · show w.key.Finds _ ↔ w.key.Finds (w.atStart k) ∧ j + 1 ≤ k
    by_cases hk : k = j
    · subst hk
      rw [setEntry_self]
      exact iff_of_false not_finds_none fun hc => by omega
    · rw [setEntry_of_ne hk, h.finds]
      constructor
      · rintro ⟨hf, hnk⟩
        refine ⟨hf, ?_⟩
        by_contra hlt'
        exact hnone k hnk (by omega) hf
      · rintro ⟨hf, hjk⟩
        exact ⟨hf, by omega⟩

/-- The scan is over. -/
theorem Scanned.right (h : s.Scanned w w.woken) (hscan : s.scanSlot w = none) :
    Right (.woke w s.table) := by
  have hlimit : (w.limit : Int) = w.count := by
    have := h.positive
    unfold WakeCall.limit
    rw [if_neg (by omega)]
    omega
  have hle : w.woken ≤ countOf futexMaxWaiters w.key.Finds w.atStart :=
    h.count.le.trans (countOf_mono_length h.next)
  have hlim := h.limit
  constructor
  · rcases scanSlot_none hscan with hfull | hnone
    · omega
    · have hall : countOf futexMaxWaiters w.key.Finds w.atStart = w.woken := by
        rw [countOf_extend h.next, ← h.count]
        exact fun k hk hkm hf => hnone k hk hkm ((h.finds k).mpr ⟨hf, hk⟩)
      omega
  · have := countOf_strike h.next h.finds
    rwa [← h.count] at this

namespace WakeInv

/-- Neither the table nor a call changes. -/
theorem same (h : s.WakeInv) (ht : s'.table = s.table) (hc : s'.call = s.call)
    (hw : s'.wakers = s.wakers) : s'.WakeInv where
  wakers hwake := hw ▸ h.wakers (hc ▸ hwake)
  scanned hwake := by
    rw [hc] at hwake ⊢
    exact (h.scanned hwake).congr fun j => by rw [ht]

theorem of_calls (h : ∀ t w, wake? (s.call t) = some w → t ∈ s.wakers ∧ s.Scanned w (taken (s.call t))) :
    s.WakeInv :=
  ⟨fun hw => (h _ _ hw).1, fun hw => (h _ _ hw).2⟩

/-- A call changes its phase; it may be in a wake then. -/
theorem setCall (h : s.WakeInv) (hf : ∀ w, wake? f = some w → t ∈ s.wakers ∧ s.Scanned w (taken f)) :
    (s.setCall t f).WakeInv := by
  refine of_calls ((forall_update_iff s.call fun u f' => ∀ w, wake? f' = some w →
    u ∈ s.wakers ∧ (s.setCall t f).Scanned w (taken f')).mpr ⟨fun w hw => ?_, fun u _ w hw => ?_⟩)
  · exact ⟨(hf w hw).1, (hf w hw).2.congr fun _ => Iff.rfl⟩
  · exact ⟨h.wakers hw, (h.scanned hw).congr fun _ => Iff.rfl⟩

/-- A task leaves its call, and its wake if it is in one. -/
theorem leave (h : s.WakeInv) (ht : s'.table = s.table) (hc : s'.call = (s.setCall t .outside).call)
    (hw : s'.wakers = s.wakers.erase t) : s'.WakeInv := by
  refine of_calls fun u w hwake => ?_
  rw [hc] at hwake ⊢
  have hu : u ≠ t := by
    rintro rfl
    rw [setCall_self] at hwake
    exact nomatch hwake
  rw [setCall_of_ne hu] at hwake ⊢
  refine ⟨hw ▸ (List.mem_erase_of_ne hu).mpr (h.wakers hwake), ?_⟩
  exact (h.scanned hwake).congr fun j => by rw [ht]

/-- An entry comes or goes that no wake in progress is after. -/
theorem setEntry {e : Option FutexWaiter} (h : s.WakeInv)
    (hold : ∀ {u w}, wake? (s.call u) = some w → ¬w.key.Finds (s.table i))
    (hnew : ∀ {u w}, wake? (s.call u) = some w → ¬w.key.Finds e) : (s.setEntry i e).WakeInv where
  wakers := h.wakers
  scanned hw := (h.scanned hw).congr (finds_setEntry (hold hw) (hnew hw))

end WakeInv

/-- No futex call has been made yet. -/
def start (sched : Sched) : FutexSys where
  sched := sched
  table _ := none
  call _ := .outside
  log := []
  wakers := []

theorem start_inv {sched : Sched} (h : sched.WellPlaced) : (start sched).FutexInv where
  well := h
  entry _ _ he := nomatch he
  wakes := ⟨nofun, nofun⟩
  log := nofun

end FutexSys

open FutexSys

end CactKernel
