/-
CactKernel/Sched/SignalWords.lean

What a section of the scheduler leaves of the signal words of tasks.

`TaskStruct.Later sig r r'` relates the words of a task before and after a
section that is not its own and raises at most the signals `sig` for it: its
handlers stay, nothing that was pending is lost, it does not die, and if it is
blocked afterwards it was blocked in the same way before and has not been sent
`SIGKILL` or `SIGSTOP`.  `Sent` says besides that a `Zombie` stays one, which
is true of the sending of signals but not of queues that hold a dead task.

Both are kept by composition, so every section of the scheduler except
`task_handle_signals` and the parking calls of a task itself gets one lemma.
-/
import CactKernel.Sched.SignalLaw

namespace CactKernel

open Function

/-! ### One task -/

namespace TaskStruct

variable {r r' r'' : TaskStruct} {sig x : BitVec 32}

/-- A signal of the set is pending. -/
def Pends (r : TaskStruct) (sig : BitVec 32) : Prop := r.pendingSignals &&& sig ≠ 0
deriving Decidable

theorem pends_congr (h : r'.pendingSignals = r.pendingSignals) : r'.Pends x ↔ r.Pends x := by
  unfold Pends
  rw [h]

/-- What pends after a signal was made pending. -/
theorem pends_or {p : BitVec 32} :
    { r with pendingSignals := r.pendingSignals ||| p }.Pends x ↔ r.Pends x ∨ p &&& x ≠ 0 := by
  unfold Pends
  rw [Ne, or_and_eq_zero, not_and_or]

theorem pends_uncatchable : r.Pends sigUncatchable ↔ r.Pends sigKill ∨ r.Pends sigStop := by
  unfold Pends sigUncatchable
  rw [Ne, and_or_eq_zero, not_and_or]

/-- What other tasks may do to a task, `sig` being sent to it. -/
structure Later (sig : BitVec 32) (r r' : TaskStruct) : Prop where
  handlers : r'.signalHandlers = r.signalHandlers
  tgid : r'.tgid = r.tgid
  pgid : r'.pgid = r.pgid
  keeps : ∀ {x}, r.Pends x → r'.Pends x
  raises : ∀ {x}, sig &&& x = 0 → r'.Pends x → r.Pends x
  lives : r'.state = .zombie → r.state = .zombie
  blocked : r'.state.Blocked → r'.state = r.state ∧ (r'.Pends sigUncatchable → r.Pends sigUncatchable)

structure Sent (sig : BitVec 32) (r r' : TaskStruct) : Prop extends Later sig r r' where
  stays : r.state = .zombie → r'.state = .zombie

theorem Later.refl (sig : BitVec 32) (r : TaskStruct) : Later sig r r :=
  ⟨rfl, rfl, rfl, id, fun _ => id, id, fun _ => ⟨rfl, id⟩⟩

theorem Sent.refl (sig : BitVec 32) (r : TaskStruct) : Sent sig r r := ⟨Later.refl sig r, id⟩

theorem Later.trans (h : Later sig r r') (h' : Later sig r' r'') : Later sig r r'' where
  handlers := h'.handlers.trans h.handlers
  tgid := h'.tgid.trans h.tgid
  pgid := h'.pgid.trans h.pgid
  keeps hp := h'.keeps (h.keeps hp)
  raises hx hp := h.raises hx (h'.raises hx hp)
  lives hz := h.lives (h'.lives hz)
  blocked hb := by
    obtain ⟨hst, hu⟩ := h'.blocked hb
    obtain ⟨hst', hu'⟩ := h.blocked (hst ▸ hb)
    exact ⟨hst.trans hst', fun hp => hu' (hu hp)⟩

theorem Sent.trans (h : Sent sig r r') (h' : Sent sig r' r'') : Sent sig r r'' :=
  ⟨h.toLater.trans h'.toLater, fun hz => h'.stays (h.stays hz)⟩

/-- The task becomes `Ready` or current, or its state stays. -/
theorem Later.of_words (hh : r'.signalHandlers = r.signalHandlers) (ht : r'.tgid = r.tgid)
    (hg : r'.pgid = r.pgid) (hp : r'.pendingSignals = r.pendingSignals)
    (hst : r'.state = r.state ∨ r'.state = .ready ∨ r'.state = .running) : Later sig r r' where
  handlers := hh
  tgid := ht
  pgid := hg
  keeps h := (pends_congr hp).mpr h
  raises _ h := (pends_congr hp).mp h
  lives hz := by
    rcases hst with h | h | h <;> rw [h] at hz
    · exact hz
    · exact nomatch hz
    · exact nomatch hz
  blocked hb := by
    rcases hst with h | h | h
    · exact ⟨h, (pends_congr hp).mp⟩
    · exact absurd (h ▸ hb) (by decide)
    · exact absurd (h ▸ hb) (by decide)

/-- A task that is not dead becomes `Ready`. -/
theorem Sent.readied {p : Nat} (hz : r.state ≠ .zombie) :
    Sent sig r { r with state := .ready, priority := p } :=
  ⟨Later.of_words rfl rfl rfl rfl (Or.inr (Or.inl rfl)), fun h => absurd h hz⟩

/-- Signals are raised that do not force the task to run. -/
theorem Sent.raise (hsig : sig &&& sigUncatchable = 0) :
    Sent sig r { r with pendingSignals := r.pendingSignals ||| sig } where
  handlers := rfl
  tgid := rfl
  pgid := rfl
  keeps h := pends_or.mpr (Or.inl h)
  raises hx h := (pends_or.mp h).resolve_right fun hn => hn hx
  lives := id
  blocked _ := ⟨rfl, fun h => (pends_or.mp h).resolve_right fun hn => hn hsig⟩
  stays := id

/-- The task is dead, or it runs on and dies at the next occasion. -/
def Doomed (r : TaskStruct) : Prop := r.state = .zombie ∨ r.Pends sigKill ∧ ¬r.state.Blocked
deriving Decidable

/-- Sections of others do not save a task that is to be killed. -/
theorem Later.killed (h : Later sig r r') (hk : r.Pends sigKill) (hb : ¬r.state.Blocked) :
    r'.Pends sigKill ∧ ¬r'.state.Blocked :=
  ⟨h.keeps hk, fun hb' => hb ((h.blocked hb').1 ▸ hb')⟩

/-- A signal saves nobody. -/
theorem Sent.doomed (h : Sent sig r r') (hd : r.Doomed) : r'.Doomed := by
  rcases hd with hz | ⟨hk, hb⟩
  · exact Or.inl (h.stays hz)
  · exact Or.inr (h.killed hk hb)

end TaskStruct

/-! ### The scheduler -/

namespace Sched

variable {s s' s'' : Sched} {c t u pid k level pgid : Nat} {p : Place} {r : TaskStruct}
  {sig : BitVec 32} {f : Nat → BitVec 32} {x : Sched × Bool} {P : Sched → Nat → Prop}

/-- `f` bounds the signals that are raised for each task. -/
structure Later (f : Nat → BitVec 32) (s s' : Sched) : Prop where
  list : s'.list = s.list
  task : ∀ u, (s.task u).Later (f u) (s'.task u)

structure Sent (f : Nat → BitVec 32) (s s' : Sched) : Prop where
  list : s'.list = s.list
  task : ∀ u, (s.task u).Sent (f u) (s'.task u)

theorem Sent.later (h : Sent f s s') : Later f s s' := ⟨h.list, fun u => (h.task u).toLater⟩

theorem Later.refl (f : Nat → BitVec 32) (s : Sched) : Later f s s :=
  ⟨rfl, fun _ => TaskStruct.Later.refl _ _⟩

/-- More may be raised. -/
theorem Sent.mono {g : Nat → BitVec 32} (h : Sent f s s') (hfg : ∀ u, f u &&& g u = f u) :
    Sent g s s' := by
  refine ⟨h.list, fun u => { h.task u with raises := fun {x} hx hp => (h.task u).raises ?_ hp }⟩
  rw [← hfg u, BitVec.and_assoc, hx]
  exact BitVec.and_zero

theorem Sent.refl (f : Nat → BitVec 32) (s : Sched) : Sent f s s :=
  ⟨rfl, fun _ => TaskStruct.Sent.refl _ _⟩

theorem Later.trans (h : Later f s s') (h' : Later f s' s'') : Later f s s'' :=
  ⟨h'.list.trans h.list, fun u => (h.task u).trans (h'.task u)⟩

/-- The scheduler's own words are no words of signals. -/
theorem Turns.later (h : Turns s s') : Later f s s' := by
  refine ⟨h.list, fun u => ?_⟩
  obtain ⟨st, p, n, k, hr, hst⟩ := h.task u
  rw [hr]
  exact TaskStruct.Later.of_words rfl rfl rfl rfl hst

theorem Sent.trans (h : Sent f s s') (h' : Sent f s' s'') : Sent f s s'' :=
  ⟨h'.list.trans h.list, fun u => (h.task u).trans (h'.task u)⟩

theorem Sent.setTask (h : (s.task t).Sent (f t) r) : Sent f s (s.setTask t r) :=
  ⟨rfl, (forall_update_iff s.task fun u r => (s.task u).Sent (f u) r).mpr
    ⟨h, fun _ _ => TaskStruct.Sent.refl _ _⟩⟩

/-! ### Waking -/

theorem readied_task : ∃ p, (readied x c t).task =
    update x.1.task t { x.1.task t with state := .ready, priority := p } := by
  unfold readied
  split
  · refine ⟨min ((x.1.setState t .ready).task t).priority (mlfqLevels - 1), ?_⟩
    show update (update x.1.task t _) t _ = _
    rw [update_idem, setState, setTask_self]
  · exact ⟨_, rfl⟩

theorem readied_list : (readied x c t).list = x.1.list := by
  unfold readied
  split <;> rfl

/-- A wake is no signal. -/
theorem readied_sent (hx : x.1.task = s.task) (hl : x.1.list = s.list)
    (hz : (s.task t).state ≠ .zombie) : Sent f s (readied x c t) := by
  obtain ⟨p, hp⟩ := readied_task
  have hset : Sent f s (s.setTask t { s.task t with state := .ready, priority := p }) :=
    Sent.setTask (TaskStruct.Sent.readied hz)
  refine ⟨readied_list.trans hl, ?_⟩
  rw [hp, hx]
  exact hset.task

/-- Leaving a queue changes no word. -/
theorem mlfqRemoveFromSleep_task :
    (s.mlfqRemoveFromSleep t).1.task = s.task ∧ (s.mlfqRemoveFromSleep t).1.list = s.list := by
  unfold mlfqRemoveFromSleep
  split <;> exact ⟨rfl, rfl⟩

theorem timerWheelRemove_task :
    (s.timerWheelRemove t).1.task = s.task ∧ (s.timerWheelRemove t).1.list = s.list := by
  unfold timerWheelRemove
  dsimp only
  split <;> exact ⟨rfl, rfl⟩

theorem wakeBlocked_sent (hz : (s.task t).state ≠ .zombie) : Sent f s (s.wakeBlocked c t) :=
  readied_sent mlfqRemoveFromSleep_task.1 mlfqRemoveFromSleep_task.2 hz

theorem mlfqWakeTaskLocked_sent : Sent f s (s.mlfqWakeTaskLocked c t) := by
  unfold mlfqWakeTaskLocked
  split
  · next hst =>
    have hz : (s.task t).state ≠ .zombie := by simp [hst]
    dsimp only
    split
    · exact readied_sent mlfqRemoveFromSleep_task.1 mlfqRemoveFromSleep_task.2 hz
    · exact readied_sent (timerWheelRemove_task.1.trans mlfqRemoveFromSleep_task.1)
        (timerWheelRemove_task.2.trans mlfqRemoveFromSleep_task.2) hz
  · next hst => exact wakeBlocked_sent (by simp [hst])
  · next hst => exact wakeBlocked_sent (by simp [hst])
  · exact Sent.refl f s

/-! ### Sending signals -/

/-- The signals `sig` for the task `pid`, and none for the others. -/
def raisedFor (pid : Nat) (sig : BitVec 32) (u : Nat) : BitVec 32 := if u = pid then sig else 0

theorem raisedFor_self : raisedFor pid sig pid = sig := if_pos rfl

/-- `SIGKILL` or `SIGSTOP`: the task is made to run. -/
theorem forced_sent (h : f pid = sig) :
    Sent f s ((s.setTask pid { s.task pid with
      pendingSignals := (s.task pid).pendingSignals ||| sig }).mlfqWakeTaskLocked c pid) := by
  set s₁ := s.setTask pid { s.task pid with pendingSignals := (s.task pid).pendingSignals ||| sig }
    with hs₁
  have hw : Sent (f := f) s₁ (s₁.mlfqWakeTaskLocked c pid) := mlfqWakeTaskLocked_sent
  have hnb : ¬((s₁.mlfqWakeTaskLocked c pid).task pid).state.Blocked := mlfqWakeTaskLocked_not_blocked
  refine ⟨hw.list, fun u => ?_⟩
  have hu := hw.task u
  by_cases hup : u = pid
  · subst hup
    have h₁ : s₁.task u = { s.task u with pendingSignals := (s.task u).pendingSignals ||| sig } :=
      setTask_self
    rw [h₁] at hu
    exact { hu with
      keeps := fun hp => hu.keeps (TaskStruct.pends_or.mpr (Or.inl hp))
      raises := fun hx hp =>
        (TaskStruct.pends_or.mp (hu.raises hx hp)).resolve_right fun hn => hn (h ▸ hx)
      blocked := fun hb => absurd hb hnb }
  · rwa [setTask_of_ne hup] at hu

/-- The target gets the signal, the others get nothing. -/
theorem taskSignalLocked_sent (h : f pid = sig) : Sent f s (s.taskSignalLocked c pid sig) := by
  unfold taskSignalLocked
  dsimp only
  split
  · exact Sent.refl f s
  split
  · exact forced_sent h
  next hforce =>
  split
  · exact forced_sent h
  have hraise : Sent f s (s.setTask pid { s.task pid with
      pendingSignals := (s.task pid).pendingSignals ||| sig }) :=
    Sent.setTask (by
      rw [h]
      exact TaskStruct.Sent.raise (not_not.mp hforce))
  split
  · next hit =>
    refine hraise.trans (wakeBlocked_sent ?_)
    simp [hit.2]
  · exact hraise

/-- The signal is pending for the task it was sent to. -/
theorem taskSignalLocked_pends {x : BitVec 32} (h0 : pid ≠ 0) (hl : pid ∈ s.list)
    (hx : sig &&& x ≠ 0) : ((s.taskSignalLocked c pid sig).task pid).Pends x := by
  have hp : ((s.setTask pid { s.task pid with
      pendingSignals := (s.task pid).pendingSignals ||| sig }).task pid).Pends x := by
    rw [setTask_self]
    exact TaskStruct.pends_or.mpr (Or.inr hx)
  have hwake := (mlfqWakeTaskLocked_sent (f := fun _ => 0) (c := c) (t := pid)).task pid |>.keeps hp
  unfold taskSignalLocked
  dsimp only
  rw [if_neg (not_or.mpr ⟨h0, not_not.mpr hl⟩)]
  split
  · exact hwake
  split
  · exact hwake
  split
  · next hit =>
    refine ((wakeBlocked_sent (f := fun _ => 0) ?_).task pid).keeps hp
    simp [hit.2]
  · exact hp

/-- A task that is sent `SIGKILL` is doomed. -/
theorem taskSignalLocked_doomed (h0 : pid ≠ 0) (hl : pid ∈ s.list) (hk : sig &&& sigKill ≠ 0) :
    ((s.taskSignalLocked c pid sig).task pid).Doomed := by
  refine Or.inr ⟨taskSignalLocked_pends h0 hl hk, ?_⟩
  have hforce : sig &&& (sigKill ||| sigStop) ≠ 0 := fun h => hk (and_or_eq_zero.mp h).1
  unfold taskSignalLocked
  rw [if_neg (not_or.mpr ⟨h0, not_not.mpr hl⟩), if_pos hforce]
  exact mlfqWakeTaskLocked_not_blocked

/-- A task that is sent `SIGCONT` is not stopped. -/
theorem taskSignalLocked_continued (h0 : pid ≠ 0) (hl : pid ∈ s.list) (hc : sig &&& sigCont ≠ 0) :
    ((s.taskSignalLocked c pid sig).task pid).state ≠ .stopped := by
  have hwake : ∀ s' : Sched, ((s'.mlfqWakeTaskLocked c pid).task pid).state ≠ .stopped :=
    fun _ hst => mlfqWakeTaskLocked_not_blocked (Or.inr (Or.inr hst))
  unfold taskSignalLocked
  dsimp only
  rw [if_neg (not_or.mpr ⟨h0, not_not.mpr hl⟩)]
  split
  · exact hwake _
  split
  · exact hwake _
  next hn =>
  have hst : (s.task pid).state ≠ .stopped := fun hst => hn ⟨hc, hst⟩
  split
  · rw [wakeBlocked, readied_state]
    decide
  · rwa [setTask_self]

/-- The other signals do not wake a stopped task. -/
theorem taskSignalLocked_stopped (hsig : sig &&& (sigKill ||| sigStop) = 0) (hc : sig &&& sigCont = 0)
    (h : (s.task t).state = .stopped) : ((s.taskSignalLocked c pid sig).task t).state = .stopped := by
  have hraise : ((s.setTask pid { s.task pid with
      pendingSignals := (s.task pid).pendingSignals ||| sig }).task t).state = .stopped := by
    by_cases htp : t = pid
    · subst htp
      rwa [setTask_self]
    · rwa [setTask_of_ne htp]
  unfold taskSignalLocked
  split
  · exact h
  rw [if_neg (not_not.mpr hsig), if_neg (fun hn => hn.1 hc)]
  split
  · next hit =>
    have htp : t ≠ pid := fun htp => by simp [← htp, h] at hit
    obtain ⟨p, hp⟩ := readied_task
    rw [wakeBlocked, hp, update_of_ne htp, mlfqRemoveFromSleep_task.1]
    exact hraise
  · exact hraise

/-! ### Sending signals to groups -/

/-- What a loop that signals some tasks of the list does. -/
theorem signalLoop_sent [∀ s t, Decidable (P s t)] (hP : ∀ {s' t}, Sent f s s' → P s' t → f t = sig)
    (l : List Nat) :
    Sent f s (l.foldl (fun s t => if P s t then s.taskSignalLocked c t sig else s) s) := by
  refine List.foldlRecOn l _ (Sent.refl f s) fun s' hs' t _ => ?_
  split
  · next hp => exact hs'.trans (taskSignalLocked_sent (hP hs' hp))
  · exact hs'

/-- What `taskSignalLocked` does to its target it has done to every task of the list the loop
selects, if sending signals does not undo it. -/
theorem signalLoop_reaches [∀ s t, Decidable (P s t)] {Q : TaskStruct → Prop}
    (hP : ∀ {s' t}, Sent (fun _ => sig) s s' → (P s' t ↔ P s t))
    (hQ : ∀ {r r'}, TaskStruct.Sent sig r r' → Q r → Q r')
    (hdo : ∀ {s' : Sched}, s'.list = s.list → Q ((s'.taskSignalLocked c u sig).task u))
    (hu : P s u) {l : List Nat} (hl : u ∈ l) :
    Q ((l.foldl (fun s t => if P s t then s.taskSignalLocked c t sig else s) s).task u) := by
  -- from the moment the loop comes to `u`
  obtain ⟨l₁, l₂, rfl⟩ := List.append_of_mem hl
  set g := fun (s : Sched) t => if P s t then s.taskSignalLocked c t sig else s with hg
  have hstep : ∀ s' t, Sent (fun _ => sig) s' (g s' t) := fun s' t => by
    simp only [hg]
    split
    · exact taskSignalLocked_sent rfl
    · exact Sent.refl _ _
  have h₁ : Sent (fun _ => sig) s (l₁.foldl g s) :=
    List.foldlRecOn l₁ g (Sent.refl _ s)
      fun s' hs' t _ => hs'.trans (hstep s' t)
  rw [List.foldl_append]
  refine List.foldlRecOn (motive := fun s' : Sched => Q (s'.task u)) l₂ g ?_
    fun s' hs' t _ => hQ ((hstep s' t).task u) hs'
  simp only [hg]
  rw [if_pos ((hP h₁).mpr hu)]
  exact hdo h₁.list

/-- The signals that reach each task when a process group is signalled. -/
def raisedForGroup (s : Sched) (pgid : Nat) (sig : BitVec 32) (u : Nat) : BitVec 32 :=
  if pgid ≠ 0 ∧ (s.task u).pgid = pgid then sig else 0

theorem taskSignalPgid_sent : Sent (s.raisedForGroup pgid sig) s (s.taskSignalPgid c pgid sig) := by
  unfold taskSignalPgid
  split
  · exact Sent.refl _ s
  · next hg =>
    refine signalLoop_sent (P := fun s t => (s.task t).pgid = pgid) (fun hs hp => if_pos ⟨hg, ?_⟩) _
    rw [← (hs.task _).pgid]
    exact hp

/-- SIGCONT to a group leaves none of it stopped. -/
theorem taskSignalPgid_continued (h0 : u ≠ 0) (hl : u ∈ s.list) (hg : pgid ≠ 0)
    (hu : (s.task u).pgid = pgid) (hc : sig &&& sigCont ≠ 0) :
    ((s.taskSignalPgid c pgid sig).task u).state ≠ .stopped := by
  unfold taskSignalPgid
  rw [if_neg hg]
  refine signalLoop_reaches (P := fun s t => (s.task t).pgid = pgid)
    (Q := fun r => r.state ≠ .stopped) (fun hs => ?_) (fun hs hq hst => ?_) (fun hl' => ?_) hu hl
  · rw [(hs.task _).pgid]
  · exact hq ((hs.blocked (Or.inr (Or.inr hst))).1 ▸ hst)
  · exact taskSignalLocked_continued h0 (hl' ▸ hl) hc

/-- A signal to a group pends at each of its members. -/
theorem taskSignalPgid_pends {x : BitVec 32} (h0 : u ≠ 0) (hl : u ∈ s.list) (hg : pgid ≠ 0)
    (hu : (s.task u).pgid = pgid) (hx : sig &&& x ≠ 0) :
    ((s.taskSignalPgid c pgid sig).task u).Pends x := by
  unfold taskSignalPgid
  rw [if_neg hg]
  refine signalLoop_reaches (P := fun s t => (s.task t).pgid = pgid)
    (fun hs => ?_) (fun hs hq => hs.keeps hq) (fun hl' => ?_) hu hl
  · rw [(hs.task _).pgid]
  · exact taskSignalLocked_pends h0 (hl' ▸ hl) hx

theorem taskSignalGroup_sent {tgid except : Nat} :
    Sent (fun u => if u = except then 0 else sig) s (s.taskSignalGroup c tgid except sig) :=
  signalLoop_sent (P := fun s t => t ≠ except ∧ (s.task t).tgid = tgid) (fun _ hp => if_neg hp.1) _

/-- The rest of a thread group is doomed. -/
theorem taskSignalGroup_doomed {tgid except : Nat} (h0 : u ≠ 0) (hl : u ∈ s.list) (he : u ≠ except)
    (hu : (s.task u).tgid = tgid) : ((s.taskSignalGroup c tgid except sigKill).task u).Doomed := by
  refine signalLoop_reaches (P := fun s t => t ≠ except ∧ (s.task t).tgid = tgid) (fun hs => ?_) (fun hs => hs.doomed) (fun hl' => ?_) ⟨he, hu⟩ hl
  · rw [(hs.task _).tgid]
  · exact taskSignalLocked_doomed h0 (hl' ▸ hl) (by decide)

theorem notifyParent_sent (h : f pid = sigChld) : Sent f s (s.notifyParent c pid) := by
  unfold notifyParent
  dsimp only
  split
  · exact Sent.refl f s
  split
  · next hw => exact (taskSignalLocked_sent h).trans (wakeBlocked_sent (by simp [hw.2]))
  · exact taskSignalLocked_sent h

/-- Telling the parent does not wake the child. -/
theorem notifyParent_stopped (h : (s.task t).state = .stopped) :
    ((s.notifyParent c pid).task t).state = .stopped := by
  have hs : ((s.taskSignalLocked c pid sigChld).task t).state = .stopped :=
    taskSignalLocked_stopped (by decide) (by decide) h
  unfold notifyParent
  dsimp only
  split
  · exact h
  split
  · next hw =>
    have htp : t ≠ pid := fun htp => by
      rw [htp] at hs
      exact nomatch hs.symm.trans hw.2
    obtain ⟨p, hp⟩ := readied_task
    rw [wakeBlocked, hp, update_of_ne htp, mlfqRemoveFromSleep_task.1]
    exact hs
  · exact hs

/-! ### Time and queues -/

theorem wakeIfSigsuspend_sent : Sent f s (s.wakeIfSigsuspend c t sig) := by
  unfold wakeIfSigsuspend
  dsimp only
  split
  · next h => exact wakeBlocked_sent (by simp [h.2.1])
  · exact Sent.refl f s

/-- A timer sends SIGALRM. -/
theorem Rings.sent (hr : Rings s s' c t) : Sent (fun _ => sigAlrm) s s' := by
  obtain rfl | ⟨-, alarm, value, rfl⟩ := hr
  · exact Sent.refl _ _
  have hr : (s.task t).Sent sigAlrm { s.task t with
      pendingSignals := (s.task t).pendingSignals ||| sigAlrm } :=
    TaskStruct.Sent.raise (by decide)
  refine (Sent.setTask (hr.trans ?_)).trans wakeIfSigsuspend_sent
  exact ⟨TaskStruct.Later.of_words rfl rfl rfl rfl (Or.inl rfl), id⟩

theorem checkAlarmTimers_sent (h : s.checkAlarmTimers c = some s') : Sent (fun _ => sigAlrm) s s' := by
  unfold checkAlarmTimers at h
  generalize hl : s.list = l at h
  clear hl
  induction l generalizing s with
  | nil =>
    obtain rfl := Option.some.inj h
    exact Sent.refl _ _
  | cons t l ih =>
    obtain ⟨s₁, h₁, h₂⟩ := Option.bind_eq_some_iff.mp h
    exact alarmPass_rings.sent.trans ((itimerPass_rings h₁).sent.trans (ih h₂))

/-- Dying tasks tell their parents. -/
theorem schedule_later : Later (fun _ => sigChld) s (s.schedule c) := by
  refine Later.trans ?_ scheduleSwitch_turns.later
  refine Later.trans ?_ wakeExpiredSleepers_turns.later
  split
  · split
    · exact Sent.later (notifyParent_sent rfl)
    · exact Later.refl _ s
  · exact Later.refl _ s

end Sched

end CactKernel
