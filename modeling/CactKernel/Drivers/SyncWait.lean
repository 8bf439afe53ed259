/-
CactKernel/Drivers/SyncWait.lean

Waiting for DRM sync objects (`drm/rust_drm/src/syncobj.rs`, `syncobj_state.rs`).

`syncobj_ioctl_wait` and `syncobj_ioctl_timeline_wait` look up their objects and
poll them, once a tick, until one or all of them are done or the ticks are used
up.  What the other clients do in between is arbitrary: `state k o` is object `o`
at poll `k`.

The index that is reported starts out as 0, and 0 also means that none was found
yet, so an object at index 0 is passed over for a later one.  `wait_ticks` cuts
the quotient of the timeout to 32 bits before it bounds it.  **Main result**
`sync_waits_iff`: nothing else goes wrong.
-/
import CactKernel.Mm.Layout

namespace CactKernel

structure SyncState where
  timeline : Bool
  signaled : Bool
  point : Nat
deriving DecidableEq, Repr

def SyncState.reached (s : SyncState) (point : Nat) : Bool :=
  if s.timeline then if point = 0 then decide (0 < s.point) else decide (point ≤ s.point)
  else s.signaled

namespace SyncWait

def syncWaitMaxTicks : Nat := 30
def maxSyncobjHandles : Nat := 64

structure Request where
  /-- The handles, with their points in a TIMELINE_WAIT. -/
  handles : List (Nat × Nat)
  timeoutNsec : Int
  /-- DRM_SYNCOBJ_WAIT_FLAGS_WAIT_ALL. -/
  all : Bool
  /-- The payload can be copied in, the arrays read, and the payload copied out. -/
  copyIn : Bool
  readable : Bool
  copyOut : Bool

inductive Answer where
  | error (code : Int)
  /-- 0 with `first_signaled`, after so many ticks. -/
  | done (first slept : Nat)
  /-- -ETIME after so many ticks. -/
  | etime (slept : Nat)
deriving DecidableEq

/-- `wait_ticks`; `none` is a kernel panic. -/
def waitTicks (timeoutNsec : Int) : Option Nat :=
  if timeoutNsec ≤ 0 then some syncWaitMaxTicks
  else
    -- the quotient `as u32`
    (checkedAdd ((timeoutNsec / 10000000).toNat % u32Size) 1).map fun t =>
      if syncWaitMaxTicks < t then syncWaitMaxTicks else t

/-- One object of the pass: how many are done, and `first`. -/
def pollStep (r : Nat × Nat) (x : Bool × Nat) : Nat × Nat :=
  if x.1 then (r.1 + 1, if r.2 = 0 then x.2 else r.2) else r

def pollOnce (dones : List Bool) : Nat × Nat := dones.zipIdx.foldl pollStep (0, 0)

/-- The loop, with `dones k` the objects that are done at poll `k`. -/
def waitLoop (all : Bool) (dones : Nat → List Bool) (ticks slept : Nat) : Answer :=
  let r := pollOnce (dones slept)
  if if all then r.1 = (dones slept).length else 0 < r.1 then .done r.2 slept
  else
    match ticks with
    | 0 => .etime slept
    | ticks + 1 => waitLoop all dones ticks (slept + 1)

/-- The checks, and the objects of the handles, which have to be of the flavour. -/
def collect (timeline : Bool) (objectOf : Nat → Option Nat) (state : Nat → SyncState) (req : Request) :
    Except Int (List (Nat × Nat)) :=
  if req.copyIn = false ∨ req.handles = [] ∨ maxSyncobjHandles < req.handles.length then .error (-22)
  else if req.readable = false then .error (-14)
  else req.handles.mapM fun h =>
    match objectOf h.1 with
    | none => .error (-2)
    | some o => if (state o).timeline = timeline then .ok (o, h.2) else .error (-22)

/-- The objects that are done: a binary one if its bit is set, a timeline one if it is at the point
that is waited for or past it. -/
def doneAt (timeline : Bool) (state : Nat → SyncState) (objs : List (Nat × Nat)) : List Bool :=
  objs.map fun x => if timeline then decide (x.2 ≤ (state x.1).point) else (state x.1).reached 0

/-- Both calls. -/
def waitFor (timeline : Bool) (objectOf : Nat → Option Nat) (state : Nat → Nat → SyncState)
    (req : Request) : Option Answer :=
  match collect timeline objectOf (state 0) req with
  | .error code => some (.error code)
  | .ok objs =>
    (waitTicks req.timeoutNsec).map fun ticks =>
      match waitLoop req.all (fun k => doneAt timeline (state k) objs) ticks 0 with
      | .done first slept => if req.copyOut then .done first slept else .error (-1)
      | a => a

def syncobjIoctlWait := waitFor false

def syncobjIoctlTimelineWait := waitFor true

/-! ### What a wait has to be -/

/-- The condition of the wait. -/
def Met (all : Bool) (dones : List Bool) : Prop := if all then ∀ b ∈ dones, true = b else true ∈ dones

/-- The wait is over at poll `k`. -/
def EndsAt (all : Bool) (dones : Nat → List Bool) (k : Nat) : Prop :=
  Met all (dones k) ∧ ∀ j < k, ¬Met all (dones j)

/-- The ticks a timeout asks for: 10 ms each, rounded up, and bounded. -/
def ticksDue (timeoutNsec : Int) : Nat :=
  min ((timeoutNsec + 9999999) / 10000000).toNat syncWaitMaxTicks

/-- **What the wait has to be**: it has at least the ticks that are due, ends with the lowest index
that is done at the first poll that meets the condition, and without such a poll when its ticks
are over. -/
def Right (all : Bool) (dones : Nat → List Bool) (timeoutNsec : Int) (answer : Option Answer) : Prop :=
  ∃ ticks, waitTicks timeoutNsec = some ticks ∧ ticksDue timeoutNsec ≤ ticks ∧
    ((∃ k ≤ ticks, EndsAt all dones k ∧ answer = some (.done ((dones k).idxOf true) k)) ∨
      (∀ k ≤ ticks, ¬Met all (dones k)) ∧ answer = some (.etime ticks))

/-- The quotient survives the cut, or what is left of it is large enough. -/
def TicksFit (timeoutNsec : Int) : Prop :=
  0 < timeoutNsec → (timeoutNsec / 10000000).toNat % u32Size + 1 < u32Size ∧
    (timeoutNsec / 10000000 < u32Size ∨ 29 ≤ (timeoutNsec / 10000000).toNat % u32Size)

/-- The object at index 0 is done, and so is a later one. -/
def Passed (dones : List Bool) : Prop := dones.head? = some true ∧ true ∈ dones.tail

/-- The ticks a timeout gets that survives the cut. -/
def ticksGiven (timeoutNsec : Int) : Nat :=
  if timeoutNsec ≤ 0 then syncWaitMaxTicks
  else min ((timeoutNsec / 10000000).toNat + 1) syncWaitMaxTicks

/-- The wait does not end with index 0 passed over. -/
def Regular (all : Bool) (dones : Nat → List Bool) (timeoutNsec : Int) : Prop :=
  ∀ k ≤ ticksGiven timeoutNsec, EndsAt all dones k → ¬Passed (dones k)

/-! ### The ticks -/

theorem waitTicks_iff (t : Int) : (∃ ticks, waitTicks t = some ticks ∧ ticksDue t ≤ ticks) ↔ TicksFit t := by
  unfold waitTicks TicksFit ticksDue
  by_cases ht : t ≤ 0
  · rw [if_pos ht]
    exact ⟨fun _ h => absurd h (by omega), fun _ => ⟨_, rfl, Nat.min_le_right ..⟩⟩
  rw [if_neg ht]
  by_cases hfit : (t / 10000000).toNat % u32Size + 1 < u32Size
  · rw [checkedAdd_of_lt hfit]
    simp only [Option.map_some, Option.some.injEq, exists_eq_left']
    simp only [u32Size, syncWaitMaxTicks] at *
    split_ifs <;> omega
  · rw [checkedAdd]
    simp [hfit]
    omega

theorem waitTicks_of_fit {t : Int} (h : TicksFit t) : waitTicks t = some (ticksGiven t) := by
  unfold waitTicks ticksGiven
  by_cases ht : t ≤ 0
  · rw [if_pos ht, if_pos ht]
  obtain ⟨hlt, hfit⟩ := h (by omega)
  rw [if_neg ht, if_neg ht, checkedAdd_of_lt hlt, Option.map_some, Option.some.injEq]
  simp only [u32Size, syncWaitMaxTicks] at *
  split_ifs <;> omega

/-! ### One poll -/

theorem idxOf_true_cons (l : List Bool) : (false :: l).idxOf true = l.idxOf true + 1 :=
  List.idxOf_cons

/-- From index 1 on, `first` is the first index that is done. -/
theorem foldl_pollStep (l : List Bool) (i : Nat) (r : Nat × Nat) (hi : i ≠ 0) :
    (l.zipIdx i).foldl pollStep r =
      (r.1 + l.count true, if r.2 = 0 ∧ true ∈ l then i + l.idxOf true else r.2) := by
  induction l generalizing i r with
  | nil => simp
  | cons b l ih =>
    rw [List.zipIdx_cons, List.foldl_cons, ih _ _ (Nat.succ_ne_zero i)]
    cases b
    · rw [idxOf_true_cons]
      simp [pollStep, Nat.add_assoc, Nat.add_comm 1]
    · by_cases hr : r.2 = 0
      · simp [pollStep, hr, hi, Nat.add_assoc, Nat.add_comm 1]
      · simp [pollStep, hr, Nat.add_assoc, Nat.add_comm 1]

theorem pollOnce_cons (b : Bool) (l : List Bool) :
    pollOnce (b :: l) = ((b :: l).count true, if true ∈ l then 1 + l.idxOf true else 0) := by
  have hrest := foldl_pollStep l 1 (if b then (1, 0) else (0, 0)) Nat.one_ne_zero
  cases b
  · exact hrest.trans (by simp)
  · exact hrest.trans (by simp [Nat.add_comm])

theorem met_iff (all : Bool) (l : List Bool) :
    (if all then (pollOnce l).1 = l.length else 0 < (pollOnce l).1) ↔ Met all l := by
  have hcount : (pollOnce l).1 = l.count true := by
    cases l with
    | nil => rfl
    | cons b l => rw [pollOnce_cons]
  rw [hcount]
  cases all
  · exact List.count_pos_iff
  · exact List.count_eq_length

/-- **The index that is reported** is the lowest one unless index 0 is passed over. -/
theorem pollOnce_snd {all : Bool} {l : List Bool} (hl : Met all l) :
    (pollOnce l).2 = l.idxOf true ↔ ¬Passed l := by
  cases l with
  | nil => exact iff_of_true rfl fun h => absurd h.2 List.not_mem_nil
  | cons b l =>
    rw [pollOnce_cons]
    unfold Passed
    cases b
    · have htail : true ∈ l := by
        cases all
        · simpa [Met] using hl
        · exact absurd (hl false List.mem_cons_self) (by decide)
      rw [idxOf_true_cons]
      simp [htail, Nat.add_comm]
    · by_cases htail : true ∈ l <;> simp [htail]

/-! ### The loop -/

variable {all : Bool} {dones : Nat → List Bool} {slept ticks : Nat}

theorem waitLoop_met (hm : Met all (dones slept)) :
    waitLoop all dones ticks slept = .done (pollOnce (dones slept)).2 slept := by
  unfold waitLoop
  exact if_pos ((met_iff ..).mpr hm)

theorem waitLoop_not (hm : ¬Met all (dones slept)) :
    waitLoop all dones ticks slept =
      match ticks with
      | 0 => .etime slept
      | ticks + 1 => waitLoop all dones ticks (slept + 1) := by
  rw [waitLoop.eq_def]
  exact if_neg (mt (met_iff ..).mp hm)

/-- The loop ends where the wait does, or after its ticks. -/
theorem waitLoop_cases (ticks : Nat) (hno : ∀ j < slept, ¬Met all (dones j)) :
    (∃ k ≤ slept + ticks, EndsAt all dones k ∧
      waitLoop all dones ticks slept = .done (pollOnce (dones k)).2 k) ∨
    (∀ k < slept + ticks + 1, ¬Met all (dones k)) ∧
      waitLoop all dones ticks slept = .etime (slept + ticks) := by
  induction ticks generalizing slept with
  | zero =>
    by_cases hm : Met all (dones slept)
    · exact .inl ⟨slept, Nat.le_refl _, ⟨hm, hno⟩, waitLoop_met hm⟩
    · exact .inr ⟨Nat.forall_lt_succ_right.mpr ⟨hno, hm⟩, waitLoop_not hm⟩
  | succ ticks ih =>
    by_cases hm : Met all (dones slept)
    · exact .inl ⟨slept, Nat.le_add_right .., ⟨hm, hno⟩, waitLoop_met hm⟩
    rw [waitLoop_not hm, ← Nat.succ_add_eq_add_succ]
    exact ih (Nat.forall_lt_succ_right.mpr ⟨hno, hm⟩)

theorem EndsAt.unique {j k : Nat} (hj : EndsAt all dones j) (hk : EndsAt all dones k) : j = k := by
  rcases Nat.lt_trichotomy j k with h | h | h
  · exact absurd hj.1 (hk.2 j h)
  · exact h
  · exact absurd hk.1 (hj.2 k h)

theorem right_iff (all : Bool) (dones : Nat → List Bool) (t : Int) :
    Right all dones t ((waitTicks t).map fun ticks => waitLoop all dones ticks 0) ↔
      TicksFit t ∧ Regular all dones t := by
  by_cases hfit : TicksFit t
  · rw [and_iff_right hfit]
    obtain ⟨ticks, hticks, hdue⟩ := (waitTicks_iff t).mpr hfit
    have hgiven := hticks.symm.trans (waitTicks_of_fit hfit)
    unfold Right Regular
    rw [← Option.some.inj hgiven, hticks]
    simp only [Option.some.injEq, exists_eq_left', Option.map_some, and_iff_right hdue]
    have hcases := waitLoop_cases ticks (show ∀ j < 0, ¬Met all (dones j) from fun j h => nomatch h)
    rw [Nat.zero_add] at hcases
    -- the loop ends at its first success, or runs out of polls
    rcases hcases with ⟨k, hk, hend, hloop⟩ | ⟨hno, hloop⟩
    · have hfirst := pollOnce_snd hend.1
      rw [hloop]
      constructor
      · rintro (⟨j, -, -, hj⟩ | ⟨h, -⟩) i - hi
        · obtain ⟨hj, rfl⟩ := Answer.done.inj hj
          rw [hi.unique hend]
          exact hfirst.mp hj
        · exact absurd hend.1 (h k hk)
      · exact fun h => .inl ⟨k, hk, hend, by rw [hfirst.mpr (h k hk hend)]⟩
    · rw [hloop]
      exact iff_of_true (.inr ⟨fun k hk => hno k (Nat.lt_succ_of_le hk), rfl⟩)
        fun k hk hend => absurd hend.1 (hno k (Nat.lt_succ_of_le hk))
  · exact iff_of_false (fun ⟨ticks, hw, hdue, _⟩ => hfit ((waitTicks_iff t).mp ⟨ticks, hw, hdue⟩))
      fun h => hfit h.1

/-- **Waiting for sync objects**: a request that is accepted is answered as it has to be exactly if
its timeout survives the cut to 32 bits and index 0 is not passed over. -/
theorem sync_waits_iff {timeline : Bool} {objectOf : Nat → Option Nat} {state : Nat → Nat → SyncState}
    (req : Request) {objs : List (Nat × Nat)} (hobjs : collect timeline objectOf (state 0) req = .ok objs)
    (hout : req.copyOut = true) :
    Right req.all (fun k => doneAt timeline (state k) objs) req.timeoutNsec
        (waitFor timeline objectOf state req) ↔
      TicksFit req.timeoutNsec ∧ Regular req.all (fun k => doneAt timeline (state k) objs) req.timeoutNsec := by
  rw [← right_iff, waitFor, hobjs]
  congr! 3 with ticks
  cases waitLoop req.all (fun k => doneAt timeline (state k) objs) ticks 0 <;> simp [hout]

/-- A wait of 15 ms for any of the handles. -/
def anyOf (handles : List (Nat × Nat)) : Request := ⟨handles, 15000000, false, true, true, true⟩

/-- Every object but 5 is signaled from poll 1 on. -/
def signaledLater : Nat → Nat → SyncState := fun k o => ⟨false, decide (1 ≤ k ∧ o ≠ 5), 0⟩

theorem sync_waits_iff_second :
    Right false (fun k => doneAt false (signaledLater k) [(5, 0), (6, 0)]) 15000000
      (syncobjIoctlWait some signaledLater (anyOf [(5, 0), (6, 0)])) := by
  refine (sync_waits_iff (anyOf [(5, 0), (6, 0)]) (by decide) rfl).mpr ⟨fun _ => by decide +kernel, ?_⟩
  intro k _ _ hpassed
  -- object 5 is not done at any poll
  have hhead : (doneAt false (signaledLater k) [(5, 0), (6, 0)]).head? = some false := by
    simp [doneAt, signaledLater, SyncState.reached]
  exact absurd (hhead.symm.trans hpassed.1) (by decide)

/-- With two objects that are both done, index 1 is reported.  A timeout of 2³² quotients waits for one tick, one of
2³² - 1 panics. -/
theorem sync_waits_pass_over :
    syncobjIoctlWait some signaledLater (anyOf [(6, 0), (7, 0)]) = some (.done 1 1) ∧
      waitTicks 42949672960000000 = some 1 ∧ waitTicks 42949672950000000 = none := by
  decide +kernel

end SyncWait

end CactKernel
