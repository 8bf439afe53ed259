/-
CactKernel/Fs/PipeLaw.lean

A pipe is a bounded queue of bytes.

`Fifo` says what holds between two sections of a pipe in use: what was read is
a prefix of what was written, the ring is well formed while the object lives,
a read returned 0 and a write returned `-EPIPE` only for their reasons, and the
object is gone exactly when both ends are.  It is not an invariant of the code
as it stands, for two reasons:

  * `ref_count` counts the two wrappers, but every close takes one from it, so
    an end that is opened twice gives the object back one close too early;
  * a call that sleeps between two passes holds no reference, so the last close
    frees the object under it.

`Clean` excludes them: no end is opened a second time, and the close that
releases the object finds no call in progress.  **Main result**
`pipe_is_fifo`.

A pass of `pipe_write` takes whatever fits, so a small write that finds room for
a part of its bytes is torn (`small_write_torn`); one that finds the ring full or
room for all of them is not: **main result** `small_writes_whole`.
-/
import CactKernel.Fs.Pipe

namespace CactKernel

open Function Runs

namespace Pipe

variable {p p' : Pipe} {size : Nat} {nonblock : Bool} {bs want : List UInt8}

/-- The bytes in the ring, oldest first. -/
def contents (p : Pipe) : List UInt8 := Ring.window pipeBufSize p.buf p.readPos p.len

/-- The positions and the length fit together. -/
structure Sound (p : Pipe) : Prop where
  readPos_lt : p.readPos < pipeBufSize
  len_le : p.len ≤ pipeBufSize
  writePos_eq : p.writePos = (p.readPos + p.len) % pipeBufSize

/-- The counter of an end. -/
def openCount (p : Pipe) : PipeEnd → Nat
  | .rd => p.readOpen
  | .wr => p.writeOpen

/-- **A read** takes a part of the ring from its front, never an empty one. -/
theorem readPass_bytes (h : p.Sound) (hsize : 0 < size)
    (hr : p.readPass size nonblock = .bytes p' bs) :
    p'.Sound ∧ p.contents = bs ++ p'.contents ∧ 0 < bs.length ∧ bs.length ≤ pipeBufSize ∧
      (p'.magic, p'.readOpen, p'.writeOpen, p'.refCount) =
        (p.magic, p.readOpen, p.writeOpen, p.refCount) := by
  unfold readPass at hr
  split at hr
  · split_ifs at hr
  · next hlen =>
    generalize hchunk : (if size < p.len then size else p.len) = chunk at hr
    have hle : chunk ≤ p.len ∧ 0 < chunk := by
      split_ifs at hchunk <;> omega
    have hcap := Nat.le_trans hle.1 h.len_le
    have hload := Ring.load_eq_window (g := p.buf) h.readPos_lt hcap
    injection hr with hp hb
    subst hp hb
    rw [hload, Ring.window_length]
    refine ⟨⟨Nat.mod_lt _ pipeBufSize_pos, Nat.le_trans (Nat.sub_le _ _) h.len_le, ?_⟩, ?_, hle.2,
      hcap, rfl⟩
    · -- the front moves as far as the length shrinks
      rw [h.writePos_eq, Nat.mod_add_mod, show p.readPos + chunk + (p.len - chunk) = p.readPos + p.len
        by omega]
    · show Ring.window _ _ _ _ = _ ++ Ring.window _ _ _ _
      rw [← Ring.take_window hle.1, ← Ring.drop_window hle.1, List.take_append_drop]

/-- A read that ends the stream found it empty, and no write end. -/
theorem readPass_eof (hr : p.readPass size nonblock = .eof) : p.len = 0 ∧ p.writeOpen = 0 := by
  unfold readPass at hr
  split_ifs at hr with h₁ h₂
  exact ⟨h₁, h₂⟩

/-- **A write** puts a part of its bytes behind those in the ring. -/
theorem writePass_wrote (h : p.Sound) (hwant : want ≠ [])
    (hw : p.writePass want nonblock = .wrote p' bs) :
    p'.Sound ∧ p'.contents = p.contents ++ bs ∧ bs = want.take bs.length ∧ 0 < bs.length ∧
      (p'.magic, p'.readOpen, p'.writeOpen, p'.refCount) =
        (p.magic, p.readOpen, p.writeOpen, p.refCount) := by
  unfold writePass at hw
  split_ifs at hw with h₁ h₂ h₃
  dsimp only at hw
  generalize hk : (if want.length < pipeBufSize - p.len then want.length else pipeBufSize - p.len) = k at hw
  have hpos : 0 < want.length := List.length_pos_of_ne_nil hwant
  have hlen := h.len_le
  have hspace : k ≤ want.length ∧ k ≤ pipeBufSize - p.len ∧ 0 < k := by
    split_ifs at hk <;> omega
  injection hw with hp hb
  have hbs : bs.length = k := by
    rw [← hb, List.length_take, Nat.min_eq_left hspace.1]
  subst hp
  rw [hb]
  refine ⟨⟨h.readPos_lt, ?_, ?_⟩, ?_, by rw [hbs, hb], by omega, rfl⟩
  · show p.len + bs.length ≤ pipeBufSize
    omega
  · rw [h.writePos_eq, Nat.mod_add_mod, Nat.add_assoc]
  · show Ring.window _ _ _ _ = Ring.window _ _ _ _ ++ bs
    rw [h.writePos_eq, Ring.window_store h.readPos_lt (by omega)]

theorem writePass_epipe (hw : p.writePass want nonblock = .epipe) : p.readOpen = 0 := by
  unfold writePass at hw
  split_ifs at hw with h₁
  exact h₁

/-- A pass that neither writes nor finds the readers gone finds the ring full. -/
theorem writePass_again (hw : p.writePass want nonblock = .again) : p.len = pipeBufSize ∧ nonblock = true := by
  unfold writePass at hw
  split_ifs at hw with h₁ h₂ h₃
  exact ⟨h₂, h₃⟩

theorem writePass_sleep (hw : p.writePass want nonblock = .sleep) : p.len = pipeBufSize ∧ nonblock = false := by
  unfold writePass at hw
  split_ifs at hw with h₁ h₂ h₃
  exact ⟨h₂, by simpa using h₃⟩

end Pipe

/-- A read returns 0 only when everything was read and no write end is open, a
write `-EPIPE` only when no read end is. -/
structure PipeReturn.Honest (r : PipeReturn) : Prop where
  eof : r.op = .rd → r.value = 0 → r.unread = 0 ∧ r.writers = 0
  epipe : r.op = .wr → r.value = pipeEpipe → r.readers = 0

namespace PipeSys

variable {s s' : PipeSys} {t written : Nat} {e : PipeEnd} {c : PipeCall} {v : Int} {nonblock : Bool}
  {rest : List UInt8} {ev : Event}

/-! ### What is to hold -/

/-- The end was opened and is no longer open. -/
def Gone (s : PipeSys) (e : PipeEnd) : Prop := s.used e = true ∧ s.held e = 0
deriving Decidable

/-- **A pipe is a bounded queue of bytes.** -/
structure Fifo (s : PipeSys) : Prop where
  stream : s.delivered <+: s.accepted
  bounded : s.released = false → s.pipe.len ≤ pipeBufSize ∧
    s.pipe.writePos = (s.pipe.readPos + s.pipe.len) % pipeBufSize
  returns : ∀ r ∈ s.log, r.Honest
  release : s.released = true ↔ s.Gone .rd ∧ s.Gone .wr

/-- No end is opened a second time, and the close that releases the object
finds no call in progress. -/
def Clean (s : PipeSys) : Event → Prop
  | .openEnd e => s.used e = false
  | .closeEnd _ | .dropEnd _ => s.pipe.refCount = 1 → ∀ t, s.call t = .idle
  | _ => True

/-! ### The counters

They say how many ends are open, whether or not an end is opened twice. -/

/-- The counters of a live object are those of its open ends. -/
structure Counted (s : PipeSys) : Prop where
  magic : s.released = false → s.pipe.magic = true
  priv : s.released = false → ∀ e, (s.node e).priv = true
  counts : s.released = false → ∀ e, s.pipe.openCount e = s.held e

theorem PipeNode.drop_priv (n : PipeNode) : (PipeNode.drop n).priv = n.priv := by
  unfold drop
  split <;> rfl

theorem counted_created (nonblock : Bool) : (created nonblock).Counted :=
  ⟨fun _ => rfl, fun _ _ => rfl, fun _ e => by cases e <;> rfl⟩

section

variable (h : s.Counted)
include h

/-- The object keeps its counters. -/
theorem Counted.setPipe {p : Pipe} {xs ys : List UInt8} {calls : Nat → PipeCall} {log : List PipeReturn}
    (hkeep : (p.magic, p.readOpen, p.writeOpen) = (s.pipe.magic, s.pipe.readOpen, s.pipe.writeOpen)) :
    { s with pipe := p, accepted := xs, delivered := ys, call := calls, log }.Counted := by
  simp only [Prod.mk.injEq] at hkeep
  obtain ⟨h₁, h₂, h₃⟩ := hkeep
  refine ⟨fun hr => h₁.trans (h.magic hr), h.priv, fun hr e => ?_⟩
  rw [← h.counts hr e]
  cases e
  · exact h₂
  · exact h₃

theorem Counted.openEnd : (s.pipeNodeOpen e).Counted := by
  unfold pipeNodeOpen
  dsimp only
  by_cases hr : s.released = false
  · rw [if_neg (by simp [h.priv hr e, h.magic hr])]
    refine ⟨fun _ => Eq.trans (by cases e <;> rfl) (h.magic hr), fun _ => ?_, fun _ e' => ?_⟩
    · exact (forall_update_iff s.node fun _ n => n.priv = true).mpr ⟨h.priv hr e, fun e' _ => h.priv hr e'⟩
    · rw [← funext (h.counts hr)]
      cases e <;> cases e' <;> rfl
  · split_ifs <;> exact ⟨fun hr' => absurd hr' hr, fun hr' => absurd hr' hr, fun hr' => absurd hr' hr⟩

theorem Counted.closeEnd : (s.pipeNodeClose e).Counted := by
  unfold pipeNodeClose
  dsimp only
  by_cases hr : s.released = false
  · rw [if_neg (by simp [h.priv hr e, h.magic hr])]
    refine ⟨fun hr' => ?_, fun hr' => ?_, fun _ e' => ?_⟩
    · simp only [hr, Bool.false_or, decide_eq_false_iff_not] at hr'
      simp [Pipe.closed, h.magic hr, hr']
    · refine (forall_update_iff s.node fun _ n => n.priv = true).mpr ⟨?_, fun e' _ => h.priv hr e'⟩
      simp only [hr, Bool.false_or, decide_eq_false_iff_not] at hr'
      rw [PipeNode.drop_priv]
      simp [h.priv hr e, hr']
    · rw [← funext (h.counts hr)]
      cases e <;> cases e' <;> rfl
  · split_ifs
    · exact ⟨fun hr' => absurd hr' hr, fun hr' => absurd hr' hr, fun hr' => absurd hr' hr⟩
    · have hno : ¬(s.released || decide (s.pipe.refCount - 1 = 0)) = false := by simp [hr]
      exact ⟨fun hr' => absurd hr' hno, fun hr' => absurd hr' hno, fun hr' => absurd hr' hno⟩

theorem Counted.onRead {size : Nat} : (s.onRead t size nonblock).Counted := by
  unfold PipeSys.onRead
  split
  case h_4 p bs hp =>
    unfold Pipe.readPass at hp
    split_ifs at hp <;> injection hp with hp <;> exact h.setPipe (hp ▸ rfl)
  all_goals exact h.setPipe rfl

theorem Counted.onWrite : (s.onWrite t written rest nonblock).Counted := by
  unfold PipeSys.onWrite
  split
  case h_4 p bs hp =>
    unfold Pipe.writePass at hp
    split_ifs at hp
    injection hp with hp
    dsimp only
    split_ifs <;> exact h.setPipe (hp ▸ rfl)
  all_goals exact h.setPipe rfl

theorem Counted.step (hs : s.step ev = some s') : s'.Counted := by
  cases ev <;> simp only [PipeSys.step] at hs
  case openEnd e =>
    split_ifs at hs
    cases hs
    exact h.openEnd
  case closeEnd e =>
    split_ifs at hs
    cases hs
    exact h.closeEnd
  case dropEnd e =>
    split_ifs at hs
    cases hs
    exact Counted.closeEnd ⟨h.magic, h.priv, h.counts⟩
  -- a released pipe owes nothing, so whatever reuses its memory is counted
  case reuse p =>
    split_ifs at hs with hr
    cases hs
    have hdead : ¬s.released = false := by simp [hr]
    exact ⟨fun hr' => absurd hr' hdead, fun hr' => absurd hr' hdead, fun hr' => absurd hr' hdead⟩
  case setNonblock nb =>
    split_ifs at hs <;> cases hs
    · exact h.setPipe rfl
    · exact h
  case read t size | write t bs =>
    split_ifs at hs <;> cases hs <;> exact h.setPipe rfl
  case readPass t =>
    split at hs
    · cases hs
      exact h.onRead
    · cases hs
  case writePass t =>
    split at hs
    · cases hs
      exact h.onWrite
    · cases hs
  case writeFlags t =>
    split at hs
    · cases hs
      exact h.setPipe rfl
    · cases hs
  case readWake t ok | writeWake t ok =>
    split at hs
    · cases hs
      split_ifs <;> exact h.setPipe rfl
    · cases hs

end

/-! ### The invariant -/

/-- The object and its ends. -/
structure Core (s : PipeSys) : Prop extends Counted s where
  sound : s.released = false → s.pipe.Sound
  queued : s.released = false → s.accepted = s.delivered ++ s.pipe.contents
  stream : s.delivered <+: s.accepted
  refCount : s.released = false →
    s.pipe.refCount = (if s.Gone .rd then 0 else 1) + (if s.Gone .wr then 0 else 1)
  held_le : ∀ e, s.held e ≤ 1
  unused : ∀ e, s.used e = false → s.held e = 0
  release : s.released = true ↔ s.Gone .rd ∧ s.Gone .wr

/-- A call has so much still to write that the count of its bytes stays a
proper size. -/
def Fits : PipeCall → Prop
  | .reading size _ => 0 < size
  | .readAsleep size _ => 0 < size
  | .checked bs => bs ≠ [] ∧ bs.length < kernelBase
  | .writing written rest _ => rest ≠ [] ∧ written + rest.length < kernelBase
  | .writeAsleep written rest _ => rest ≠ [] ∧ written + rest.length < kernelBase
  | .idle => True

/-- **The invariant.** -/
structure Inv (s : PipeSys) : Prop extends Core s where
  quiet : s.released = true → ∀ t, s.call t = .idle
  fits : ∀ t, Fits (s.call t)
  returns : ∀ r ∈ s.log, r.Honest

theorem Inv.fifo (h : s.Inv) : s.Fifo where
  stream := h.stream
  bounded := fun hr => ⟨(h.sound hr).len_le, (h.sound hr).writePos_eq⟩
  returns := h.returns
  release := h.release

theorem created_inv (nonblock : Bool) : (created nonblock).Inv where
  toCounted := counted_created nonblock
  sound := fun _ => ⟨pipeBufSize_pos, Nat.zero_le _, (Nat.zero_mod _).symm⟩
  queued := fun _ => rfl
  stream := List.prefix_rfl
  refCount := fun _ => rfl
  held_le := fun _ => Nat.zero_le _
  unused := fun _ _ => rfl
  release := by simp [created, Gone]
  quiet := fun h => by simp [created] at h
  fits := fun _ => trivial
  returns := fun _ h => by simp [created] at h

section

variable (h : s.Inv)
include h

/-- A call moves on while the object lives. -/
theorem Inv.setCall (hr : s.released = false) (hc : Fits c) : (s.setCall t c).Inv :=
  { h with
    quiet := fun hr' => absurd (hr.symm.trans hr') (by decide)
    fits := (forall_update_iff s.call fun _ => Fits).mpr ⟨hc, fun u _ => h.fits u⟩ }

/-- A call returns. -/
theorem Inv.ret (hv : PipeReturn.Honest
      ⟨e, v, s.accepted.length - s.delivered.length, s.held .rd, s.held .wr⟩) :
    (s.ret t e v).Inv where
  toCore := { h with }
  quiet := fun hr => (forall_update_iff s.call fun _ c => c = .idle).mpr ⟨rfl, fun u _ => h.quiet hr u⟩
  fits := (forall_update_iff s.call fun _ => Fits).mpr ⟨trivial, fun u _ => h.fits u⟩
  returns := by
    intro r hr
    rcases List.mem_cons.mp hr with rfl | hr
    · exact hv
    · exact h.returns r hr

/-- A call in progress finds the object alive. -/
theorem Inv.live (hc : s.call t = c) (hne : c ≠ .idle) : s.released = false := by
  by_contra hr
  exact hne (hc.symm.trans (h.quiet (Bool.of_not_eq_false hr) t))

/-- So does a call through an end that is not gone. -/
theorem Inv.live_of_not_gone (he : ¬s.Gone e) : s.released = false := by
  by_contra hr
  obtain ⟨h₁, h₂⟩ := h.release.mp (Bool.of_not_eq_false hr)
  cases e
  · exact he h₁
  · exact he h₂

theorem Inv.live_of_held (he : 0 < s.held e) : s.released = false :=
  h.live_of_not_gone fun hg => Nat.ne_of_gt he hg.2

theorem Inv.intact (hr : s.released = false) :
    ¬((s.node e).priv = false ∨ s.pipe.magic = false) := by
  simp [h.priv hr e, h.magic hr]

end

/-! ### Opening and closing -/

/-- **Opening** an end for the first time. -/
theorem Inv.openEnd (h : s.Inv) (hu : s.used e = false) : (s.pipeNodeOpen e).Inv := by
  have hr := h.live_of_not_gone fun hg => absurd (hu.symm.trans hg.1) (by decide)
  have h0 := h.unused e hu
  have hcounted := h.toCounted.openEnd (e := e)
  unfold pipeNodeOpen at hcounted ⊢
  rw [if_neg (h.intact hr)] at hcounted ⊢
  generalize hs' : ({ s with held := _, used := _, node := _, pipe := _ } : PipeSys) = s'
  -- neither end was gone, or is
  have hgone : ∀ e', s'.Gone e' ↔ s.Gone e' := by
    intro e'
    subst hs'
    unfold Gone
    by_cases he : e' = e
    · subst he
      simp [hu]
    · simp [update_of_ne he]
  subst hs'
  exact
    { h with
      sound := fun hr => by
        have hsound := h.sound hr
        cases e <;> exact { hsound with }
      queued := fun hr => (h.queued hr).trans (by cases e <;> rfl)
      toCounted := hcounted
      refCount := fun hr => by
        rw [if_congr (hgone .rd) rfl rfl, if_congr (hgone .wr) rfl rfl, ← h.refCount hr]
        cases e <;> rfl
      held_le := (forall_update_iff s.held fun _ n => n ≤ 1).mpr ⟨by omega, fun e' _ => h.held_le e'⟩
      unused := fun e' => by
        show update s.used e true e' = false → update s.held e (s.held e + 1) e' = 0
        by_cases he : e' = e
        · subst he
          simp
        · rw [update_of_ne he, update_of_ne he]
          exact h.unused e'
      release := by
        rw [hgone, hgone]
        exact h.release }

/-- **Closing** an end, or giving it up unopened.  The last of the two releases the object. -/
theorem Inv.closeEnd (h : s.Inv) (hnot : ¬s.Gone e)
    (hidle : s.pipe.refCount = 1 → ∀ t, s.call t = .idle) :
    ({ s with used := update s.used e true }.pipeNodeClose e).Inv := by
  have hr := h.live_of_not_gone hnot
  have h0 : s.held e - 1 = 0 := Nat.sub_eq_zero_of_le (h.held_le e)
  have hcounted : ({ s with used := update s.used e true }.pipeNodeClose e).Counted :=
    Counted.closeEnd ⟨h.magic, h.priv, h.counts⟩
  unfold pipeNodeClose at hcounted ⊢
  rw [if_neg (h.intact hr)] at hcounted ⊢
  generalize hs' : ({ s with held := _, used := _, pipe := _, released := _, node := _ } : PipeSys) = s'
  have hgone : ∀ e', s'.Gone e' ↔ e' = e ∨ s.Gone e' := by
    intro e'
    subst hs'
    unfold Gone
    by_cases he : e' = e
    · subst he
      simp [h0]
    · simp [he]
  have hcount := h.refCount hr
  -- the pipe is released exactly by the close of its last end
  have hrel : s'.released = true ↔ s.pipe.refCount = 1 := by
    subst hs'
    simp only [hr, Bool.false_or, decide_eq_true_eq]
    omega
  have hfree : s'.released = true ↔ s'.Gone .rd ∧ s'.Gone .wr := by
    rw [hrel, hcount, hgone, hgone]
    cases e
    · by_cases hg : s.Gone .wr <;> simp [hnot, hg]
    · by_cases hg : s.Gone .rd <;> simp [hnot, hg]
  subst hs'
  exact
    { h with
      sound := fun _ => by
        have hsound := h.sound hr
        cases e <;> exact { hsound with }
      queued := fun _ => (h.queued hr).trans (by cases e <;> rfl)
      toCounted := hcounted
      refCount := fun _ => by
        rw [if_congr (hgone .rd) rfl rfl, if_congr (hgone .wr) rfl rfl]
        show s.pipe.refCount - 1 = _
        rw [hcount]
        cases e
        · by_cases hg : s.Gone .wr <;> simp [hnot, hg]
        · by_cases hg : s.Gone .rd <;> simp [hnot]
      held_le := (forall_update_iff s.held fun _ n => n ≤ 1).mpr
        ⟨Nat.le_of_lt_succ (Nat.lt_of_le_of_lt (Nat.le_of_eq h0) (by decide)), fun e' _ => h.held_le e'⟩
      unused := fun e' => by
        show update s.used e true e' = false → update s.held e (s.held e - 1) e' = 0
        by_cases he : e' = e
        · subst he
          simp
        · rw [update_of_ne he, update_of_ne he]
          exact h.unused e'
      release := hfree
      quiet := fun hr' => hidle (hrel.mp hr') }

/-! ### Reading and writing -/

/-- A return value that needs no reason. -/
theorem honest_of_ne {u r w : Nat} (h₁ : e = .rd → v ≠ 0) (h₂ : e = .wr → v ≠ pipeEpipe) :
    PipeReturn.Honest ⟨e, v, u, r, w⟩ :=
  ⟨fun he hv => absurd hv (h₁ he), fun he hv => absurd hv (h₂ he)⟩

/-- The object changes its ring, and the records keep up with it. -/
theorem Inv.setRing {p : Pipe} {xs ys : List UInt8} (h : s.Inv) (hr : s.released = false) (hp : p.Sound)
    (hq : xs = ys ++ p.contents)
    (hkeep : (p.magic, p.readOpen, p.writeOpen, p.refCount) =
      (s.pipe.magic, s.pipe.readOpen, s.pipe.writeOpen, s.pipe.refCount)) :
    { s with pipe := p, accepted := xs, delivered := ys }.Inv := by
  simp only [Prod.mk.injEq] at hkeep
  obtain ⟨h₁, h₂, h₃, h₄⟩ := hkeep
  exact
    { h with
      sound := fun _ => hp
      queued := fun _ => hq
      stream := ⟨p.contents, hq.symm⟩
      magic := fun _ => h₁.trans (h.magic hr)
      counts := fun _ e => by
        rw [← h.counts hr e]
        cases e
        · exact h₂
        · exact h₃
      refCount := fun _ => h₄.trans (h.refCount hr) }

/-- **A pass of a read.** -/
theorem Inv.onRead {size : Nat} (h : s.Inv) (hr : s.released = false)
    (hsize : 0 < size) : (s.onRead t size nonblock).Inv := by
  unfold PipeSys.onRead
  split
  · next hp =>
    obtain ⟨hlen, hw⟩ := Pipe.readPass_eof hp
    refine h.ret ⟨fun _ _ => ⟨?_, ?_⟩, nofun⟩
    · rw [h.queued hr, Pipe.contents, hlen, Ring.window_zero, List.append_nil]
      exact Nat.sub_self _
    · exact (h.counts hr .wr).symm.trans hw
  · exact h.ret (honest_of_ne (fun _ => by decide) nofun)
  · exact h.setCall hr hsize
  · next p bs hp =>
    obtain ⟨hsound, hq, hpos, hle, hkeep⟩ := Pipe.readPass_bytes (h.sound hr) hsize hp
    refine (h.setRing hr hsound (by rw [h.queued hr, hq, List.append_assoc]) hkeep).ret
      (honest_of_ne (fun _ => ?_) nofun)
    unfold toI32
    simp only [pipeBufSize] at hle
    split_ifs <;> omega

/-- **A pass of a write.** -/
theorem Inv.onWrite (h : s.Inv) (hr : s.released = false) (hrest : rest ≠ [])
    (hfit : written + rest.length < kernelBase) : (s.onWrite t written rest nonblock).Inv := by
  unfold PipeSys.onWrite
  split
  · next hp =>
    exact h.ret ⟨nofun, fun _ _ => (h.counts hr .rd).symm.trans (Pipe.writePass_epipe hp)⟩
  · exact h.ret (honest_of_ne nofun fun _ => short_ne (by omega) (by decide))
  · exact h.setCall hr ⟨hrest, hfit⟩
  · next p bs hp =>
    obtain ⟨hsound, hq, htake, hpos, hkeep⟩ := Pipe.writePass_wrote (h.sound hr) hrest hp
    have hqueued : s.accepted ++ bs = s.delivered ++ p.contents := by
      rw [hq, h.queued hr, List.append_assoc]
    have hinv := h.setRing hr hsound hqueued hkeep
    have hle : bs.length ≤ rest.length := by
      rw [htake, List.length_take]
      exact Nat.min_le_right _ _
    dsimp only
    split_ifs with hdone
    · exact hinv.ret (honest_of_ne nofun fun _ => toI32_ne (by omega))
    · refine hinv.setCall hr ⟨hdone, ?_⟩
      rw [List.length_drop]
      omega

/-! ### Runs -/

/-- **One section** keeps the invariant. -/
theorem Inv.step (h : s.Inv) (hc : s.Clean ev) (hs : s.step ev = some s') : s'.Inv := by
  cases ev <;> simp only [PipeSys.step] at hs
  case openEnd e =>
    split_ifs at hs
    cases hs
    exact h.openEnd hc
  case closeEnd e =>
    split_ifs at hs with hheld
    cases hs
    have hused : s.used e = true := by
      by_contra hu
      have := h.unused e (Bool.of_not_eq_true hu)
      omega
    have := h.closeEnd (fun hg => Nat.ne_of_gt hheld hg.2) hc
    rwa [← hused, update_eq_self] at this
  case dropEnd e =>
    split_ifs at hs with hunused
    cases hs
    exact h.closeEnd (fun hg => absurd (hunused.symm.trans hg.1) (by decide)) hc
  case setNonblock nb =>
    split_ifs at hs with hheld
    · cases hs
      have hr := hheld.elim h.live_of_held h.live_of_held
      have hsound := h.sound hr
      exact h.setRing hr { hsound with } (h.queued hr) rfl
    · cases hs
      exact h
  case read t size =>
    split_ifs at hs with hin
    · cases hs
      exact h.ret (honest_of_ne (fun _ => by decide) nofun)
    · cases hs
      exact h.setCall (h.live_of_held hin.2.1) hin.2.2.1
  case readPass t =>
    split at hs
    · next size nonblock hcall =>
      cases hs
      have hfit : Fits (.reading size nonblock) := hcall ▸ h.fits t
      exact h.onRead (h.live hcall nofun) hfit
    · cases hs
  case readWake t ok =>
    split at hs
    · next size nonblock hcall =>
      cases hs
      have hfit : Fits (.readAsleep size nonblock) := hcall ▸ h.fits t
      split_ifs
      · exact h.setCall (h.live hcall nofun) hfit
      · exact h.ret (honest_of_ne (fun _ => by decide) nofun)
    · cases hs
  case write t bs =>
    split_ifs at hs with hin hdead hpipe
    · cases hs
      exact h.ret (honest_of_ne nofun fun _ => by decide)
    · cases hs
      have hr := h.live_of_held hin.2.1
      exact h.ret ⟨nofun, fun _ _ => (h.counts hr .rd).symm.trans hpipe⟩
    · cases hs
      exact h.setCall (h.live_of_held hin.2.1) ⟨List.ne_nil_of_length_pos hin.2.2.1, hin.2.2.2⟩
  case writeFlags t =>
    split at hs
    · next bs hcall =>
      cases hs
      have hfit : Fits (.checked bs) := hcall ▸ h.fits t
      exact h.setCall (h.live hcall nofun) ⟨hfit.1, by simpa using hfit.2⟩
    · cases hs
  case writePass t =>
    split at hs
    · next written rest nonblock hcall =>
      cases hs
      have hfit : Fits (.writing written rest nonblock) := hcall ▸ h.fits t
      exact h.onWrite (h.live hcall nofun) hfit.1 hfit.2
    · cases hs
  case writeWake t ok =>
    split at hs
    · next written rest nonblock hcall =>
      cases hs
      have hfit : Fits (.writeAsleep written rest nonblock) := hcall ▸ h.fits t
      split_ifs
      · exact h.setCall (h.live hcall nofun) hfit
      · exact h.ret (honest_of_ne nofun fun _ => short_ne (by have := hfit.2; omega) (by decide))
    · cases hs
  case reuse p =>
    split_ifs at hs with hr
    cases hs
    -- nothing that is said of a released object looks at its memory
    have hdead : ¬s.released = false := by simp [hr]
    exact
      { h with
        sound := fun h' => absurd h' hdead
        queued := fun h' => absurd h' hdead
        magic := fun h' => absurd h' hdead
        counts := fun h' => absurd h' hdead
        refCount := fun h' => absurd h' hdead }

/-- **Main result.**  In every run of a pipe in which no end is opened twice
and the releasing close finds no call in progress, the pipe is a bounded queue
of bytes in every state reached. -/
theorem pipe_is_fifo {nonblock : Bool} {es : List Event} {s : PipeSys}
    (hclean : MeetsAll step Clean (created nonblock) es)
    (hrun : run step (created nonblock) es = some s) : s.Fifo :=
  (run_invariant Inv.step (created_inv nonblock) hclean hrun).fifo

/-- `Clean` without the release of the object, which is decidable. -/
def Open (s : PipeSys) : Event → Prop
  | .openEnd e => s.used e = false
  | .closeEnd _ | .dropEnd _ => s.pipe.refCount ≠ 1
  | _ => True

instance decidableOpen (s : PipeSys) (ev : Event) : Decidable (s.Open ev) := by
  cases ev <;> unfold Open <;> infer_instance

theorem Open.clean (h : s.Open ev) : s.Clean ev := by
  cases ev <;> first | exact h | exact fun h1 => absurd h1 h

/-- A writer fills the pipe and closes its end, a reader drains it and sees the end. -/
theorem pipe_is_fifo_drained : ∃ s, run step (created false)
      [.openEnd .rd, .openEnd .wr, .write 0 [7, 8, 9], .writeFlags 0, .writePass 0, .closeEnd .wr,
        .read 1 2, .readPass 1, .read 1 2, .readPass 1, .read 1 2, .readPass 1] = some s ∧
    s.delivered = [7, 8, 9] ∧ s.log.map (·.value) = [0, 1, 2, 3] ∧ s.Fifo := by
  refine exists_of_check (p := fun s => s.delivered = [7, 8, 9] ∧ s.log.map (·.value) = [0, 1, 2, 3])
    (by decide +kernel) fun s hs ⟨hdel, hlog⟩ => ⟨hdel, hlog, ?_⟩
  exact pipe_is_fifo (MeetsAll.mono (by decide +kernel) fun s e (h : Open s e) => h.clean) hs

/-- Both ends are closed while a read sleeps: the read goes on in memory that
belongs to somebody else.  And an end that was opened twice takes the object
with it while the other end is open. -/
theorem released_too_early :
    (∃ s, run step (created false)
        [.openEnd .rd, .openEnd .wr, .read 0 8, .readPass 0, .closeEnd .rd, .closeEnd .wr,
          .reuse ⟨false, fun _ => 42, 0, 0, 1, false, 0, 0, 0⟩, .readWake 0 true, .readPass 0] = some s ∧
      s.accepted = [] ∧ s.delivered = [42] ∧ ¬s.Fifo) ∧
    ∃ s, run step (created false)
        [.openEnd .rd, .openEnd .rd, .openEnd .wr, .closeEnd .rd, .closeEnd .rd] = some s ∧
      s.released = true ∧ s.held .wr = 1 ∧ ¬s.Fifo := by
  refine ⟨exists_of_check (p := fun s => s.accepted = [] ∧ s.delivered = [42]) (by decide +kernel)
      fun s _ ⟨hacc, hdel⟩ => ⟨hacc, hdel, fun h => ?_⟩,
    exists_of_check (p := fun s => s.released = true ∧ s.held .wr = 1) (by decide +kernel)
      fun s _ ⟨hrel, hheld⟩ => ⟨hrel, hheld, fun h => ?_⟩⟩
  · have hstream := h.stream
    rw [hacc, hdel] at hstream
    exact absurd hstream (by decide)
  · have := (h.release.mp hrel).2.2
    omega

/-! ### Small writes -/

/-- POSIX's least `PIPE_BUF`. -/
def pipeBufMin : Nat := 512

/-- A write finds the ring full, or room for all that is still to write. -/
def RoomFor (p : Pipe) : PipeCall → Prop
  | .writing _ rest _ => p.len = pipeBufSize ∨ rest.length ≤ pipeBufSize - p.len
  | _ => True

/-- The passes of the write of `t` find the ring full or with room, and `t` begins no other write. -/
def Roomy (t : Nat) (s : PipeSys) : Event → Prop
  | .writePass u => u = t → RoomFor s.pipe (s.call t)
  | .write u _ => u ≠ t
  | _ => True

instance decidableRoomFor (p : Pipe) (c : PipeCall) : Decidable (RoomFor p c) := by
  cases c <;> unfold RoomFor <;> infer_instance

instance decidableRoomy (t : Nat) (s : PipeSys) (ev : Event) : Decidable (s.Roomy t ev) := by
  cases ev <;> unfold Roomy <;> infer_instance

/-- The write of `bs`, while it is not done, has not begun. -/
def Unbegun (bs : List UInt8) : PipeCall → Prop
  | .checked bs' => bs' = bs
  | .writing written rest _ | .writeAsleep written rest _ => written = 0 ∧ rest = bs
  | _ => True

/-- `p` is `s` after a pass of `t` that puts in all of `bs` and returns its length, or that puts in
nothing and sleeps or returns `-EAGAIN`, as it may block or not, because the ring is full, or returns
`-EPIPE` because no read end is open. -/
def AllOrNone (s p : PipeSys) (t : Nat) (bs : List UInt8) (nonblock : Bool) : Prop :=
  p.accepted = s.accepted ++ bs ∧ p.call t = .idle ∧ p.log.head?.map (·.value) = some (bs.length : Int) ∨
  p.accepted = s.accepted ∧
    (s.pipe.len = pipeBufSize ∧ nonblock = false ∧ p.call t = .writeAsleep 0 bs false ∨
      s.pipe.len = pipeBufSize ∧ nonblock = true ∧ p.call t = .idle ∧
        p.log.head?.map (·.value) = some pipeEagain ∨
      s.pipe.readOpen = 0 ∧ (s.released = false → s.held .rd = 0) ∧ p.call t = .idle ∧
        p.log.head?.map (·.value) = some pipeEpipe)

theorem writePass_room {p q : Pipe} {bs : List UInt8}
    (hroom : RoomFor p (.writing written rest nonblock))
    (hw : p.writePass rest nonblock = .wrote q bs) : bs = rest := by
  unfold Pipe.writePass at hw
  split_ifs at hw with hr hfull
  injection hw with hq hbs
  rw [← hbs]
  refine List.take_of_length_le ?_
  split_ifs
  · exact le_rfl
  · exact hroom.resolve_left hfull

/-- **A pass of a small write.** -/
theorem onWrite_small (hcount : s.Counted) (hsmall : rest.length ≤ pipeBufMin)
    (hroom : RoomFor s.pipe (.writing 0 rest nonblock)) :
    s.AllOrNone (s.onWrite t 0 rest nonblock) t rest nonblock := by
  unfold onWrite
  split
  · next hp =>
    have hread := Pipe.writePass_epipe hp
    exact Or.inr ⟨rfl, Or.inr (Or.inr ⟨hread, fun hr => (hcount.counts hr .rd).symm.trans hread,
      update_self .., rfl⟩)⟩
  · next hp =>
    obtain ⟨hfull, hnb⟩ := Pipe.writePass_again hp
    exact Or.inr ⟨rfl, Or.inr (Or.inl ⟨hfull, hnb, update_self .., rfl⟩)⟩
  · next hp =>
    obtain ⟨hfull, rfl⟩ := Pipe.writePass_sleep hp
    exact Or.inr ⟨rfl, Or.inl ⟨hfull, rfl, update_self ..⟩⟩
  · next p bs hp =>
    obtain rfl := writePass_room hroom hp
    rw [List.drop_length, if_pos rfl, Nat.zero_add]
    refine Or.inl ⟨rfl, update_self .., congrArg some (if_pos ?_)⟩
    simp only [pipeBufMin] at hsmall
    omega

/-- The call of `u` moves on to `c`. -/
theorem unbegun_update {bs : List UInt8} {u : Nat} (h : Unbegun bs (s.call t))
    (hcall : s'.call = update s.call u c) (hc : u = t → Unbegun bs c) : Unbegun bs (s'.call t) := by
  rw [hcall]
  by_cases hu : t = u
  · subst hu
    rw [update_self]
    exact hc rfl
  · rwa [update_of_ne hu]

theorem unbegun_step {bs : List UInt8} (h : Unbegun bs (s.call t)) (hroom : s.Roomy t ev)
    (hs : s.step ev = some s') : Unbegun bs (s'.call t) := by
  cases ev <;> simp only [PipeSys.step] at hs
  case openEnd e | closeEnd e | dropEnd e =>
    split_ifs at hs
    obtain rfl := Option.some.inj hs
    simp only [pipeNodeOpen, pipeNodeClose]
    split_ifs <;> exact h
  case setNonblock | reuse =>
    split_ifs at hs <;> obtain rfl := Option.some.inj hs <;> exact h
  case read u _ =>
    split_ifs at hs <;> obtain rfl := Option.some.inj hs <;> exact unbegun_update h rfl fun _ => trivial
  case write u _ =>
    split_ifs at hs <;> obtain rfl := Option.some.inj hs <;>
      exact unbegun_update h rfl fun hu => absurd hu hroom
  case readPass u =>
    split at hs
    · obtain rfl := Option.some.inj hs
      unfold onRead
      split <;> exact unbegun_update h rfl fun _ => trivial
    · cases hs
  case readWake u ok =>
    split at hs
    · obtain rfl := Option.some.inj hs
      split_ifs <;> exact unbegun_update h rfl fun _ => trivial
    · cases hs
  case writeFlags u =>
    split at hs
    · next bs' hcall =>
      obtain rfl := Option.some.inj hs
      refine unbegun_update h rfl fun hu => ⟨rfl, ?_⟩
      subst hu
      rwa [hcall] at h
    · cases hs
  case writePass u =>
    split at hs
    · next written rest nonblock hcall =>
      obtain rfl := Option.some.inj hs
      have hw : u = t → Unbegun bs (.writing written rest nonblock) := fun hu => by
        subst hu
        rwa [hcall] at h
      have hroom : u = t → RoomFor s.pipe (.writing written rest nonblock) := fun hu => by
        have hroom := hroom hu
        rwa [← hu, hcall] at hroom
      unfold onWrite
      split
      · exact unbegun_update h rfl fun _ => trivial
      · exact unbegun_update h rfl fun _ => trivial
      · exact unbegun_update h rfl hw
      · next p bs' hp =>
        dsimp only
        split_ifs with hdone
        · exact unbegun_update h rfl fun _ => trivial
        -- the write has room, so nothing is left of it
        · refine unbegun_update h rfl fun hu => absurd ?_ hdone
          rw [writePass_room (hroom hu) hp, List.drop_length]
    · cases hs
  case writeWake u ok =>
    split at hs
    · next written rest nonblock hcall =>
      obtain rfl := Option.some.inj hs
      split_ifs
      · refine unbegun_update h rfl fun hu => ?_
        subst hu
        rwa [hcall] at h
      · exact unbegun_update h rfl fun _ => trivial
    · cases hs

/-- **Small writes are atomic** where their passes find the ring full or room for everything, whatever
the other writes find: while the write is not done, none of its bytes has entered the stream, and a pass
puts in all of them, or none. -/
theorem small_writes_whole {nonblock nb : Bool} {es₀ es : List Event} {s₀ : PipeSys} {written : Nat}
    {bs rest : List UInt8} (hrun₀ : run step (created nonblock) es₀ = some s₀)
    (hwrite : s₀.call t = .checked bs) (hsmall : bs.length ≤ pipeBufMin)
    (hroom : MeetsAll step (Roomy t) s₀ es) (hrun : run step s₀ es = some s)
    (hcall : s.call t = .writing written rest nb) (hpass : s.Roomy t (.writePass t)) :
    written = 0 ∧ rest = bs ∧ ∃ s', s.step (.writePass t) = some s' ∧ s.AllOrNone s' t bs nb := by
  have hcount : s.Counted := by
    have hall : run step (created nonblock) (es₀ ++ es) = some s := by
      rw [run_append, hrun₀]
      exact hrun
    exact run_invariant (fun h _ hs => h.step hs) (counted_created nonblock) (meetsAll_true _ _) hall
  have h := run_invariant (P := fun s => Unbegun bs (s.call t)) unbegun_step
    (by rw [hwrite]; rfl) hroom hrun
  have hpass := hpass rfl
  rw [hcall] at h hpass
  obtain ⟨rfl, rfl⟩ := h
  exact ⟨rfl, rfl, _, by rw [step, hcall], onWrite_small hcount hsmall hpass⟩

/-- Two writers: one fills the ring but for a byte, and its next write is torn; the other begins. -/
def twoWriters : List Event :=
  [.openEnd .rd, .openEnd .wr, .write 1 (List.replicate 4095 0), .writeFlags 1, .writePass 1,
    .write 1 [4, 5], .writeFlags 1, .writePass 1, .write 0 [7, 8]]

/-- The second write finds the ring full and sleeps until a reader has made room. -/
def secondWrite : List Event := [.writeFlags 0, .writePass 0, .read 2 3, .readPass 2, .writeWake 0 true]

/-- It gets to the ring before the rest of the torn write. -/
theorem small_writes_whole_two : ∃ s₀, run step (created false) twoWriters = some s₀ ∧
    ∃ s, run step s₀ secondWrite = some s ∧ ∃ s', s.step (.writePass 0) = some s' ∧
      s'.accepted.drop 4095 = [4, 7, 8] ∧ s.AllOrNone s' 0 [7, 8] false := by
  refine exists_of_check
    (p := fun s₀ => (s₀.call 0 = .checked [7, 8] ∧ MeetsAll step (Roomy 0) s₀ secondWrite) ∧
      (run step s₀ secondWrite).any (fun s => decide ((s.call 0 = .writing 0 [7, 8] false ∧
        s.Roomy 0 (.writePass 0)) ∧
        (s.step (.writePass 0)).any (fun s' => decide (s'.accepted.drop 4095 = [4, 7, 8])) = true)) = true)
    (by decide +kernel) fun s₀ hrun₀ ⟨⟨hwrite, hroom⟩, hcheck⟩ => exists_of_check hcheck
      fun s hrun ⟨⟨hcall, hpass⟩, hcheck⟩ => exists_of_check hcheck fun s' hs' hacc => ⟨hacc, ?_⟩
  obtain ⟨-, -, s'', hs'', h⟩ := small_writes_whole hrun₀ hwrite (by decide) hroom hrun hcall hpass
  obtain rfl := Option.some.inj (hs'.symm.trans hs'')
  exact h

/-- A ring with one free byte, and a task that writes two. -/
def twoIntoOne : List Event :=
  [.openEnd .rd, .openEnd .wr, .write 0 (List.replicate 4095 0), .writeFlags 0, .writePass 0, .write 1 [1, 2],
    .writeFlags 1, .writePass 1]

/-- **A small write is torn**: the bytes of another come between its own, or it returns short. -/
theorem small_write_torn :
    (∃ s, run step (created false) (twoIntoOne ++
        [.read 0 2, .readPass 0, .write 2 [3], .writeFlags 2, .writePass 2, .writePass 1]) = some s ∧
      s.accepted.drop 4095 = [1, 3, 2]) ∧
    ∃ s, run step (created true) (twoIntoOne ++ [.writePass 1]) = some s ∧
      s.accepted.drop 4095 = [1] ∧ s.log.head?.map (·.value) = some 1 := by
  constructor <;> exact exists_of_check (by decide +kernel) fun s _ h => h

end PipeSys

end CactKernel
