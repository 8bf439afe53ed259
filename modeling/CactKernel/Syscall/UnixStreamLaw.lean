/-
CactKernel/Syscall/UnixStreamLaw.lean

A connected pair of AF_UNIX sockets is two streams of bytes.

`TwoStreams` says what holds between two sections: in each direction the bytes
received are a prefix of the bytes accepted, a reader was told the end of the
stream and a writer `-EPIPE` only for their reasons, and a section leaves the
direction it does not work on alone.  It is not an invariant of the code as it
stands:

  * `shutdown(SHUT_RD)` sets `peer_no_read` at the peer, and a writer looks for
    `peer_no_read` at the peer as well: an endpoint that shuts down reading can
    no longer write;
  * `recvmsg` returns 0 when another reader was faster, or when it was woken by
    descriptors for which the caller has no room, and it loses the bytes it
    took when they cannot be copied out;
  * a call keeps no reference to the peer it loaded, nor to its own endpoint,
    so that a close frees them under it; and the closes of both endpoints, if
    they overlap, take each other's last reference.

`Clean` excludes these.  **Main result** `unix_streams`.
-/
import CactKernel.Syscall.UnixStream

namespace CactKernel

open Function Runs

/-! ### The ring of an endpoint -/

namespace UnixEp

variable {ep ep' : UnixEp}

/-- The bytes in the ring, oldest first. -/
def contents (ep : UnixEp) : List UInt8 := Ring.window unixBufSize ep.rx ep.rxOff ep.rxLen

structure Sound (ep : UnixEp) : Prop where
  off_lt : ep.rxOff < unixBufSize
  len_le : ep.rxLen ≤ unixBufSize

/-- Nothing but the ring differs. -/
structure Keeps (ep ep' : UnixEp) : Prop where
  used : ep'.used = ep.used
  shutRd : ep'.shutRd = ep.shutRd
  shutWr : ep'.shutWr = ep.shutWr
  eof : ep'.eof = ep.eof
  peerNoRead : ep'.peerNoRead = ep.peerNoRead
  peer : ep'.peer = ep.peer
  refs : ep'.refs = ep.refs

theorem contents_length : ep.contents.length = ep.rxLen := Ring.window_length

/-- **A push** puts its bytes behind those in the ring. -/
theorem push_spec (src : List UInt8) (h : ep.Sound) (hfit : ep.rxLen + src.length ≤ unixBufSize) :
    (ep.push src).Sound ∧ (ep.push src).contents = ep.contents ++ src ∧ ep.Keeps (ep.push src) := by
  induction src generalizing ep with
  | nil => exact ⟨h, (List.append_nil _).symm, rfl, rfl, rfl, rfl, rfl, rfl, rfl⟩
  | cons c src ih =>
    rw [List.length_cons] at hfit
    -- the endpoint after the first byte
    let ep₁ : UnixEp :=
      { ep with
        rx := update ep.rx ((ep.rxOff + ep.rxLen) % unixBufSize) c
        rxLen := ep.rxLen + 1 }
    have hone : ep₁.contents = ep.contents ++ [c] := Ring.window_update (by omega)
    obtain ⟨hs, hc, hk⟩ := @ih ep₁ ⟨h.off_lt, by show ep.rxLen + 1 ≤ _; omega⟩
      (by show ep.rxLen + 1 + _ ≤ _; omega)
    refine ⟨hs, ?_, hk.used, hk.shutRd, hk.shutWr, hk.eof, hk.peerNoRead, hk.peer, hk.refs⟩
    show (ep₁.push src).contents = _
    rw [hc, hone, List.append_assoc, List.singleton_append]

theorem push_flags (src : List UInt8) :
    (ep.push src).shutWr = ep.shutWr ∧ (ep.push src).peerNoRead = ep.peerNoRead := by
  induction src generalizing ep with
  | nil => exact ⟨rfl, rfl⟩
  | cons c src ih => exact ih

/-- The loop of `ep_pop` reads a window. -/
theorem popLoop_eq {rx : Nat → UInt8} (n : Nat) {off : Nat} (hoff : off < unixBufSize) :
    popLoop rx n off = (Ring.window unixBufSize rx off n, (off + n) % unixBufSize) := by
  induction n generalizing off with
  | zero => exact Prod.ext rfl (Nat.mod_eq_of_lt hoff).symm
  | succ n ih =>
    rw [popLoop, ih (Nat.mod_lt _ unixBufSize_pos), Ring.window_cons hoff, Nat.mod_add_mod, Nat.add_assoc,
      Nat.add_comm 1]

/-- **A pop** takes a part of the ring from its front. -/
theorem pop_spec (max : Nat) (h : ep.Sound) :
    (ep.pop max).2.Sound ∧ ep.contents = (ep.pop max).1 ++ (ep.pop max).2.contents ∧
      (ep.pop max).1.length = min ep.rxLen max ∧ ep.Keeps (ep.pop max).2 := by
  unfold pop
  dsimp only
  rw [popLoop_eq _ h.off_lt]
  generalize hn : min ep.rxLen max = n
  have hle : n ≤ ep.rxLen := by omega
  have hlen := h.len_le
  refine ⟨⟨?_, by show ep.rxLen - n ≤ _; omega⟩, ?_, Ring.window_length, rfl, rfl, rfl, rfl, rfl, rfl, rfl⟩
  · split_ifs
    · exact unixBufSize_pos
    · exact Nat.mod_lt _ unixBufSize_pos
  · show Ring.window _ _ _ _ = _ ++ Ring.window _ _ _ _
    by_cases hall : ep.rxLen - n = 0
    · rw [hall, Ring.window_zero, List.append_nil, show n = ep.rxLen by omega]
    · rw [if_neg hall, ← Ring.take_window hle, ← Ring.drop_window hle, List.take_append_drop]

end UnixEp

/-! ### What the calls may return -/

/-- The reader is at the end: everything was read and the other side writes no more, or it
shut down reading itself. -/
def UnixNow.Ended (n : UnixNow) : Prop :=
  n.selfRd = true ∨ n.unread = 0 ∧ (n.peerWr = true ∨ n.peerClosed = true)

/-- Nobody will read what is written, or the writer said that it writes no more. -/
def UnixNow.Broken (n : UnixNow) : Prop := n.selfWr = true ∨ n.peerRd = true ∨ n.peerClosed = true

/-- The call told its caller the end of the stream. -/
def UnixReturn.Eof (r : UnixReturn) : Prop :=
  r.value = 0 ∧
    match r.op with
    | .read => True
    | .write => False
    | .recv cap fds => 0 < cap ∧ fds = 0

structure UnixReturn.Honest (r : UnixReturn) : Prop where
  eof : r.Eof → r.now.Ended
  epipe : r.op = .write → r.value = pipeEpipe → r.now.Broken

namespace UnixSide

@[simp] theorem other_other (x : UnixSide) : x.other.other = x := by
  cases x <;> rfl

@[simp] theorem other_ne (x : UnixSide) : x.other ≠ x := by
  cases x <;> decide

theorem eq_or_other (x y : UnixSide) : y = x ∨ y = x.other := by
  cases x <;> cases y <;> decide

end UnixSide

namespace PairSys

variable {s s' : PairSys} {t : Nat} {x : UnixSide} {now : UnixNow} {v : Int}

/-- A direction as its two users see it. -/
structure StreamView where
  accepted : List UInt8
  delivered : List UInt8
  waiting : List UInt8
  readShut : Bool
  writeShut : Bool
  /-- The reader is told the end. -/
  ended : Bool
  /-- The writer is told that nobody reads. -/
  unread : Bool

/-- The direction into `x`; `peer_no_read` is a flag of its writer. -/
def view (s : PairSys) (x : UnixSide) : StreamView where
  accepted := s.accepted x
  delivered := s.delivered x
  waiting := (s.ep x).contents
  readShut := (s.ep x).shutRd
  writeShut := (s.ep x.other).shutWr
  ended := (s.ep x).eof
  unread := (s.ep x.other).peerNoRead

end PairSys

/-- The directions a section of a call works on. -/
def UnixCall.worksOn : UnixCall → List UnixSide
  | .idle => []
  | .reading x _ | .waiting x _ _ | .taking x _ _ | .installing x _ _ _ _ _ | .shutReader x _ => [x]
  | .writing x _ _ _ | .pushing x _ _ _ | .sending x _ _ | .shutNext x | .shutWriter x => [x.other]

/-- The call is one of endpoint `x`, or has loaded a pointer to it. -/
def UnixCall.Uses : UnixCall → UnixSide → Prop
  | .idle, _ => False
  | .reading y _, x | .writing y _ _ _, x | .waiting y _ _, x | .taking y _ _, x
  | .installing y _ _ _ _ _, x | .shutNext y, x => y = x
  | .pushing _ _ _ _, _ | .sending _ _ _, _ | .shutReader _ _, _ | .shutWriter _, _ => True

instance decidableUnixUses (c : UnixCall) (x : UnixSide) : Decidable (c.Uses x) := by
  cases c <;> unfold UnixCall.Uses <;> infer_instance

namespace PairSys

variable {s s' : PairSys} {t written max : Nat} {x y : UnixSide} {now : UnixNow} {v : Int}
  {c : UnixCall} {op : UnixOp} {signal fault msg : Bool} {f : UnixEp → UnixEp}
  {cap fdsCap freeSlots : Nat} {chunk rest : List UInt8} {e : Event} {ep' : UnixEp}

/-- The directions an event works on.  A close ends both, and with the memory of an endpoint
the direction into it and the flags of the other one are gone. -/
def worksOn (s : PairSys) : Event → List UnixSide
  | .setNonblock _ _ => []
  | .read _ x _ | .recvmsg _ x _ _ => [x]
  | .write _ x _ | .sendmsg _ x _ _ => [x.other]
  | .shutdown _ x how => if how = .wr then [x.other] else [x]
  | .close _ | .closeOn _ | .reuse _ _ => [.a, .b]
  | .go t _ _ _ => (s.call t).worksOn

/-- What a pair of sockets has to be. -/
structure TwoStreams (s : PairSys) : Prop where
  stream : ∀ x, s.delivered x <+: s.accepted x
  returns : ∀ r ∈ s.log, r.Honest
  apart : ∀ e s', s.step e = some s' → ∀ x ∉ s.worksOn e, s'.view x = s.view x

/-- The conditions under which the code keeps `TwoStreams`. -/
def Clean (s : PairSys) : Event → Prop
  | .go t _ fault freeSlots =>
    match s.call t with
    -- who shut down reading writes only where it would fail anyway
    | .pushing x _ _ _ =>
      (s.ep x).shutRd = true → (s.ep x).shutWr = true ∨ (s.ep x.other).shutRd = true
    -- the bytes can be copied out
    | .taking _ _ _ => fault = false
    -- a `recvmsg` that found neither bytes nor the end has a descriptor to return
    | .installing x got cap fdsCap ended _ =>
      got = 0 → 0 < cap → ended = false →
        0 < fdsCap ∧ 0 < (s.ep x).fdq.length ∧ 0 < freeSlots
    | _ => True
  -- no call is made on the endpoint, and the other one is not about to tell it of its own close
  | .close x => (∀ t ∈ s.tasks, ¬(s.call t).Uses x) ∧
    (s.closing x.other = .none ∨ s.closing x.other = .dropping)
  -- no call has the endpoint that is freed
  | .closeOn x => s.closing x = .dropping → ∀ t ∈ s.tasks, ¬(s.call t).Uses x
  | _ => True

instance decidablePairClean (s : PairSys) (e : Event) : Decidable (s.Clean e) := by
  cases e
  case go t sig fault free =>
    unfold Clean
    dsimp only
    split <;> infer_instance
  all_goals
    unfold Clean
    infer_instance

/-! ### The invariant -/

/-- What holds of an endpoint that is not freed. -/
structure Good (s : PairSys) (x : UnixSide) : Prop where
  used : (s.ep x).used = true
  refs : (s.ep x).refs = if (s.ep x).peer then 2 else 1
  alone : (s.ep x).peer = false → s.closed x = true ∨ s.closed x.other = true
  eof : (s.ep x).eof = true → (s.ep x.other).shutWr = true ∨ s.closed x.other = true
  noRead : (s.ep x).peerNoRead = true → (s.ep x.other).shutRd = true ∨ s.closed x.other = true
  sound : (s.ep x).Sound
  queued : s.accepted x = s.delivered x ++ (s.ep x).contents

/-- What holds of a call between two of its sections. -/
def Fits (s : PairSys) : UnixCall → Prop
  | .idle => True
  | .reading x size => s.closed x = false ∧ 0 < size
  | .writing x written rest _ => s.closed x = false ∧ written + rest.length < kernelBase
  | .pushing x written rest _ =>
    s.closed x = false ∧ s.freed x.other = false ∧ written + rest.length < kernelBase
  | .sending x _ bs => s.closed x = false ∧ bs.length < kernelBase
  | .waiting x _ _ | .taking x _ _ | .shutNext x => s.closed x = false
  | .installing x got cap _ ended now =>
    s.closed x = false ∧ (got = 0 → 0 < cap → ended = true → now.Ended)
  | .shutReader x _ => s.closed x = false ∧ (s.ep x).shutRd = true
  | .shutWriter x => s.closed x = false ∧ (s.ep x).shutWr = true

/-- The link as the close of `x` finds it. -/
structure Link (s : PairSys) (x : UnixSide) (own other : Bool) : Prop where
  closed : s.closed x = true
  live : s.freed x = false
  own : (s.ep x).peer = own
  other : s.closed x.other = false → (s.ep x.other).peer = other

/-- What holds of a close between two of its sections. -/
def Closing (s : PairSys) (x : UnixSide) : UnixClosing → Prop
  | .none => s.closed x = true → s.freed x = true
  | .breaking => s.Link x true true ∧ s.closed x.other = false
  | .telling dead => dead = false ∧ s.Link x false true ∧ s.closed x.other = false
  | .dropping => s.Link x false false

/-- Each of two open endpoints has the other one as its peer; an endpoint that is closed has none when
its close has told the other one. -/
structure Inv (s : PairSys) : Prop where
  good : ∀ x, s.freed x = false → s.Good x
  gone : ∀ x, s.freed x = true → s.closed x = true ∧ (s.closed x.other = false → (s.ep x.other).peer = false)
  closing : ∀ x, s.Closing x (s.closing x)
  stream : ∀ x, s.delivered x <+: s.accepted x
  fits : ∀ t, s.Fits (s.call t)
  idle : ∀ t ∉ s.tasks, s.call t = .idle
  returns : ∀ r ∈ s.log, r.Honest

theorem created_inv : created.Inv where
  good _ _ :=
    { used := rfl
      refs := rfl
      alone := nofun
      eof := nofun
      noRead := nofun
      sound := ⟨unixBufSize_pos, Nat.zero_le _⟩
      queued := rfl }
  gone := nofun
  closing _ := nofun
  stream _ := List.prefix_refl _
  fits _ := trivial
  idle _ _ := rfl
  returns := nofun

/-- An endpoint that does not change is as good as it was, if the other one has not taken back what it
said. -/
theorem Good.keep (h : s.Good y) (hself : s'.ep y = s.ep y)
    (hclosed : ∀ z, s.closed z = true → s'.closed z = true)
    (hother : s'.closed y.other = true ∨ ((s.ep y.other).shutRd = true → (s'.ep y.other).shutRd = true) ∧
      ((s.ep y.other).shutWr = true → (s'.ep y.other).shutWr = true))
    (hacc : s'.accepted y = s.accepted y) (hdel : s'.delivered y = s.delivered y) : s'.Good y where
  used := by rw [hself]; exact h.used
  refs := by rw [hself]; exact h.refs
  alone hp := (h.alone (hself ▸ hp)).imp (hclosed _) (hclosed _)
  eof he := hother.elim .inr fun ho => (h.eof (hself ▸ he)).imp ho.2 (hclosed _)
  noRead hn := hother.elim .inr fun ho => (h.noRead (hself ▸ hn)).imp ho.1 (hclosed _)
  sound := by rw [hself]; exact h.sound
  queued := by rw [hself, hacc, hdel]; exact h.queued

/-- A close in progress looks at the peer pointers of endpoints that are not freed. -/
theorem Closing.congr {c : UnixClosing} (h : s.Closing x c) (hclosed : s'.closed = s.closed)
    (hfreed : s'.freed x = s.freed x) (hown : s.freed x = false → (s'.ep x).peer = (s.ep x).peer)
    (hother : s.closed x.other = false → (s'.ep x.other).peer = (s.ep x.other).peer) : s'.Closing x c := by
  have hlink : ∀ {own other}, s.Link x own other → s'.Link x own other := fun hl =>
    { closed := by rw [hclosed]; exact hl.closed
      live := hfreed.trans hl.live
      own := (hown hl.live).trans hl.own
      other := fun ho => by
        rw [hclosed] at ho
        exact (hother ho).trans (hl.other ho) }
  cases c
  case none => exact fun hx => hfreed.trans (h (hclosed ▸ hx))
  case breaking => exact ⟨hlink h.1, hclosed ▸ h.2⟩
  case telling dead => exact ⟨h.1, hlink h.2.1, hclosed ▸ h.2.2⟩
  case dropping => exact hlink h

section

variable (h : s.Inv)
include h

theorem Inv.live (hx : s.closed x = false) : s.freed x = false :=
  Bool.eq_false_iff.mpr fun hf => absurd ((h.gone x hf).1.symm.trans hx) (by decide)

/-- A peer pointer of an open endpoint is good. -/
theorem Inv.peer_live (hx : s.closed x = false) (hp : (s.ep x).peer = true) : s.freed x.other = false :=
  Bool.eq_false_iff.mpr fun hf => by
    have hnone := (h.gone _ hf).2
    rw [UnixSide.other_other] at hnone
    exact absurd (hp.symm.trans (hnone hx)) (by decide)

theorem Inv.peer_closed (hx : s.closed x = false) (hp : (s.ep x).peer = false) : s.closed x.other = true :=
  ((h.good x (h.live hx)).alone hp).resolve_left (by simp [hx])

/-- An open endpoint is not being closed. -/
theorem Inv.not_closing (hx : s.closed x = false) : s.closing x = .none := by
  have hc := h.closing x
  cases hph : s.closing x <;> rw [hph] at hc
  case breaking => exact absurd (hc.1.closed.symm.trans hx) (by decide)
  case telling => exact absurd (hc.2.1.closed.symm.trans hx) (by decide)
  case dropping => exact absurd (hc.closed.symm.trans hx) (by decide)

end

theorem Inv.setCall (h : s.Inv) (hc : s.Fits c) : (s.setCall t c).Inv where
  good x hx := { h.good x hx with }
  gone := h.gone
  closing x := (h.closing x).congr rfl rfl (fun _ => rfl) fun _ => rfl
  stream := h.stream
  fits := (forall_update_iff s.call fun _ c => s.Fits c).mpr ⟨hc, fun t' _ => h.fits t'⟩
  idle t' ht := by
    have hne : t' ≠ t := fun heq => ht (heq ▸ List.mem_cons_self)
    show update s.call t c t' = _
    rw [update_of_ne hne]
    exact h.idle t' fun hmem => ht (List.mem_cons_of_mem _ hmem)
  returns := h.returns

theorem Inv.retAs (h : s.Inv) (hr : (⟨x, op, v, now⟩ : UnixReturn).Honest) :
    (s.retAs t x op v now).Inv :=
  have h' := h.setCall (c := .idle) trivial
  { h' with
    good := fun x hx => { h'.good x hx with }
    closing := fun x => (h'.closing x).congr rfl rfl (fun _ => rfl) fun _ => rfl
    returns := List.forall_mem_cons.mpr ⟨hr, h.returns⟩ }

/-- A call fits a state in which the flags it was let in by are still set. -/
theorem Fits.mono (h : s.Fits c) (hclosed : s'.closed = s.closed) (hfreed : s'.freed = s.freed)
    (hrd : ∀ x, (s.ep x).shutRd = true → (s'.ep x).shutRd = true)
    (hwr : ∀ x, (s.ep x).shutWr = true → (s'.ep x).shutWr = true) : s'.Fits c := by
  cases c
  case shutReader x more => exact ⟨hclosed ▸ h.1, hrd x h.2⟩
  case shutWriter x => exact ⟨hclosed ▸ h.1, hwr x h.2⟩
  case pushing x written rest msg => exact ⟨hclosed ▸ h.1, hfreed ▸ h.2.1, h.2.2⟩
  all_goals
    unfold Fits at h ⊢
    rwa [hclosed]

/-- An endpoint changes: there is a reason for each flag that is set, and the records keep up
with the ring. -/
theorem Inv.change {acc del : UnixSide → List UInt8} (h : s.Inv) (hused : ep'.used = (s.ep x).used)
    (hpeer : ep'.peer = (s.ep x).peer) (hrefs : ep'.refs = (s.ep x).refs)
    (hrd : (s.ep x).shutRd = true → ep'.shutRd = true)
    (hwr : (s.ep x).shutWr = true → ep'.shutWr = true)
    (heof : ep'.eof = true → (s.ep x).eof = true ∨ (s.ep x.other).shutWr = true)
    (hno : ep'.peerNoRead = true → (s.ep x).peerNoRead = true ∨ (s.ep x.other).shutRd = true)
    (hring : s.Good x → ep'.Sound ∧ acc x = del x ++ ep'.contents) (hstream : del x <+: acc x)
    (hacc : acc x.other = s.accepted x.other) (hdel : del x.other = s.delivered x.other) :
    { s with ep := update s.ep x ep', accepted := acc, delivered := del }.Inv := by
  set s' : PairSys := { s with ep := update s.ep x ep', accepted := acc, delivered := del }
  have hself : s'.ep x = ep' := update_self ..
  have hother : s'.ep x.other = s.ep x.other := update_of_ne x.other_ne ..
  -- a flag that is set stays set; the links do not move
  have hmono : ∀ y, ((s.ep y).shutRd = true → (s'.ep y).shutRd = true) ∧
      ((s.ep y).shutWr = true → (s'.ep y).shutWr = true) := by
    intro y
    rcases x.eq_or_other y with rfl | rfl
    · rw [hself]
      exact ⟨hrd, hwr⟩
    · rw [hother]
      exact ⟨id, id⟩
  have hpeers : ∀ y, (s'.ep y).peer = (s.ep y).peer := by
    intro y
    rcases x.eq_or_other y with rfl | rfl
    · rw [hself, hpeer]
    · rw [hother]
  refine
    { h with
      good := fun y hy => ?_
      gone := fun y hy => ⟨(h.gone y hy).1, fun ho => (hpeers _).trans ((h.gone y hy).2 ho)⟩
      closing := fun y => (h.closing y).congr rfl rfl (fun _ => hpeers y) fun _ => hpeers _
      stream := fun y => ?_
      fits := fun t => (h.fits t).mono rfl rfl (fun y => (hmono y).1) fun y => (hmono y).2 }
  · have hg := h.good y hy
    rcases x.eq_or_other y with rfl | rfl
    · obtain ⟨hsound, hq⟩ := hring hg
      exact
        { used := by rw [hself, hused]; exact hg.used
          refs := by rw [hself, hpeer, hrefs]; exact hg.refs
          alone := fun hp => hg.alone ((hpeers _).symm.trans hp)
          eof := fun he => by
            rw [hself] at he
            rw [hother]
            exact (heof he).elim hg.eof Or.inl
          noRead := fun hn => by
            rw [hself] at hn
            rw [hother]
            exact (hno hn).elim hg.noRead Or.inl
          sound := by rw [hself]; exact hsound
          queued := by rw [hself]; exact hq }
    · exact hg.keep hother (fun _ hz => hz) (.inr (hmono _)) hacc hdel
  · rcases x.eq_or_other y with rfl | rfl
    · exact hstream
    · show del x.other <+: acc x.other
      rw [hacc, hdel]
      exact h.stream _

/-- Only flags of an endpoint change. -/
theorem Inv.setFlags (h : s.Inv) (hused : (f (s.ep x)).used = (s.ep x).used)
    (hpeer : (f (s.ep x)).peer = (s.ep x).peer) (hrefs : (f (s.ep x)).refs = (s.ep x).refs)
    (hring : (f (s.ep x)).rx = (s.ep x).rx ∧ (f (s.ep x)).rxLen = (s.ep x).rxLen ∧
      (f (s.ep x)).rxOff = (s.ep x).rxOff)
    (hrd : (s.ep x).shutRd = true → (f (s.ep x)).shutRd = true)
    (hwr : (s.ep x).shutWr = true → (f (s.ep x)).shutWr = true)
    (heof : (f (s.ep x)).eof = true → (s.ep x).eof = true ∨ (s.ep x.other).shutWr = true)
    (hno : (f (s.ep x)).peerNoRead = true → (s.ep x).peerNoRead = true ∨ (s.ep x.other).shutRd = true) :
    (s.setEp x f).Inv := by
  obtain ⟨hrx, hlen, hoff⟩ := hring
  refine h.change hused hpeer hrefs hrd hwr heof hno (fun hg => ⟨⟨?_, ?_⟩, ?_⟩) (h.stream x) rfl rfl
  · exact hoff ▸ hg.sound.off_lt
  · exact hlen ▸ hg.sound.len_le
  · rw [UnixEp.contents, hrx, hlen, hoff]
    exact hg.queued

/-- Only the ring of an endpoint changes. -/
theorem Inv.setRing {acc del : UnixSide → List UInt8} (h : s.Inv) (hkeep : (s.ep x).Keeps ep')
    (hsound : ep'.Sound) (hq : acc x = del x ++ ep'.contents)
    (hacc : acc x.other = s.accepted x.other) (hdel : del x.other = s.delivered x.other) :
    { s with ep := update s.ep x ep', accepted := acc, delivered := del }.Inv :=
  h.change hkeep.used hkeep.peer hkeep.refs (fun hr => hkeep.shutRd.trans hr) (fun hw => hkeep.shutWr.trans hw)
    (fun he => Or.inl (hkeep.eof ▸ he)) (fun hn => Or.inl (hkeep.peerNoRead ▸ hn))
    (fun _ => ⟨hsound, hq⟩) ⟨_, hq.symm⟩ hacc hdel

/-! ### The sections -/

theorem whole_ne_epipe {n : Nat} (hn : n < kernelBase) : whole n msg ≠ pipeEpipe := by
  unfold whole
  split_ifs
  · exact PipeSys.toI32_ne hn
  · decide
  · unfold pipeEpipe
    omega

/-- A write that does not fail with `-EPIPE` has nothing to answer for. -/
theorem honest_write (hv : v ≠ pipeEpipe) : (⟨x, .write, v, now⟩ : UnixReturn).Honest :=
  ⟨fun he => he.2.elim, fun _ hv' => absurd hv' hv⟩

/-- Nor has one that fails for a reason. -/
theorem honest_broken (hn : now.Broken) : (⟨x, .write, v, now⟩ : UnixReturn).Honest :=
  ⟨fun he => he.2.elim, fun _ _ => hn⟩

/-- A read returns an error, or bytes. -/
theorem honest_nonzero (hop : op ≠ .write) (hv : v ≠ 0) : (⟨x, op, v, now⟩ : UnixReturn).Honest :=
  ⟨fun he => absurd he.1 hv, fun h => absurd h hop⟩

theorem honest_ended (hop : op ≠ .write) (hn : now.Ended) : (⟨x, op, v, now⟩ : UnixReturn).Honest :=
  ⟨fun _ => hn, fun h => absurd h hop⟩

section

variable (h : s.Inv)
include h

/-- A stream whose ring is empty and whose writer is gone is at its end. -/
theorem Inv.ended (hx : s.closed x = false) (hempty : (s.ep x).rxLen = 0)
    (heof : (s.ep x).eof = true) : (s.now x).Ended := by
  have hg := h.good x (h.live hx)
  have hnil : (s.ep x).contents = [] :=
    List.eq_nil_of_length_eq_zero (UnixEp.contents_length.trans hempty)
  refine Or.inr ⟨?_, hg.eof heof⟩
  show (s.accepted x).length - (s.delivered x).length = 0
  rw [hg.queued, hnil, List.append_nil, Nat.sub_self]

theorem Inv.take (hx : s.closed x = false) : (s.take x max).Inv := by
  have hg := h.good x (h.live hx)
  obtain ⟨hs, hc, -, hk⟩ := UnixEp.pop_spec max hg.sound
  refine h.setRing hk hs ?_ rfl (update_of_ne x.other_ne ..)
  rw [update_self, List.append_assoc, ← hc]
  exact hg.queued

theorem Inv.put (hx : s.freed x.other = false)
    (hfit : (s.ep x.other).rxLen + chunk.length ≤ unixBufSize) : (s.put x chunk).Inv := by
  have hg := h.good x.other hx
  obtain ⟨hs, hc, hk⟩ := UnixEp.push_spec chunk hg.sound hfit
  refine h.setRing hk hs ?_ (update_of_ne (x.other).other_ne ..) rfl
  show update s.accepted x.other _ x.other = s.delivered x.other ++ _
  rw [update_self, hc, hg.queued, List.append_assoc]

theorem Inv.onRead {size : Nat} (hx : s.closed x = false)
    (hsize : 0 < size) : (s.onRead t x size signal fault).Inv := by
  have hg := h.good x (h.live hx)
  unfold PairSys.onRead
  dsimp only
  split_ifs with hrd hlen heof hnb hsig hf
  · exact h.retAs (honest_ended nofun (Or.inl hrd))
  · have := (UnixEp.pop_spec size hg.sound).2.2.1
    exact (h.take hx).retAs (honest_nonzero nofun (by omega))
  · exact h.retAs (honest_ended nofun (h.ended hx (by omega) heof))
  · exact h.retAs (honest_nonzero nofun (by decide))
  · exact h.retAs (honest_nonzero nofun (by decide))
  · exact h.retAs (honest_nonzero nofun (by decide))
  · exact h.setCall ⟨hx, hsize⟩

theorem Inv.onLook (hx : s.closed x = false)
    (hfit : written + rest.length < kernelBase) : (s.onLook t x written rest msg).Inv := by
  unfold PairSys.onLook
  split_ifs with hwr hpeer
  · rw [Bool.and_eq_true] at hwr
    exact h.retAs (honest_broken (Or.inl hwr.2))
  · exact h.setCall ⟨hx, h.peer_live hx hpeer, hfit⟩
  · exact h.retAs (honest_broken (Or.inr (Or.inr (h.peer_closed hx (Bool.eq_false_iff.mpr hpeer)))))

/-- Under the lock of the peer a write fails only if the peer does not read, as long as the
writer did not shut down reading. -/
theorem Inv.onPush (hfits : s.Fits (.pushing x written rest msg))
    (hc : (s.ep x).shutRd = true → (s.ep x).shutWr = true ∨ (s.ep x.other).shutRd = true) :
    (s.onPush t x written rest msg signal fault).Inv := by
  obtain ⟨hx, ho, hfit⟩ := hfits
  have hg := h.good x.other ho
  have hnoRead := hg.noRead
  rw [UnixSide.other_other] at hnoRead
  unfold PairSys.onPush
  dsimp only
  split_ifs with hdead hfull hnb hsig hf hall hshort hf
  · refine h.retAs (honest_broken ?_)
    simp only [hg.used, Bool.not_true, Bool.false_or, Bool.or_eq_true] at hdead
    rcases hdead with hno | hrd
    · -- the flag the code looks at is the one the writer set itself
      rcases hnoRead hno with hself | hclosed
      · exact (hc hself).imp id Or.inl
      · exact absurd hclosed (by simp [hx])
    · exact Or.inr (Or.inl hrd)
  · exact h.retAs (honest_write (PipeSys.short_ne (by omega) (by decide)))
  · exact h.retAs (honest_write (PipeSys.short_ne (by omega) (by decide)))
  · exact h.retAs (honest_write (PipeSys.short_ne (by omega) (by decide)))
  · exact h.setCall ⟨hx, hfit⟩
  all_goals
    have hlen : (rest.take (unixBufSize - (s.ep x.other).rxLen)).length ≤ rest.length :=
      List.length_take_le' ..
    have hput : (s.put x (rest.take (unixBufSize - (s.ep x.other).rxLen))).Inv := by
      refine h.put ho ?_
      rw [List.length_take]
      omega
  · exact hput.retAs (honest_write (whole_ne_epipe (by omega)))
  · exact hput.retAs (honest_write (PipeSys.toI32_ne (by omega)))
  · exact hput.retAs (honest_write (PipeSys.short_ne (by omega) (by decide)))
  · refine hput.setCall ⟨hx, ?_⟩
    rw [List.length_drop]
    omega

theorem Inv.setFdq {f : List Nat → List Nat} :
    (s.setEp x fun ep => { ep with fdq := f ep.fdq }).Inv :=
  h.setFlags rfl rfl rfl ⟨rfl, rfl, rfl⟩ id id Or.inl Or.inl

section

variable (hx : s.closed x = false)
include hx

theorem Inv.onSend {fds : List Nat} {bs : List UInt8}
    (hfit : bs.length < kernelBase) : (s.onSend t x fds bs fault).Inv := by
  have hset := h.setFdq (x := x.other) (f := (· ++ fds))
  unfold PairSys.onSend
  split_ifs with hfull hnil
  · exact h.retAs (honest_write (by decide))
  · exact hset.retAs (honest_write (by decide))
  · exact hset.retAs (honest_write (by decide))
  · exact hset.setCall ⟨hx, by omega⟩

theorem Inv.onWait : (s.onWait t x cap fdsCap signal).Inv := by
  unfold PairSys.onWait
  split_ifs
  · exact h.setCall hx
  · exact h.retAs (honest_nonzero nofun (by decide))
  · exact h.setCall hx

theorem Inv.onTake : (s.onTake t x cap fdsCap false).Inv := by
  unfold PairSys.onTake
  dsimp only
  by_cases hrd : (s.ep x).shutRd = true
  · rw [if_pos hrd]
    exact h.setCall ⟨hx, fun _ _ _ => Or.inl hrd⟩
  split_ifs with hpos hfault
  · cases hfault
  · exact (h.take hx).setCall ⟨hx, fun hzero => by omega⟩
  · refine h.setCall ⟨hx, fun hzero hcap hended => ?_⟩
    rw [Bool.or_eq_true] at hended
    exact h.ended hx (by omega) (hended.resolve_right hrd)

end

theorem Inv.onInstall {got : Nat} {ended : Bool}
    (hfits : s.Fits (.installing x got cap fdsCap ended now))
    (hc : got = 0 → 0 < cap → ended = false →
      0 < fdsCap ∧ 0 < (s.ep x).fdq.length ∧ 0 < freeSlots) :
    (s.onInstall t x got cap fdsCap now freeSlots fault).Inv := by
  refine h.setFdq.retAs ⟨fun he => ?_, nofun⟩
  obtain ⟨hval, hcap, hnone⟩ := he
  have hgot : got = 0 := by
    have hval : (if fault then -14 else (got : Int)) = 0 := hval
    split_ifs at hval
    omega
  cases hend : ended with
  | true => exact hfits.2 hgot hcap hend
  | false =>
    obtain ⟨h₁, h₂, h₃⟩ := hc hgot hcap hend
    omega

theorem Inv.onShutWrite (hx : s.closed x = false) : (s.onShutWrite t x).Inv := by
  have hset : (s.setEp x fun ep => { ep with shutWr := true }).Inv :=
    h.setFlags rfl rfl rfl ⟨rfl, rfl, rfl⟩ id (fun _ => rfl) Or.inl Or.inl
  unfold PairSys.onShutWrite
  split_ifs with hpeer
  · exact hset.setCall ⟨hx, by simp [setEp]⟩
  · exact hset.setCall trivial

theorem Inv.onShutdown {how : ShutHow} (hx : s.closed x = false) :
    (s.onShutdown t x how).Inv := by
  have hset : (s.setEp x fun ep => { ep with shutRd := true }).Inv :=
    h.setFlags rfl rfl rfl ⟨rfl, rfl, rfl⟩ (fun _ => rfl) id Or.inl Or.inl
  unfold PairSys.onShutdown
  dsimp only
  split_ifs with hwr hpeer
  · exact h.onShutWrite hx
  · exact hset.setCall ⟨hx, by simp [setEp]⟩
  · exact hset.setCall hx
  · exact hset.setCall trivial

end

/-! ### The close -/

/-- A call that does not use the endpoint survives the sections of its close. -/
theorem Fits.close (h : s.Fits c) (hc : ¬c.Uses x) (hclosed : ∀ y ≠ x, s'.closed y = s.closed y) :
    s'.Fits c := by
  cases c <;> unfold UnixCall.Uses at hc <;> unfold Fits at h ⊢
  case idle => trivial
  case reading | writing | installing => exact ⟨(hclosed _ hc).trans h.1, h.2⟩
  case waiting | taking | shutNext => exact (hclosed _ hc).trans h
  all_goals exact absurd trivial hc

section

variable (h : s.Inv)
include h

theorem Inv.not_uses (hc : ∀ t ∈ s.tasks, ¬(s.call t).Uses x) (t : Nat) : ¬(s.call t).Uses x := by
  by_cases hmem : t ∈ s.tasks
  · exact hc t hmem
  · rw [h.idle t hmem]
    exact id

/-- **The close begins.**  If the endpoint has a peer, the peer is open and has it. -/
theorem Inv.onClose (hx : s.closed x = false) (hc : ∀ t ∈ s.tasks, ¬(s.call t).Uses x)
    (ho : s.closing x.other = .none ∨ s.closing x.other = .dropping) : (s.onClose x).Inv := by
  have hcl := h.closing x.other
  have hclosed : ∀ y ≠ x, (s.onClose x).closed y = s.closed y := fun y hy => update_of_ne hy ..
  have hgone : (s.onClose x).closed x = true := update_self ..
  have hmono : ∀ z, s.closed z = true → (s.onClose x).closed z = true := fun z hz => by
    rcases eq_or_ne z x with rfl | hne
    · exact hgone
    · exact (hclosed z hne).trans hz
  -- an endpoint that still names its peer cannot outlive it
  have hpeer : (s.ep x).peer = true → s.closed x.other = false := fun hp => by
    refine Bool.eq_false_iff.mpr fun hox => ?_
    rcases ho with ho | ho <;> rw [ho] at hcl
    · exact absurd ((h.peer_live hx hp).symm.trans (hcl hox)) (by decide)
    · have hown := hcl.other
      rw [UnixSide.other_other] at hown
      exact absurd (hp.symm.trans (hown hx)) (by decide)
  refine
    { good := fun y hy => (h.good y hy).keep rfl hmono (.inr ⟨id, id⟩) rfl rfl
      gone := fun y hy => ⟨hmono y (h.gone y hy).1, fun hyo => (h.gone y hy).2 ?_⟩
      closing := fun y => ?_
      stream := h.stream
      fits := fun t => (h.fits t).close (h.not_uses hc t) hclosed
      idle := h.idle
      returns := h.returns }
  · exact Bool.eq_false_iff.mpr fun hz => absurd ((hmono _ hz).symm.trans hyo) (by decide)
  rcases x.eq_or_other y with rfl | rfl
  · rw [show (s.onClose y).closing y = _ from update_self ..]
    -- with a peer the close goes on to break the link, without one to the last reference
    by_cases hp : (s.ep y).peer = true
    · have hopen := hpeer hp
      rw [if_pos hp]
      refine ⟨⟨hgone, h.live hx, hp, fun _ => ?_⟩, (hclosed _ y.other_ne).trans hopen⟩
      refine Bool.of_not_eq_false fun hnone => ?_
      have := h.peer_closed hopen hnone
      rw [UnixSide.other_other, hx] at this
      cases this
    · have hp := Bool.eq_false_iff.mpr hp
      rw [if_neg (by simp [hp])]
      refine ⟨hgone, h.live hx, hp, fun hopen => ?_⟩
      rw [hclosed _ y.other_ne, h.peer_closed hx hp] at hopen
      cases hopen
  · rw [show (s.onClose x).closing x.other = s.closing x.other from update_of_ne x.other_ne ..]
    rcases ho with ho | ho <;> rw [ho] at hcl ⊢
    · exact fun hz => hcl ((hclosed _ x.other_ne).symm.trans hz)
    · refine { hcl with closed := (hclosed _ x.other_ne).trans hcl.closed, other := fun hz => ?_ }
      rw [UnixSide.other_other, hgone] at hz
      cases hz

/-- An endpoint loses its peer while `x` is being closed. -/
theorem Inv.unlink {z : UnixSide} {c : UnixClosing} (hx : s.closed x = true) (hlive : s.freed x = false)
    (hopen : s.closed x.other = false)
    (hep : ep' = { s.ep z with peer := false, refs := 1, eof := ep'.eof, peerNoRead := ep'.peerNoRead })
    (heof : ep'.eof = true → (s.ep z).eof = true ∨ s.closed z.other = true)
    (hno : ep'.peerNoRead = true → (s.ep z).peerNoRead = true ∨ s.closed z.other = true)
    (hc : Closing { s with ep := update s.ep z ep', closing := update s.closing x c } x c) :
    { s with ep := update s.ep z ep', closing := update s.closing x c }.Inv := by
  set s' : PairSys := { s with ep := update s.ep z ep', closing := update s.closing x c }
  have hself : s'.ep z = ep' := update_self ..
  have hother : s'.ep z.other = s.ep z.other := update_of_ne z.other_ne ..
  have hflags : ∀ y, (s'.ep y).shutRd = (s.ep y).shutRd ∧ (s'.ep y).shutWr = (s.ep y).shutWr := by
    intro y
    rcases z.eq_or_other y with rfl | rfl
    · rw [hself, hep]
      exact ⟨rfl, rfl⟩
    · rw [hother]
      exact ⟨rfl, rfl⟩
  -- nothing is freed while a side is open and the other is still closing
  have hnotFreed : ∀ y, s.freed y = false := fun y => by
    rcases x.eq_or_other y with rfl | rfl
    · exact hlive
    · exact h.live hopen
  refine
    { h with
      good := fun y hy => ?_
      gone := fun y hy => absurd ((hnotFreed y).symm.trans hy) (by decide)
      closing := fun y => ?_
      fits := fun t => (h.fits t).mono rfl rfl (fun y hy => (hflags y).1.trans hy)
        fun y hy => (hflags y).2.trans hy }
  · have hg := h.good y hy
    rcases z.eq_or_other y with rfl | rfl
    · have hclosed : s.closed y = true ∨ s.closed y.other = true := by
        rcases y.eq_or_other x with rfl | rfl
        · exact .inl hx
        · exact .inr hx
      have hcontents : ep'.contents = (s.ep y).contents := by rw [hep]; rfl
      exact
        { used := by rw [hself, hep]; exact hg.used
          refs := by rw [hself, hep]; rfl
          alone := fun _ => hclosed
          eof := fun he => (heof (hself ▸ he)).elim (fun he => (hflags _).2.symm ▸ hg.eof he) .inr
          noRead := fun hn => (hno (hself ▸ hn)).elim (fun hn => (hflags _).1.symm ▸ hg.noRead hn) .inr
          sound := by rw [hself, hep]; exact ⟨hg.sound.1, hg.sound.2⟩
          queued := by rw [hself, hcontents]; exact hg.queued }
    · exact hg.keep hother (fun _ hz => hz)
        (.inr ⟨fun hz => (hflags _).1.trans hz, fun hz => (hflags _).2.trans hz⟩) rfl rfl
  · rcases x.eq_or_other y with rfl | rfl
    · rw [show s'.closing y = c from update_self ..]
      exact hc
    · rw [show s'.closing x.other = s.closing x.other from update_of_ne x.other_ne .., h.not_closing hopen]
      exact fun hz => absurd (hopen.symm.trans hz) (by decide)

/-- The endpoint lets go of its peer. -/
theorem Inv.onBreak (hph : s.closing x = .breaking) : (s.onBreak x).Inv := by
  have hcl := h.closing x
  rw [hph] at hcl
  obtain ⟨hl, hopen⟩ := hcl
  have hrefs : (s.ep x).refs = 2 := by rw [(h.good x hl.live).refs, if_pos hl.own]
  have hs : s.onBreak x = { s with
      ep := update s.ep x { s.ep x with peer := false, refs := 1 }
      closing := update s.closing x (.telling false) } := by
    simp [PairSys.onBreak, hl.own, hrefs, setEp, setClosing]
  rw [hs]
  refine h.unlink hl.closed hl.live hopen rfl .inl .inl ⟨rfl, ⟨hl.closed, hl.live, ?_, fun ho => ?_⟩, hopen⟩
  · exact congrArg UnixEp.peer (update_self (f := s.ep) ..)
  · exact (congrArg UnixEp.peer (update_of_ne x.other_ne ..)).trans (hl.other ho)

/-- The peer is told. -/
theorem Inv.onTell {dead : Bool} (hph : s.closing x = .telling dead) : (s.onTell x dead).Inv := by
  have hcl := h.closing x
  rw [hph] at hcl
  obtain ⟨rfl, hl, hopen⟩ := hcl
  have hrefs : (s.ep x.other).refs = 2 := by
    rw [(h.good _ (h.live hopen)).refs, if_pos (hl.other hopen)]
  have hs : s.onTell x false = { s with
      ep := update s.ep x.other { s.ep x.other with peer := false, eof := true, peerNoRead := true, refs := 1 }
      closing := update s.closing x .dropping } := by
    simp [PairSys.onTell, hrefs, setEp, setClosing]
  have hclosed : s.closed x.other.other = true := by
    rw [UnixSide.other_other]
    exact hl.closed
  rw [hs]
  refine h.unlink hl.closed hl.live hopen rfl (fun _ => .inr hclosed) (fun _ => .inr hclosed)
    ⟨hl.closed, hl.live, ?_, fun _ => ?_⟩
  · exact (congrArg UnixEp.peer (update_of_ne x.other_ne.symm ..)).trans hl.own
  · exact congrArg UnixEp.peer (update_self (f := s.ep) ..)

/-- The endpoint is freed. -/
theorem Inv.onDrop (hph : s.closing x = .dropping) (hc : ∀ t ∈ s.tasks, ¬(s.call t).Uses x) :
    (s.onDrop x).Inv := by
  have hl := h.closing x
  rw [hph] at hl
  have hg := h.good x hl.live
  -- with the link gone one reference is left, and dropping it frees
  have hrefs : (s.ep x).refs = 1 := by rw [hg.refs, hl.own]; rfl
  set s' : PairSys := { s with
    ep := update s.ep x { s.ep x with refs := 0, used := false }
    closing := update s.closing x .none
    freed := update s.freed x true }
  have hs : s.onDrop x = s' := by
    simp [PairSys.onDrop, setEp, hrefs, destroy, hg.used, setClosing, s']
  rw [hs]
  have hother : s'.ep x.other = s.ep x.other := update_of_ne x.other_ne ..
  have hfreed : s'.freed x.other = s.freed x.other := update_of_ne x.other_ne ..
  have hclosed : s.closed x.other.other = true := by
    rw [UnixSide.other_other]
    exact hl.closed
  have hnot : ∀ {P : Prop}, s.closed x.other.other = false → P := fun ho =>
    absurd (hclosed.symm.trans ho) (by decide)
  refine
    { h with
      good := fun y hy => ?_
      gone := fun y hy => ?_
      closing := fun y => ?_
      fits := fun t => (h.fits t).close (h.not_uses hc t) fun _ _ => rfl }
  · rcases x.eq_or_other y with rfl | rfl
    · exact absurd ((update_self ..).symm.trans hy) (by decide)
    · exact (h.good _ (hfreed.symm.trans hy)).keep hother (fun _ hz => hz) (.inl hclosed) rfl rfl
  · rcases x.eq_or_other y with rfl | rfl
    · exact ⟨hl.closed, fun ho => by rw [hother]; exact hl.other ho⟩
    · exact ⟨(h.gone _ (hfreed.symm.trans hy)).1, hnot⟩
  · rcases x.eq_or_other y with rfl | rfl
    · rw [show s'.closing y = .none from update_self ..]
      exact fun _ => update_self ..
    · rw [show s'.closing x.other = s.closing x.other from update_of_ne x.other_ne ..]
      exact (h.closing _).congr rfl hfreed (fun _ => by rw [hother]) hnot

/-- Nothing that is said of a freed endpoint looks at its memory. -/
theorem Inv.reuse {ep : UnixEp} (hx : s.freed x = true) : { s with ep := update s.ep x ep }.Inv := by
  have hep : ∀ y, s.freed y = false → update s.ep x ep y = s.ep y := by
    intro y hy
    refine update_of_ne (fun heq => ?_) ..
    rw [heq, hx] at hy
    cases hy
  have hopen : ∀ y, s.closed y = false → update s.ep x ep y = s.ep y := fun y hy => hep y (h.live hy)
  refine
    { h with
      good := fun y hy => ?_
      gone := fun y hy => ⟨(h.gone y hy).1, fun ho => ?_⟩
      closing := fun y => (h.closing y).congr rfl rfl (fun hy => congrArg UnixEp.peer (hep y hy))
        fun hy => congrArg UnixEp.peer (hopen _ hy)
      fits := fun t => ?_ }
  · have hgone : s.closed y.other = true := by
      rcases x.eq_or_other y with rfl | rfl
      · exact absurd (hx.symm.trans hy) (by decide)
      · rw [UnixSide.other_other]
        exact (h.gone x hx).1
    exact (h.good y hy).keep (hep y hy) (fun _ hz => hz) (.inl hgone) rfl rfl
  · exact (congrArg UnixEp.peer (hopen _ ho)).trans ((h.gone y hy).2 ho)
  · have hfits := h.fits t
    cases hcall : s.call t <;> rw [hcall] at hfits
    case shutReader y more => exact ⟨hfits.1, (congrArg UnixEp.shutRd (hopen y hfits.1)).trans hfits.2⟩
    case shutWriter y => exact ⟨hfits.1, (congrArg UnixEp.shutWr (hopen y hfits.1)).trans hfits.2⟩
    all_goals exact hfits

end

/-- **One section** keeps the invariant. -/
theorem Inv.onGo (h : s.Inv) (hcall : s.call t = c) (hc : s.Clean (.go t signal fault freeSlots))
    (hs : s.onGo t signal fault freeSlots c = some s') : s'.Inv := by
  have hfits : s.Fits c := hcall ▸ h.fits t
  simp only [Clean, hcall] at hc
  cases c <;> cases hs
  case reading x size => exact h.onRead hfits.1 hfits.2
  case writing x written rest msg => exact h.onLook hfits.1 hfits.2
  case pushing x written rest msg => exact h.onPush hfits hc
  case sending x fds bs => exact h.onSend hfits.1 hfits.2
  case waiting x cap fdsCap => exact h.onWait hfits
  case taking x cap fdsCap =>
    obtain rfl : fault = false := hc
    exact h.onTake hfits
  case installing x got cap fdsCap ended now => exact h.onInstall hfits hc
  case shutReader x more =>
    refine Inv.setCall ?_ ?_
    · refine h.setFlags rfl rfl rfl ⟨rfl, rfl, rfl⟩ id id Or.inl fun _ => Or.inr ?_
      rw [UnixSide.other_other]
      exact hfits.2
    · split_ifs
      · exact hfits.1
      · trivial
  case shutNext x => exact h.onShutWrite hfits
  case shutWriter x =>
    refine Inv.setCall ?_ trivial
    refine h.setFlags rfl rfl rfl ⟨rfl, rfl, rfl⟩ id id (fun _ => Or.inr ?_) Or.inl
    rw [UnixSide.other_other]
    exact hfits.2

theorem Inv.step (h : s.Inv) (hc : s.Clean e) (hs : s.step e = some s') : s'.Inv := by
  cases e <;> simp only [PairSys.step, Option.ite_none_right_eq_some, Option.ite_none_left_eq_some,
    Option.some.injEq] at hs
  case setNonblock x on_ =>
    obtain ⟨-, rfl⟩ := hs
    exact h.setFlags rfl rfl rfl ⟨rfl, rfl, rfl⟩ id id Or.inl Or.inl
  case read t x size =>
    obtain ⟨⟨hmay, hpos, -⟩, rfl⟩ := hs
    exact h.setCall ⟨hmay.2, hpos⟩
  case write t x bs =>
    obtain ⟨⟨hmay, -, hfit⟩, rfl⟩ := hs
    exact h.setCall ⟨hmay.2, by omega⟩
  case sendmsg t x fds bs =>
    obtain ⟨⟨hmay, -, hfit⟩, rfl⟩ := hs
    split_ifs with hp
    · exact h.setCall ⟨hmay.2, hfit⟩
    · exact h.retAs (honest_broken (Or.inr (Or.inr (h.peer_closed hmay.2 (Bool.eq_false_iff.mpr hp)))))
  case recvmsg t x cap fdsCap =>
    obtain ⟨⟨hmay, -⟩, rfl⟩ := hs
    exact h.setCall hmay.2
  case shutdown t x how =>
    obtain ⟨hmay, rfl⟩ := hs
    exact h.onShutdown hmay.2
  case close x =>
    obtain ⟨hx, rfl⟩ := hs
    exact h.onClose (by simpa using hx) hc.1 hc.2
  case closeOn x =>
    cases hph : s.closing x <;> rw [hph] at hs <;> cases hs
    · exact h.onBreak hph
    · exact h.onTell hph
    · exact h.onDrop hph (hc hph)
  case go t signal fault freeSlots => exact h.onGo rfl hc hs
  case reuse x ep =>
    obtain ⟨hx, rfl⟩ := hs
    exact h.reuse hx

/-! ### The other direction -/

/-- Where a call stands and what it returns is no part of a direction. -/
theorem view_setCall (y : UnixSide) : (s.setCall t c).view y = s.view y := rfl

theorem view_ret (y : UnixSide) : (s.ret t x op v).view y = s.view y := rfl

/-- A change of an endpoint is one of the direction into it and of the flags of the writer in the
other one. -/
theorem view_setEp (hwr : (f (s.ep x)).shutWr = (s.ep x).shutWr ∧
      (f (s.ep x)).peerNoRead = (s.ep x).peerNoRead) :
    (s.setEp x f).view x.other = s.view x.other := by
  have hself : (s.setEp x f).ep x = f (s.ep x) := update_self ..
  have hother : (s.setEp x f).ep x.other = s.ep x.other := update_of_ne x.other_ne ..
  simp only [view, UnixSide.other_other, hself, hother, hwr]
  rfl

theorem view_setSelf (hcont : (f (s.ep x)).contents = (s.ep x).contents)
    (hrd : (f (s.ep x)).shutRd = (s.ep x).shutRd ∧ (f (s.ep x)).eof = (s.ep x).eof) :
    (s.setEp x f).view x = s.view x := by
  have hself : (s.setEp x f).ep x = f (s.ep x) := update_self ..
  have hother : (s.setEp x f).ep x.other = s.ep x.other := update_of_ne x.other_ne ..
  simp only [view, hself, hother, hcont, hrd]
  rfl

theorem view_take : (s.take x max).view x.other = s.view x.other := by
  have hset := view_setEp (s := s) (x := x) (f := fun ep => (ep.pop max).2) ⟨rfl, rfl⟩
  have hdel : (s.take x max).delivered x.other = s.delivered x.other := update_of_ne x.other_ne ..
  simp only [view, StreamView.mk.injEq] at hset ⊢
  exact ⟨rfl, hdel, hset.2.2⟩

theorem view_put : (s.put x chunk).view x = s.view x := by
  have hset := view_setEp (s := s) (x := x.other) (f := (·.push chunk)) (UnixEp.push_flags chunk)
  have hacc : (s.put x chunk).accepted x = s.accepted x := update_of_ne x.other_ne.symm ..
  rw [UnixSide.other_other] at hset
  simp only [view, StreamView.mk.injEq] at hset ⊢
  exact ⟨hacc, rfl, hset.2.2⟩

/-- A change of the peer leaves the direction into the endpoint alone. -/
theorem view_setPeer (hwr : ∀ ep, (f ep).shutWr = ep.shutWr ∧ (f ep).peerNoRead = ep.peerNoRead) :
    (s.setEp x.other f).view x = s.view x := by
  have hset := view_setEp (s := s) (x := x.other) (hwr _)
  rwa [UnixSide.other_other] at hset

theorem view_onShutWrite : (s.onShutWrite t x).view x = s.view x := by
  unfold onShutWrite
  split_ifs <;> rw [view_setCall, view_setSelf rfl ⟨rfl, rfl⟩]

/-- **A section** of a call leaves the direction it does not work on alone. -/
theorem view_onGo (hs : s.onGo t signal fault freeSlots c = some s')
    (hy : y ∉ c.worksOn) : s'.view y = s.view y := by
  cases c <;> cases hs <;> simp only [UnixCall.worksOn, List.mem_singleton] at hy
  case reading x size =>
    obtain rfl := (x.eq_or_other y).resolve_left hy
    unfold onRead
    dsimp only
    split_ifs <;> simp only [view_ret, view_setCall, view_take]
  case writing x written rest msg =>
    unfold onLook
    split_ifs <;> rfl
  case pushing x written rest msg =>
    obtain rfl := (x.eq_or_other y).resolve_right hy
    unfold onPush
    dsimp only
    split_ifs <;> simp only [view_ret, view_setCall, view_put]
  case sending x fds bs =>
    obtain rfl := (x.eq_or_other y).resolve_right hy
    unfold onSend
    have hset := view_setPeer (s := s) (x := y) (f := fun ep => { ep with fdq := ep.fdq ++ fds })
      fun _ => ⟨rfl, rfl⟩
    split_ifs <;> simp only [view_ret, view_setCall, hset]
  case waiting x cap fdsCap =>
    unfold onWait
    split_ifs <;> rfl
  case taking x cap fdsCap =>
    obtain rfl := (x.eq_or_other y).resolve_left hy
    unfold onTake
    dsimp only
    generalize (if (s.ep x).shutRd = true then 0 else min (s.ep x).rxLen cap) = got
    have hpop := view_setEp (s := s) (x := x) (f := fun ep => (ep.pop got).2) ⟨rfl, rfl⟩
    split_ifs <;> simp only [view_ret, view_setCall, view_take, hpop]
  case installing x got cap fdsCap ended now =>
    obtain rfl := (x.eq_or_other y).resolve_left hy
    exact view_setEp (s := s) (f := fun ep => { ep with fdq := ep.fdq.drop _ }) ⟨rfl, rfl⟩
  case shutReader x more =>
    obtain rfl := (x.eq_or_other y).resolve_left hy
    -- `peer_no_read` of the other endpoint is about what that one writes
    exact view_setSelf (s := s) (f := fun ep => { ep with peerNoRead := true }) rfl ⟨rfl, rfl⟩
  case shutNext x =>
    obtain rfl := (x.eq_or_other y).resolve_right hy
    exact view_onShutWrite
  case shutWriter x =>
    obtain rfl := (x.eq_or_other y).resolve_right hy
    exact view_setPeer (s := s) (f := fun ep => { ep with eof := true }) fun _ => ⟨rfl, rfl⟩

theorem view_step (hs : s.step e = some s') (hy : y ∉ s.worksOn e) : s'.view y = s.view y := by
  cases e <;> simp only [PairSys.step, Option.ite_none_right_eq_some, Option.ite_none_left_eq_some,
    Option.some.injEq] at hs
  case setNonblock x on_ =>
    obtain ⟨-, rfl⟩ := hs
    rcases x.eq_or_other y with rfl | rfl
    · exact view_setSelf rfl ⟨rfl, rfl⟩
    · exact view_setEp ⟨rfl, rfl⟩
  case read | write | recvmsg =>
    obtain ⟨-, rfl⟩ := hs
    rfl
  case sendmsg t x fds bs =>
    obtain ⟨-, rfl⟩ := hs
    split_ifs <;> rfl
  case shutdown t x how =>
    obtain ⟨-, rfl⟩ := hs
    unfold onShutdown
    dsimp only
    by_cases hw : how = .wr
    · rw [if_pos hw]
      simp only [worksOn, if_pos hw, List.mem_singleton] at hy
      obtain rfl := (x.eq_or_other y).resolve_right hy
      exact view_onShutWrite
    · simp only [worksOn, if_neg hw, List.mem_singleton] at hy
      obtain rfl := (x.eq_or_other y).resolve_left hy
      have hset := view_setEp (s := s) (x := x) (f := fun ep => { ep with shutRd := true }) ⟨rfl, rfl⟩
      split_ifs <;> rw [view_setCall, hset]
  case close x | closeOn x => cases y <;> simp [worksOn] at hy
  case go t signal fault freeSlots => exact view_onGo hs hy
  case reuse x ep => cases y <;> simp [worksOn] at hy

/-! ### Runs -/

/-- **Main result.**  In every run of a connected pair in which nobody writes on an endpoint that
it shut down for reading, no `recvmsg` fails to copy out or comes back with nothing, and
no call is in progress on what a close frees, nor the close of the other endpoint, the pair is
two streams of bytes in every state reached. -/
theorem unix_streams {es : List Event} {s : PairSys} (hclean : MeetsAll step Clean created es)
    (hrun : run step created es = some s) : s.TwoStreams :=
  have h : s.Inv := run_invariant Inv.step created_inv hclean hrun
  { h with
    apart := fun _ _ hs _ hy => view_step hs hy }

/-- Each side writes, one says that it writes no more and the other one reads to the end, while
it still writes back. -/
def halfClosed : List Event :=
  [.write 0 .a [7, 8], .go 0 false false 0, .go 0 false false 0, .shutdown 0 .a .wr,
    .go 0 false false 0, .read 1 .b 4, .go 1 false false 0, .read 1 .b 4, .go 1 false false 0,
    .sendmsg 1 .b [5] [9], .go 1 false false 0, .go 1 false false 0, .go 1 false false 0,
    .recvmsg 0 .a 4 1, .go 0 false false 0, .go 0 false false 0, .go 0 false false 3,
    .write 0 .a [1], .go 0 false false 0, .close .b, .closeOn .b, .closeOn .b, .closeOn .b,
    .read 0 .a 4, .go 0 false false 0]

/-- What a pair did: the bytes delivered and the values returned. -/
def outcome (s : PairSys) : List UInt8 × List UInt8 × List Int :=
  (s.delivered .a, s.delivered .b, s.log.map (·.value))

theorem unix_streams_halfClosed : ∃ s, run step created halfClosed = some s ∧
    s.outcome = ([9], [7, 8], [0, -32, 1, 1, 0, 2, 2]) ∧ s.TwoStreams := by
  refine exists_of_check (by decide +kernel)
    fun s hs hout => ⟨hout, ?_⟩
  exact unix_streams (by decide +kernel) hs

/-- An endpoint that shut down reading can no longer write, although its peer reads. -/
def readShut : List Event :=
  [.shutdown 0 .a .rd, .go 0 false false 0, .write 0 .a [7], .go 0 false false 0,
    .go 0 false false 0]

/-- A `recvmsg` that cannot copy out loses the byte. -/
def faulted : List Event :=
  [.write 0 .a [7], .go 0 false false 0, .go 0 false false 0, .recvmsg 1 .b 4 0,
    .go 1 false false 0, .go 1 false true 0, .write 0 .a [8], .go 0 false false 0,
    .go 0 false false 0, .read 1 .b 4, .go 1 false false 0]

/-- A `read` takes the byte that a `recvmsg` has already seen. -/
def overtaken : List Event :=
  [.write 0 .a [7], .go 0 false false 0, .go 0 false false 0, .recvmsg 1 .b 4 0,
    .go 1 false false 0, .read 2 .b 4, .go 2 false false 0, .go 1 false false 0,
    .go 1 false false 0]

/-- A `read` sleeps while its endpoint is closed, and goes on in memory that belongs to
somebody else. -/
def closedUnder : List Event :=
  [.read 1 .b 4, .go 1 false false 0, .close .b, .closeOn .b, .closeOn .b, .closeOn .b,
    .reuse .b { UnixEp.connected with rx := fun _ => 42, rxLen := 1 }, .go 1 false false 0]

theorem shutRead_stops_write :
    (∃ s, run step created readShut = some s ∧
      s.log = [⟨.a, .write, -32, ⟨0, true, false, false, false, false⟩⟩] ∧ ¬s.TwoStreams) ∧
    (∃ s, run step created faulted = some s ∧ s.accepted .b = [7, 8] ∧ s.delivered .b = [8] ∧
      ¬s.TwoStreams) ∧
    (∃ s, run step created overtaken = some s ∧
      s.log.head? = some ⟨.b, .recv 4 0, 0, ⟨0, false, false, false, false, false⟩⟩ ∧
      ¬s.TwoStreams) ∧
    ∃ s, run step created closedUnder = some s ∧ s.accepted .b = [] ∧ s.delivered .b = [42] ∧
      ¬s.TwoStreams := by
  refine ⟨exists_of_check
      (by decide +kernel) fun s _ hlog => ⟨hlog, fun h => ?_⟩,
    exists_of_check (p := fun s => s.accepted .b = [7, 8] ∧ s.delivered .b = [8]) (by decide +kernel)
      fun s _ ⟨hacc, hdel⟩ => ⟨hacc, hdel, fun h => ?_⟩,
    exists_of_check
      (by decide +kernel) fun s _ hhead => ⟨hhead, fun h => ?_⟩,
    exists_of_check (p := fun s => s.accepted .b = [] ∧ s.delivered .b = [42]) (by decide +kernel)
      fun s _ ⟨hacc, hdel⟩ => ⟨hacc, hdel, fun h => ?_⟩⟩
  · have hr := (h.returns _ (hlog ▸ List.mem_singleton_self _)).epipe rfl rfl
    simp [UnixNow.Broken] at hr
  · have hstream := h.stream .b
    rw [hacc, hdel] at hstream
    exact absurd hstream (by decide)
  · have hr := (h.returns _ (List.mem_of_head? hhead)).eof ⟨rfl, by decide, rfl⟩
    simp [UnixNow.Ended] at hr
  · have hstream := h.stream .b
    rw [hacc, hdel] at hstream
    exact absurd hstream (by decide)

end PairSys

end CactKernel
