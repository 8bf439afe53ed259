/-
CactKernel/Drivers/TtyLaw.lean

Canonical input and what readers get of it.

The committed bytes that the driver still holds (`Tty.held`: in the reader's
buffer, in the ring and on their way into the ring) are cut into lines by their
newlines, and the end-of-file flag can only stand behind all of them.  That is
all the driver knows, and it is enough (`canonical_input`) as long as every
line ends in a newline, nothing is committed behind a mark, the ring does not
overflow, no signal ends a read that has taken bytes, and no reader looks at the
flag when the ring has filled since it looked there.

Where one of these fails the driver departs from the editor: in `eof_mid_line_lost`
a line cut short by VEOF stays in the buffer of the waiting reader until a signal
throws it away, and a mark overtakes the line before it.
-/
import CactKernel.Drivers.Tty

namespace CactKernel

open Function Runs

/-! ### The reader of pieces -/

section Replay

variable {ps qs ps' : List TtyPiece} {rs rs' : List TtyRead} {n : Nat} {bs : List UInt8}

theorem serve_append (h : serve ps n = some (bs, ps')) : serve (ps ++ qs) n = some (bs, ps' ++ qs) := by
  cases n with
  | zero =>
    rw [serve, Option.some.injEq, Prod.mk.injEq] at h
    rw [serve, h.1, h.2]
  | succ n =>
    cases ps with
    | nil => cases h
    | cons p ps =>
      cases p with
      | eof =>
        obtain ⟨rfl, rfl⟩ := of_pair h
        rfl
      | line l =>
        obtain ⟨rfl, rfl⟩ := of_pair h
        rw [List.cons_append, serve]
        split_ifs <;> rfl

theorem replay_append : replay ps (rs ++ rs') = (replay ps rs).bind fun ps' => replay ps' rs' := by
  induction rs generalizing ps with
  | nil => rfl
  | cons r rs ih =>
    obtain ⟨n, _ | bs⟩ := r
    · exact ih
    · rw [List.cons_append, replay, replay]
      rcases serve ps n with - | ⟨bs', ps'⟩
      · rfl
      · dsimp only
        split_ifs
        · exact ih
        · rfl

/-- Pieces behind those that were read do not matter. -/
theorem replay_extend (h : replay ps rs = some ps') : replay (ps ++ qs) rs = some (ps' ++ qs) := by
  induction rs generalizing ps with
  | nil =>
    obtain rfl := Option.some.inj h
    rfl
  | cons r rs ih =>
    obtain ⟨n, _ | bs⟩ := r
    · exact ih h
    · rw [replay] at h ⊢
      rcases hs : serve ps n with - | ⟨bs', ps₁⟩
      · rw [hs] at h
        cases h
      · rw [hs] at h
        rw [serve_append hs]
        dsimp only at h ⊢
        split_ifs at h ⊢
        exact ih h

/-- One more read. -/
theorem replay_snoc (h : replay ps rs = some qs) (hserve : serve qs n = some (bs, ps')) :
    replay ps (rs ++ [⟨n, some bs⟩]) = some ps' := by
  rw [replay_append, h, Option.bind_some, replay, hserve]
  dsimp only
  rw [if_pos rfl, replay]

end Replay

/-! ### Lines -/

/-- A newline at the end and nowhere else. -/
def IsLine (l : List UInt8) : Prop := ∃ body, l = body ++ [ttyNewline] ∧ ttyNewline ∉ body

section Lines

variable {ls : List (List UInt8)} {g r t : List UInt8} {x : UInt8} {n : Nat} {ps : List TtyPiece}

/-- **The first line** goes on behind a beginning that has no newline. -/
theorem first_line (hls : ∀ l ∈ ls, IsLine l) (hflat : ls.flatten = g ++ x :: r)
    (hg : ttyNewline ∉ g) :
    ∃ t ls', ls = (g ++ x :: t) :: ls' ∧ t ++ ls'.flatten = r ∧
      (x = ttyNewline ∧ t = [] ∨ x ≠ ttyNewline ∧ IsLine t) := by
  cases ls with
  | nil => simp at hflat
  | cons l ls' =>
    obtain ⟨body, rfl, hbody⟩ := hls l (List.mem_cons_self ..)
    rw [List.flatten_cons, List.append_assoc] at hflat
    rcases List.append_eq_append_iff.mp hflat with ⟨a, rfl, ha⟩ | ⟨a, rfl, ha⟩ <;> cases a
    case inl.nil | inr.nil =>
      obtain ⟨rfl, rfl⟩ := List.cons.inj ha
      exact ⟨[], ls', by rw [List.append_nil], rfl, Or.inl ⟨rfl, rfl⟩⟩
    case inl.cons y a =>
      -- the beginning reaches the end of the line, so it is the whole of it
      obtain ⟨rfl, -⟩ := List.cons.inj ha
      simp at hg
    case inr.cons y a =>
      obtain ⟨rfl, rfl⟩ := List.cons.inj ha
      rw [List.mem_append, List.mem_cons] at hbody
      refine ⟨a ++ [ttyNewline], ls', by simp, by simp, Or.inr ⟨?_, a, rfl, ?_⟩⟩
      · exact fun heq => hbody (Or.inr (Or.inl heq.symm))
      · exact fun hmem => hbody (Or.inr (Or.inr hmem))

/-- Bytes without a newline are not a sequence of lines. -/
theorem lines_of_no_newline (hls : ∀ l ∈ ls, IsLine l) (hflat : ls.flatten = g)
    (hg : ttyNewline ∉ g) : ls = [] ∧ g = [] := by
  cases ls with
  | nil => exact ⟨rfl, hflat.symm⟩
  | cons l ls' =>
    obtain ⟨body, rfl, -⟩ := hls l (List.mem_cons_self ..)
    rw [← hflat] at hg
    simp at hg

/-- A read that stops behind `x`: at the end of the line, or because it is full. -/
theorem serve_line (hn : g.length + 1 ≤ n) (hstop : t = [] ∨ n = g.length + 1) :
    serve (.line (g ++ x :: t) :: ps) n =
      some (g ++ [x], if t = [] then ps else .line t :: ps) := by
  obtain ⟨k, rfl⟩ : ∃ k, n = k + 1 := ⟨n - 1, by omega⟩
  have hlen : (g ++ x :: t).length = g.length + 1 + t.length := by
    rw [List.length_append, List.length_cons]
    omega
  have hsplit : g ++ x :: t = (g ++ [x]) ++ t := by simp
  rw [serve, hlen]
  rcases hstop with rfl | hk
  · rw [if_pos rfl, if_neg (by simp; omega), List.take_of_length_le (by simp; omega)]
  · have hgx : (g ++ [x]).length = k + 1 := by simp [← hk]
    rw [hsplit, List.take_left' hgx, List.drop_left' hgx]
    by_cases ht : t = []
    · rw [if_pos ht, if_neg (by simp [ht]; omega)]
    · have := List.length_pos_iff.mpr ht
      rw [if_neg ht, if_pos (by omega)]

end Lines

namespace Tty

variable {s s' : Tty} {n : Nat} {g l : List UInt8} {c : UInt8} {signal : Bool}

/-! ### The ring -/

structure RingOk (s : Tty) : Prop where
  rd : s.inRd < ttyIbuf
  wr : s.inWr < ttyIbuf

theorem ring_eq_nil (h : RingOk s) : s.ring = [] ↔ s.inRd = s.inWr := Ring.window_eq_nil h.rd h.wr

/-- **A push** into a ring that is not full. -/
theorem ring_inPush (h : RingOk s) (hfull : (s.inWr + 1) % ttyIbuf ≠ s.inRd) :
    RingOk (s.inPush c) ∧ (s.inPush c).ring = s.ring ++ [c] := by
  unfold Tty.inPush
  rw [if_neg hfull]
  exact ⟨⟨h.rd, Nat.mod_lt _ ttyIbuf_pos⟩, Ring.window_push h.rd h.wr hfull⟩

/-- **The first byte** of a ring that is not empty. -/
theorem ring_take (h : RingOk s) (hne : s.inRd ≠ s.inWr) :
    s.ring = s.inBuf s.inRd :: { s with inRd := (s.inRd + 1) % ttyIbuf }.ring :=
  Ring.window_pop h.rd h.wr hne

/-! ### The invariant -/

/-- The pieces that the driver holds: lines, and the mark behind them. -/
def pending (s : Tty) (ls : List (List UInt8)) : List TtyPiece :=
  ls.map .line ++ if s.eofPending then [.eof] else []

structure Inv (s : Tty) : Prop where
  icanon : s.tio.icanon = true
  ring : RingOk s
  line : (edited s.tio s.typed).line = s.lineBuf
  plain : ttyNewline ∉ s.lineBuf
  reader : ∀ n g, s.reader = some (n, g) → g.length < n ∧ ttyNewline ∉ g
  mark : s.eofPending = true → s.pushing = []
  pieces : ∃ ls : List (List UInt8), (∀ l ∈ ls, IsLine l) ∧ ls.flatten = s.held ∧
    replay (edited s.tio s.typed).pieces s.reads = some (s.pending ls)

theorem Inv.start {tio : TtyTermios} (h : tio.icanon = true) (buf : Nat → UInt8) :
    Inv (Tty.start tio buf) where
  icanon := h
  ring := ⟨ttyIbuf_pos, ttyIbuf_pos⟩
  line := rfl
  plain := List.not_mem_nil
  reader := fun _ _ hr => by cases hr
  mark := fun _ => rfl
  pieces := by
    refine ⟨[], fun _ hl => (by cases hl), ?_, rfl⟩
    show [] = [] ++ (Tty.start tio buf).ring ++ []
    rw [(ring_eq_nil ⟨ttyIbuf_pos, ttyIbuf_pos⟩).mpr rfl]
    rfl

/-! ### Typing -/

theorem edited_snoc (t : TtyTermios) (cs : List UInt8) (c : UInt8) :
    edited t (cs ++ [c]) = (edited t cs).type t c := by
  unfold edited
  rw [List.foldl_append]
  rfl

/-- What the typist has to keep to. -/
def TypeOk (s : Tty) (c : UInt8) : Prop :=
  c ≠ 0 ∧ (s.tio.sigKey c ≠ none → s.fg = true) ∧
    (s.tio.sigKey c = none →
      match s.tio.editKey c with
      | .eof => s.lineBuf = [] ∧ s.eofPending = false
      | .newline => s.eofPending = false
      | .plain => s.lineBuf.length < ttyLineMax
      | _ => True)

instance decidableTypeOk (s : Tty) (c : UInt8) : Decidable (TypeOk s c) := by
  unfold TypeOk
  have : Decidable (match s.tio.editKey c with
      | .eof => s.lineBuf = [] ∧ s.eofPending = false
      | .newline => s.eofPending = false
      | .plain => s.lineBuf.length < ttyLineMax
      | _ => True) := by
    split <;> infer_instance
  infer_instance

/-- Only the line changes, in the driver as in the editor. -/
theorem Inv.setLine {g : List TtySignal} (h : Inv s) (hl : ttyNewline ∉ l)
    (hedit : (edited s.tio s.typed).type s.tio c = ⟨l, (edited s.tio s.typed).pieces⟩) :
    Inv { s with lineBuf := l, signals := g, typed := s.typed ++ [c] } :=
  { h with
    ring := ⟨h.ring.rd, h.ring.wr⟩
    line := by
      rw [edited_snoc, hedit]
    plain := hl
    pieces := by
      obtain ⟨ls, hls, hflat, hrep⟩ := h.pieces
      refine ⟨ls, hls, hflat, ?_⟩
      rw [edited_snoc, hedit]
      exact hrep }

theorem mem_of_mem_lineWerase (h : c ∈ lineWerase l) : c ∈ l := by
  unfold lineWerase at h
  rw [List.mem_reverse] at h
  exact List.mem_reverse.mp ((List.dropWhile_subset _) ((List.dropWhile_subset _) h))

theorem editKey_plain {t : TtyTermios} (h : t.editKey c = .plain) : c ≠ ttyNewline := by
  rintro rfl
  unfold TtyTermios.editKey at h
  split_ifs at h with _ hnl
  exact hnl (Or.inl rfl)

section

variable (h : Inv s)
include h

section

variable (hpush : s.pushing = [])
include hpush

/-- **A committed line** follows what is held already. -/
theorem Inv.newline (hmark : s.eofPending = false)
    (hsig : s.tio.sigKey c = none) (hkey : s.tio.editKey c = .newline) :
    Inv { s.lineCommit true with typed := s.typed ++ [c] } := by
  have hedit : (edited s.tio s.typed).type s.tio c =
      ⟨[], (edited s.tio s.typed).pieces ++ [.line (s.lineBuf ++ [ttyNewline])]⟩ := by
    unfold Edited.type
    rw [hsig]
    rw [hkey, h.line]
  obtain ⟨ls, hls, hflat, hrep⟩ := h.pieces
  exact
    { h with
      ring := ⟨h.ring.rd, h.ring.wr⟩
      line := by
        show (edited s.tio (s.typed ++ [c])).line = []
        rw [edited_snoc, hedit]
      plain := List.not_mem_nil
      mark := fun hno => absurd (hmark.symm.trans hno) Bool.false_ne_true
      pieces := by
        refine ⟨ls ++ [s.lineBuf ++ [ttyNewline]], List.forall_mem_append.mpr ⟨hls, ?_⟩, ?_, ?_⟩
        · exact List.forall_mem_singleton.mpr ⟨s.lineBuf, rfl, h.plain⟩
        · show _ = s.got ++ s.ring ++ (s.lineBuf ++ [ttyNewline])
          unfold Tty.held at hflat
          rw [List.flatten_append, hflat, hpush, List.append_nil, List.flatten_singleton]
        · show replay (edited s.tio (s.typed ++ [c])).pieces s.reads = _
          rw [edited_snoc, hedit]
          refine (replay_extend hrep).trans (congrArg some ?_)
          unfold pending
          show _ = _ ++ if s.eofPending = true then _ else _
          rw [hmark, if_neg Bool.false_ne_true, List.append_nil, List.append_nil, List.map_append]
          rfl }

/-- **A mark** follows what is held already. -/
theorem Inv.setMark (hmark : s.eofPending = false)
    (hline : s.lineBuf = []) (hsig : s.tio.sigKey c = none) (hkey : s.tio.editKey c = .eof) :
    Inv { s with eofPending := true, typed := s.typed ++ [c] } := by
  have hedit : (edited s.tio s.typed).type s.tio c =
      ⟨[], (edited s.tio s.typed).pieces ++ [.eof]⟩ := by
    unfold Edited.type
    rw [hsig]
    rw [hkey]
    rw [if_pos (h.line.trans hline), h.line, hline]
  obtain ⟨ls, hls, hflat, hrep⟩ := h.pieces
  exact
    { h with
      ring := ⟨h.ring.rd, h.ring.wr⟩
      line := by
        rw [edited_snoc, hedit, hline]
      mark := fun _ => hpush
      pieces := by
        refine ⟨ls, hls, hflat, ?_⟩
        rw [edited_snoc, hedit]
        refine (replay_extend hrep).trans (congrArg some ?_)
        unfold pending
        rw [hmark, if_neg Bool.false_ne_true, if_pos rfl, List.append_nil] }

theorem Inv.input (hok : TypeOk s c) :
    Inv { s.input c with typed := s.typed ++ [c] } := by
  obtain ⟨hc, hfg, hkey⟩ := hok
  unfold Tty.input
  rw [if_neg hc]
  rcases hsig : s.tio.sigKey c with - | g
  · rw [if_pos h.icanon]
    have hkey := hkey hsig
    unfold Tty.edit
    -- one case per editing key, in the order of `tty_input`
    rcases hk : s.tio.editKey c
    · rw [hk] at hkey
      rw [if_pos hkey.1]
      exact h.setMark hpush hkey.2 hkey.1 hsig hk
    · rw [hk] at hkey
      exact h.newline hpush hkey hsig hk
    · refine h.setLine (fun hmem => h.plain ((List.dropLast_sublist _).subset hmem)) ?_
      unfold Edited.type
      rw [hsig]
      rw [hk, h.line]
    · refine h.setLine List.not_mem_nil ?_
      unfold Edited.type
      rw [hsig]
      rw [hk]
    · refine h.setLine (fun hmem => h.plain (mem_of_mem_lineWerase hmem)) ?_
      unfold Edited.type
      rw [hsig]
      rw [hk, h.line]
    · rw [hk] at hkey
      rw [if_pos hkey]
      refine h.setLine (fun hmem => ?_) ?_
      · rcases List.mem_append.mp hmem with hmem | hmem
        · exact h.plain hmem
        · exact editKey_plain hk (List.mem_singleton.mp hmem).symm
      · unfold Edited.type
        rw [hsig]
        rw [hk, h.line]
  · dsimp only
    rw [if_pos (hfg (by rw [hsig]; exact Option.some_ne_none g))]
    refine h.setLine List.not_mem_nil ?_
    unfold Edited.type
    rw [hsig]

end

/-! ### Pushing and reading -/

theorem Inv.push {cs : List UInt8} (hpush : s.pushing = c :: cs)
    (hfull : (s.inWr + 1) % ttyIbuf ≠ s.inRd) : Inv { s.inPush c with pushing := cs } := by
  obtain ⟨hring, hcont⟩ := ring_inPush h.ring hfull
  have heq : s.inPush c =
      { s with inBuf := update s.inBuf s.inWr c, inWr := (s.inWr + 1) % ttyIbuf } := by
    exact if_neg hfull
  rw [heq] at hring hcont ⊢
  obtain ⟨ls, hls, hflat, hrep⟩ := h.pieces
  refine
    { h with
      ring := ⟨hring.rd, hring.wr⟩
      mark := fun hno => ?_
      pieces := ⟨ls, hls, ?_, hrep⟩ }
  · rw [h.mark hno] at hpush
    cases hpush
  · rw [hflat]
    unfold Tty.held
    rw [hpush]
    show _ = s.got ++ Tty.ring _ ++ cs
    rw [show Tty.ring { s with
        inBuf := update s.inBuf s.inWr c, inWr := (s.inWr + 1) % ttyIbuf, pushing := cs } =
      s.ring ++ [c] from hcont]
    simp

/-- A read that starts has taken nothing. -/
theorem Inv.read (hr : s.reader = none) (hn : 0 < n) :
    Inv { s with reader := some (n, []) } := by
  obtain ⟨ls, hls, hflat, hrep⟩ := h.pieces
  refine
    { h with
      ring := ⟨h.ring.rd, h.ring.wr⟩
      reader := fun m g hg => ?_
      pieces := ⟨ls, hls, ?_, hrep⟩ }
  · obtain ⟨rfl, rfl⟩ := of_pair hg
    exact ⟨hn, List.not_mem_nil⟩
  · rw [hflat]
    unfold Tty.held Tty.got
    rw [hr]
    rfl

/-- **A read has returned** what the reader of pieces returns. -/
theorem Inv.returned (htio : s'.tio = s.tio) (htyped : s'.typed = s.typed)
    (hline : s'.lineBuf = s.lineBuf) (hring : RingOk s') (hreader : s'.reader = none)
    (hmark : s'.eofPending = true → s'.pushing = []) (ls : List (List UInt8))
    (hls : ∀ l ∈ ls, IsLine l) (hflat : ls.flatten = s'.ring ++ s'.pushing)
    (hrep : replay (edited s.tio s.typed).pieces s'.reads = some (s'.pending ls)) : Inv s' where
  icanon := htio ▸ h.icanon
  ring := hring
  line := by rw [htio, htyped, hline, h.line]
  plain := hline ▸ h.plain
  reader := fun _ _ hg => by
    rw [hreader] at hg
    cases hg
  mark := hmark
  pieces := by
    refine ⟨ls, hls, ?_, ?_⟩
    · unfold Tty.held Tty.got
      rw [hreader, List.nil_append, hflat]
    · rw [htio, htyped, hrep]

/-- A turn of a reader that found the ring empty: the mark is reported behind the last line,
if the ring is empty still, and a signal ends a read that has taken nothing. -/
theorem Inv.turnDrained (hr : s.reader = some (n, g)) (hempty : s.eofPending = true → s.inRd = s.inWr)
    (hsig : s.eofPending = false → signal = true → g = []) : Inv (s.readDrained n g signal) := by
  obtain ⟨ls, hls, hflat, hrep⟩ := h.pieces
  obtain ⟨hlen, hg⟩ := h.reader n g hr
  unfold Tty.readDrained
  unfold Tty.held Tty.got at hflat
  rw [hr] at hflat
  by_cases hmark : s.eofPending = true
  · rw [if_pos hmark]
    -- no line is left, and so the read has no bytes
    have hpush := h.mark hmark
    have hring := (ring_eq_nil h.ring).mpr (hempty hmark)
    rw [hpush, hring, List.append_nil, List.append_nil] at hflat
    obtain ⟨rfl, rfl⟩ := lines_of_no_newline hls hflat hg
    refine h.returned rfl rfl rfl ⟨h.ring.rd, h.ring.wr⟩ rfl (fun hno => Bool.noConfusion hno)
      [] (fun _ hl => by cases hl) ?_ ?_
    · show [] = s.ring ++ s.pushing
      rw [hring, hpush]
      rfl
    · refine replay_snoc hrep ?_
      obtain ⟨k, rfl⟩ : ∃ k, n = k + 1 := ⟨n - 1, by omega⟩
      unfold pending
      rw [hmark]
      rfl
  · rw [if_neg hmark]
    cases signal with
    | false => exact { h with ring := { h.ring with } }
    | true =>
      rw [hsig (by simpa using hmark) rfl] at hflat
      refine h.returned rfl rfl rfl ⟨h.ring.rd, h.ring.wr⟩ rfl h.mark ls hls hflat ?_
      · show replay _ (s.reads ++ [⟨n, none⟩]) = _
        rw [replay_append, hrep]
        rfl

/-- A turn that takes a byte: the read goes on, or it ends with the line or because it is full. -/
theorem Inv.turnTake (hr : s.reader = some (n, g)) (hactive : s.active = true)
    (hne : s.inRd ≠ s.inWr) : Inv (s.readTurn n g) := by
  obtain ⟨ls, hls, hflat, hrep⟩ := h.pieces
  obtain ⟨hlen, hg⟩ := h.reader n g hr
  unfold Tty.held Tty.got at hflat
  rw [hr, ring_take h.ring hne, List.append_assoc] at hflat
  dsimp only at hflat
  obtain ⟨t, ls', rfl, hrest, hend⟩ := first_line hls hflat hg
  have hring : RingOk { s with inRd := (s.inRd + 1) % ttyIbuf } :=
    ⟨Nat.mod_lt _ ttyIbuf_pos, h.ring.wr⟩
  -- the read returns `g` and the byte, and the rest of the line stays
  have hstop : t = [] ∨ n = g.length + 1 →
      Inv ({ s with inRd := (s.inRd + 1) % ttyIbuf }.finish n (some (g ++ [s.inBuf s.inRd]))) := by
    intro hstop
    have hsnoc := replay_snoc hrep (serve_line (by omega) hstop)
    by_cases ht : t = []
    · rw [if_pos ht] at hsnoc
      refine h.returned rfl rfl rfl ⟨hring.rd, hring.wr⟩ rfl h.mark ls'
        (fun l hl => hls l (List.mem_cons_of_mem _ hl)) ?_ hsnoc
      rw [ht] at hrest
      exact hrest
    · rw [if_neg ht] at hsnoc
      have hline : IsLine t := by
        rcases hend with ⟨-, hnil⟩ | ⟨-, hline⟩
        · exact absurd hnil ht
        · exact hline
      refine h.returned rfl rfl rfl ⟨hring.rd, hring.wr⟩ rfl h.mark (t :: ls')
        (fun l hl => ?_) ?_ hsnoc
      · rcases List.mem_cons.mp hl with rfl | hl
        · exact hline
        · exact hls l (List.mem_cons_of_mem _ hl)
      · exact hrest
  unfold Tty.readTurn
  rw [if_neg (by rw [hactive]; simp), if_neg hne]
  by_cases hnl : s.inBuf s.inRd = ttyNewline ∨ n ≤ 1
  · rw [if_pos hnl]
    refine hstop ?_
    rcases hnl with hnl | hnl
    · rcases hend with ⟨-, hnil⟩ | ⟨hno, -⟩
      · exact Or.inl hnil
      · exact absurd hnl hno
    · exact Or.inr (by omega)
  rw [if_neg hnl, if_neg (by rw [h.icanon]; simp)]
  by_cases hfull : (g ++ [s.inBuf s.inRd]).length < n
  · rw [if_pos hfull]
    refine
      { h with
        ring := ⟨hring.rd, hring.wr⟩
        reader := fun m g' hg' => ?_
        pieces := ⟨_, hls, ?_, hrep⟩ }
    · obtain ⟨rfl, rfl⟩ := of_pair hg'
      refine ⟨hfull, fun hmem => ?_⟩
      rcases List.mem_append.mp hmem with hmem | hmem
      · exact hg hmem
      · exact hnl (Or.inl (List.mem_singleton.mp hmem).symm)
    · rw [hflat]
      unfold Tty.held Tty.got
      simp [Tty.ring]
  · rw [if_neg hfull]
    rw [List.length_append, List.length_singleton] at hfull
    exact hstop (Or.inr (by omega))

end

/-! ### Runs -/

/-- What a run has to keep to. -/
def Clean (s : Tty) : Event → Prop
  | .input c => TypeOk s c
  | .push => (s.inWr + 1) % ttyIbuf ≠ s.inRd
  | .turn signal => s.drained = true →
      if s.eofPending then s.inRd = s.inWr else signal = true → s.got = []
  | _ => True

instance decidableClean (s : Tty) (e : Event) : Decidable (Clean s e) :=
  match e with
  | .input c => decidableTypeOk s c
  | .push => inferInstanceAs (Decidable ((s.inWr + 1) % ttyIbuf ≠ s.inRd))
  | .turn signal => inferInstanceAs (Decidable (s.drained = true →
      if s.eofPending then s.inRd = s.inWr else signal = true → s.got = []))
  | .read _ | .activate _ | .foreground _ => inferInstanceAs (Decidable True)

theorem got_eq (hr : s.reader = some (n, g)) : s.got = g := by
  unfold Tty.got
  rw [hr]

theorem Inv.turn (h : Inv s) (hr : s.reader = some (n, g)) : Inv (s.readTurn n g) := by
  by_cases hactive : s.active = true
  · by_cases hempty : s.inRd = s.inWr
    · unfold Tty.readTurn
      rw [if_neg (by simp [hactive]), if_pos hempty]
      exact { h with ring := { h.ring with } }
    · exact h.turnTake hr hactive hempty
  · unfold Tty.readTurn
    rw [if_pos (by simpa using hactive)]
    exact h

theorem Inv.step {ev : Event} (h : Inv s) (hc : Clean s ev) (hs : step s ev = some s') : Inv s' := by
  cases ev with
  | input c =>
    obtain ⟨hpush, rfl⟩ := of_guard hs
    exact h.input hpush hc
  | push =>
    unfold Tty.step at hs
    dsimp only at hs
    split at hs
    · cases hs
    · next c cs hpush =>
      obtain rfl := Option.some.inj hs
      exact h.push hpush hc
  | read n =>
    obtain ⟨hr, hs⟩ := Option.ite_none_right_eq_some.mp hs
    -- a read of no bytes returns without looking at the line
    split_ifs at hs with hn
    · obtain rfl := Option.some.inj hs
      obtain ⟨ls, hls, hflat, hrep⟩ := h.pieces
      refine h.returned rfl rfl rfl ⟨h.ring.rd, h.ring.wr⟩ rfl h.mark ls hls ?_ (replay_snoc hrep ?_)
      · rw [hflat]
        unfold Tty.held Tty.got
        rw [hr]
        rfl
      · rw [serve]
        rfl
    · obtain rfl := Option.some.inj hs
      exact h.read hr (Nat.pos_of_ne_zero hn)
  | turn signal =>
    unfold Tty.step at hs
    dsimp only at hs
    split at hs
    · cases hs
    · next n g hr =>
      obtain rfl := Option.some.inj hs
      split
      · next hd =>
        have hc := hc hd
        refine h.turnDrained hr (fun hmark => by rwa [if_pos hmark] at hc) fun hmark hsig => ?_
        rw [if_neg (by simp [hmark])] at hc
        exact (got_eq hr).symm.trans (hc hsig)
      · exact h.turn hr
  | activate b | foreground b =>
    obtain rfl := Option.some.inj hs
    exact { h with ring := { h.ring with } }

/-! ### Reads return -/

/-- What a turn from the start does to a reader: it finds nothing but a mark, or it takes a byte. -/
theorem readTurn_reader (h : Inv s) (hr : s.reader = some (n, g)) (hactive : s.active = true)
    (hpush : s.pushing = []) (hsome : s.held ≠ [] ∨ s.eofPending = true) (hs : s.readTurn n g = s') :
    s'.reader = none ∨ (s'.reader = some (n, g) ∧ s'.drained = true ∧ s'.eofPending = true) ∨
      ((∃ g', s'.reader = some (n, g')) ∧ s'.drained = s.drained ∧ s'.active = true ∧ s'.pushing = [] ∧
        s'.held = s.held ∧ s'.eofPending = s.eofPending ∧ s'.ring.length < s.ring.length) := by
  subst hs
  unfold Tty.readTurn
  rw [if_neg (by rw [hactive]; simp)]
  by_cases hempty : s.inRd = s.inWr
  · -- nothing but what the reader has: no line, so there must be a mark
    rw [if_pos hempty]
    refine Or.inr (Or.inl ⟨hr, rfl, ?_⟩)
    rcases hsome with hheld | hmark
    · obtain ⟨ls, hls, hflat, -⟩ := h.pieces
      have hg : s.held = g := by
        rw [Tty.held, got_eq hr, (ring_eq_nil h.ring).mpr hempty, hpush, List.append_nil, List.append_nil]
      rw [hg] at hflat hheld
      exact absurd (lines_of_no_newline hls hflat (h.reader n g hr).2).2 hheld
    · exact hmark
  · dsimp only
    split_ifs
    · exact Or.inl rfl
    · exact Or.inl rfl
    · refine Or.inr (Or.inr ⟨⟨_, rfl⟩, rfl, hactive, hpush, ?_, rfl, ?_⟩)
      · unfold Tty.held Tty.got
        rw [hr, ring_take h.ring hempty]
        simp [Tty.ring]
      · rw [ring_take h.ring hempty]
        exact Nat.lt_succ_self _
    · exact Or.inl rfl

/-- By its own turns the read returns. -/
def Returns (s : Tty) : Prop :=
  ∃ k s', run Tty.step s (List.replicate k (.turn false)) = some s' ∧ s'.reader = none

theorem Returns.of_none (h : s.reader = none) : Returns s := ⟨0, s, rfl, h⟩

theorem Returns.turn (hstep : Tty.step s (.turn false) = some s') (h : Returns s') : Returns s := by
  obtain ⟨k, t, hrun, hdone⟩ := h
  refine ⟨k + 1, t, ?_, hdone⟩
  rw [List.replicate_succ, run_cons, hstep]
  exact hrun

theorem step_turn (hr : s.reader = some (n, g)) :
    Tty.step s (.turn signal) = some (if s.drained then s.readDrained n g signal else s.readTurn n g) := by
  unfold Tty.step
  rw [hr]

/-- A reader that found the ring empty looks at the flag. -/
theorem returns_of_mark (hr : s.reader = some (n, g)) (hd : s.drained = true)
    (hmark : s.eofPending = true) : Returns s := by
  refine .turn ((step_turn hr).trans (congrArg some (if_pos hd))) (.of_none ?_)
  unfold Tty.readDrained
  rw [if_pos hmark]
  rfl

theorem Inv.returns_of_top (h : Inv s) (hr : s.reader = some (n, g)) (hd : s.drained = false)
    (hactive : s.active = true) (hpush : s.pushing = []) (hsome : s.held ≠ [] ∨ s.eofPending = true) :
    Returns s := by
  -- each turn that does not end the read shortens the ring, or finds the mark behind it
  induction hlen : s.ring.length using Nat.strongRecOn generalizing s g with
  | ind m ih =>
    refine .turn ((step_turn hr).trans (congrArg some (if_neg (by simp [hd])))) ?_
    rcases readTurn_reader h hr hactive hpush hsome rfl with
      hdone | ⟨hr', hd', hmark⟩ | ⟨⟨g', hr'⟩, hd', hactive', hpush', hheld, hmark, hlt⟩
    · exact .of_none hdone
    · exact returns_of_mark hr' hd' hmark
    · exact ih _ (hlen ▸ hlt) (h.turn hr) hr' (hd'.trans hd) hactive' hpush'
        (by rw [hheld, hmark]; exact hsome) rfl

/-- **A waiting read returns at once** when a line or a mark is there: it only has to take its
turns. -/
theorem Inv.prompt (h : Inv s) (hr : s.reader = some (n, g)) (hactive : s.active = true)
    (hpush : s.pushing = []) (hsome : s.held ≠ [] ∨ s.eofPending = true) : Returns s := by
  cases hd : s.drained with
  | false => exact h.returns_of_top hr hd hactive hpush hsome
  | true =>
    by_cases hmark : s.eofPending = true
    · exact returns_of_mark hr hd hmark
    · -- it goes back to the start of the loop
      refine Returns.turn (?_ : _ = some { s with drained := false }) ?_
      · rw [step_turn hr, if_pos hd, Tty.readDrained, if_neg hmark]
        rfl
      · exact Inv.returns_of_top { h with ring := { h.ring with } } hr rfl hactive hpush hsome

/-! ### The main theorem -/

/-- **Canonical input is delivered faithfully**: the reads so far took the edited input apart
exactly; what is left of it are the bytes that the driver holds, with an end-of-file mark, if it
is flagged, behind them; and a waiting read returns as soon as there is a line or a mark. -/
structure Faithful (s : Tty) : Prop where
  split : ∃ ls : List (List UInt8),
    replay (edited s.tio s.typed).pieces s.reads = some (s.pending ls) ∧ ls.flatten = s.held
  line : (edited s.tio s.typed).line = s.lineBuf
  prompt : ∀ n g, s.reader = some (n, g) → s.active = true → s.pushing = [] →
    replay (edited s.tio s.typed).pieces s.reads ≠ some [] → Returns s

theorem Inv.faithful (h : Inv s) : Faithful s where
  split := by
    obtain ⟨ls, -, hflat, hrep⟩ := h.pieces
    exact ⟨ls, hrep, hflat⟩
  line := h.line
  prompt n g hr hactive hpush hleft := by
    refine h.prompt hr hactive hpush ?_
    by_contra hno
    rw [not_or, not_not] at hno
    obtain ⟨ls, hls, hflat, hrep⟩ := h.pieces
    rw [hno.1] at hflat
    obtain ⟨rfl, -⟩ := lines_of_no_newline hls hflat List.not_mem_nil
    refine hleft (hrep.trans ?_)
    unfold pending
    rw [if_neg hno.2]
    rfl

/-- **Canonical input**, in every run in which the typed bytes are not NUL, fit the line, end their
lines with newlines and commit nothing behind a pending mark, signal characters have a foreground
group, the ring has room for every push, and a reader that found the ring empty meets a mark only
while the ring is empty and a signal only before it has taken bytes. -/
theorem canonical_input (tio : TtyTermios) (buf : Nat → UInt8) (es : List Event) (s : Tty)
    (hcanon : tio.icanon = true) (hclean : MeetsAll step Clean (start tio buf) es)
    (hrun : run step (start tio buf) es = some s) : Faithful s :=
  (run_invariant Inv.step (Inv.start hcanon buf) hclean
    hrun).faithful

/-! ### Runs that do and do not keep to it -/

/-- The default control characters. -/
def defaultTermios : TtyTermios :=
  ⟨true, true, 0x03, 0x1C, 0x7F, 0x15, 0x04, 0x1A, 0x17⟩

/-- "ab", an erase, "c", newline, then an end of file; a read of two bytes, one of ten, one more. -/
def typedLine : List Event :=
  [.read 2, .turn false, .input 97, .input 98, .input 0x7F, .input 99, .input 10, .push, .turn false,
    .turn false, .push, .push, .turn false, .input 4, .read 10, .turn false, .read 10, .turn false, .turn true]

theorem canonical_input_typedLine :
    defaultTermios.icanon = true ∧
      MeetsAll step Clean (start defaultTermios fun _ => 0) typedLine ∧
      ∃ s, run step (start defaultTermios fun _ => 0) typedLine = some s ∧ Faithful s ∧
        s.reads = [⟨2, some [97, 99]⟩, ⟨10, some [10]⟩, ⟨10, some []⟩] := by
  have hclean : MeetsAll step Clean (start defaultTermios fun _ => 0) typedLine := by decide +kernel
  exact ⟨rfl, hclean, exists_of_check (by decide +kernel) fun s hs hview =>
    ⟨canonical_input _ _ _ s rfl hclean hs, hview⟩⟩

/-- "ab" and VEOF under a waiting read of ten bytes, which takes both and waits on; then a signal. -/
def eofMidLine : List Event :=
  [.read 10, .input 97, .input 98, .input 4, .push, .push, .turn false, .turn false, .turn false,
    .turn true]

/-- "a", newline and VEOF between the two tests of a waiting read. -/
def eofOvertakes : List Event :=
  [.read 10, .turn false, .input 97, .input 10, .push, .push, .input 4, .turn false]

theorem Faithful.bytes (h : Faithful s) : (replay (edited s.tio s.typed).pieces s.reads).map
    (fun ps => (ps.map TtyPiece.bytes).flatten) = some s.held := by
  obtain ⟨ls, hrep, hflat⟩ := h.split
  rw [hrep, Option.map_some, ← hflat, pending, List.map_append, List.map_map, List.flatten_append,
    show TtyPiece.bytes ∘ TtyPiece.line = id from rfl, List.map_id]
  split_ifs <;> simp [TtyPiece.bytes]

/-- The driver has departed from the editor: it holds `held` after the reads. -/
def Departs (es : List Event) (reads : List TtyRead) (held : List UInt8) : Prop :=
  ∃ s, run step (start defaultTermios fun _ => 0) es = some s ∧ s.reads = reads ∧ s.held = held ∧ ¬Faithful s

theorem departs_of_check {es : List Event} {reads : List TtyRead} {held : List UInt8}
    (hcheck : (run step (start defaultTermios fun _ => 0) es).any (fun s => decide (s.reads = reads ∧
      s.held = held ∧ ¬(replay (edited s.tio s.typed).pieces s.reads).map
        (fun ps => (ps.map TtyPiece.bytes).flatten) = some s.held)) = true) : Departs es reads held :=
  exists_of_check hcheck fun _ _ ⟨hreads, hheld, hbad⟩ => ⟨hreads, hheld, fun h => hbad h.bytes⟩

/-- **VEOF in a line** does not end the waiting read, and the signal that does throws the typed
bytes away: the driver holds nothing, the edited input still has its line.  **A mark typed between
the two tests** of a read ends it before the line that was typed first. -/
theorem eof_mid_line_lost :
    Departs eofMidLine [⟨10, none⟩] [] ∧ Departs eofOvertakes [⟨10, some []⟩] [97, 10] :=
  ⟨departs_of_check (by decide +kernel), departs_of_check (by decide +kernel)⟩

end Tty

end CactKernel
