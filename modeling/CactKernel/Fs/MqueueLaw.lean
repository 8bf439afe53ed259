/-
CactKernel/Fs/MqueueLaw.lean

What message queues guarantee.

One queue is kept in the order in which its messages will be received
(`MqMsg.Before`), and `Mqueue.Sound` relates its list to its attributes.  The
state of the filesystem is cut into three parts that different operations
touch: who refers to a node (`Refs`), which queue a call works on (`Calls`) and
what is in the queues, with the byte counter and the records (`Content`).

The attributes of a queue can be fixed by `MQCTL_INIT` after messages were
accepted under the defaults, and then the list need not fit them any more
(`init_strands_message`); a message whose copy to the user fails is gone; and
the queue of a sleeping call can be freed.  **`mqueue_faithful`** says that
nothing else goes wrong: in every run in which `MQCTL_INIT` fits what is
queued, the copies of a receiver succeed, and the last reference to a queue is
dropped only while no call works on it, every state reached is `Faithful`.
-/
import CactKernel.Fs.Mqueue

namespace CactKernel

open Function Runs Count Ledger

/-! ### One queue -/

/-- `a` is received before `b`. -/
def MqMsg.Before (a b : MqMsg) : Prop := b.prio < a.prio ∨ a.prio = b.prio ∧ a.serial < b.serial

section Enqueue

variable {l : List MqMsg} {a m : MqMsg}

theorem mqEnqueue_perm : (mqEnqueue l m).Perm (m :: l) := by
  induction l with
  | nil => exact .refl _
  | cons x xs ih =>
    unfold mqEnqueue
    split_ifs
    · exact (ih.cons x).trans (.swap ..)
    · exact .refl _

theorem mem_mqEnqueue : a ∈ mqEnqueue l m ↔ a = m ∨ a ∈ l := mqEnqueue_perm.mem_iff.trans List.mem_cons

theorem size_mqEnqueue : ((mqEnqueue l m).map MqMsg.size).sum = (l.map MqMsg.size).sum + m.size :=
  (mqEnqueue_perm.map _).sum_eq.trans (Nat.add_comm ..)

/-- **A new message** takes its place in the order: its serial number is the largest. -/
theorem mqEnqueue_ordered (h : l.Pairwise MqMsg.Before) (hnew : ∀ a ∈ l, a.serial < m.serial) :
    (mqEnqueue l m).Pairwise MqMsg.Before := by
  induction l with
  | nil => exact List.pairwise_singleton ..
  | cons x xs ih =>
    rw [List.pairwise_cons] at h
    have hx := hnew x (List.mem_cons_self ..)
    unfold mqEnqueue
    split_ifs with hprio
    · refine List.pairwise_cons.mpr ⟨fun a ha => ?_, ih h.2 fun a ha => hnew a (List.mem_cons_of_mem _ ha)⟩
      rcases mem_mqEnqueue.mp ha with rfl | ha
      · unfold MqMsg.Before
        omega
      · exact h.1 a ha
    · -- everything behind `x` has at most the priority of `x`
      refine List.pairwise_cons.mpr ⟨fun a ha => Or.inl ?_, List.pairwise_cons.mpr h⟩
      rcases List.mem_cons.mp ha with rfl | ha
      · omega
      · have := h.1 a ha
        unfold MqMsg.Before at this
        omega

end Enqueue

namespace Mqueue

structure Sound (x : Mqueue) : Prop where
  ordered : x.head.Pairwise MqMsg.Before
  count : x.curmsgs = x.head.length
  room : x.head.length ≤ x.maxmsg
  fits : ∀ m ∈ x.head, m.len ≤ x.msgsize
  limit : x.msgsize ≤ mqMsgsizeMax
  /-- Until `MQCTL_INIT` the size is the default, which no other size exceeds. -/
  unset : x.configured = false → x.msgsize = mqDefaultMsgsize

theorem Sound.fresh : Mqueue.fresh.Sound :=
  ⟨List.Pairwise.nil, rfl, Nat.zero_le _, by simp [Mqueue.fresh], le_rfl, fun _ => rfl⟩

end Mqueue

/-! ### The byte counter -/

section Bytes

variable {b n len : Nat} {memOk : Bool}

theorem mqBytesMax_lt : mqBytesMax + 16384 < u32Size := by
  simp [mqBytesMax, u32Size]

theorem mqReleaseBytes_eq (hn : n ≤ b) (hb : b ≤ mqBytesMax) : mqReleaseBytes b n = b - n := by
  have := mqBytesMax_lt
  unfold mqReleaseBytes
  rw [show b + u32Size - n = b - n + u32Size by omega, Nat.add_mod_right, Nat.mod_eq_of_lt (by omega)]

theorem mqReserveBytes_eq (hb : b ≤ mqBytesMax) (hn : n ≤ 16384) :
    mqReserveBytes b n = if mqBytesMax < b + n then (b, false) else (b + n, true) := by
  have := mqBytesMax_lt
  unfold mqReserveBytes
  rw [Nat.mod_eq_of_lt (by omega : b + n < u32Size)]
  dsimp only
  rw [show b + n + u32Size - n = b + u32Size by omega, Nat.add_mod_right,
    Nat.mod_eq_of_lt (by omega)]

/-- **Allocating a message** charges it in full or not at all. -/
theorem mqAllocMsg_spec (memOk : Bool) (hb : b ≤ mqBytesMax) (hlen : len ≤ mqMsgsizeMax) :
    mqAllocMsg b len memOk = (b, false) ∨
      mqAllocMsg b len memOk = (b + (mqMsgHeader + len), true) ∧
        b + (mqMsgHeader + len) ≤ mqBytesMax := by
  have hn : mqMsgHeader + len ≤ 16384 := by
    simp only [mqMsgHeader, mqMsgsizeMax] at hlen ⊢
    omega
  unfold mqAllocMsg
  dsimp only
  rw [mqReserveBytes_eq hb hn]
  by_cases hmax : mqBytesMax < b + (mqMsgHeader + len)
  · rw [if_pos hmax]
    exact Or.inl rfl
  · rw [if_neg hmax]
    cases memOk
    · refine Or.inl ?_
      show (mqReleaseBytes (b + (mqMsgHeader + len)) (mqMsgHeader + len), false) = _
      rw [mqReleaseBytes_eq (by omega) (by omega), Nat.add_sub_cancel]
    · exact Or.inr ⟨rfl, by omega⟩

theorem foldl_mqFreeMsg {l : List MqMsg} (hl : (l.map MqMsg.size).sum ≤ b) (hb : b ≤ mqBytesMax) :
    l.foldl mqFreeMsg b = b - (l.map MqMsg.size).sum := by
  induction l generalizing b with
  | nil => rfl
  | cons m l ih =>
    rw [List.map_cons, List.sum_cons] at hl ⊢
    have hm : mqFreeMsg b m = b - m.size := mqReleaseBytes_eq (by show m.size ≤ b; omega) hb
    rw [List.foldl_cons, ih (by omega) (by omega)]
    omega

end Bytes

namespace MqNode

variable {x : MqNode}

/-- The references that a node counts. -/
def refs (x : MqNode) : Nat := if x.live then x.refcount else 0

theorem refs_of_live (h : x.live = true) : x.refs = x.refcount := if_pos h

theorem refs_of_dead (h : x.live = false) : x.refs = 0 := if_neg (by rw [h]; exact Bool.false_ne_true)

theorem live_of_refs (h : 0 < x.refs) : x.live = true := by
  by_contra hno
  rw [refs_of_dead (by simpa using hno)] at h
  exact absurd h (Nat.lt_irrefl 0)

/-- What the messages of a node are charged with. -/
def bytes (x : MqNode) : Nat := if x.live then x.priv.size else 0

end MqNode

namespace MqSys

variable {s s' : MqSys} {t q f : Nat} {m : MqMsg} {x : Mqueue} {name : List UInt8} {c : MqCall}

/-! ### The three parts of the invariant -/

/-- The references to a node: directory entries and open descriptions. -/
def owners (s : MqSys) (q : Nat) : Nat :=
  s.children.countP (fun e => decide (e.2 = q)) +
    countOf s.nextFile (fun x => x.used = true ∧ x.node = q) s.file

structure Refs (s : MqSys) : Prop where
  owners : ∀ q, s.owners q = (s.node q).refs
  fresh : ∀ q, s.nextNode ≤ q → (s.node q).live = false
  files : ∀ f, s.nextFile ≤ f → (s.file f).used = false

structure Calls (s : MqSys) : Prop where
  idle : ∀ t, s.tasks ≤ t → s.call t = .idle
  live : ∀ t q, (s.call t).queue = some q → (s.node q).live = true
  room : ∀ t q n w, s.call t = .receiving q n w → (s.node q).priv.msgsize ≤ n

def nodeBytes (s : MqSys) (q : Nat) : Nat := (s.node q).bytes

/-- What a receive promises. -/
structure TakenOk (s : MqSys) (r : MqTaken) : Prop where
  sent : (r.queue, r.msg) ∈ s.sent
  mem : r.msg ∈ r.queued
  best : ∀ m ∈ r.queued, m = r.msg ∨ r.msg.Before m
  offered : r.msg.len ≤ r.offered
  delivered : r.delivered = true

structure Content (s : MqSys) : Prop where
  queue : ∀ q, (s.node q).live = true → (s.node q).priv.Sound
  bytes : s.bytes = tally s.nextNode s.nodeBytes
  budget : s.bytes ≤ mqBytesMax
  serial : ∀ i (e : Nat × MqMsg), s.sent[i]? = some e → e.2.serial = i
  sent_lt : ∀ e ∈ s.sent, e.1 < s.nextNode
  queued : ∀ q, (s.node q).live = true → ∀ m ∈ (s.node q).priv.head, (q, m) ∈ s.sent
  kept : ∀ e ∈ s.sent, (s.node e.1).live = true →
    e.2 ∈ (s.node e.1).priv.head ∨ ∃ r ∈ s.taken, r.queue = e.1 ∧ r.msg = e.2
  left : ∀ q, (s.node q).live = true → ∀ m ∈ (s.node q).priv.head,
    ∀ r ∈ s.taken, r.msg.serial ≠ m.serial
  once : (s.taken.map fun r => r.msg.serial).Nodup
  taken : ∀ r ∈ s.taken, s.TakenOk r

structure Inv (s : MqSys) : Prop where
  refs : Refs s
  calls : Calls s
  content : Content s
  fault : s.fault = false

theorem Inv.start (n : Nat) : Inv (MqSys.start n) where
  refs := ⟨fun _ => rfl, fun _ _ => rfl, fun _ _ => rfl⟩
  calls := ⟨fun _ _ => rfl, (fun _ _ h => by cases h), fun _ _ _ _ h => by cases h⟩
  content :=
    { queue := fun _ h => by cases h
      bytes := rfl
      budget := Nat.zero_le _
      serial := fun _ _ h => by simp [MqSys.start] at h
      sent_lt := fun _ h => by cases h
      queued := fun _ h => by cases h
      kept := fun _ h => by cases h
      left := fun _ h => by cases h
      once := List.nodup_nil
      taken := fun _ h => by cases h }
  fault := rfl

/-! ### Parts that an operation leaves alone -/

theorem Refs.of_eq (h : Refs s) (hlive : ∀ q, (s'.node q).live = (s.node q).live)
    (href : ∀ q, (s'.node q).refcount = (s.node q).refcount) (hn : s'.nextNode = s.nextNode)
    (hown : ∀ q, s'.owners q = s.owners q)
    (hfiles : ∀ f, s'.nextFile ≤ f → (s'.file f).used = false) : Refs s' where
  owners q := by
    rw [hown, h.owners]
    unfold MqNode.refs
    rw [hlive, href]
  fresh q hq := by
    rw [hn] at hq
    rw [hlive, h.fresh q hq]
  files := hfiles

/-- Nothing is sent or received: a queue that is left keeps its messages, and a new one has none. -/
theorem Content.same (h : Content s) (hsent : s'.sent = s.sent) (htaken : s'.taken = s.taken)
    (hn : s.nextNode ≤ s'.nextNode)
    (hqueue : ∀ q, (s'.node q).live = true → (s'.node q).priv.Sound)
    (hhead : ∀ q, (s'.node q).live = true →
      (s.node q).live = true ∧ (s'.node q).priv.head = (s.node q).priv.head ∨
        s.nextNode ≤ q ∧ (s'.node q).priv.head = [])
    (hbytes : s'.bytes = tally s'.nextNode s'.nodeBytes) (hbudget : s'.bytes ≤ mqBytesMax) :
    Content s' where
  queue := hqueue
  bytes := hbytes
  budget := hbudget
  serial := hsent ▸ h.serial
  sent_lt e he := Nat.lt_of_lt_of_le (h.sent_lt e (hsent ▸ he)) hn
  queued q hq m hm := by
    rcases hhead q hq with ⟨hl, hsame⟩ | ⟨-, hnil⟩
    · rw [hsame] at hm
      exact hsent ▸ h.queued q hl m hm
    · rw [hnil] at hm
      cases hm
  kept e he hq := by
    rw [hsent] at he
    rcases hhead e.1 hq with ⟨hl, hsame⟩ | ⟨hge, -⟩
    · rw [hsame, htaken]
      exact h.kept e he hl
    · exact absurd (h.sent_lt e he) (Nat.not_lt.mpr hge)
  left q hq m hm := by
    rcases hhead q hq with ⟨hl, hsame⟩ | ⟨-, hnil⟩
    · rw [hsame] at hm
      exact htaken ▸ h.left q hl m hm
    · rw [hnil] at hm
      cases hm
  once := htaken ▸ h.once
  taken r hr := by
    rw [htaken] at hr
    have := h.taken r hr
    exact ⟨hsent ▸ this.sent, this.mem, this.best, this.offered, this.delivered⟩

theorem Content.of_eq (h : Content s) (hlive : ∀ q, (s'.node q).live = (s.node q).live)
    (hpriv : ∀ q, (s'.node q).priv = (s.node q).priv) (hn : s'.nextNode = s.nextNode)
    (hb : s'.bytes = s.bytes) (hs : s'.sent = s.sent) (ht : s'.taken = s.taken) : Content s' := by
  refine h.same hs ht hn.ge (fun q hq => ?_) (fun q hq => Or.inl ?_) ?_ (hb ▸ h.budget)
  · rw [hlive] at hq
    rw [hpriv]
    exact h.queue q hq
  · rw [hlive] at hq
    rw [hpriv]
    exact ⟨hq, rfl⟩
  · rw [hb, h.bytes, hn]
    exact (tally_congr fun i _ => by unfold nodeBytes MqNode.bytes; rw [hlive, hpriv]).symm

/-- Calls stay as they are while their queues stay, with no larger messages. -/
theorem Calls.of_nodes (h : Calls s) (hcall : s'.call = s.call) (htasks : s'.tasks = s.tasks)
    (hlive : ∀ t q, (s.call t).queue = some q → (s'.node q).live = true)
    (hsize : ∀ t q, (s.call t).queue = some q →
      (s'.node q).priv.msgsize ≤ (s.node q).priv.msgsize) : Calls s' where
  idle := by
    rw [hcall, htasks]
    exact h.idle
  live := by
    rw [hcall]
    exact hlive
  room t q n w hc := by
    rw [hcall] at hc
    exact (hsize t q (by rw [hc]; rfl)).trans (h.room t q n w hc)

/-- One task's call changes to one that is right. -/
theorem Calls.setCall (h : Calls s) (hidle : s.tasks ≤ t → c = .idle)
    (hlive : ∀ q, c.queue = some q → (s.node q).live = true)
    (hroom : ∀ q n w, c = .receiving q n w → (s.node q).priv.msgsize ≤ n) :
    Calls { s with call := update s.call t c } where
  idle := (forall_update_iff s.call fun u c => s.tasks ≤ u → c = .idle).mpr ⟨hidle, fun u _ => h.idle u⟩
  live := (forall_update_iff s.call fun _ c => ∀ q, c.queue = some q → (s.node q).live = true).mpr
    ⟨hlive, fun u _ => h.live u⟩
  room := (forall_update_iff s.call fun _ c => ∀ q n w, c = .receiving q n w →
    (s.node q).priv.msgsize ≤ n).mpr ⟨hroom, fun u _ => h.room u⟩

theorem Inv.setCall (h : Inv s) (hidle : s.tasks ≤ t → c = .idle)
    (hlive : ∀ q, c.queue = some q → (s.node q).live = true)
    (hroom : ∀ q n w, c = .receiving q n w → (s.node q).priv.msgsize ≤ n) :
    Inv { s with call := update s.call t c } where
  refs := { h.refs with }
  calls := h.calls.setCall hidle hlive hroom
  content := h.content.of_eq (fun _ => rfl) (fun _ => rfl) rfl rfl rfl rfl
  fault := h.fault

/-- A call returns. -/
theorem Inv.finish (h : Inv s) (t : Nat) (r : MqRet) : Inv (s.finish t r) := by
  have hc := h.setCall (t := t) (fun _ => rfl) (fun _ hq => by cases hq)
    fun _ _ _ hq => by cases hq
  exact
    { refs := { hc.refs with }
      calls := { hc.calls with }
      content := hc.content.of_eq (fun _ => rfl) (fun _ => rfl) rfl rfl rfl rfl
      fault := hc.fault }

/-! ### The queue of a node changes -/

section Queue

variable (hl : (s.node q).live = true) {y : MqNode}

@[simp] theorem setQueue_self : (s.setQueue q x).node q = { s.node q with priv := x } :=
  update_self ..

theorem setQueue_other {i : Nat} (hi : i ≠ q) : (s.setQueue q x).node i = s.node i :=
  update_of_ne hi ..

/-- What a rewritten node keeps. -/
theorem setNode_keeps {α : Type} (g : MqNode → α) (hy : g y = g (s.node q)) (i : Nat) :
    g ((s.setNode q y).node i) = g (s.node i) := by
  by_cases hi : i = q
  · rw [hi, show (s.setNode q y).node q = y from update_self .., hy]
  · rw [show (s.setNode q y).node i = s.node i from update_of_ne hi ..]

theorem setQueue_live (i : Nat) : ((s.setQueue q x).node i).live = (s.node i).live :=
  setNode_keeps (y := { s.node q with priv := x }) MqNode.live rfl i

theorem setQueue_refcount (i : Nat) : ((s.setQueue q x).node i).refcount = (s.node i).refcount :=
  setNode_keeps (y := { s.node q with priv := x }) MqNode.refcount rfl i

theorem Refs.setQueue (h : Refs s) : Refs (s.setQueue q x) :=
  h.of_eq setQueue_live setQueue_refcount rfl (fun _ => rfl) h.files

theorem Calls.setQueue (h : Calls s) (hsize : x.msgsize ≤ (s.node q).priv.msgsize) :
    Calls (s.setQueue q x) := by
  refine h.of_nodes rfl rfl (fun t i hi => by rw [setQueue_live, h.live t i hi]) fun t i _ => ?_
  by_cases hi : i = q
  · rw [hi, setQueue_self]
    exact hsize
  · rw [setQueue_other hi]

/-- Only the queue of one node has changed. -/
theorem Refs.changed (h : Refs s) (hnode : s'.node = (s.setQueue q x).node)
    (hn : s'.nextNode = s.nextNode) (hc : s'.children = s.children) (hf : s'.file = s.file)
    (hnf : s'.nextFile = s.nextFile) : Refs s' := by
  refine h.of_eq (fun i => by rw [hnode, setQueue_live]) (fun i => by rw [hnode, setQueue_refcount])
    hn (fun i => ?_) ?_
  · unfold MqSys.owners
    rw [hc, hf, hnf]
  · rw [hf, hnf]
    exact h.files

/-- A call has returned, with the queue of one node changed. -/
theorem Calls.returned (h : Calls s) (hsize : x.msgsize ≤ (s.node q).priv.msgsize)
    (hcall : s'.call = update s.call t .idle) (htasks : s'.tasks = s.tasks)
    (hnode : s'.node = (s.setQueue q x).node) : Calls s' := by
  have hset := (h.setQueue hsize).setCall (t := t) (fun _ => rfl)
    (fun _ hq => by cases hq) fun _ _ _ hq => by cases hq
  refine hset.of_nodes hcall htasks (fun u i hi => ?_) fun u i _ => ?_
  · rw [hnode]
    exact hset.live u i hi
  · rw [hnode]

include hl in
theorem Refs.lt_nextNode (h : Refs s) : q < s.nextNode := by
  by_contra hq
  rw [h.fresh q (by omega)] at hl
  cases hl

include hl in
/-- How the charge moves with the contents of one queue. -/
theorem tally_setQueue (hq : q < s.nextNode) (hs : s'.node = (s.setQueue q x).node) :
    tally s.nextNode s'.nodeBytes + (s.node q).priv.size = tally s.nextNode s.nodeBytes + x.size := by
  have hself : s'.nodeBytes q = x.size := by
    unfold nodeBytes
    rw [hs, setQueue_self]
    exact if_pos hl
  have hold : s.nodeBytes q = (s.node q).priv.size := if_pos hl
  rw [← hself, ← hold]
  exact tally_swap hq fun j hj => by unfold nodeBytes; rw [hs, setQueue_other hj]

section

variable (h : Content s)
include h

include hl in
theorem Content.size_le (hq : q < s.nextNode) : (s.node q).priv.size ≤ s.bytes := by
  have := le_tally (g := s.nodeBytes) hq
  rw [← h.bytes] at this
  rwa [show s.nodeBytes q = _ from if_pos hl] at this

theorem Content.sound_setNode (hy : y.priv.Sound) :
    ∀ i, ((s.setNode q y).node i).live = true → ((s.setNode q y).node i).priv.Sound :=
  (forall_update_iff s.node fun _ y => y.live = true → y.priv.Sound).mpr
    ⟨fun _ => hy, fun i _ => h.queue i⟩

/-- One node is written, without messages or with those it had. -/
theorem Content.setNode (hsound : y.live = true → y.priv.Sound)
    (hhead : y.live = true → (s.node q).live = true ∧ y.priv.head = (s.node q).priv.head ∨
      s.nextNode ≤ q ∧ y.priv.head = [])
    (hnode : s'.node = update s.node q y) (hsent : s'.sent = s.sent) (htaken : s'.taken = s.taken)
    (hn : s.nextNode ≤ s'.nextNode) (hbytes : s'.bytes = tally s'.nextNode s'.nodeBytes)
    (hbudget : s'.bytes ≤ mqBytesMax) : Content s' := by
  refine h.same hsent htaken hn ?_ ?_ hbytes hbudget <;> rw [hnode]
  · exact (forall_update_iff s.node fun _ y => y.live = true → y.priv.Sound).mpr
      ⟨hsound, fun i _ => h.queue i⟩
  · exact (forall_update_iff s.node fun i y => y.live = true →
      (s.node i).live = true ∧ y.priv.head = (s.node i).priv.head ∨ s.nextNode ≤ i ∧ y.priv.head = []).mpr
      ⟨hhead, fun i _ hi => Or.inl ⟨hi, rfl⟩⟩

include hl in
/-- Attributes change, the messages stay. -/
theorem Content.setQueue (hq : q < s.nextNode)
    (hhead : x.head = (s.node q).priv.head) (hx : x.Sound) : Content (s.setQueue q x) := by
  refine h.setNode (fun _ => hx) (fun _ => Or.inl ⟨hl, hhead⟩) rfl rfl rfl le_rfl ?_ h.budget
  have := tally_setQueue (x := x) hl hq rfl
  have hsize : x.size = (s.node q).priv.size := by
    unfold Mqueue.size
    rw [hhead]
  have hb := h.bytes
  show s.bytes = tally s.nextNode _
  omega

end

include hl in
theorem Inv.setQueue (h : Inv s) (hhead : x.head = (s.node q).priv.head) (hx : x.Sound)
    (hsize : x.msgsize ≤ (s.node q).priv.msgsize) : Inv (s.setQueue q x) where
  refs := h.refs.setQueue
  calls := h.calls.setQueue hsize
  content := h.content.setQueue hl (h.refs.lt_nextNode hl) hhead hx
  fault := h.fault

section

variable (h : Content s)
include h

/-- The serial numbers that are taken are below the number of messages sent. -/
theorem Content.serial_lt {e : Nat × MqMsg} (he : e ∈ s.sent) :
    e.2.serial < s.sent.length := by
  obtain ⟨i, hi⟩ := List.mem_iff_getElem?.mp he
  rw [h.serial i e hi]
  exact (List.getElem?_eq_some_iff.mp hi).1

/-- A serial number names a message. -/
theorem Content.sent_unique {e e' : Nat × MqMsg} (he : e ∈ s.sent) (he' : e' ∈ s.sent)
    (heq : e.2.serial = e'.2.serial) : e = e' := by
  obtain ⟨i, hi⟩ := List.mem_iff_getElem?.mp he
  obtain ⟨j, hj⟩ := List.mem_iff_getElem?.mp he'
  rw [h.serial i e hi, h.serial j e' hj] at heq
  rw [heq, hj] at hi
  exact (Option.some.inj hi).symm

include hl in
/-- **A message is put** into a queue that has room for it. -/
theorem Content.put (hq : q < s.nextNode) (hm : m.serial = s.sent.length)
    (hfit : m.len ≤ (s.node q).priv.msgsize)
    (hroom : (s.node q).priv.head.length < (s.node q).priv.maxmsg)
    (hx : x.head = mqEnqueue (s.node q).priv.head m) (hcur : x.curmsgs = (s.node q).priv.curmsgs + 1)
    (hmax : x.maxmsg = (s.node q).priv.maxmsg) (hsize : x.msgsize = (s.node q).priv.msgsize)
    (hconf : x.configured = (s.node q).priv.configured) (hbudget : s.bytes + m.size ≤ mqBytesMax) :
    Content { s.setQueue q x with bytes := s.bytes + m.size, sent := s.sent ++ [(q, m)] } := by
  have hold := h.queue q hl
  have hnew : ∀ a ∈ (s.node q).priv.head, a.serial < m.serial := fun a ha => by
    rw [hm]
    exact h.serial_lt (h.queued q hl a ha)
  -- only queue `q` gains an entry, and only `m`
  have hhead : ∀ i a, a ∈ ((s.setQueue q x).node i).priv.head ↔
      i = q ∧ a = m ∨ a ∈ (s.node i).priv.head := by
    intro i a
    by_cases hi : i = q
    · subst hi
      rw [setQueue_self]
      show a ∈ x.head ↔ _
      rw [hx, mem_mqEnqueue]
      simp
    · rw [setQueue_other hi]
      simp [hi]
  have hsound : x.Sound :=
    { ordered := hx ▸ mqEnqueue_ordered hold.ordered hnew
      count := by rw [hcur, hold.count, hx, mqEnqueue_perm.length_eq, List.length_cons]
      room := by
        rw [hx, mqEnqueue_perm.length_eq, List.length_cons, hmax]
        omega
      fits := fun a ha => by
        rw [hx] at ha
        rw [hsize]
        rcases mem_mqEnqueue.mp ha with rfl | ha
        · exact hfit
        · exact hold.fits a ha
      limit := hsize ▸ hold.limit
      unset := by
        rw [hconf, hsize]
        exact hold.unset }
  exact
    { queue := h.sound_setNode hsound
      bytes := by
        have := tally_setQueue (x := x) hl hq rfl
        have hxsize : x.size = (s.node q).priv.size + m.size := by
          unfold Mqueue.size
          rw [hx, size_mqEnqueue]
        have hbytes := h.bytes
        show s.bytes + m.size = tally s.nextNode (s.setQueue q x).nodeBytes
        omega
      budget := hbudget
      -- the log is its own numbering, and `m` takes the next number
      serial := fun i e hi => by
        rcases Nat.lt_trichotomy i s.sent.length with hlt | heq | hgt
        · rw [List.getElem?_append_left hlt] at hi
          exact h.serial i e hi
        · rw [heq, List.getElem?_concat_length] at hi
          obtain rfl := Option.some.inj hi
          rw [heq]
          exact hm
        · rw [List.getElem?_eq_none (by rw [List.length_append]; exact hgt)] at hi
          cases hi
      sent_lt := List.forall_mem_append.mpr ⟨h.sent_lt, List.forall_mem_singleton.mpr hq⟩
      queued := fun i hi a ha => by
        rw [setQueue_live] at hi
        rcases (hhead i a).mp ha with ⟨rfl, rfl⟩ | ha
        · exact List.mem_append_right _ (List.mem_singleton_self _)
        · exact List.mem_append_left _ (h.queued i hi a ha)
      kept := fun e he hi => by
        rw [setQueue_live] at hi
        rw [List.mem_append, List.mem_singleton] at he
        rw [hhead]
        rcases he with he | rfl
        · rcases h.kept e he hi with hmem | htk
          · exact Or.inl (Or.inr hmem)
          · exact Or.inr htk
        · exact Or.inl (Or.inl ⟨rfl, rfl⟩)
      left := fun i hi a ha r hr => by
        rw [setQueue_live] at hi
        rcases (hhead i a).mp ha with ⟨rfl, rfl⟩ | ha
        · have := h.serial_lt (h.taken r hr).sent
          dsimp only at this
          omega
        · exact h.left i hi a ha r hr
      once := h.once
      taken := fun r hr => { h.taken r hr with sent := List.mem_append_left _ (h.taken r hr).sent } }

include hl in
/-- **A message is taken** from the head of a queue and delivered. -/
theorem Content.take (hq : q < s.nextNode) {rest : List MqMsg} {n b : Nat}
    (hhead : (s.node q).priv.head = m :: rest) (hoff : (s.node q).priv.msgsize ≤ n)
    (hx : x = { (s.node q).priv with head := rest, curmsgs := (s.node q).priv.curmsgs - 1 })
    (hb : b = mqFreeMsg s.bytes m) :
    Content { s.setQueue q x with
      bytes := b
      taken := s.taken ++ [⟨q, m, (s.node q).priv.head, n, true⟩] } := by
  have hold := h.queue q hl
  have hord := hold.ordered
  rw [hhead, List.pairwise_cons] at hord
  have hmem : m ∈ (s.node q).priv.head := by
    rw [hhead]
    exact List.mem_cons_self ..
  -- the rest of the queue is younger or less urgent, so it is not `m`
  have hrest : ∀ a ∈ rest, a.serial ≠ m.serial := by
    intro a ha heq
    have hsent := h.queued q hl a (by rw [hhead]; exact List.mem_cons_of_mem _ ha)
    have ham : a = m := congrArg Prod.snd (h.sent_unique hsent (h.queued q hl m hmem) heq)
    have := hord.1 a ha
    unfold MqMsg.Before at this
    rw [ham] at this
    omega
  have hxsize : x.size + m.size = (s.node q).priv.size := by
    unfold Mqueue.size
    rw [hx, hhead, List.map_cons, List.sum_cons]
    exact Nat.add_comm ..
  have htally := tally_setQueue (x := x) hl hq rfl
  have hle := h.size_le hl hq
  have hfree : b = s.bytes - m.size := hb.trans (mqReleaseBytes_eq (by show m.size ≤ _; omega) h.budget)
  have hne : ∀ i a, (s.node i).live = true → a ∈ ((s.setQueue q x).node i).priv.head →
      a ∈ (s.node i).priv.head ∧ a.serial ≠ m.serial := by
    intro i a hi ha
    by_cases hiq : i = q
    · subst hiq
      rw [setQueue_self, hx] at ha
      exact ⟨by rw [hhead]; exact List.mem_cons_of_mem _ ha, hrest a ha⟩
    · -- a message of another queue was sent to that queue
      rw [setQueue_other hiq] at ha
      refine ⟨ha, fun heq => hiq ?_⟩
      exact congrArg Prod.fst (h.sent_unique (h.queued i hi a ha) (h.queued q hl m hmem) heq)
  have hsound : x.Sound := by
    have hlen := hold.count
    have hroom := hold.room
    rw [hhead, List.length_cons] at hlen hroom
    rw [hx]
    exact
      { hold with
        ordered := hord.2
        count := by
          show (s.node q).priv.curmsgs - 1 = rest.length
          omega
        room := by
          show rest.length ≤ (s.node q).priv.maxmsg
          omega
        fits := fun a ha => hold.fits a (by rw [hhead]; exact List.mem_cons_of_mem _ ha) }
  exact
    { queue := h.sound_setNode hsound
      bytes := by
        have hbytes := h.bytes
        show b = tally s.nextNode (s.setQueue q x).nodeBytes
        omega
      budget := by
        have := h.budget
        show b ≤ _
        omega
      serial := h.serial
      sent_lt := h.sent_lt
      queued := fun i hi a ha => by
        rw [setQueue_live] at hi
        exact h.queued i hi a (hne i a hi ha).1
      kept := fun e he hi => by
        rw [setQueue_live] at hi
        rcases h.kept e he hi with hin | ⟨r, hr, hre⟩
        · by_cases heq : e.1 = q
          · rw [heq, hhead] at hin
            rcases List.mem_cons.mp hin with hem | hin
            · exact Or.inr ⟨_, List.mem_append_right _ (List.mem_singleton_self _), heq.symm, hem.symm⟩
            · refine Or.inl ?_
              rw [heq, setQueue_self, hx]
              exact hin
          · rw [setQueue_other heq]
            exact Or.inl hin
        · exact Or.inr ⟨r, List.mem_append_left _ hr, hre⟩
      left := fun i hi a ha => by
        rw [setQueue_live] at hi
        obtain ⟨ha, ham⟩ := hne i a hi ha
        exact List.forall_mem_append.mpr ⟨h.left i hi a ha, List.forall_mem_singleton.mpr (Ne.symm ham)⟩
      once := by
        rw [List.map_append]
        refine List.nodup_append.mpr ⟨h.once, List.nodup_singleton _, fun a ha b hb => ?_⟩
        obtain ⟨r, hr, rfl⟩ := List.mem_map.mp ha
        obtain rfl := List.mem_singleton.mp hb
        exact h.left q hl m hmem r hr
      taken := by
        refine List.forall_mem_append.mpr ⟨fun r hr => { h.taken r hr with }, List.forall_mem_singleton.mpr ?_⟩
        refine ⟨h.queued q hl m hmem, hmem, fun a ha => ?_, (hold.fits m hmem).trans hoff, rfl⟩
        have ha : a ∈ (s.node q).priv.head := ha
        rw [hhead] at ha
        rcases List.mem_cons.mp ha with rfl | ha
        · exact Or.inl rfl
        · exact Or.inr (hord.1 a ha) }

end

end Queue

/-! ### Nodes come and go -/

/-- `_mq_create` makes a queue that nobody has sent to. -/
theorem Inv.create (h : Inv s) (name : List UInt8) (memOk : Bool) : Inv (s.create name memOk) := by
  unfold MqSys.create
  split_ifs
  · exact h
  have hdead := h.refs.fresh s.nextNode le_rfl
  have hother : ∀ {i}, (s.node i).live = true → i ≠ s.nextNode := by
    rintro i hi rfl
    rw [hdead] at hi
    cases hi
  have hself : update s.node s.nextNode ⟨true, 1, .fresh⟩ s.nextNode = ⟨true, 1, .fresh⟩ := update_self ..
  have hold : ∀ {i}, i ≠ s.nextNode → update s.node s.nextNode ⟨true, 1, .fresh⟩ i = s.node i :=
    fun hi => update_of_ne hi ..
  -- a dead node has no owner, so the new entry is the one count of the new queue
  have hfresh := h.refs.owners s.nextNode
  rw [MqNode.refs_of_dead hdead] at hfresh
  exact
    { refs :=
        { owners := fun i => by
            show (_ :: s.children).countP _ + _ = (update s.node s.nextNode _ i).refs
            rw [List.countP_cons]
            by_cases hi : i = s.nextNode
            · subst hi
              rw [update_self, if_pos (decide_eq_true rfl)]
              show _ + 1 + _ = 1
              unfold MqSys.owners at hfresh
              dsimp only
              omega
            · rw [update_of_ne hi, if_neg (by simpa using Ne.symm hi), ← h.refs.owners i]
              rfl
          fresh := fun i hi => by
            have hi : s.nextNode + 1 ≤ i := hi
            show (update s.node s.nextNode _ i).live = _
            rw [update_of_ne (by omega), h.refs.fresh i (by omega)]
          files := h.refs.files }
      calls := h.calls.of_nodes rfl rfl
        (fun t i hi => by
          have hl := h.calls.live t i hi
          show (update s.node s.nextNode _ i).live = _
          rw [update_of_ne (hother hl), hl])
        fun t i hi => by
          show (update s.node s.nextNode _ i).priv.msgsize ≤ _
          rw [update_of_ne (hother (h.calls.live t i hi))]
      content := by
        refine h.content.setNode (fun _ => .fresh) (fun _ => Or.inr ⟨le_rfl, rfl⟩) rfl rfl rfl
          (Nat.le_succ _) ?_ h.content.budget
        have hb := h.content.bytes
        rw [tally_succ, tally_congr fun i hi => ?_, ← hb]
        · exact congrArg (fun x : MqNode => s.bytes + x.bytes) hself.symm
        · exact congrArg MqNode.bytes (hold (Nat.ne_of_lt hi))
      fault := h.fault }

/-- Nobody works on queue `q`, should its last reference go. -/
def Quiet (s : MqSys) (q : Nat) : Prop :=
  (s.node q).refcount = 1 → ∀ t < s.tasks, (s.call t).queue ≠ some q

instance decidableQuiet (s : MqSys) (q : Nat) : Decidable (s.Quiet q) := by
  unfold Quiet
  infer_instance

section Drop

variable (hl : (s.node q).live = true)

include hl in
/-- `_mq_free_node` gives back what the queue is charged with. -/
theorem Content.freeNode (h : Content s) (hq : q < s.nextNode) : Content (s.freeNode q) := by
  have hsize := h.size_le hl hq
  have hbytes : (s.freeNode q).bytes = s.bytes - (s.node q).priv.size :=
    foldl_mqFreeMsg hsize h.budget
  refine h.setNode (y := { s.node q with live := false }) nofun nofun rfl rfl rfl le_rfl ?_ ?_
  · have hself : (s.freeNode q).nodeBytes q = 0 := by
      unfold nodeBytes
      rw [show (s.freeNode q).node q = _ from update_self ..]
      rfl
    have hold : s.nodeBytes q = (s.node q).priv.size := if_pos hl
    have := tally_swap (g := s.nodeBytes) (k := (s.freeNode q).nodeBytes) hq fun j hj => by
      unfold nodeBytes
      rw [show (s.freeNode q).node j = _ from update_of_ne hj ..]
    have hb := h.bytes
    rw [hbytes]
    show _ = tally s.nextNode _
    omega
  · have := h.budget
    rw [hbytes]
    omega

include hl in
/-- The references to one node change, and so does its count. -/
theorem Inv.recount {k nextFile : Nat} {file : Nat → MqFile} (hcalls : Calls s) (hcontent : Content s)
    (hfresh : ∀ i, s.nextNode ≤ i → (s.node i).live = false) (hfault : s.fault = false)
    (hown : ∀ i, s.children.countP (fun e => decide (e.2 = i)) +
      countOf nextFile (fun x => x.used = true ∧ x.node = i) file = if i = q then k else (s.node i).refs)
    (hfiles : ∀ f, nextFile ≤ f → (file f).used = false) :
    Inv { s with
      node := update s.node q { s.node q with refcount := k }, file := file, nextFile := nextFile } := by
  have hlive : ∀ i, (update s.node q { s.node q with refcount := k } i).live = (s.node i).live :=
    setNode_keeps MqNode.live rfl
  have hpriv : ∀ i, (update s.node q { s.node q with refcount := k } i).priv = (s.node i).priv :=
    setNode_keeps MqNode.priv rfl
  refine ⟨⟨fun i => (hown i).trans ?_, fun i hi => (hlive i).trans (hfresh i hi), hfiles⟩, ?_,
    hcontent.of_eq hlive hpriv rfl rfl rfl rfl, hfault⟩
  · split
    · next hi =>
      rw [hi, MqNode.refs_of_live ((hlive q).trans hl), update_self]
    · next hi => exact congrArg MqNode.refs (update_of_ne hi _ s.node).symm
  · exact hcalls.of_nodes rfl rfl (fun t i hi => (hlive i).trans (hcalls.live t i hi))
      fun t i _ => (congrArg Mqueue.msgsize (hpriv i)).le

include hl in
/-- Nothing refers to a node and it goes. -/
theorem Inv.freeNode (h : Inv s) (hnone : s.owners q = 0) (hfar : ∀ t, (s.call t).queue ≠ some q) :
    Inv (s.freeNode q) := by
  have hother : ∀ {i}, i ≠ q → (s.freeNode q).node i = s.node i := fun hi => update_of_ne hi ..
  have hne : ∀ t i, (s.call t).queue = some i → i ≠ q := fun t i hi hiq => hfar t (hiq ▸ hi)
  refine ⟨⟨?_, ?_, h.refs.files⟩, ?_, ?_, h.fault⟩
  · exact (forall_update_iff s.node fun i y => s.owners i = y.refs).mpr ⟨hnone, fun i _ => h.refs.owners i⟩
  · exact (forall_update_iff s.node fun i y => s.nextNode ≤ i → y.live = false).mpr
      ⟨fun _ => rfl, fun i _ => h.refs.fresh i⟩
  · exact h.calls.of_nodes rfl rfl (fun t i hi => by rw [hother (hne t i hi), h.calls.live t i hi])
      fun t i hi => by rw [hother (hne t i hi)]
  · exact h.content.freeNode hl (h.refs.lt_nextNode hl)

include hl in
/-- **A reference goes.**  `s` is the state in which the owner has gone and the count has not. -/
theorem Inv.dropNode (hown : ∀ i, s.owners i + one (i = q) = (s.node i).refs)
    (hfresh : ∀ i, s.nextNode ≤ i → (s.node i).live = false)
    (hfiles : ∀ f, s.nextFile ≤ f → (s.file f).used = false) (hcalls : Calls s)
    (hcontent : Content s) (hfault : s.fault = false) (hquiet : s.Quiet q) : Inv (s.dropNode q) := by
  have hcount := hown q
  rw [MqNode.refs_of_live hl, one_pos rfl] at hcount
  set s₁ := s.setNode q { s.node q with refcount := (s.node q).refcount - 1 } with hs₁
  -- one reference fewer; the last one frees the queue
  have hinv : Inv s₁ := by
    refine Inv.recount hl hcalls hcontent hfresh hfault (fun i => ?_) hfiles
    have hi := hown i
    show s.owners i = _
    split
    · next hiq =>
      rw [hiq]
      omega
    · next hiq =>
      rw [one_neg hiq] at hi
      exact hi
  unfold MqSys.dropNode
  rw [← hs₁]
  by_cases hone : (s.node q).refcount = 1
  · rw [if_pos hone]
    have hl₁ : (s₁.node q).live = true := by
      rw [show s₁.node q = _ from update_self ..]
      exact hl
    refine hinv.freeNode hl₁ (show s.owners q = 0 by omega) fun t ht => ?_
    rcases Nat.lt_or_ge t s.tasks with hlt | hge
    · exact hquiet hone t hlt ht
    · rw [hinv.calls.idle t hge] at ht
      cases ht
  · rw [if_neg hone]
    exact hinv

end Drop

theorem findDirent_spec (h : s.findDirent name = some q) :
    ∃ l₁ e l₂, s.children = l₁ ++ e :: l₂ ∧ e.2 = q ∧
      s.children.eraseP (fun e => decide (e.1 = name)) = l₁ ++ l₂ := by
  obtain ⟨e, he, rfl⟩ := Option.map_eq_some_iff.mp h
  have hname := List.find?_some he
  obtain ⟨a, l₁, l₂, hl₁, ha, hl, herase⟩ := 
    List.exists_of_eraseP (p := fun e : List UInt8 × Nat => decide (e.1 = name)) (List.mem_of_find?_eq_some he) hname
  refine ⟨l₁, a, l₂, hl, ?_, herase⟩
  -- both name the first entry of that name
  rw [hl, List.find?_append, List.find?_eq_none.mpr (fun x hx => by simpa using hl₁ x hx),
    List.find?_cons_of_pos (p := fun e : List UInt8 × Nat => decide (e.1 = name)) ha]
    at he
  rw [Option.some.inj he]

/-- A directory entry holds its queue. -/
theorem Refs.live_of_child (h : Refs s) {e : List UInt8 × Nat} (he : e ∈ s.children) :
    (s.node e.2).live = true := by
  have hpos : 0 < s.children.countP fun x => decide (x.2 = e.2) :=
    List.countP_pos_iff.mpr ⟨e, he, by simp⟩
  have hown := h.owners e.2
  unfold MqSys.owners at hown
  exact MqNode.live_of_refs (by omega)

/-- An open description holds its queue. -/
theorem Refs.live_of_file (h : Refs s) (hf : (s.file f).used = true) :
    (s.node (s.file f).node).live = true ∧ f < s.nextFile ∧
      (s.node (s.file f).node).refcount ≠ 0 := by
  have hlt : f < s.nextFile := by
    by_contra hno
    rw [h.files f (by omega)] at hf
    cases hf
  have hpos := one_le_countOf (q := fun x : MqFile => x.used = true ∧ x.node = (s.file f).node)
    hlt ⟨hf, rfl⟩
  have hown := h.owners (s.file f).node
  unfold MqSys.owners at hown
  have hlive := MqNode.live_of_refs (x := s.node (s.file f).node) (by omega)
  rw [MqNode.refs_of_live hlive] at hown
  exact ⟨hlive, hlt, by omega⟩

section

variable (h : Inv s)
include h

theorem Inv.delete (hquiet : ∀ q ∈ s.findDirent name, s.Quiet q) :
    Inv (s.delete name) := by
  unfold MqSys.delete
  split
  · exact h
  · next q hq =>
    obtain ⟨l₁, e, l₂, hl, rfl, herase⟩ := findDirent_spec hq
    rw [herase]
    have hlive := h.refs.live_of_child (e := e) (by rw [hl]; simp)
    refine Inv.dropNode hlive (fun i => ?_) h.refs.fresh h.refs.files
      { h.calls with } (h.content.of_eq (fun _ => rfl) (fun _ => rfl) rfl rfl rfl rfl) h.fault (hquiet _ hq)
    rw [← h.refs.owners i]
    unfold MqSys.owners
    rw [hl, List.countP_append, List.countP_append, List.countP_cons]
    have hone : (if decide (e.2 = i) = true then 1 else 0) = one (i = e.2) := by
      exact if_congr (decide_eq_true_iff.trans eq_comm) rfl rfl
    dsimp only
    omega

theorem Inv.close (hf : (s.file f).used = true) (hquiet : s.Quiet (s.file f).node) :
    Inv (s.close f) := by
  obtain ⟨hlive, hlt, hne⟩ := h.refs.live_of_file hf
  unfold MqSys.close
  rw [if_neg hne]
  refine Inv.dropNode hlive (fun i => ?_) h.refs.fresh (fun g hg => ?_)
    { h.calls with } (h.content.of_eq (fun _ => rfl) (fun _ => rfl) rfl rfl rfl rfl) h.fault hquiet
  · have hup := countOf_update (q := fun x : MqFile => x.used = true ∧ x.node = i) (g := s.file)
      (x := { s.file f with used := false }) hlt
    rw [one_neg (p := (_ : Bool) = true ∧ _) fun hno => Bool.false_ne_true hno.1] at hup
    have hone : one ((s.file f).used = true ∧ (s.file f).node = i) = one (i = (s.file f).node) := by
      exact if_congr ((and_iff_right hf).trans eq_comm) rfl rfl
    have := h.refs.owners i
    unfold MqSys.owners at this ⊢
    dsimp only at hup ⊢
    omega
  · show (update s.file f _ g).used = false
    have hg : s.nextFile ≤ g := hg
    rw [update_of_ne (by omega), h.refs.files g hg]

theorem Inv.openFile (name : List UInt8) (flags : MqFlags) :
    Inv (s.openFile name flags) := by
  unfold MqSys.openFile
  split
  · exact h
  · next q hq =>
    obtain ⟨l₁, e, l₂, hl, rfl, -⟩ := findDirent_spec hq
    have hlive := h.refs.live_of_child (e := e) (by rw [hl]; simp)
    refine Inv.recount hlive h.calls h.content h.refs.fresh h.fault (fun i => ?_) fun g hg => ?_
    · have hi := h.refs.owners i
      have hfiles : countOf s.nextFile (fun x => x.used = true ∧ x.node = i)
          (update s.file s.nextFile ⟨true, e.2, flags⟩) =
            countOf s.nextFile (fun x => x.used = true ∧ x.node = i) s.file :=
        countOf_congr fun k hk => by rw [update_of_ne (by omega)]
      unfold MqSys.owners at hi
      rw [countOf_succ, update_self, hfiles]
      split
      · next hie =>
        subst hie
        rw [MqNode.refs_of_live hlive] at hi
        rw [one_pos ⟨rfl, rfl⟩]
        omega
      · next hie =>
        rw [one_neg fun hno => hie hno.2.symm]
        exact hi
    · rw [update_of_ne (by omega), h.refs.files g (by omega)]

/-! ### The calls -/

theorem Inv.waitStep (t : Nat) (w : MqWait) (signal : Bool) (now : Nat) :
    Inv (s.waitStep t w signal now) := by
  unfold MqSys.waitStep
  split
  · exact h.finish t _
  · exact h

theorem Inv.doSend (ht : t < s.tasks) (hl : (s.node q).live = true) (flags : MqFlags)
    (arg : MqArg Arg) (now : Nat) : Inv (s.doSend t q flags arg now) := by
  unfold MqSys.doSend
  split
  any_goals exact h.finish t _
  split_ifs
  any_goals exact h.finish t _
  refine h.setCall (fun hno => absurd ht (by omega)) (fun i hi => ?_) fun i n w hi => by cases hi
  obtain rfl := Option.some.inj hi
  exact hl

theorem Inv.doReceive (ht : t < s.tasks) (hl : (s.node q).live = true) (flags : MqFlags)
    (arg : MqArg Arg) (now : Nat) : Inv (s.doReceive t q flags arg now) := by
  unfold MqSys.doReceive
  split
  any_goals exact h.finish t _
  split_ifs
  any_goals exact h.finish t _
  refine h.setCall (fun hno => absurd ht (by omega)) (fun i hi => ?_) fun i n w hi => ?_
  · obtain rfl := Option.some.inj hi
    exact hl
  · -- the buffer is checked against the limit of this moment, which can only shrink
    cases hi
    omega

end

/-- `MQCTL_INIT` would set the limits. -/
def initSets (x : Mqueue) (maxmsg msgsize : Int) : Prop :=
  x.configured = false ∧ 0 < maxmsg ∧ maxmsg ≤ mqMaxmsgMax ∧ 0 < msgsize ∧ msgsize ≤ mqMsgsizeMax
deriving Decidable

/-- The messages of a queue fit new limits. -/
def Fits (x : Mqueue) (maxmsg msgsize : Int) : Prop :=
  (x.head.length : Int) ≤ maxmsg ∧ ∀ m ∈ x.head, (m.len : Int) ≤ msgsize
deriving Decidable

theorem Inv.doInit (h : Inv s) (hl : (s.node q).live = true) {arg : MqArg (Int × Int)}
    (hfits : ∀ maxmsg msgsize, arg = .ok (maxmsg, msgsize) →
      initSets (s.node q).priv maxmsg msgsize → Fits (s.node q).priv maxmsg msgsize) :
    Inv (s.doInit t q arg) := by
  unfold MqSys.doInit
  split
  · exact h.finish t _
  · exact h.finish t _
  · next maxmsg msgsize =>
    dsimp only
    split_ifs with hconf hmax hsize
    · exact h.finish t _
    · exact h.finish t _
    · exact h.finish t _
    · have hsets : initSets (s.node q).priv maxmsg msgsize :=
        ⟨by simpa using hconf, by omega, by omega, by omega, by omega⟩
      -- what is queued already must fit the new limits
      obtain ⟨hroom, hlens⟩ := hfits maxmsg msgsize rfl hsets
      have hold := h.content.queue q hl
      refine (h.setQueue hl (x := { (s.node q).priv with
        maxmsg := maxmsg.toNat, msgsize := msgsize.toNat, configured := true }) rfl ?_ ?_).finish t _
      · exact
          { hold with
            room := by
              show (s.node q).priv.head.length ≤ maxmsg.toNat
              omega
            fits := fun m hm => by
              have := hlens m hm
              show m.len ≤ msgsize.toNat
              omega
            limit := by
              show msgsize.toNat ≤ _
              omega
            unset := fun hno => Bool.noConfusion hno }
      · have := hold.unset hsets.1
        have hdef : mqDefaultMsgsize = mqMsgsizeMax := rfl
        show msgsize.toNat ≤ _
        omega

theorem Inv.doNotify (h : Inv s) (hl : (s.node q).live = true) (t pid : Nat) (signo : MqArg Nat) :
    Inv (s.doNotify t q pid signo) := by
  have hold := h.content.queue q hl
  -- the registration is not one of the fields the invariant speaks of
  have hreg : ∀ p n, Inv (s.setQueue q { (s.node q).priv with notifyPid := p, notifySig := n }) :=
    fun p n => h.setQueue hl rfl { hold with } le_rfl
  unfold MqSys.doNotify
  dsimp only
  split
  · exact h.finish t _
  · exact h.finish t _
  · exact (hreg 0 0).finish t _
  · split_ifs
    · exact h.finish t _
    · exact h.finish t _
    · have hf := h.finish t (.ok ())
      exact
        { refs := { hf.refs with }
          calls := { hf.calls with }
          content := hf.content.of_eq (fun _ => rfl) (fun _ => rfl) rfl rfl rfl rfl
          fault := hf.fault }
    · exact (hreg _ _).finish t _

/-- What a put does to the queue: the registration may go, too. -/
theorem put_spec (s : MqSys) (t q : Nat) (m : MqMsg) :
    ∃ x : Mqueue, (s.put t q m).node = (s.setQueue q x).node ∧
      x.head = mqEnqueue (s.node q).priv.head m ∧ x.curmsgs = (s.node q).priv.curmsgs + 1 ∧
      x.maxmsg = (s.node q).priv.maxmsg ∧ x.msgsize = (s.node q).priv.msgsize ∧
      x.configured = (s.node q).priv.configured := by
  refine ⟨_, rfl, ?_⟩
  split_ifs
  · exact ⟨rfl, rfl, rfl, rfl, rfl⟩
  · exact ⟨rfl, rfl, rfl, rfl, rfl⟩

/-- **One pass of a send**: the message is charged and queued, or nothing changes. -/
theorem Inv.sendPass (h : Inv s) (hl : (s.node q).live = true) {len : Nat} {user : Option (List UInt8)}
    (huser : ∀ data ∈ user, data.length = len) (t prio : Nat) (w : MqWait) (memOk signal : Bool)
    (now : Nat) : Inv (s.sendPass t q len prio w memOk user signal now) := by
  have hold := h.content.queue q hl
  unfold MqSys.sendPass
  by_cases hlen : (s.node q).priv.msgsize < len
  · rw [if_pos hlen]
    exact h.finish t _
  rw [if_neg hlen]
  by_cases hroom : (s.node q).priv.curmsgs < (s.node q).priv.maxmsg
  swap
  · rw [if_neg hroom]
    exact h.waitStep t w signal now
  rw [if_pos hroom]
  have hlimit := hold.limit
  rcases mqAllocMsg_spec memOk h.content.budget (by omega : len ≤ mqMsgsizeMax) with hno | ⟨hyes, hmax⟩
  · rw [hno]
    exact h.finish t _
  rw [hyes]
  cases user with
  -- the copy from user space failed: the bytes are given back
  | none =>
    dsimp only
    rw [mqReleaseBytes_eq (by omega) hmax, Nat.add_sub_cancel]
    exact h.finish t _
  | some data =>
    obtain rfl := huser data rfl
    obtain ⟨x, hnode, hhead, hcur, hmaxm, hsize, hconf⟩ :=
      put_spec { s with bytes := s.bytes + (mqMsgHeader + data.length) } t q ⟨prio, data, s.sent.length⟩
    exact
      { refs := h.refs.changed hnode rfl rfl rfl rfl
        calls := h.calls.returned hsize.le rfl rfl hnode
        content := h.content.put hl (h.refs.lt_nextNode hl) rfl (by show data.length ≤ _; omega)
          (by rw [← hold.count]; exact hroom) hhead hcur hmaxm hsize hconf hmax |>.of_eq
            (fun _ => by rw [hnode]; rfl) (fun _ => by rw [hnode]; rfl) rfl rfl rfl rfl
        fault := h.fault }

/-- **One pass of a receive**: the first message is delivered, or nothing changes. -/
theorem Inv.receivePass (h : Inv s) (hl : (s.node q).live = true) {n : Nat} {dataOk argOk : Bool}
    (hn : (s.node q).priv.msgsize ≤ n)
    (hok : (s.node q).priv.head ≠ [] → dataOk = true ∧ argOk = true) (t : Nat) (w : MqWait)
    (signal : Bool) (now : Nat) : Inv (s.receivePass t q n w dataOk argOk signal now) := by
  unfold MqSys.receivePass
  dsimp only
  split
  · exact h.waitStep t w signal now
  · next m rest hhead =>
    obtain ⟨rfl, rfl⟩ := hok (by rw [hhead]; exact List.cons_ne_nil _ _)
    let x : Mqueue := { (s.node q).priv with head := rest, curmsgs := (s.node q).priv.curmsgs - 1 }
    exact
      { refs := h.refs.changed rfl rfl rfl rfl rfl
        calls := h.calls.returned (x := x) le_rfl rfl rfl rfl
        content := (h.content.take hl (h.refs.lt_nextNode hl) hhead hn rfl rfl).of_eq
          (fun _ => rfl) (fun _ => rfl) rfl rfl rfl (by rw [hhead]; rfl)
        fault := h.fault }

/-! ### Runs -/

/-- What a run has to keep to. -/
def Clean (s : MqSys) : Event → Prop
  | .unlink name => ∀ q ∈ s.findDirent name, s.Quiet q
  | .close f => s.Quiet (s.file f).node
  | .init _ f (.ok (maxmsg, msgsize)) =>
    initSets (s.node (s.file f).node).priv maxmsg msgsize →
      Fits (s.node (s.file f).node).priv maxmsg msgsize
  | .pass t _ _ dataOk argOk _ _ =>
    match s.call t with
    | .receiving q _ _ => (s.node q).priv.head ≠ [] → dataOk = true ∧ argOk = true
    | _ => True
  | _ => True

instance decidableClean (s : MqSys) (e : Event) : Decidable (Clean s e) := by
  unfold Clean
  split
  · infer_instance
  · infer_instance
  · infer_instance
  · split <;> infer_instance
  · infer_instance

theorem Inv.step {ev : Event} (h : Inv s) (hc : Clean s ev) (hs : step s ev = some s') : Inv s' := by
  cases ev with
  | create name memOk =>
    obtain rfl := Option.some.inj hs
    exact h.create name memOk
  | unlink name =>
    obtain rfl := Option.some.inj hs
    exact h.delete hc
  | openFile name flags =>
    obtain rfl := Option.some.inj hs
    exact h.openFile name flags
  | close f =>
    obtain ⟨hf, rfl⟩ := of_guard hs
    exact h.close hf hc
  -- a change of flags moves no file to another queue
  | setattr f nonblock =>
    obtain ⟨hf, rfl⟩ := of_guard hs
    set x : MqFile := { s.file f with flags := { (s.file f).flags with nonblock := nonblock } } with hx
    have hfile : ∀ g, (update s.file f x g).used = (s.file g).used ∧
        (update s.file f x g).node = (s.file g).node :=
      (forall_update_iff s.file fun g y => y.used = (s.file g).used ∧ y.node = (s.file g).node).mpr
        ⟨⟨rfl, rfl⟩, fun _ _ => ⟨rfl, rfl⟩⟩
    refine
      { refs := h.refs.of_eq (fun _ => rfl) (fun _ => rfl) rfl (fun i => ?_) fun g hg => ?_
        calls := { h.calls with }
        content := h.content.of_eq (fun _ => rfl) (fun _ => rfl) rfl rfl rfl rfl
        fault := h.fault }
    · refine congrArg _ (countOf_congr fun k _ => ?_)
      rw [(hfile k).1, (hfile k).2]
    · exact (hfile g).1.trans (h.refs.files g hg)
  | init t f arg =>
    obtain ⟨hmay, rfl⟩ := of_guard hs
    exact h.doInit (h.refs.live_of_file hmay.2.2).1 fun maxmsg msgsize harg => by
      subst harg
      exact hc
  | notify t f pid signo =>
    obtain ⟨hmay, rfl⟩ := of_guard hs
    exact h.doNotify (h.refs.live_of_file hmay.2.2).1 t pid signo
  | send t f arg now =>
    obtain ⟨hmay, rfl⟩ := of_guard hs
    exact h.doSend hmay.1 (h.refs.live_of_file hmay.2.2).1 _ arg now
  | receive t f arg now =>
    obtain ⟨hmay, rfl⟩ := of_guard hs
    exact h.doReceive hmay.1 (h.refs.live_of_file hmay.2.2).1 _ arg now
  | pass t memOk user dataOk argOk signal now =>
    unfold MqSys.step at hs
    unfold Clean at hc
    dsimp only at hs hc
    split at hs
    · cases hs
    · next q len prio w hcall =>
      obtain ⟨huser, rfl⟩ := of_guard hs
      have hl := h.calls.live t q (by rw [hcall]; rfl)
      -- the node a caller works on is live, so the pass finds it
      unfold onQueue
      rw [if_pos hl]
      exact h.sendPass hl huser t prio w memOk signal now
    · next q n w hcall =>
      obtain rfl := Option.some.inj hs
      have hl := h.calls.live t q (by rw [hcall]; rfl)
      rw [hcall] at hc
      unfold onQueue
      rw [if_pos hl]
      exact h.receivePass hl (h.calls.room t q n w hcall) hc t w signal now

/-! ### The main theorem -/

/-- **What message queues promise** of a state and of everything received so far. -/
structure Faithful (s : MqSys) : Prop where
  /-- A receive returned a message that was sent to the queue, byte for byte, of the highest
  priority among those queued and the oldest of that priority, and stored no more bytes than
  it was offered. -/
  received : ∀ r ∈ s.taken, (r.queue, r.msg) ∈ s.sent ∧ r.msg ∈ r.queued ∧
    (∀ m ∈ r.queued, m.prio ≤ r.msg.prio ∧ (m.prio = r.msg.prio → r.msg.serial ≤ m.serial)) ∧
    r.msg.len ≤ r.offered
  /-- Serial numbers are the order of the sends. -/
  age : ∀ i (e : Nat × MqMsg), s.sent[i]? = some e → e.2.serial = i
  /-- The attributes of a queue bound its list. -/
  bounded : ∀ q, (s.node q).live = true →
    (∀ m ∈ (s.node q).priv.head, m.len ≤ (s.node q).priv.msgsize) ∧
    (s.node q).priv.curmsgs = (s.node q).priv.head.length ∧
    (s.node q).priv.head.length ≤ (s.node q).priv.maxmsg
  /-- What is taken out of a queue is delivered, and delivered once. -/
  delivered : (∀ r ∈ s.taken, r.delivered = true) ∧ (s.taken.map fun r => r.msg.serial).Nodup
  /-- A message that was sent to a queue is in the queue until it is taken. -/
  kept : ∀ e ∈ s.sent, (s.node e.1).live = true →
    (e.2 ∈ (s.node e.1).priv.head ↔ ∀ r ∈ s.taken, r.msg.serial ≠ e.2.serial)
  /-- Nothing else is in a queue. -/
  queued : ∀ q, (s.node q).live = true → ∀ m ∈ (s.node q).priv.head, (q, m) ∈ s.sent
  /-- The counter is the sum over all messages of all queues, and within the budget. -/
  bytes : s.bytes = tally s.nextNode s.nodeBytes ∧ s.bytes ≤ mqBytesMax
  /-- All queues are counted. -/
  counted : ∀ q, (s.node q).live = true → q < s.nextNode
  fault : s.fault = false

theorem Inv.faithful (h : Inv s) : Faithful s where
  received r hr := by
    obtain ⟨hsent, hmem, hbest, hoff, -⟩ := h.content.taken r hr
    refine ⟨hsent, hmem, fun m hm => ?_, hoff⟩
    rcases hbest m hm with rfl | hbefore
    · exact ⟨le_rfl, fun _ => le_rfl⟩
    · unfold MqMsg.Before at hbefore
      omega
  age := h.content.serial
  bounded q hq :=
    have hsound := h.content.queue q hq
    ⟨hsound.fits, hsound.count, hsound.room⟩
  delivered := ⟨fun r hr => (h.content.taken r hr).delivered, h.content.once⟩
  kept e he hq := by
    refine ⟨h.content.left e.1 hq e.2, fun hnot => ?_⟩
    rcases h.content.kept e he hq with hmem | ⟨r, hr, -, hmsg⟩
    · exact hmem
    · exact absurd (congrArg MqMsg.serial hmsg) (hnot r hr)
  queued := h.content.queued
  bytes := ⟨h.content.bytes, h.content.budget⟩
  counted q hq := h.refs.lt_nextNode hq
  fault := h.fault

/-- **Message queues are faithful** in every run in which `MQCTL_INIT` sets limits that fit what
is queued, the copies of a receiver succeed and a queue is freed only while no call works on it. -/
theorem mqueue_faithful (n : Nat) (es : List Event) (s : MqSys)
    (hclean : MeetsAll step Clean (start n) es) (hrun : run step (start n) es = some s) : Faithful s :=
  (run_invariant Inv.step (Inv.start n) hclean hrun).faithful

/-! ### Runs that do and do not keep to it -/

/-- A queue with an open description for reading and writing. -/
def opened : List Event := [.create [113] true, .openFile [113] ⟨2, false⟩]

/-- Task 0 sends `data` with priority `prio`. -/
def sends (prio : Nat) (data : List UInt8) : List Event :=
  [.send 0 0 (.ok ⟨true, data.length, prio, -1, true⟩) 0, .pass 0 true (some data) true true false 0]

/-- Task 1 receives into a buffer of `n` bytes. -/
def receives (n : Nat) : List Event :=
  [.receive 1 0 (.ok ⟨true, n, 0, -1, true⟩) 0, .pass 1 true none true true false 0]

def tidyRun : List Event :=
  opened ++ [.init 0 0 (.ok (2, 4))] ++ sends 1 [1, 2] ++ sends 3 [3] ++ receives 4 ++
    [.unlink [113], .close 0]

theorem mqueue_faithful_tidyRun :
    MeetsAll step Clean (start 2) tidyRun ∧
      ∃ s, run step (start 2) tidyRun = some s ∧ Faithful s ∧
        s.taken = [⟨0, ⟨3, [3], 1⟩, [⟨3, [3], 1⟩, ⟨1, [1, 2], 0⟩], 4, true⟩] ∧ s.bytes = 0 := by
  have hclean : MeetsAll step Clean (start 2) tidyRun := by decide +kernel
  exact ⟨hclean, exists_of_check (by decide +kernel) fun s hs hview =>
    ⟨mqueue_faithful 2 tidyRun s hclean hs, hview⟩⟩

/-- Three bytes are accepted under the default limits, then the limits become one message of one
byte. -/
def lateInit : List Event := opened ++ sends 0 [7, 8, 9] ++ [.init 0 0 (.ok (1, 1))] ++ receives 1

/-- **A late `MQCTL_INIT`**: a receiver that offers one byte, as the limit allows, gets three. -/
theorem init_strands_message :
    ∃ s, run step (start 2) lateInit = some s ∧ ¬Faithful s ∧
      ∃ r ∈ s.taken, r.offered = 1 ∧ r.msg.data = [7, 8, 9] ∧ r.delivered = true := by
  refine exists_of_check (p := fun s => ∃ r ∈ s.taken, r.offered = 1 ∧ r.msg.data = [7, 8, 9] ∧
    r.delivered = true) (by decide +kernel) fun s _ hview => ⟨fun h => ?_, hview⟩
  obtain ⟨r, hr, hoffered, hdata, -⟩ := hview
  have hlen := (h.received r hr).2.2.2
  rw [MqMsg.len, hdata, hoffered] at hlen
  exact absurd hlen (by decide)

end MqSys

end CactKernel
