/-
CactKernel/Net/Dns.lean

Name lookups over one socket (`net/rust_net/src/dns_resolve.rs`).

`rust_net_dns_resolve_a` takes `DNS_SEMA` around a lookup; the HTTP client calls
`resolve_a` without it.  The first send of a lookup flushes the receive queue, and
from then on whoever polls takes the next datagram off it, for whomever it is.

A `DnsReply` remembers the lookup it answers.  Lookups stay apart if those of the HTTP
client overlap no other, and if no late reply carries the id of the lookup that
waits: an id is the low half of the clock, so it comes round (`Clean`).
**Main result** `lookups_apart`.
-/
import CactKernel.Lib.Run

namespace CactKernel

open Function Runs

variable {n : Nat}

/-- A reply to a query of `lookup`; `answer` is what `parse_dns_a_response` finds behind the id. -/
structure DnsReply (n : Nat) where
  lookup : Fin n
  id : UInt16
  src : UInt32
  answer : Option UInt32
deriving DecidableEq

/-- How far a lookup is. -/
inductive DnsPhase (n : Nat) where
  | idle
  /-- `rust_net_dns_resolve_a` has `DNS_SEMA`. -/
  | entered
  | waiting
  | over (reply : Option (DnsReply n))
deriving DecidableEq

/-- A lookup: whose it is, and what it accepts as an answer. -/
structure DnsLookup (n : Nat) where
  phase : DnsPhase n
  http : Bool
  id : UInt16
  dnsHost : UInt32

/-- The receive queue, who has `DNS_SEMA`, and the lookups. -/
structure DnsSys (n : Nat) where
  queue : List (DnsReply n)
  sema : Option (Fin n)
  look : Fin n → DnsLookup n

namespace DnsSys

def booted (n : Nat) : DnsSys n := ⟨[], none, fun _ => ⟨.idle, false, 0, 0⟩⟩

def setPhase (s : DnsSys n) (k : Fin n) (p : DnsPhase n) : DnsSys n :=
  { s with look := update s.look k { s.look k with phase := p } }

/-- The tests of `try_recv_dns_reply`. -/
def Accepts (x : DnsLookup n) (d : DnsReply n) : Prop := d.src = x.dnsHost ∧ d.id = x.id ∧ d.answer.isSome
deriving Decidable

/-- `try_recv_dns_reply`. -/
def tryRecvDnsReply (s : DnsSys n) (k : Fin n) : DnsSys n :=
  match s.queue with
  | [] => s
  | d :: rest =>
    { s with queue := rest }.setPhase k (if Accepts (s.look k) d then .over (some d) else .waiting)

/-- What becomes of a first send: there is no socket, the send fails behind the flush, or it is sent. -/
inductive Send where
  | noSocket
  | failed
  | sent
deriving DecidableEq

/-- A section under the stack lock, or an arrival. -/
inductive Event (n : Nat) where
  /-- `sema_try_down` takes the token. -/
  | tryDown (k : Fin n)
  /-- `send_query` with `flush`; without the token the caller is the HTTP client. -/
  | firstSend (k : Fin n) (ticks dnsHost : UInt32) (send : Send)
  | poll (k : Fin n)
  /-- The deadline, a signal, or a name that is not sent. -/
  | giveUp (k : Fin n)
  | up (k : Fin n)
  /-- The server answers a query of lookup `k`, be it again or late. -/
  | arrive (k : Fin n) (answer : Option UInt32)
deriving DecidableEq

/-- The steps under a lock; a retransmission leaves all of this as it is. -/
def step (s : DnsSys n) (e : Event n) : Option (DnsSys n) :=
  match e with
  | .tryDown k =>
    if (s.look k).phase = .idle ∧ s.sema = none then
      some { s with sema := some k, look := (s.setPhase k .entered).look }
    else none
  | .firstSend k ticks dnsHost send =>
    if (s.look k).phase = .idle ∨ (s.look k).phase = .entered then
      some { s with
        queue := if send = .noSocket then s.queue else []
        look := update s.look k ⟨if send = .sent then .waiting else .over none, decide ((s.look k).phase = .idle),
          ticks.toUInt16 ^^^ 0xa5a5, dnsHost⟩ }
    else none
  | .poll k => if (s.look k).phase = .waiting then some (s.tryRecvDnsReply k) else none
  | .giveUp k =>
    if (s.look k).phase = .entered ∨ (s.look k).phase = .waiting then some (s.setPhase k (.over none))
    else none
  | .up k =>
    if s.sema = some k ∧ (s.look k).phase ≠ .entered ∧ (s.look k).phase ≠ .waiting then
      some { s with sema := none }
    else none
  | .arrive k answer =>
    if (s.look k).phase ≠ .idle ∧ (s.look k).phase ≠ .entered ∧ s.queue.length < 4 then
      some { s with queue := s.queue ++ [⟨k, (s.look k).id, (s.look k).dnsHost, answer⟩] }
    else none

/-- **The condition**: a first send with the token, while only lookups with the token wait, and no
reply to one lookup that another one would accept. -/
def Clean (s : DnsSys n) : Event n → Prop
  | .firstSend k _ _ _ =>
    ∀ j, (s.look j).phase = .waiting → (s.look j).http = false ∧ (s.look k).phase = .entered
  | .arrive k answer =>
    ∀ j, (s.look j).phase = .waiting → Accepts (s.look j) ⟨k, (s.look k).id, (s.look k).dnsHost, answer⟩ → k = j
  | _ => True

instance decidableClean (s : DnsSys n) (e : Event n) : Decidable (s.Clean e) := by
  cases e <;> unfold Clean <;> infer_instance

/-- What holds of lookup `k`, when nobody but `w` waits. -/
structure LookupOk (s : DnsSys n) (w : Option (Fin n)) (k : Fin n) (x : DnsLookup n) : Prop where
  waits : x.phase = .waiting → w = some k
  sema : x.phase = .entered ∨ x.phase = .waiting ∧ x.http = false → s.sema = some k
  queue : x.phase = .waiting → ∀ d ∈ s.queue, Accepts x d → d.lookup = k
  result : ∀ d, x.phase = .over (some d) → d.lookup = k

/-- **The invariant.** -/
def Apart (s : DnsSys n) : Prop := ∃ w, ∀ k, s.LookupOk w k (s.look k)

variable {s s' : DnsSys n} {w : Option (Fin n)} {k : Fin n} {e : Event n}

/-- At boot nobody looks anything up. -/
theorem booted_apart : (booted n).Apart := by
  refine ⟨none, fun _ => ?_⟩
  constructor <;> simp [booted]

/-- A lookup that neither has the token nor waits. -/
theorem lookupOk_of_over {x : DnsLookup n} (h : x.phase = .over none) : s.LookupOk w k x := by
  constructor <;> simp [h]

/-- Nobody waits when a lookup begins. -/
theorem none_waiting (h : ∀ k, s.LookupOk w k (s.look k)) {ticks dnsHost : UInt32} {send : Send}
    (hc : s.Clean (.firstSend k ticks dnsHost send)) (j : Fin n) : (s.look j).phase ≠ .waiting := by
  intro hj
  obtain ⟨hhttp, hk⟩ := hc j hj
  -- both would have the token
  have hjk := ((h j).sema (.inr ⟨hj, hhttp⟩)).symm.trans ((h k).sema (.inl hk))
  rw [Option.some.inj hjk, hk] at hj
  exact nomatch hj

/-- A lookup takes the first datagram, whoever it is for. -/
theorem Apart.poll (h : ∀ k, s.LookupOk w k (s.look k)) (hk : (s.look k).phase = .waiting) :
    (s.tryRecvDnsReply k).Apart := by
  unfold tryRecvDnsReply
  split
  · exact ⟨w, h⟩
  next d rest hq =>
  refine ⟨w, (forall_update_iff s.look _).mpr ⟨?_, fun j _ => ?_⟩⟩
  · have hd : Accepts (s.look k) d → d.lookup = k := (h k).queue hk d (hq ▸ List.mem_cons_self)
    split
    · next ha => exact ⟨nofun, nofun, nofun, fun d' hd' => by cases hd'; exact hd ha⟩
    · exact ⟨fun _ => (h k).waits hk, fun hs => (h k).sema (hs.imp (nomatch ·) fun hs => ⟨hk, hs.2⟩),
        fun _ d' hd' => (h k).queue hk d' (hq ▸ List.mem_cons_of_mem _ hd'), nofun⟩
  · exact { h j with queue := fun hj d' hd' => (h j).queue hj d' (hq ▸ List.mem_cons_of_mem _ hd') }

/-- **One step.** -/
theorem step_apart (h : s.Apart) (hc : s.Clean e) (hs : step s e = some s') : s'.Apart := by
  obtain ⟨w, h⟩ := h
  cases e <;> obtain ⟨hg, rfl⟩ := of_guard hs
  case tryDown k =>
    refine ⟨w, (forall_update_iff s.look _).mpr ⟨⟨nofun, fun _ => rfl, nofun, nofun⟩, fun j _ => ?_⟩⟩
    exact { h j with sema := fun hj => nomatch hg.2.symm.trans ((h j).sema hj) }
  case firstSend k ticks dnsHost send =>
    -- the flush at the first send meets no lookup that waits
    have hnone := none_waiting h hc
    refine ⟨some k, (forall_update_iff s.look _).mpr ⟨?_, fun j _ => ?_⟩⟩
    · cases send
      case noSocket | failed => exact lookupOk_of_over rfl
      · refine ⟨fun _ => rfl, fun hs => (h k).sema (.inl (hg.resolve_left ?_)), fun _ => nofun, nofun⟩
        exact of_decide_eq_false (hs.resolve_left nofun).2
    · exact { h j with
        waits := fun hj => absurd hj (hnone j)
        queue := fun hj => absurd hj (hnone j) }
  case poll k => exact .poll h hg
  case giveUp k => exact ⟨w, (forall_update_iff s.look _).mpr ⟨lookupOk_of_over rfl, fun j _ => { h j with }⟩⟩
  case up k =>
    refine ⟨w, fun j => { h j with sema := fun hj => ?_ }⟩
    obtain rfl := Option.some.inj (hg.1.symm.trans ((h j).sema hj))
    exact (hj.elim hg.2.1 fun hj => hg.2.2 hj.1).elim
  case arrive k answer =>
    refine ⟨w, fun j => { h j with queue := fun hj => ?_ }⟩
    exact List.forall_mem_append.mpr ⟨(h j).queue hj, List.forall_mem_singleton.mpr (hc j hj)⟩

/-- While a lookup waits, nobody else takes a reply to it off the queue. -/
theorem step_keeps (h : s.Apart) (hc : s.Clean e) (hs : step s e = some s') {d : DnsReply n}
    (hd : s'.queue.count d < s.queue.count d) (hw : (s.look d.lookup).phase = .waiting) :
    e = .poll d.lookup := by
  obtain ⟨w, h⟩ := h
  cases e <;> obtain ⟨hg, rfl⟩ := of_guard hs
  case firstSend => exact absurd hw (none_waiting h hc _)
  case poll k => rw [Option.some.inj (((h _).waits hw).symm.trans ((h k).waits hg))]
  case arrive => exact absurd hd (Nat.not_lt.mpr (by rw [List.count_append]; exact Nat.le_add_right ..))
  all_goals exact absurd hd (Nat.lt_irrefl _)

end DnsSys

open DnsSys

/-- **Lookups do not take each other's replies.**  In every run whose steps meet the condition, what
a lookup returns is a reply to it, and no step that meets the condition takes a reply to a lookup
that waits off the queue, but for the lookup's own poll. -/
theorem lookups_apart (n : Nat) {es : List (DnsSys.Event n)} {s : DnsSys n}
    (hc : MeetsAll DnsSys.step DnsSys.Clean (booted n) es)
    (hrun : run DnsSys.step (booted n) es = some s) :
    (∀ k d, (s.look k).phase = .over (some d) → d.lookup = k) ∧
      ∀ e s', s.Clean e → s.step e = some s' → ∀ d, s'.queue.count d < s.queue.count d →
        (s.look d.lookup).phase = .waiting → e = .poll d.lookup := by
  have h : s.Apart := run_invariant step_apart
    booted_apart hc hrun
  exact ⟨fun k => (h.choose_spec k).result, fun _ _ hc hs _ => step_keeps h hc hs⟩

/-- Two lookups by `rust_net_dns_resolve_a`, and a late reply to the first one. -/
def inTurn : List (DnsSys.Event 2) :=
  [.tryDown 0, .firstSend 0 7 1 .sent, .giveUp 0, .up 0, .tryDown 1, .firstSend 1 500 1 .sent,
    .arrive 0 (some 10), .arrive 1 (some 20), .poll 1, .poll 1]

theorem lookups_apart_inTurn : ∃ s, run DnsSys.step (booted 2) inTurn = some s ∧
    (s.look 1).phase = .over (some ⟨1, 500 ^^^ 0xa5a5, 1, some 20⟩) ∧
      ∀ k d, (s.look k).phase = .over (some d) → d.lookup = k :=
  exists_of_check (by decide +kernel) fun s hs hphase =>
    ⟨hphase, (lookups_apart 2 (by decide +kernel) hs).1⟩

/-- The HTTP client begins a lookup and drops the reply for which another one waits.  Two of its
lookups of the same tick take each other's replies; so does one that comes 65536 ticks later. -/
theorem http_lookup_interferes :
    (run DnsSys.step (booted 2) [.tryDown 0, .firstSend 0 7 1 .sent, .arrive 0 (some 10)]).map
        (fun s => ((s.look 0).phase, s.queue.length, (s.step (.firstSend 1 8 1 .sent)).map (·.queue.length))) =
      some (.waiting, 1, some 0) ∧
    ((run DnsSys.step (booted 2)
        [.firstSend 0 7 1 .sent, .firstSend 1 7 1 .sent, .arrive 0 (some 10), .poll 1]).map
          fun s => (s.look 1).phase) = some (.over (some ⟨0, 7 ^^^ 0xa5a5, 1, some 10⟩)) ∧
    ((run DnsSys.step (booted 2) [.tryDown 0, .firstSend 0 7 1 .sent, .giveUp 0, .up 0, .tryDown 1,
        .firstSend 1 65543 1 .sent, .arrive 0 (some 10), .poll 1]).map
          fun s => (s.look 1).phase) = some (.over (some ⟨0, 7 ^^^ 0xa5a5, 1, some 10⟩)) := by
  decide +kernel

end CactKernel
