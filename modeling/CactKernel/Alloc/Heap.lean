/-
CactKernel/Alloc/Heap.lean

The kernel heap (`alloc/heap.rs`): best fit over a linked list of blocks that
lie back to back in one window, with a magic word in front of each block and
a canary behind each allocation.

Everything lives in memory, as in the source: a block is its address, and its
fields are words in front of the payload.  Memory is a function from word
addresses to words; all words the code touches are at multiples of four.  The
walks follow `next` until it is null; their fuel is the number of headers the
window has room for, and `none` stands for a panic or for running out of it.

`Seg w a cells z` is the representation predicate: from the address `a` on,
the words of `w` are the headers of `cells`, back to back, each linked to the
next and the last one to `z`.  Each walk has one spec lemma over it, in terms
of the cells (`Tiling.At`); the two operations that rewrite the list are
`takeBlock_spec` and `coalesceLoop_spec`.
-/
import CactKernel.Lib.Tiling
import CactKernel.Mm.Layout

namespace CactKernel

open Function Tiling

/-- Memory, by word address. -/
abbrev Words := Nat → Nat

def hdrSize : Nat := 16
@[irreducible] def heapMagic : Nat := 0xDEADBEEF
@[irreducible] def heapTailMagic : Nat := 0xC0DEC0DE

namespace HeapBlock

/-! The four fields of the block at `b`. -/

def magic (w : Words) (b : Nat) : Nat := w b
def size (w : Words) (b : Nat) : Nat := w (b + 4)
def isFree (w : Words) (b : Nat) : Nat := w (b + 8)
def next (w : Words) (b : Nat) : Nat := w (b + 12)

/-- Write a whole header. -/
def put (w : Words) (b size isFree next : Nat) : Words :=
  update (update (update (update w b heapMagic) (b + 4) size) (b + 8) isFree) (b + 12) next

end HeapBlock

open HeapBlock

/-- The heap: its memory, `HEAP_START_PTR` and the window `[start, last)`. -/
structure Heap where
  mem : Words
  head : Nat
  start : Nat
  last : Nat

/-- `heap_addr_in_range`. -/
def Heap.inRange (h : Heap) (addr : Nat) : Bool := decide (h.start ≤ addr) && decide (addr < h.last)

/-- As many headers as fit into the window. -/
def Heap.fuel (h : Heap) : Nat := (h.last - h.start) / hdrSize

/-- `init_heap` on a window; `none` for an invalid layout. -/
def initHeap (w : Words) (start last : Nat) : Option Heap :=
  if last - start ≤ hdrSize then none
  else some ⟨put w start (last - start - hdrSize) 1 0, start, start, last⟩

/-! ### `kmalloc` -/

/-- The payload size of a request: rounded up, with room for the canary. -/
def roundSize (size : Nat) : Option Nat :=
  (checkedAdd size 7).bind fun x => (checkedAdd (x / 8 * 8) 4).bind fun y =>
    (checkedAdd y 7).map fun z => z / 8 * 8

/-- The size the walk compares with. -/
def bestSize (w : Words) (best : Nat) : Nat := if best = 0 then 0xFFFFFFFF else size w best

/-- The better of `best` and the block at `cur`. -/
def better (w : Words) (n cur best : Nat) : Nat :=
  if isFree w cur ≠ 0 ∧ n ≤ size w cur ∧ size w cur < bestSize w best then cur else best

/-- The allocation walk; the inner `none` is a bad magic word. -/
def findBest (w : Words) (n : Nat) : Nat → Nat → Nat → Option (Option Nat)
  | 0, cur, best => if cur = 0 then some (some best) else none
  | fuel + 1, cur, best =>
    if cur = 0 then some (some best)
    else if magic w cur ≠ heapMagic then some none
    else findBest w n fuel (next w cur) (better w n cur best)

/-- Split the block at `b` if the rest is worth a block of its own. -/
def splitBlock (w : Words) (b n : Nat) : Words :=
  if n + hdrSize + 8 ≤ size w b then
    update (update (put w (b + hdrSize + n) (size w b - n - hdrSize) 1 (next w b)) (b + 4) n)
      (b + 12) (b + hdrSize + n)
  else w

/-- Mark the block at `b` used and write its canary. -/
def claimBlock (w : Words) (b : Nat) : Words :=
  update (update w (b + 8) 0) (b + hdrSize + size w b - 4) heapTailMagic

def takeBlock (w : Words) (b n : Nat) : Option Words :=
  (checkedAdd n (hdrSize + 8)).map fun _ => claimBlock (splitBlock w b n) b

/-- `kmalloc`; the pointer is 0 when the request fails. -/
def kmalloc (h : Heap) (n : Nat) : Option (Heap × Nat) :=
  if n = 0 then some (h, 0)
  else
    (roundSize n).bind fun n =>
      if h.head < h.start then some (h, 0)
      else
        (findBest h.mem n h.fuel h.head 0).bind fun r =>
          match r with
          | none => some (h, 0)
          | some b =>
            if b = 0 then some (h, 0)
            else (takeBlock h.mem b n).map fun w => ({ h with mem := w }, b + hdrSize)

/-- `kmalloc_aligned` for a power of two `align`: the pointer to the raw
allocation is stored in front of the aligned one. -/
def kmallocAligned (h : Heap) (n align : Nat) : Option (Heap × Nat) :=
  (checkedAdd n (max align 4)).bind fun x => (checkedAdd x 4).bind fun n' =>
    (kmalloc h n').bind fun r =>
      if r.2 = 0 then some (r.1, 0)
      else
        (checkedAdd (r.2 + 4) (max align 4)).map fun y =>
          let aligned := (y - 1) / max align 4 * max align 4
          ({ r.1 with mem := update r.1.mem (aligned - 4) r.2 }, aligned)

/-! ### `kfree` -/

/-- Is the block at `b` linked in the list? -/
def linked (h : Heap) (b : Nat) : Nat → Nat → Option Bool
  | 0, cur => if cur = 0 then some false else none
  | fuel + 1, cur =>
    if cur = 0 ∨ h.inRange cur = false ∨ magic h.mem cur ≠ heapMagic then some false
    else if cur = b then some true
    else linked h b fuel (next h.mem cur)

/-- The block at `cur` absorbs the one at `nxt`. -/
def absorb (w : Words) (cur nxt size : Nat) : Words :=
  update (update (update w nxt 0) (cur + 4) size) (cur + 12) (next w nxt)

/-- The coalescing walk. -/
def coalesceLoop (w : Words) : Nat → Nat → Option Words
  | 0, cur => if cur = 0 then some w else none
  | fuel + 1, cur =>
    if cur = 0 ∨ magic w cur ≠ heapMagic then some w
    else if isFree w cur ≠ 0 ∧ next w cur ≠ 0 then
      if magic w (next w cur) ≠ heapMagic then some w
      else if isFree w (next w cur) ≠ 0 then
        (checkedAdd (size w (next w cur)) hdrSize).bind fun x =>
          (checkedAdd (size w cur) x).bind fun y => coalesceLoop (absorb w cur (next w cur) y) fuel cur
      else coalesceLoop w fuel (next w cur)
    else coalesceLoop w fuel (next w cur)

/-- May the block at `b` be given back? -/
def freeable (w : Words) (b : Nat) : Bool :=
  decide (magic w b = heapMagic) && decide (4 ≤ size w b) &&
    decide (w (b + hdrSize + size w b - 4) = heapTailMagic) && decide (isFree w b = 0)

/-- `kfree_impl`. -/
def kfreeImpl (h : Heap) (ptr : Nat) : Option Heap :=
  if ptr = 0 ∨ h.inRange (ptr - hdrSize) = false then some h
  else
    (linked h (ptr - hdrSize) h.fuel h.head).bind fun found =>
      if found = false ∨ freeable h.mem (ptr - hdrSize) = false then some h
      else
        (coalesceLoop (update h.mem (ptr - hdrSize + 8) 1) h.fuel h.head).map fun w =>
          { h with mem := w }

/-- `kfree`. -/
def kfree (h : Heap) (ptr : Nat) : Option Heap :=
  if ptr = 0 then some h
  else if h.inRange (ptr - hdrSize) = true ∧ magic h.mem (ptr - hdrSize) = heapMagic then
    kfreeImpl h ptr
  -- an aligned allocation: its raw pointer is stored in front of it
  else if h.inRange (h.mem (ptr - 4)) = true ∧
      magic h.mem (h.mem (ptr - 4) - hdrSize) = heapMagic then
    kfreeImpl h (h.mem (ptr - 4))
  else some h

/-! ### The representation predicate -/

/-- The words at `a` are the header of the cell `c`, linked to `nxt`. -/
structure HeaderOk (w : Words) (a : Nat) (c : Cell) (nxt : Nat) : Prop where
  magic : magic w a = heapMagic
  size : size w a = c.size
  isFree : isFree w a ≠ 0 ↔ c.free = true
  next : next w a = nxt

/-- Where the link in front of `cells` points: to `a`, or to `z` if there are none. -/
def linkTo (a z : Nat) : List Cell → Nat
  | [] => z
  | _ :: _ => a

/-- From `a` on the words of `w` are the headers of the cells. -/
def Seg (w : Words) : Nat → List Cell → Nat → Prop
  | _, [], _ => True
  | a, c :: cs, z =>
    HeaderOk w a c (linkTo (a + hdrSize + c.size) z cs) ∧ Seg w (a + hdrSize + c.size) cs z

section Seg

variable {w w' : Words} {a b x z fuel : Nat} {c : Cell} {cs ds pre post : List Cell}

theorem seg_append : Seg w a (cs ++ ds) z ↔
    Seg w a cs (linkTo (a + span hdrSize cs) z ds) ∧ Seg w (a + span hdrSize cs) ds z := by
  induction cs generalizing a with
  | nil => simp [Seg]
  | cons c cs ih =>
    have haddr : a + hdrSize + c.size + span hdrSize cs = a + (hdrSize + c.size + span hdrSize cs) := by
      omega
    rw [List.cons_append, Seg, Seg, ih, span_cons, haddr, and_assoc]
    have hlink : linkTo (a + hdrSize + c.size) z (cs ++ ds) =
        linkTo (a + hdrSize + c.size) (linkTo (a + (hdrSize + c.size + span hdrSize cs)) z ds) cs := by
      rcases cs with - | ⟨d, cs⟩
      · rcases ds with - | ⟨e, ds⟩
        · rfl
        · simp [linkTo, Nat.add_assoc]
      · rfl
    rw [hlink]

/-- A header depends on its own words only. -/
theorem HeaderOk.congr {nxt : Nat} (h : HeaderOk w a c nxt)
    (hw : ∀ x, a ≤ x → x < a + hdrSize → w' x = w x) : HeaderOk w' a c nxt := by
  unfold hdrSize at hw
  obtain ⟨h₁, h₂, h₃, h₄⟩ := h
  refine ⟨?_, ?_, ?_, ?_⟩
  · rwa [HeapBlock.magic, hw a (by omega) (by omega)]
  · rwa [HeapBlock.size, hw (a + 4) (by omega) (by omega)]
  · rwa [HeapBlock.isFree, hw (a + 8) (by omega) (by omega)]
  · rwa [HeapBlock.next, hw (a + 12) (by omega) (by omega)]

/-- A segment depends on the words of its headers only. -/
theorem Seg.congr (h : Seg w a cs z)
    (hw : ∀ y c, At hdrSize a cs y c → ∀ x, y ≤ x → x < y + hdrSize → w' x = w x) :
    Seg w' a cs z := by
  induction cs generalizing a with
  | nil => trivial
  | cons d cs ih =>
    exact ⟨h.1.congr (hw a d (Or.inl ⟨rfl, rfl⟩)), ih h.2 fun y c hy => hw y c (Or.inr hy)⟩

/-- In particular on the words of its extent. -/
theorem Seg.congr_extent (h : Seg w a cs z)
    (hw : ∀ x, a ≤ x → x < a + span hdrSize cs → w' x = w x) : Seg w' a cs z :=
  h.congr fun y c hy x h₁ h₂ => by
    have := hy.bounds
    exact hw x (by omega) (by omega)

/-- The header of a cell of the segment. -/
theorem Seg.header (h : Seg w a cs z) (hx : At hdrSize a cs x c) : ∃ nxt, HeaderOk w x c nxt := by
  induction cs generalizing a with
  | nil => cases hx
  | cons d cs ih =>
    rcases hx with ⟨rfl, rfl⟩ | hx
    · exact ⟨_, h.1⟩
    · exact ih h.2 hx

/-- **Rewriting the cells in the middle**: if only their words change and the new
headers are right, the whole list is. -/
theorem Seg.replace (mid mid' : List Cell) (h : Seg w a (pre ++ (mid ++ post)) z)
    (hw : ∀ x, x < a + span hdrSize pre ∨ a + span hdrSize pre + span hdrSize mid ≤ x → w' x = w x)
    (hmid : Seg w' (a + span hdrSize pre) mid'
      (linkTo (a + span hdrSize pre + span hdrSize mid) z post))
    (hspan : span hdrSize mid' = span hdrSize mid) (hne : mid ≠ []) (hne' : mid' ≠ []) :
    Seg w' a (pre ++ (mid' ++ post)) z := by
  rw [seg_append, seg_append] at h
  rw [seg_append, seg_append, hspan]
  obtain ⟨hpre, -, hpost⟩ := h
  have hlink : linkTo (a + span hdrSize pre) z (mid' ++ post) =
      linkTo (a + span hdrSize pre) z (mid ++ post) := by
    rcases mid with - | ⟨d, mid⟩
    · exact absurd rfl hne
    · rcases mid' with - | ⟨e, mid'⟩
      · exact absurd rfl hne'
      · rfl
  refine ⟨?_, hmid, hpost.congr_extent fun x hx _ => hw x (Or.inr hx)⟩
  rw [hlink]
  exact hpre.congr_extent fun x _ hx => hw x (Or.inl hx)

/-- **The allocation walk** returns `best` or the address of a free cell that is
large enough. -/
theorem findBest_spec (n best : Nat) (h : Seg w a cs 0) (ha : 0 < a) (hfuel : cs.length ≤ fuel) :
    ∃ r, findBest w n fuel (linkTo a 0 cs) best = some (some r) ∧
      (r = best ∨ ∃ c, At hdrSize a cs r c ∧ c.free = true ∧ n ≤ c.size) := by
  induction cs generalizing a fuel best with
  | nil => rcases fuel with - | fuel <;> exact ⟨best, rfl, Or.inl rfl⟩
  | cons c cs ih =>
    rcases fuel with - | fuel
    · simp at hfuel
    obtain ⟨hhdr, hrest⟩ := h
    obtain ⟨r, hr, hcase⟩ := ih (better w n a best) hrest (by omega) (by simpa using hfuel)
    refine ⟨r, ?_, ?_⟩
    · show findBest w n (fuel + 1) a best = _
      rw [findBest, if_neg (by omega), if_neg (by simp [hhdr.magic]), hhdr.next]
      exact hr
    · rcases hcase with rfl | ⟨d, hd, hfree⟩
      · unfold better
        split_ifs with hb
        · refine Or.inr ⟨c, Or.inl ⟨rfl, rfl⟩, hhdr.isFree.mp hb.1, ?_⟩
          rw [← hhdr.size]
          exact hb.2.1
        · exact Or.inl rfl
      · exact Or.inr ⟨d, Or.inr hd, hfree⟩

/-- **The lookup walk** finds exactly the addresses of cells. -/
theorem linked_spec {h : Heap} (hseg : Seg h.mem a cs 0) (ha : h.start ≤ a) (hpos : 0 < h.start)
    (hlast : a + span hdrSize cs ≤ h.last) (hfuel : cs.length ≤ fuel) :
    ∃ r, linked h b fuel (linkTo a 0 cs) = some r ∧ (r = true ↔ ∃ c, At hdrSize a cs b c) := by
  induction cs generalizing a fuel with
  | nil => rcases fuel with - | fuel <;> exact ⟨false, rfl, by simp [At]⟩
  | cons c cs ih =>
    rcases fuel with - | fuel
    · simp at hfuel
    obtain ⟨hhdr, hrest⟩ := hseg
    rw [span_cons] at hlast
    have hin : h.inRange a = true := by
      simp only [Heap.inRange, hdrSize, Bool.and_eq_true, decide_eq_true_eq] at *
      omega
    show ∃ r, linked h b (fuel + 1) a = some r ∧ _
    rw [linked, if_neg (by simp [hin, hhdr.magic]; omega)]
    by_cases hb : a = b
    · exact ⟨true, if_pos hb, by simp only [true_iff]; exact ⟨c, Or.inl ⟨hb.symm, rfl⟩⟩⟩
    · obtain ⟨r, hr, hiff⟩ := ih hrest (by omega) (by omega) (by simpa using hfuel)
      refine ⟨r, by rw [if_neg hb, hhdr.next, hr], hiff.trans ?_⟩
      exact exists_congr fun d => ⟨Or.inr, fun hd => hd.resolve_left fun h => hb h.1.symm⟩

end Seg

/-! ### Taking a block -/

section Take

variable {w : Words} {b n nxt : Nat} {c : Cell}

/-- Claiming a block changes its free flag and a word of its payload. -/
theorem HeaderOk.claim (h : HeaderOk w b c nxt) (h4 : 4 ≤ c.size) :
    HeaderOk (claimBlock w b) b ⟨c.size, false⟩ nxt ∧
    ∀ x, x ≠ b + 8 → x ≠ b + hdrSize + c.size - 4 → claimBlock w b x = w x := by
  obtain ⟨h₁, h₂, h₃, h₄⟩ := h
  have hsize : w (b + 4) = c.size := h₂
  refine ⟨⟨?_, ?_, ?_, ?_⟩, fun x hx hx' => ?_⟩
  all_goals unfold claimBlock
  all_goals rw [h₂]
  all_goals simp only [HeapBlock.magic, HeapBlock.size, HeapBlock.isFree, HeapBlock.next, hdrSize] at *
  · rw [update_of_ne (by omega), update_of_ne (by omega), h₁]
  · rw [update_of_ne (by omega), update_of_ne (by omega), hsize]
  · rw [update_of_ne (by omega)]
    simp
  · rw [update_of_ne (by omega), update_of_ne (by omega), h₄]
  · rw [update_of_ne (by omega), update_of_ne (by omega)]

/-- Splitting a block makes two headers of one. -/
theorem HeaderOk.split (h : HeaderOk w b c nxt) (hn : n + hdrSize + 8 ≤ c.size) :
    HeaderOk (splitBlock w b n) b ⟨n, c.free⟩ (b + hdrSize + n) ∧
    HeaderOk (splitBlock w b n) (b + hdrSize + n) ⟨c.size - n - hdrSize, true⟩ nxt ∧
    ∀ x, x < b ∨ b + hdrSize + n + hdrSize ≤ x → splitBlock w b n x = w x := by
  obtain ⟨h₁, h₂, h₃, h₄⟩ := h
  have hsplit : splitBlock w b n = update (update (put w (b + hdrSize + n)
      (c.size - n - hdrSize) 1 nxt) (b + 4) n) (b + 12) (b + hdrSize + n) := by
    rw [splitBlock, h₂, h₄, if_pos hn]
  rw [hsplit]
  unfold put
  refine ⟨⟨?_, ?_, ?_, ?_⟩, ⟨?_, ?_, ?_, ?_⟩, fun x hx => ?_⟩
  all_goals simp only [HeapBlock.magic, HeapBlock.size, HeapBlock.isFree, HeapBlock.next, hdrSize] at *
  all_goals simp (disch := omega) only [update_of_ne, update_self]
  · exact h₁
  · exact h₃
  · simp

/-- **Taking a block** rewrites the one cell it lies in: the whole cell is used,
or its front is and the rest is a free cell. -/
theorem takeBlock_spec {a : Nat} {pre post : List Cell}
    (h : Seg w a (pre ++ c :: post) 0) (hn : n ≤ c.size) (hn4 : 4 ≤ n)
    (hsmall : n + (hdrSize + 8) < u32Size) :
    ∃ w' u mid, takeBlock w (a + span hdrSize pre) n = some w' ∧
      Seg w' a (pre ++ (u :: mid ++ post)) 0 ∧ n ≤ u.size ∧
      (u :: mid = [⟨c.size, false⟩] ∨
        n + hdrSize + 8 ≤ c.size ∧ u :: mid = [⟨n, false⟩, ⟨c.size - n - hdrSize, true⟩]) ∧
      ∀ x, x < a + span hdrSize pre ∨ a + span hdrSize pre + hdrSize + c.size ≤ x → w' x = w x := by
  have htake : takeBlock w (a + span hdrSize pre) n =
      some (claimBlock (splitBlock w (a + span hdrSize pre) n) (a + span hdrSize pre)) := by
    rw [takeBlock, checkedAdd_of_lt hsmall]
    rfl
  have hmid : Seg w a (pre ++ ([c] ++ post)) 0 := h
  rw [seg_append] at h
  obtain ⟨-, hhdr, -⟩ := h
  generalize hb : a + span hdrSize pre = b at *
  have hone : b + span hdrSize [c] = b + hdrSize + c.size := by simp [Nat.add_assoc]
  by_cases hsplit : n + hdrSize + 8 ≤ c.size
  · -- the front of the cell is taken
    obtain ⟨h₁, h₂, hframe⟩ := hhdr.split hsplit
    obtain ⟨h₃, hframe'⟩ := h₁.claim hn4
    have hout : ∀ x, x < b ∨ b + hdrSize + c.size ≤ x →
        claimBlock (splitBlock w b n) b x = w x := by
      intro x hx
      rw [hframe' x (by omega) (by dsimp only; omega), hframe x (by omega)]
    refine ⟨_, ⟨n, false⟩, [⟨c.size - n - hdrSize, true⟩], htake, ?_, le_rfl,
      Or.inr ⟨hsplit, rfl⟩, hout⟩
    have hspan : span hdrSize [⟨n, false⟩, ⟨c.size - n - hdrSize, true⟩] = span hdrSize [c] := by
      simp only [span_cons, span_nil]
      omega
    refine Seg.replace [c] [⟨n, false⟩, ⟨c.size - n - hdrSize, true⟩] hmid ?_ ?_ hspan (by simp) (by simp)
    · rw [hb, hone]
      exact hout
    · rw [hb, hone]
      refine ⟨h₃, h₂.congr fun x h₄ h₅ => hframe' x ?_ ?_, trivial⟩
      all_goals unfold hdrSize at *
      all_goals dsimp only at *
      all_goals omega
  · -- the whole cell is taken
    have hsame : splitBlock w b n = w := by rw [splitBlock, hhdr.size, if_neg hsplit]
    rw [hsame] at htake
    obtain ⟨h₃, hframe⟩ := hhdr.claim (by omega)
    have hout : ∀ x, x < b ∨ b + hdrSize + c.size ≤ x → claimBlock w b x = w x := by
      intro x hx
      unfold hdrSize at *
      exact hframe x (by omega) (by omega)
    refine ⟨_, ⟨c.size, false⟩, [], htake, ?_, hn, Or.inl rfl, hout⟩
    refine Seg.replace [c] [⟨c.size, false⟩] hmid ?_ ?_ rfl (by simp) (by simp)
    · rw [hb, hone]
      exact hout
    · rw [hb, hone]
      exact ⟨h₃, trivial⟩

end Take

/-! ### Coalescing -/

section Coalesce

variable {w : Words} {a b fuel nxt : Nat} {c d : Cell} {pre cs : List Cell}

theorem coalesceLoop_null : coalesceLoop w fuel 0 = some w := by
  rcases fuel with - | fuel
  · rfl
  · rw [coalesceLoop, if_pos (Or.inl rfl)]

/-- Absorbing a free neighbour makes one header of two. -/
theorem HeaderOk.absorb (hc : HeaderOk w b c (b + hdrSize + c.size))
    (hd : HeaderOk w (b + hdrSize + c.size) d nxt) (hfree : c.free = true) :
    HeaderOk (absorb w b (b + hdrSize + c.size) (c.size + (d.size + hdrSize))) b (merge hdrSize c d)
      nxt := by
  obtain ⟨h₁, h₂, h₃, h₄⟩ := hc
  refine ⟨?_, ?_, ?_, ?_⟩
  all_goals unfold CactKernel.absorb
  all_goals simp only [HeapBlock.magic, HeapBlock.isFree, HeapBlock.size, HeapBlock.next, merge,
    hdrSize] at *
  all_goals simp (disch := omega) only [update_of_ne, update_self]
  · exact h₁
  · simpa [hfree] using h₃
  · exact hd.next

/-- **The coalescing walk** is one pass over the cells, and changes headers only. -/
theorem coalesceLoop_spec (fuel : Nat) (pre cs : List Cell) (h : Seg w a (pre ++ cs) 0) (ha : 0 < a)
    (hmax : a + span hdrSize (pre ++ cs) < u32Size) (hfuel : cs.length ≤ fuel) :
    ∃ w', coalesceLoop w fuel (linkTo (a + span hdrSize pre) 0 cs) = some w' ∧
      Seg w' a (pre ++ coalesce hdrSize cs) 0 ∧
      ∀ x, (∀ y e, At hdrSize (a + span hdrSize pre) cs y e → x < y ∨ y + hdrSize ≤ x) → w' x = w x := by
  induction cs using coalesce.induct (h := hdrSize) generalizing w pre fuel with
  | case1 => exact ⟨w, coalesceLoop_null, by rwa [coalesce], fun _ _ => rfl⟩
  | case2 c =>
    rcases fuel with - | fuel
    · simp at hfuel
    obtain ⟨-, hhdr, -⟩ := seg_append.mp h
    refine ⟨w, ?_, by rwa [coalesce], fun _ _ => rfl⟩
    show coalesceLoop w (fuel + 1) (a + span hdrSize pre) = some w
    have hnext : next w (a + span hdrSize pre) = 0 := hhdr.next
    rw [coalesceLoop, if_neg (by simp [hhdr.magic]; omega), hnext, if_neg (by simp), coalesceLoop_null]
  | case3 c d cs hfree ih =>
    rcases fuel with - | fuel
    · simp at hfuel
    obtain ⟨-, hc, hd, -⟩ := seg_append.mp h
    simp only [linkTo] at hc
    simp only [span_append, span_cons] at hmax
    generalize hb : a + span hdrSize pre = b at *
    -- the two headers become one
    have hw₁ : ∀ x, x < b ∨ b + hdrSize ≤ x → x ≠ b + hdrSize + c.size →
        absorb w b (b + hdrSize + c.size) (c.size + (d.size + hdrSize)) x = w x := by
      intro x hx hne
      unfold absorb hdrSize at *
      simp (disch := omega) only [update_of_ne]
    have hseg : Seg (absorb w b (b + hdrSize + c.size) (c.size + (d.size + hdrSize))) a
        (pre ++ (merge hdrSize c d :: cs)) 0 := by
      refine Seg.replace [c, d] [merge hdrSize c d] h ?_ ?_ ?_ (by simp) (by simp)
      · intro x hx
        simp only [span_cons, span_nil] at hx
        refine hw₁ x ?_ ?_ <;> unfold hdrSize at * <;> omega
      · refine ⟨?_, trivial⟩
        rw [hb, show b + span hdrSize [c, d] = b + hdrSize + c.size + hdrSize + d.size by
          simp only [span_cons, span_nil]; omega]
        exact hc.absorb hd hfree.1
      · simp only [span_cons, span_nil, merge]
        omega
    obtain ⟨w', hloop, hseg', hframe⟩ := ih fuel pre hseg (by
      simp only [span_append, span_cons, merge]
      omega) (by simpa using hfuel)
    refine ⟨w', ?_, by rwa [coalesce_both_free hfree.1 hfree.2], fun x hx => ?_⟩
    · show coalesceLoop w (fuel + 1) b = some w'
      rw [coalesceLoop, if_neg (by simp [hc.magic]; omega), hc.next,
        if_pos ⟨hc.isFree.mpr hfree.1, by omega⟩, if_neg (by simp [hd.magic]),
        if_pos (hd.isFree.mpr hfree.2), hd.size, hc.size, checkedAdd_of_lt (by omega),
        Option.bind_some, checkedAdd_of_lt (by omega)]
      rwa [hb] at hloop
    · rw [hframe x ?_, hw₁ x (hx b c (Or.inl ⟨rfl, rfl⟩)) ?_]
      · have := hx (b + hdrSize + c.size) d (Or.inr (Or.inl ⟨rfl, rfl⟩))
        unfold hdrSize at *
        omega
      · rintro y e (⟨rfl, -⟩ | hy)
        · rw [hb]
          exact hx b c (Or.inl ⟨rfl, rfl⟩)
        · refine hx y e (Or.inr (Or.inr ?_))
          rw [hb] at hy
          rwa [show b + hdrSize + c.size + hdrSize + d.size =
            b + hdrSize + (merge hdrSize c d).size by simp only [merge]; omega]
  | case4 c d cs hfree ih =>
    rcases fuel with - | fuel
    · simp at hfuel
    obtain ⟨-, hc, hd, -⟩ := seg_append.mp h
    have haddr : a + span hdrSize (pre ++ [c]) = a + span hdrSize pre + hdrSize + c.size := by
      simp only [span_append, span_cons, span_nil]
      omega
    have hassoc : pre ++ c :: d :: cs = (pre ++ [c]) ++ (d :: cs) := by simp
    rw [hassoc] at h hmax
    obtain ⟨w', hloop, hseg, hframe⟩ := ih fuel (pre ++ [c]) h hmax (by simpa using hfuel)
    rw [haddr] at hloop hframe
    refine ⟨w', ?_, ?_, fun x hx => hframe x fun y e hy => hx y e (Or.inr hy)⟩
    · show coalesceLoop w (fuel + 1) (a + span hdrSize pre) = some w'
      rw [coalesceLoop, if_neg (by simp [hc.magic]; omega), hc.next]
      have hd0 : isFree w (a + span hdrSize pre) ≠ 0 →
          ¬isFree w (a + span hdrSize pre + hdrSize + c.size) ≠ 0 := fun hcf hdf =>
        hfree ⟨hc.isFree.mp hcf, hd.isFree.mp hdf⟩
      split_ifs with h₁ h₂ h₃
      · exact absurd hd.magic h₂
      · exact absurd h₃ (hd0 h₁.1)
      · exact hloop
      · exact hloop
    · rw [coalesce_not_both_free hfree]
      simpa using hseg

end Coalesce

end CactKernel
