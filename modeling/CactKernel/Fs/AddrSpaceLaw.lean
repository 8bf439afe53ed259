/-
CactKernel/Fs/AddrSpaceLaw.lean

The page cache stands for the file.

`src` is the byte a read finds: the frame's if the page is present or there is
no store, otherwise the store's.  The invariant says that `src`, and the store,
agree with the file wherever the file is visible, and also behind its end as
long as nothing was ever cut off.  A read populates pages without changing
`src`; a write changes it where the file changes; a flush writes back what the
store has.  Five things in the source break this, and `Clean` excludes them, with the
additions that panic:

  * a write to a part of a page that is not present marks the whole page
    present without loading the rest of it;
  * what a truncation cuts off stays in the frames and in the store, and comes
    back when the file grows again;
  * a growth that gets no frames is not noticed, and the size is set anyway;
  * a growth alone does not lengthen the store, and a flush does so only if it comes
    to the file's last page and finds it in the cache;
  * sizes from 2³¹ - 4096 on leave the range of the `i32` comparisons and of
    the bitmaps, whose allocation then never returns.

**Main result** `page_cache_refines`.
-/
import CactKernel.Fs.AddrSpace
import CactKernel.Mm.MemfdLaw
import Mathlib.Algebra.Group.Nat.Defs

namespace CactKernel

open Function Runs

/-! ### The object -/

namespace MemObj

variable {o o' : MemObj} {k need off i : Nat} {ok : Bool} {bs : List UInt8}

theorem raw_of_ge (h : o.numPages * pageSize ≤ i) : o.raw i = 0 := if_neg (by omega)

/-- Bytes that fit into the frames. -/
theorem raw_splice (h : off + bs.length ≤ o.numPages * pageSize) (n : Nat) :
    ({ o with size := n, byte := splice o.raw off bs } : MemObj).raw = splice o.raw off bs := by
  funext i
  by_cases hi : i < o.numPages * pageSize
  · exact if_pos hi
  · refine (if_neg hi).trans ?_
    rw [← raw_of_ge (not_lt.mp hi), splice, List.getElem?_eq_none (by omega), Option.getD_none, ite_self]

/-- **A growth** shows the same bytes. -/
theorem grow_spec (h : o.grow need ok = some o') :
    o'.raw = o.raw ∧ o'.size = o.size ∧ need ≤ o'.numPages ∧ o.numPages ≤ o'.numPages := by
  unfold grow at h
  split_ifs at h with h₁ h₂ h₃
  · cases h
    exact ⟨rfl, rfl, h₁, le_rfl⟩
  · cases h
    refine ⟨?_, rfl, le_rfl, Nat.le_of_not_le h₁⟩
    funext i
    show (if i < need * pageSize then o.raw i else 0) = o.raw i
    split
    · rfl
    · next hi =>
      have := Nat.mul_le_mul_right pageSize (show o.numPages ≤ need by omega)
      rw [raw_of_ge (by omega)]

theorem grow_short (h : o.numPages < need) : o.grow need false = none := by
  unfold grow
  rw [if_neg (not_le.mpr h)]
  split <;> rfl

theorem truncate_raw : (o.truncate k ok).raw = o.raw := by
  unfold truncate
  split_ifs
  · rfl
  · split
    · next o' hg => exact (grow_spec hg).1
    · rfl
  · rfl

/-- The frames of a growth to `k` bytes can be had. -/
def CanGrow (o : MemObj) (k : Nat) (ok : Bool) : Prop :=
  ceilPages k ≤ o.numPages ∨ ok = true
deriving Decidable

theorem grow_of_canGrow (h : o.CanGrow k ok) (hk : ceilPages k ≤ memfdPagesMax) :
    ∃ o', o.grow (ceilPages k) ok = some o' := by
  unfold grow
  split
  · exact ⟨_, rfl⟩
  next hn =>
  rw [if_neg (by omega), if_pos (h.resolve_left hn)]
  exact ⟨_, rfl⟩

section

variable (hroom : o.size ≤ o.numPages * pageSize)
include hroom

/-- **A truncation** that gets its frames sets the size. -/
theorem truncate_spec (hk : ceilPages k ≤ memfdPagesMax)
    (h : o.size < k → o.CanGrow k ok) :
    (o.truncate k ok).size = k ∧ k ≤ (o.truncate k ok).numPages * pageSize ∧
      o.numPages ≤ (o.truncate k ok).numPages := by
  unfold truncate
  rw [if_neg (by omega)]
  split
  · next hlt =>
    obtain ⟨o', ho'⟩ := grow_of_canGrow (h hlt) hk
    obtain ⟨-, -, hneed, hle⟩ := grow_spec ho'
    rw [ho']
    exact ⟨rfl, (le_ceilPages k).trans (Nat.mul_le_mul_right _ hneed), hle⟩
  · exact ⟨rfl, show k ≤ o.numPages * pageSize by omega, le_rfl⟩

/-- **A write** that succeeds. -/
theorem write_spec (hfit : off + bs.length < u32Size)
    (h : o.write off bs ok = some o') :
    o'.raw = splice o.raw off bs ∧ o'.size = max (off + bs.length) o.size ∧
      o'.size ≤ o'.numPages * pageSize := by
  unfold write at h
  rw [show satAdd off bs.length = off + bs.length by unfold satAdd; omega] at h
  dsimp only at h
  split at h
  · cases h
  split at h
  · next o₁ hg =>
    cases h
    obtain ⟨hraw, hsize, hneed, hle⟩ := grow_spec hg
    have hlast : off + bs.length ≤ o₁.numPages * pageSize :=
      (le_ceilPages _).trans (Nat.mul_le_mul_right _ hneed)
    have hmul := Nat.mul_le_mul_right pageSize hle
    refine ⟨?_, ?_, ?_⟩
    · rw [raw_splice hlast, hraw]
    · rw [← hsize]
    · show max (off + bs.length) o₁.size ≤ o₁.numPages * pageSize
      omega
  · cases h

end

/-- **A read** of bytes the object has. -/
theorem read_eq {n : Nat} (h : off + n ≤ o.size) (hword : o.size < u32Size) :
    o.read off n = (List.range n).map fun j => o.raw (off + j) := by
  unfold read
  split
  · rw [show n = 0 by omega]
    rfl
  · rw [if_pos ⟨by omega, h⟩]

end MemObj

/-! ### The object and the memfd behind it -/

section Memfd

variable {m m' : Mm} {h k off size : Nat} {heapOk : Bool} {bs : List UInt8}

/-- The object a handle names. -/
def Mm.memObj (m : Mm) (h : Nat) : MemObj :=
  ⟨(m.memfds h).size, (m.memfds h).numPages, m.memfdByte h⟩

/-- A growth shows the same object, whether it succeeds or not. -/
theorem Grown.raw (hg : Grown m m' h) : (m'.memObj h).raw = (m.memObj h).raw := by
  funext i
  unfold MemObj.raw Mm.memObj
  dsimp only
  have hmul := Nat.mul_le_mul_right pageSize hg.le
  split_ifs with h₁ h₂ h₂
  · exact hg.byte i h₂
  · exact hg.zero i (by omega) h₁
  · omega
  · rfl

theorem memObj_setSize {n : Nat} :
    ((m.setMemfd h { m.memfds h with size := n }).memObj h) = { m.memObj h with size := n } := by
  unfold Mm.memObj
  rw [Mm.setMemfd_self, show (m.setMemfd h { m.memfds h with size := n }).memfdByte h = m.memfdByte h from
    funext fun i => Mm.setMemfd_byte rfl]

/-- **`memfd_truncate`** of the memory manager is `MemObj.truncate`. -/
theorem memfdTruncate_memObj (ho : ObjInv m h) :
    ∃ ok, ((memfdTruncate m h k heapOk).1.memObj h).raw = ((m.memObj h).truncate k ok).raw ∧
      ((memfdTruncate m h k heapOk).1.memObj h).size = ((m.memObj h).truncate k ok).size := by
  unfold memfdTruncate MemObj.truncate
  split
  · exact ⟨true, rfl, rfl⟩
  next hmax =>
  rw [if_neg (by rw [ho.valid]; decide)]
  by_cases hlt : (m.memfds h).size < k
  · rw [if_pos hlt]
    have hg := growLocked_to k heapOk ho
    generalize growLocked m h (ceilPages k) heapOk = r at *
    refine ⟨r.2, ?_⟩
    rw [if_pos (show (m.memObj h).size < k from hlt)]
    dsimp only
    cases hb : r.2
    · rw [MemObj.grow_short (hg.short hb)]
      exact ⟨hg.toGrown.raw, hg.size⟩
    · obtain ⟨o', ho'⟩ := MemObj.grow_of_canGrow (Or.inr rfl) (not_lt.mp hmax)
      obtain ⟨hraw, -, -, -⟩ := MemObj.grow_spec ho'
      rw [ho']
      simp only [Bool.true_eq_false, if_false]
      rw [memObj_setSize]
      exact ⟨hg.toGrown.raw.trans hraw.symm, rfl⟩
  · refine ⟨true, ?_⟩
    rw [if_neg hlt, if_neg (show ¬(m.memObj h).size < k from hlt), memObj_setSize]
    exact ⟨rfl, rfl⟩

/-- **`memfd_write`** of the memory manager is `MemObj.write`. -/
theorem memfdWrite_memObj {r : Mm × Int} (ho : ObjInv m h) (hbs : bs ≠ [])
    (hr : memfdWrite m h off bs false heapOk = r) :
    ∃ ok, match (m.memObj h).write off bs ok with
      | none => (r.1.memObj h).raw = (m.memObj h).raw ∧ (r.1.memObj h).size = (m.memObj h).size
      | some o => (r.1.memObj h).raw = o.raw ∧ (r.1.memObj h).size = o.size := by
  rcases memfdWrite_cases ho hbs hr with ⟨-, hg, hwhy⟩ | ⟨-, hword, hfits, m', hg, hw⟩
  · have hnone : (m.memObj h).write off bs false = none := by
      unfold MemObj.write
      dsimp only
      rcases hwhy with hbig | hshort
      · rw [if_pos hbig]
      · rw [MemObj.grow_short hshort]
        exact ite_self _
    refine ⟨false, ?_⟩
    rw [hnone]
    exact ⟨hg.raw, hg.size⟩
  · obtain ⟨o, hwrite⟩ : ∃ o, (m.memObj h).write off bs true = some o := by
      obtain ⟨o', ho'⟩ := MemObj.grow_of_canGrow (Or.inr rfl) (not_lt.mp (not_or.mp hfits).2)
      unfold MemObj.write
      rw [if_neg hfits, ho']
      exact ⟨_, rfl⟩
    obtain ⟨hraw, hsize, -⟩ := MemObj.write_spec ho.room hword hwrite
    refine ⟨true, ?_⟩
    rw [hwrite]
    dsimp only
    rw [hraw, hsize, ← hg.raw, ← MemObj.raw_splice hw.fit 0]
    refine ⟨funext fun i => ?_, hw.size.trans (by rw [hg.size]; rfl)⟩
    unfold MemObj.raw Mm.memObj
    dsimp only
    rw [hw.numPages]
    split
    · next hi => rw [hw.byte i hi, splice, splice, if_pos hi]
    · rfl

theorem memfdWrite_memObj_across :
    let m := (memfdWrite (memfdCreated (.boot 0 plainMap) 1) 1 0 [7] false true).1
    let r := memfdWrite m 1 4094 [1, 2, 3, 4] false true
    (m.memObj 1).size = 1 ∧ (r.1.memObj 1).size = 4098 ∧
      ∃ ok, match (m.memObj 1).write 4094 [1, 2, 3, 4] ok with
        | none => (r.1.memObj 1).raw = (m.memObj 1).raw ∧ (r.1.memObj 1).size = (m.memObj 1).size
        | some o => (r.1.memObj 1).raw = o.raw ∧ (r.1.memObj 1).size = o.size := by
  have ho := (refined_created (h := 1) (.boot 0 plainMap) le_rfl (by decide)).obj
  exact ⟨by decide +kernel, by decide +kernel, memfdWrite_memObj
    (memfdWrite_spec ho (by decide) (by decide) (fun i hi => by omega) rfl).1 (by decide) rfl⟩

/-- **`memfd_read`** of the memory manager is `MemObj.read`. -/
theorem memfdRead_memObj (ho : ObjInv m h) (hsize : size ≠ 0) :
    (memfdRead m h off size false).2 = (m.memObj h).read off size := by
  unfold memfdRead MemObj.read
  rw [if_neg hsize, if_neg (by decide), if_neg (by rw [ho.valid]; decide)]
  by_cases hoff : (m.memfds h).size ≤ off
  · rw [if_pos hoff, if_pos (show (m.memObj h).size ≤ off from hoff)]
  · rw [if_neg hoff, if_neg (show ¬(m.memObj h).size ≤ off from hoff)]
    dsimp only
    rw [copyOut_eq le_rfl]
    have hroom := ho.room
    refine ByteFile.image_congr fun j hj => (if_pos ?_).symm
    show off + j < (m.memfds h).numPages * pageSize
    split_ifs at hj <;> omega

end Memfd

/-! ### What a read finds -/

/-- Sizes up to here are compared and tracked as they should be. -/
@[irreducible] def maxFile : Nat := 0x7FFFF000

theorem ceilPages_le_max {k : Nat} (h : k ≤ maxFile) : ceilPages k ≤ memfdPagesMax := by
  simp only [ceilPages, memfdPagesMax, maxFile, pageSize] at *
  omega

theorem maxFile_lt : maxFile < 0x80000000 := by
  simp [maxFile]

theorem toI32_lt_iff {a b : Nat} (ha : a ≤ maxFile) (hb : b ≤ maxFile) : toI32 a < toI32 b ↔ a < b := by
  have := maxFile_lt
  rw [toI32_of_lt (by omega), toI32_of_lt (by omega)]
  omega

namespace AddrSpace

open CacheSys (pad)

variable {a a' : AddrSpace} {store bs : List UInt8} {cells g : Nat → UInt8} {V : Nat → Prop}
  {al : CacheAlloc} {i p k off size : Nat} {tracked ok : Bool} {r : AddrSpace × List UInt8}
  {b : UInt8}

/-- Byte `i` as a read finds it. -/
def src (a : AddrSpace) (store : List UInt8) (i : Nat) : UInt8 :=
  if a.backed = true ∧ a.present (i / pageSize) = false then (store[i]?).getD (a.obj.raw i)
  else a.obj.raw i

/-- Where `V` holds, a read finds the file's bytes, and so does the store. -/
structure Shows (a : AddrSpace) (store : List UInt8) (cells : Nat → UInt8) (V : Nat → Prop) : Prop where
  src : ∀ i, V i → a.src store i = cells i
  store : a.backed = true → ∀ i, V i → pad store i = cells i

/-- A byte that is not in a frame. -/
theorem Shows.cold (hs : a.Shows store cells V) (hc : a.backed = true ∧ a.present (i / pageSize) = false)
    (hi : V i) : pad store i = (store[i]?).getD (a.obj.raw i) := by
  have h := hs.src i hi
  rw [AddrSpace.src, if_pos hc] at h
  exact (hs.store hc.1 i hi).trans h.symm

theorem getD_of_pad (h : pad store i = b) : (store[i]?).getD b = b := by
  rcases hg : store[i]? with - | c
  · rfl
  · rwa [pad, hg] at h

/-- The sizes are in order. -/
structure Fit (a : AddrSpace) : Prop where
  size_le : a.size ≤ a.obj.size
  room : a.obj.size ≤ a.obj.numPages * pageSize
  small : a.obj.size ≤ maxFile

/-- The bytes of page `p` after the store was asked for them. -/
theorem splice_page : splice g (p * pageSize) (ByteFile.read store (p * pageSize) pageSize) i =
    if i / pageSize = p then (store[i]?).getD (g i) else g i := by
  have hps := pageSize_pos
  unfold splice ByteFile.read
  by_cases hp : i / pageSize = p
  · have h₁ : p * pageSize ≤ i := hp ▸ Nat.div_mul_le_self i pageSize
    have h₂ : i < (p + 1) * pageSize := (Nat.div_lt_iff_lt_mul hps).mp (by omega)
    rw [Nat.succ_mul] at h₂
    rw [if_pos h₁, if_pos hp, List.getElem?_take, if_pos (by omega), List.getElem?_drop,
      Nat.add_sub_cancel' h₁]
  · split
    · next h₁ =>
      have h₂ : (p + 1) * pageSize ≤ i := by
        refine (Nat.le_div_iff_mul_le hps).mp ?_
        have : p ≤ i / pageSize := (Nat.le_div_iff_mul_le hps).mpr h₁
        omega
      rw [Nat.succ_mul] at h₂
      rw [List.getElem?_take, if_neg (by omega), Option.getD_none]
    · rfl

/-! ### Populating -/

/-- The bitmaps are found, grown or given up; nothing else changes. -/
theorem ensureBits_spec {need : Nat} {r : AddrSpace × Bool} (h : a.ensureBits need ok = some r) :
    r.1 = { a with capPages := r.1.capPages } := by
  unfold ensureBits at h
  split at h
  · cases h
    rfl
  · obtain ⟨cap, -, rfl⟩ := Option.map_eq_some_iff.mp h
    split_ifs <;> rfl

/-- The last page of a file that is in order ends within the bounds. -/
theorem Fit.page (h : a.Fit) (hp : p * pageSize < a.size) :
    p < a.obj.numPages ∧ (p + 1) * pageSize ≤ maxFile ∧ ceilPages ((p + 1) * pageSize) = p + 1 := by
  have h₁ := h.size_le
  have h₂ := h.room
  have h₃ := h.small
  refine ⟨Nat.lt_of_mul_lt_mul_right (a := pageSize) (by omega), ?_, ?_⟩
  · simp only [maxFile, pageSize] at *
    omega
  · simp only [ceilPages, pageSize]
    omega

/-- The object `populate` leaves after one page that it loads. -/
theorem populate_obj {obj : MemObj} (h : a.Fit) (hp : p * pageSize < a.size)
    (hobj : obj = if toI32 a.obj.size < toI32 ((p + 1) * pageSize) then
      a.obj.truncate ((p + 1) * pageSize) ok else a.obj) :
    obj.raw = a.obj.raw ∧ a.obj.size ≤ obj.size ∧ obj.size ≤ obj.numPages * pageSize ∧ obj.size ≤ maxFile ∧
      p < obj.numPages := by
  obtain ⟨hpage, hmax, hceil⟩ := h.page hp
  rw [if_congr (toI32_lt_iff h.small hmax) rfl rfl] at hobj
  split_ifs at hobj with hlt
  · have hgrow : a.obj.size < (p + 1) * pageSize → a.obj.CanGrow ((p + 1) * pageSize) ok :=
      fun _ => Or.inl (by omega)
    obtain ⟨h₁, h₂, h₃⟩ := MemObj.truncate_spec h.room (ceilPages_le_max hmax) hgrow
    subst hobj
    exact ⟨MemObj.truncate_raw, by omega, by omega, by omega, by omega⟩
  · subst hobj
    exact ⟨rfl, le_rfl, h.room, h.small, hpage⟩

/-- **One page is populated**: a read finds what it found before, and the frame
holds it. -/
theorem populatePage_spec (h : a.Fit) (hs : a.Shows store cells V) (hp : p * pageSize < a.size)
    (ha' : a' = populatePage store tracked ok a p) :
    a'.Fit ∧ a'.Shows store cells V ∧ (a'.size = a.size ∧ a'.backed = a.backed) ∧
      (∀ i, V i → i / pageSize = p → a'.obj.raw i = cells i) ∧
      ∀ i, i / pageSize ≠ p → a'.obj.raw i = a.obj.raw i := by
  unfold populatePage at ha'
  by_cases hskip : (tracked && a.present p) = true
  · -- the page is present
    rw [if_pos hskip] at ha'
    subst ha'
    refine ⟨h, hs, ⟨rfl, rfl⟩, fun i hi hip => ?_, fun _ _ => rfl⟩
    rw [← hs.src i hi, src, if_neg]
    rw [hip, (Bool.and_eq_true_iff.mp hskip).2]
    exact fun h' => by cases h'.2
  rw [if_neg hskip] at ha'
  dsimp only at ha'
  by_cases hb : a.backed = true
  · -- loaded from the store
    rw [if_pos hb] at ha'
    generalize hobj : (if toI32 a.obj.size < toI32 ((p + 1) * pageSize) then
      a.obj.truncate ((p + 1) * pageSize) ok else a.obj) = obj at ha'
    obtain ⟨hraw, hsize, hroom, hsmall, hpage⟩ := populate_obj h hp hobj.symm
    rw [if_pos hpage] at ha'
    have hlen : p * pageSize + (ByteFile.read store (p * pageSize) pageSize).length ≤ obj.numPages * pageSize := by
      have h₁ : (ByteFile.read store (p * pageSize) pageSize).length ≤ pageSize := by
        unfold ByteFile.read
        rw [List.length_take]
        exact Nat.min_le_left _ _
      have h₂ := Nat.mul_le_mul_right pageSize (show p + 1 ≤ obj.numPages by omega)
      rw [Nat.succ_mul] at h₂
      omega
    have hraw' : ∀ i, a'.obj.raw i = if i / pageSize = p then (store[i]?).getD (a.obj.raw i)
        else a.obj.raw i := by
      intro i
      rw [ha', MemObj.raw_splice hlen, hraw]
      exact splice_page
    have hback : a'.backed = true := ha' ▸ hb
    have hpres : ∀ q, q ≠ p → a'.present q = a.present q := by
      intro q hq
      rw [ha']
      split
      · exact update_of_ne hq ..
      · rfl
    -- the store's byte is the file's, and where the store ends the frame's is
    have hpageVal : ∀ i, V i → i / pageSize = p → a'.obj.raw i = cells i := by
      intro i hi hip
      rw [hraw', if_pos hip]
      rcases hg : store[i]? with - | b
      · have := hs.src i hi
        rw [src, hg] at this
        simpa using this
      · have := hs.store hb i hi
        rw [pad, hg] at this
        exact this
    refine ⟨?_, ⟨fun i hi => ?_, fun _ => hs.store hb⟩, ?_, hpageVal, fun i hip => ?_⟩
    · subst ha'
      exact ⟨h.size_le.trans hsize, hroom, hsmall⟩
    · by_cases hip : i / pageSize = p
      · rw [src, hpageVal i hi hip]
        split
        · exact getD_of_pad (hs.store hb i hi)
        · rfl
      · rw [← hs.src i hi, src, src, hpres _ hip, hback, hb, hraw', if_neg hip]
    · subst ha'
      exact ⟨rfl, rfl⟩
    · rw [hraw', if_neg hip]
  · -- nothing to load
    rw [if_neg hb] at ha'
    subst ha'
    have hsrc : ∀ i, a.obj.raw i = a.src store i := fun i => (if_neg fun h' => hb h'.1).symm
    refine ⟨{ h with }, ⟨fun i hi => ?_, hs.store⟩, ⟨rfl, rfl⟩, fun i hi _ => ?_,
      fun _ _ => rfl⟩
    · rw [← hs.src i hi, ← hsrc]
      exact if_neg fun h' => hb h'.1
    · rw [← hs.src i hi, ← hsrc]

/-- **The loop of `populate`**: the frames of its pages hold the file. -/
theorem populate_fold {n : Nat} (h : a.Fit) (hs : a.Shows store cells V)
    (hp : n ≠ 0 → (p + n - 1) * pageSize < a.size)
    (ha' : a' = (List.range' p n).foldl (populatePage store tracked ok) a) :
    a'.Fit ∧ a'.Shows store cells V ∧ (a'.size = a.size ∧ a'.backed = a.backed) ∧
      (∀ i, V i → p ≤ i / pageSize → i / pageSize < p + n → a'.obj.raw i = cells i) ∧
      ∀ i, i / pageSize < p → a'.obj.raw i = a.obj.raw i := by
  induction n generalizing a p with
  | zero =>
    subst ha'
    exact ⟨h, hs, ⟨rfl, rfl⟩, fun i _ h₁ h₂ => by omega, fun _ _ => rfl⟩
  | succ n ih =>
    have hlast := hp (by omega)
    have hfirst : p * pageSize < a.size :=
      lt_of_le_of_lt (Nat.mul_le_mul_right _ (by omega)) hlast
    obtain ⟨h₁, h₂, ⟨h₃, h₄⟩, h₅, h₆⟩ := populatePage_spec h hs hfirst rfl
    obtain ⟨h₁', h₂', h₃', h₅', h₆'⟩ := ih h₁ h₂
      (fun _ => by rw [h₃, show p + 1 + n - 1 = p + (n + 1) - 1 by omega]; exact hlast) ha'
    refine ⟨h₁', h₂', ⟨h₃'.1.trans h₃, h₃'.2.trans h₄⟩, fun i hi hlo hhi => ?_, fun i hi => ?_⟩
    · by_cases hip : i / pageSize = p
      · rw [h₆' i (by omega)]
        exact h₅ i hi hip
      · exact h₅' i hi (by omega) (by omega)
    · rw [h₆' i (by omega)]
      exact h₆ i (by omega)

theorem last_page {q l : Nat} (h : q ≤ l) : q + (l + 1 - q) - 1 = l := by
  omega

/-- **A read** returns the file's bytes. -/
theorem vfsAsRead_spec (h : a.Fit) (hs : a.Shows store cells V) (hV : ∀ i < a.size, V i)
    (hr : a.vfsAsRead store off size al = some r) :
    r.1.Fit ∧ r.1.Shows store cells V ∧ (r.1.size = a.size ∧ r.1.backed = a.backed) ∧
      r.2 = ByteFile.read (ByteFile.image a.size cells) off size := by
  unfold vfsAsRead at hr
  split at hr
  · next hend =>
    cases hr
    refine ⟨h, hs, ⟨rfl, rfl⟩, ?_⟩
    rw [ByteFile.read_image, show min size (a.size - off) = 0 by omega]
    rfl
  next hend =>
  rw [show (if a.size - off < size then a.size - off else size) = min size (a.size - off) by
    split <;> omega] at hr
  generalize hn : min size (a.size - off) = n at hr
  obtain ⟨a', hpop, rfl⟩ := Option.map_eq_some_iff.mp hr
  obtain ⟨⟨a₁, tracked⟩, hbits, ha'⟩ := Option.map_eq_some_iff.mp hpop
  have heq := ensureBits_spec hbits
  dsimp only at heq ha'
  have hf₁ : a₁.Fit := by
    rw [heq]
    exact { h with }
  have hs₁ : a₁.Shows store cells V := by
    rw [heq]
    exact ⟨hs.src, hs.store⟩
  have hsz : a₁.size = a.size ∧ a₁.backed = a.backed := by
    rw [heq]
    exact ⟨rfl, rfl⟩
  have hmono : off / pageSize ≤ (off + n - 1) / pageSize := Nat.div_le_div_right (by omega)
  -- the last page asked starts inside the file, so every page of the range is populated
  have hlast : (off + n - 1) / pageSize * pageSize < a₁.size := by
    have := Nat.div_mul_le_self (off + n - 1) pageSize
    omega
  obtain ⟨h₁, h₂, h₃, h₄, -⟩ := populate_fold hf₁ hs₁
    (fun _ => by rw [last_page hmono]; exact hlast) ha'.symm
  refine ⟨h₁, h₂, ⟨h₃.1.trans hsz.1, h₃.2.trans hsz.2⟩, ?_⟩
  have hobj := h₁.size_le
  have hword : a'.obj.size < u32Size := by
    have := h₁.small
    simp only [maxFile, u32Size] at *
    omega
  rw [MemObj.read_eq (by omega) hword, ByteFile.read_image, hn]
  refine ByteFile.image_congr fun j hj => ?_
  refine h₄ _ (hV _ (by omega)) (Nat.div_le_div_right (by omega)) ?_
  have : (off + j) / pageSize ≤ (off + n - 1) / pageSize := Nat.div_le_div_right (by omega)
  omega

/-! ### Writing -/

/-- What the write leaves of a page that is not present is the same in its
frame as in the store. -/
def WholePages (a : AddrSpace) (store : List UInt8) (off n : Nat) : Prop :=
  a.backed = true → ∀ i < ((off + n - 1) / pageSize + 1) * pageSize, off / pageSize ≤ i / pageSize →
    i < off ∨ off + n ≤ i → a.present (i / pageSize) = false →
    (store[i]?).getD (a.obj.raw i) = a.obj.raw i

/-- Every page the write touches is present. -/
def Loaded (a : AddrSpace) (off n : Nat) : Prop :=
  ∀ p < (off + n - 1) / pageSize + 1, off / pageSize ≤ p → a.present p = true

/-- The page bits after a write: those of the pages it touched may be new. -/
theorem setBits_true {bits : Nat → Bool} {first last q : Nat} (h : setBits bits first last true q = true) :
    bits q = true ∨ first ≤ q ∧ q ≤ last := by
  unfold setBits at h
  split at h
  · next hq => exact Or.inr hq
  · exact Or.inl h

/-- What a write does to the entry and the store. -/
structure Wrote (a a' : AddrSpace) (store store' : List UInt8) (off : Nat) (bs : List UInt8) : Prop where
  obj : ∃ ok, a.obj.write off bs ok = some a'.obj
  size : a'.size = max a.size (off + bs.length)
  backed : a'.backed = a.backed
  store : store' = if a.backed then ByteFile.write 0 store off bs else store
  /-- The pages it touched are present, or the bits are as they were. -/
  bits : a'.present = a.present ∨
    a'.present = setBits a.present (off / pageSize) ((off + bs.length - 1) / pageSize) true

theorem vfsAsWrite_cases {r : AddrSpace × List UInt8 × Option Nat}
    (h : a.vfsAsWrite store off bs al = some r) :
    r = (a, store, none) ∨ r.2.2 = some bs.length ∧ Wrote a r.1 store r.2.1 off bs := by
  unfold vfsAsWrite at h
  split at h
  · cases h
    exact Or.inl rfl
  next obj hobj =>
  obtain ⟨⟨a₁, tracked⟩, hbits, rfl⟩ := Option.map_eq_some_iff.mp h
  have heq := ensureBits_spec hbits
  right
  have hsize : (if a.size < off + bs.length then off + bs.length else a.size) = max a.size (off + bs.length) := by
    split <;> omega
  rw [hsize] at heq
  cases tracked <;> cases hb : a.backed <;> rw [heq] <;>
    simp only [hb, Bool.false_eq_true, if_false, if_true, true_and]
  · exact ⟨⟨_, hobj⟩, rfl, hb.symm, by simp [hb], Or.inl rfl⟩
  · exact ⟨⟨_, hobj⟩, rfl, hb.symm, by simp [hb], Or.inl rfl⟩
  · exact ⟨⟨_, hobj⟩, rfl, hb.symm, by simp [hb], Or.inr rfl⟩
  · exact ⟨⟨_, hobj⟩, rfl, hb.symm, by simp [hb], Or.inr rfl⟩

theorem splice_of_out (h : i < off ∨ off + bs.length ≤ i) : splice g off bs i = g i := by
  unfold splice
  split
  · rw [List.getElem?_eq_none (by omega), Option.getD_none]
  · rfl

theorem splice_of_in (h : off ≤ i) (hb : bs[i - off]? = some b) : splice g off bs i = b := by
  rw [splice, if_pos h, hb, Option.getD_some]

/-- **A write** is seen where it was made, and nothing else changes. -/
theorem Wrote.shows {store' : List UInt8} (hw : Wrote a a' store store' off bs) (h : a.Fit)
    (hs : a.Shows store cells V) (hwhole : a.WholePages store off bs.length)
    (hmax : off + bs.length ≤ maxFile) :
    a'.Fit ∧ a'.Shows store' (splice cells off bs) fun i => V i ∨ off ≤ i ∧ i < off + bs.length := by
  obtain ⟨ok, hobj⟩ := hw.obj
  have hword : off + bs.length < u32Size := by
    simp only [maxFile, u32Size] at *
    omega
  obtain ⟨hraw, hsize, hroom⟩ := MemObj.write_spec h.room hword hobj
  have hfit := h.size_le
  have hsmall := h.small
  have hpad : a.backed = true → ∀ i, (V i ∨ off ≤ i ∧ i < off + bs.length) →
      pad store' i = splice cells off bs i := by
    intro hb i hi
    rw [pad, hw.store, if_pos hb, ByteFile.write_getElem?]
    by_cases hlt : i < off
    · rw [if_pos hlt, splice_of_out (Or.inl hlt)]
      exact hs.store hb i (hi.resolve_right (by omega))
    rw [if_neg hlt]
    by_cases hin : i < off + bs.length
    · obtain ⟨b, hb'⟩ : ∃ b, bs[i - off]? = some b := ⟨_, List.getElem?_eq_getElem (by omega)⟩
      rw [if_pos hin, hb', splice_of_in (by omega) hb', Option.getD_some]
    · rw [if_neg hin, splice_of_out (Or.inr (by omega))]
      exact hs.store hb i (hi.resolve_right (by omega))
  refine ⟨⟨?_, hroom, ?_⟩, fun i hi => ?_, fun hb => hpad (hw.backed.symm.trans hb)⟩
  · rw [hw.size]
    omega
  · omega
  by_cases hin : off ≤ i ∧ i < off + bs.length
  · -- a byte that was written
    obtain ⟨b, hb'⟩ : ∃ b, bs[i - off]? = some b := ⟨_, List.getElem?_eq_getElem (by omega)⟩
    rw [src, hraw, splice_of_in hin.1 hb', splice_of_in hin.1 hb']
    split
    · next hcold =>
      have := hpad (hw.backed.symm.trans hcold.1) i (Or.inr hin)
      rw [splice_of_in hin.1 hb'] at this
      exact getD_of_pad this
    · rfl
  · -- a byte beside it
    have hout : i < off ∨ off + bs.length ≤ i := by omega
    have hV := hi.resolve_right hin
    rw [src, hraw, splice_of_out hout, splice_of_out hout, ← hs.src i hV, src, hw.backed]
    by_cases hb : a.backed = true
    · by_cases hold : a.present (i / pageSize) = true
      · have hnew : a'.present (i / pageSize) = true := by
          rcases hw.bits with hp | hp <;> rw [hp]
          · exact hold
          · unfold setBits
            split
            · rfl
            · exact hold
        rw [if_neg (by simp [hnew]), if_neg (by simp [hold])]
      rw [if_pos (show a.backed = true ∧ a.present (i / pageSize) = false from
        ⟨hb, by simpa using hold⟩)]
      by_cases hnew : a'.present (i / pageSize) = true
      · -- the page was loaded in part only: its frame has to show the store
        rw [if_neg (by simp [hnew])]
        have htouched : off / pageSize ≤ i / pageSize ∧ i / pageSize ≤ (off + bs.length - 1) / pageSize := by
          rcases hw.bits with hp | hp
          · rw [hp] at hnew
            exact absurd hnew hold
          · rw [hp] at hnew
            exact (setBits_true hnew).resolve_left hold
        refine (hwhole hb i ?_ htouched.1 hout (by simpa using hold)).symm
        exact (Nat.div_lt_iff_lt_mul pageSize_pos).mp (by omega)
      · rw [if_pos ⟨hb, by simpa using hnew⟩, hw.store, if_pos hb, ByteFile.write_getElem?]
        rcases hout with hlt | hge
        · -- the gap behind the end of the store is filled with zeros
          rw [if_pos hlt]
          exact hs.cold ⟨hb, by simpa using hold⟩ hV
        · rw [if_neg (by omega), if_neg (by omega)]
    · rw [if_neg (fun h' => hb h'.1), if_neg (fun h' => hb h'.1)]

/-! ### Sizes and flushes -/

/-- **A new size** shows the same bytes. -/
theorem vfsAsTruncate_spec (h : a.Fit) (hk : k ≤ maxFile)
    (hgrow : a.obj.size < k → a.obj.CanGrow k al.frames) :
    (a.vfsAsTruncate k al).Fit ∧ (a.vfsAsTruncate k al).src store = a.src store := by
  obtain ⟨h₁, h₂, -⟩ := MemObj.truncate_spec h.room (ceilPages_le_max hk) hgrow
  refine ⟨⟨h₁.ge, h₁.le.trans h₂, h₁.le.trans hk⟩, funext fun i => ?_⟩
  unfold src
  rw [show (a.vfsAsTruncate k al).obj.raw = a.obj.raw from MemObj.truncate_raw]
  rfl

theorem vfsAsSetsize_spec (h : a.Fit) (hk : k ≤ maxFile)
    (hgrow : a.obj.size < k → a.obj.CanGrow k al.frames) :
    (a.vfsAsSetsize k al).Fit ∧ (a.vfsAsSetsize k al).src store = a.src store := by
  have hfit := h.size_le
  unfold vfsAsSetsize
  rw [if_congr (and_congr_right fun _ => toI32_lt_iff h.small hk) rfl rfl]
  split
  · exact vfsAsTruncate_spec h hk hgrow
  · exact ⟨⟨show k ≤ a.obj.size by omega, h.room, h.small⟩, rfl⟩

/-- **One page is written back**: the store keeps showing the file. -/
theorem flushPage_shows (hs : a.Shows store cells V) (hV : ∀ i < a.size, V i) :
    a.Shows (a.flushPage store p) cells V := by
  unfold flushPage
  split
  · exact hs
  next hpres =>
  have hpage : a.present p = true := by
    simpa using (not_or.mp hpres).2
  split
  swap
  · exact hs
  dsimp only
  generalize hbs : (List.range (min pageSize (a.size - p * pageSize))).map
    (fun j => a.obj.raw (p * pageSize + j)) = bs
  have hlen : bs.length = min pageSize (a.size - p * pageSize) := by
    simp [← hbs]
  -- the bytes written back are the page as it stands in memory, cut at the size
  have hin : ∀ i, p * pageSize ≤ i → i < p * pageSize + bs.length →
      bs[i - p * pageSize]? = some (a.obj.raw i) ∧ i < a.size ∧ i / pageSize = p := by
    intro i h₁ h₂
    refine ⟨?_, by omega, ?_⟩
    · rw [← hbs, List.getElem?_map, List.getElem?_range (by omega), Option.map_some,
        Nat.add_sub_cancel' h₁]
    · refine Nat.div_eq_of_lt_le h₁ ?_
      rw [Nat.succ_mul]
      omega
  refine ⟨fun i hi => ?_, fun hb i hi => ?_⟩
  · rw [← hs.src i hi, src, src]
    -- a byte still read from the store is on another page, which the write leaves
    by_cases hcold : a.backed = true ∧ a.present (i / pageSize) = false
    · rw [if_pos hcold, ByteFile.write_getElem?]
      split
      · exact hs.cold hcold hi
      split
      · next h₁ h₂ =>
        obtain ⟨-, -, hip⟩ := hin i (by omega) h₂
        rw [hip, hpage] at hcold
        cases hcold.2
      · rfl
    · rw [if_neg hcold, if_neg hcold]
  · rw [← hs.store hb i hi, pad, ByteFile.write_getElem?]
    split
    · rfl
    split
    · next h₁ h₂ =>
      obtain ⟨hget, hlt, hip⟩ := hin i (by omega) h₂
      have h₃ := hs.src i (hV i hlt)
      rw [src, if_neg (by rw [hip, hpage]; simp)] at h₃
      rw [hget, h₃]
      exact (hs.store hb i hi).symm
    · rfl

theorem vfsAsFlush_spec (hs : a.Shows store cells V) (hV : ∀ i < a.size, V i)
    (h : a.vfsAsFlush store off size = some r) :
    r.1 = { a with dirty := r.1.dirty } ∧ a.Shows r.2 cells V ∧ (a.backed = false → r.2 = store) := by
  unfold vfsAsFlush at h
  split at h
  · cases h
    exact ⟨rfl, hs, fun _ => rfl⟩
  next hrun =>
  obtain ⟨fin, -, rfl⟩ := Option.map_eq_some_iff.mp h
  refine ⟨rfl, ?_, fun hb => absurd (Or.inl hb) hrun⟩
  exact List.foldlRecOn (motive := fun store => a.Shows store cells V) _ _ hs
    fun _ hs _ _ => flushPage_shows hs hV

/-- The flush comes to the last page of the file, and finds it. -/
def TailFlushed (a : AddrSpace) (off size : Nat) : Prop :=
  let tail := (a.size - 1) / pageSize
  (off < a.size ∧ size ≠ 0 ∧ tail ≤ (off + size - 1) / pageSize) ∧
    tail < a.capPages ∧ a.present tail = true
deriving Decidable

theorem flushPage_length : store.length ≤ (a.flushPage store p).length := by
  unfold flushPage
  split_ifs
  · exact le_rfl
  · rw [ByteFile.write_length]
    exact Nat.le_max_left ..
  · exact le_rfl

theorem flush_length (ps : List Nat) : store.length ≤ (ps.foldl a.flushPage store).length :=
  List.foldlRecOn (motive := fun store' : List UInt8 => store.length ≤ store'.length) _ _ le_rfl
    fun _ h _ _ => h.trans flushPage_length

/-- The last page brings the store to the size of the file. -/
theorem flushPage_tail (h : a.Fit) (hpos : 0 < a.size) (hp : p = (a.size - 1) / pageSize)
    (hcap : p < a.capPages) (hpres : a.present p = true) : a.size ≤ (a.flushPage store p).length := by
  have hps := pageSize_pos
  have hlo : p * pageSize ≤ a.size - 1 := hp ▸ Nat.div_mul_le_self ..
  have hhi : a.size - 1 < (p + 1) * pageSize := (Nat.div_lt_iff_lt_mul hps).mp (by omega)
  rw [Nat.succ_mul] at hhi
  unfold flushPage
  rw [if_neg (by simp [hpres, hcap]), if_pos (h.page (by omega)).1, ByteFile.write_length,
    List.length_map, List.length_range]
  omega

theorem vfsAsFlush_grows (hr : a.vfsAsFlush store off size = some r) : store.length ≤ r.2.length := by
  unfold vfsAsFlush at hr
  split at hr
  · cases hr
    exact le_rfl
  · obtain ⟨sum, -, rfl⟩ := Option.map_eq_some_iff.mp hr
    exact flush_length _

/-- **After a flush** that comes to the last page the store is as long as the file. -/
theorem vfsAsFlush_length (h : a.Fit) (hb : a.backed = true) (htail : a.TailFlushed off size)
    (hr : a.vfsAsFlush store off size = some r) : a.size ≤ r.2.length := by
  obtain ⟨⟨hoff, hsize, hreach⟩, hcap, hpres⟩ := htail
  unfold vfsAsFlush at hr
  rw [if_neg (by simp [hb, hsize, hoff])] at hr
  obtain ⟨sum, hsum, rfl⟩ := Option.map_eq_some_iff.mp hr
  obtain ⟨-, rfl⟩ := of_guard hsum
  have hfirst : off / pageSize ≤ (a.size - 1) / pageSize := Nat.div_le_div_right (by omega)
  have hlast : (a.size - 1) / pageSize ≤ (min (off + size) a.size - 1) / pageSize := by
    rcases Nat.le_total (off + size) a.size with hle | hle
    · rwa [Nat.min_eq_left hle]
    · rw [Nat.min_eq_right hle]
  -- the loop up to the last page, that page, and the pages behind it
  obtain ⟨before, after, hsplit⟩ := List.append_of_mem
    (show (a.size - 1) / pageSize ∈ List.range' (off / pageSize)
        ((min (off + size) a.size - 1) / pageSize + 1 - off / pageSize) from
      List.mem_range'_1.mpr ⟨hfirst, by omega⟩)
  dsimp only
  rw [hsplit, List.foldl_append, List.foldl_cons]
  exact (flushPage_tail h (by omega) rfl hcap hpres).trans (flush_length after)

/-! ### When the calls end -/

section Ends

variable {need n cap : Nat}

theorem checkedAdd_isSome {x y : Nat} : (checkedAdd x y).isSome = true ↔ x + y < u32Size := by
  unfold checkedAdd
  split <;> simp [*]

theorem counted_isSome {α : Type} {o : Option α} {x y : Nat} :
    (o.bind fun r => (checkedAdd x y).map fun z => (r, z)).isSome = true ↔ o.isSome = true ∧ x + y < u32Size := by
  rw [← checkedAdd_isSome]
  rcases o with - | r
  · simp
  · simp

/-- Doubling reaches what the limit allows, and nothing else. -/
theorem growBits_isSome (h : memfdPagesMax ≤ cap * 2 ^ n) :
    (growBits need (n + 1) cap).isSome = true ↔ need ≤ max cap memfdPagesMax := by
  induction n generalizing cap with
  | zero =>
    unfold growBits growBits
    split <;> simp <;> omega
  | succ n ih =>
    unfold growBits
    split
    · rw [ih]
      · omega
      · rw [← Nat.mul_min_mul_right, Nat.mul_assoc, ← Nat.pow_succ']
        exact Nat.le_min.mpr ⟨h, Nat.le_mul_of_pos_right _ (Nat.two_pow_pos n)⟩
    · simp only [Option.isSome_some, true_iff]
      omega

/-- **`ensure_bits`** ends within the limit. -/
theorem ensureBits_isSome : (a.ensureBits need ok).isSome = true ↔ need ≤ max a.capPages memfdPagesMax := by
  unfold ensureBits
  split
  · simp only [Option.isSome_some, true_iff]
    omega
  · rw [Option.isSome_map, growBits_isSome]
    all_goals
      simp only [asPagesInitial, memfdPagesMax] at *
      split <;> omega

theorem vfsAsRead_isSome : (a.vfsAsRead store off size al).isSome = true ↔ size = 0 ∨ a.size ≤ off ∨
    min (off + size) a.size ≤ max a.capPages memfdPagesMax * pageSize := by
  unfold vfsAsRead
  split
  · next hend => simp only [Option.isSome_some, ← or_assoc, hend, true_or]
  next hend =>
  unfold populate
  simp only [Option.isSome_map, ensureBits_isSome]
  rw [Nat.add_one_le_iff, Nat.div_lt_iff_lt_mul pageSize_pos]
  split <;> omega

/-- A write that the object accepts stays within the limit. -/
theorem vfsAsWrite_isSome {bs : List UInt8} : (a.vfsAsWrite store off bs al).isSome = true := by
  unfold vfsAsWrite
  split
  · rfl
  next obj hobj =>
  simp only [Option.isSome_map, ensureBits_isSome]
  unfold MemObj.write at hobj
  dsimp only at hobj
  split at hobj
  · exact nomatch hobj
  next hle =>
  simp only [satAdd, ceilPages, pageSize, memfdPagesMax, u32Size] at hle ⊢
  omega

theorem vfsAsFlush_isSome : (a.vfsAsFlush store off size).isSome = true ↔
    a.backed = false ∨ a.size ≤ off ∨ size = 0 ∨ off + size < u32Size := by
  unfold vfsAsFlush
  split
  · next hend => simp only [Option.isSome_some, true_iff, ← or_assoc] at hend ⊢; exact Or.inl hend
  · next hend =>
    rw [Option.isSome_map, checkedAdd_isSome]
    simp only [← or_assoc] at hend ⊢
    exact (or_iff_right hend).symm

end Ends

end AddrSpace

/-! ### The file -/

namespace CacheSys

variable {s s' : CacheSys} {a : AddrSpace} {al : CacheAlloc} {e : CacheOp × CacheAlloc}
  {store : List UInt8}

/-- The file is visible there, or nothing was ever cut off. -/
def Seen (s : CacheSys) (i : Nat) : Prop := i < s.size ∨ s.cut = false

/-- **The invariant.** -/
structure Inv (s : CacheSys) : Prop where
  entry : ∀ a, s.space = some a →
    a.Fit ∧ a.size = s.size ∧ a.backed = s.hasStore ∧ a.Shows s.store s.cells s.Seen
  empty : s.space = none → s.size = 0 ∧ s.cut = false ∧ s.cells = pad s.store
  zero : s.cut = true → ∀ i, s.size ≤ i → s.cells i = 0
  bare : s.hasStore = false → s.store = []
  reads : ∀ r ∈ s.log, r.1 = r.2
  flushes : s.hasStore = true → ∀ r ∈ s.saved, r.1 = r.2

/-- **The page cache refines the file**: every read returned the file's bytes,
and after every flush and release the store held them. -/
structure Refines (s : CacheSys) : Prop where
  reads : ∀ r ∈ s.log, r.1 = r.2
  flushes : s.hasStore = true → ∀ r ∈ s.saved, r.1 = r.2

/-- The callbacks of a store are registered. -/
def Registered (s : CacheSys) : Prop := s.hasStore = true → s.space.isSome = true
deriving Decidable

/-- What a growth to `k` uncovers is zero, in the cache and in the store. -/
def ZeroTo (s : CacheSys) (a : AddrSpace) (k : Nat) : Prop :=
  s.cut = true → ∀ i < k, s.size ≤ i → a.src s.store i = 0 ∧ pad s.store i = 0

instance decidableZeroTo (s : CacheSys) (a : AddrSpace) (k : Nat) : Decidable (s.ZeroTo a k) :=
  inferInstanceAs (Decidable (_ → ∀ i < k, _))

/-- A new size that the object can take. -/
def Resizes (s : CacheSys) (al : CacheAlloc) (k : Nat) : Prop :=
  s.Registered ∧ k ≤ maxFile ∧
    ∀ a ∈ s.asOf al, (a.obj.size < k → a.obj.CanGrow k al.frames) ∧ s.ZeroTo a k
deriving Decidable

/-- A flush that adds up, of a store that has the whole file before it or after it. -/
def Flushes (s : CacheSys) (off size : Nat) : Prop :=
  ∀ a ∈ s.space, s.flushes + a.flushed off size < u32Size ∧
    (a.backed = true → (off < a.size → size ≠ 0 → off + size < u32Size) ∧
      (a.size ≤ s.store.length ∨ a.TailFlushed off size))
deriving Decidable

/-- **The condition** under which a call is safe. -/
def Clean (s : CacheSys) (e : CacheOp × CacheAlloc) : Prop :=
  match e.1 with
  | .setBacking => s.hasStore = true
  | .read off size => s.Registered ∧
      ∀ a ∈ s.asOf e.2, s.populates + a.populated off size e.2 < u32Size
  | .write off bs => s.Registered ∧ off + bs.length ≤ maxFile ∧
      ∀ a ∈ s.asOf e.2, a.WholePages s.store off bs.length ∧ s.ZeroTo a off
  | .truncate k | .setsize k => s.Resizes e.2 k
  | .flush off size => s.Flushes off size
  | .release => s.Flushes 0 s.size
  | .others populates flushes => s.populates + populates < u32Size ∧ s.flushes + flushes < u32Size

theorem initial_inv (store : Option (List UInt8)) : (initial store).Inv where
  entry := nofun
  empty := fun _ => ⟨rfl, rfl, rfl⟩
  zero := nofun
  bare := by cases store <;> simp [initial]
  reads := nofun
  flushes := nofun

/-- A new entry shows the store, once its callbacks are registered, or nothing. -/
theorem new_shows {V : Nat → Prop} {b : Bool} (hb : b = false → store = []) :
    ({ AddrSpace.new with backed := b } : AddrSpace).Fit ∧
      ({ AddrSpace.new with backed := b } : AddrSpace).Shows store (pad store) V := by
  refine ⟨⟨le_rfl, Nat.zero_le _, Nat.zero_le _⟩, fun i _ => ?_, fun _ _ _ => rfl⟩
  have hraw : (AddrSpace.new.obj).raw i = 0 := by
    simp [AddrSpace.new, MemObj.new, MemObj.raw]
  show (if b = true ∧ _ then _ else (AddrSpace.new.obj).raw i) = _
  rw [hraw]
  cases b
  · rw [hb rfl]
    simp [pad]
  · rfl

section

variable (h : s.Inv) {k : Nat}
include h

/-- The entry a registered call works on. -/
theorem Inv.asOf (hreg : s.Registered) (ha : s.asOf al = some a) :
    a.Fit ∧ a.size = s.size ∧ a.backed = s.hasStore ∧ a.Shows s.store s.cells s.Seen := by
  unfold CacheSys.asOf at ha
  split at ha
  · next a' hsp =>
    cases ha
    exact h.entry _ hsp
  · next hsp =>
    split_ifs at ha
    cases ha
    have hno : s.hasStore = false := by
      by_contra hst
      have := hreg (by simpa using hst)
      simp [hsp] at this
    obtain ⟨h₁, -, h₃⟩ := h.empty hsp
    obtain ⟨hf, hs⟩ := @new_shows s.store s.Seen false fun _ => h.bare hno
    exact ⟨hf, h₁.symm, hno.symm, h₃ ▸ hs⟩

/-- A read or a flush leaves the file alone. -/
theorem Inv.setSpace {log : List (List UInt8 × List UInt8)} {populates flushes : Nat} (hf : a.Fit)
    (hsize : a.size = s.size) (hb : a.backed = s.hasStore) (hs : a.Shows store s.cells s.Seen)
    (hbare : s.hasStore = false → store = []) (hlog : ∀ r ∈ log, r.1 = r.2) :
    { s with space := some a, store, populates, flushes, log }.Inv where
  entry := by
    rintro a' h'
    cases h'
    exact ⟨hf, hsize, hb, hs⟩
  empty := nofun
  zero := h.zero
  bare := hbare
  reads := hlog
  flushes := h.flushes

/-- **A flush** finds the file in the store. -/
theorem Inv.save (hlen : s.hasStore = true → s.size ≤ s.store.length)
    (hst : s.hasStore = true → ∀ i < s.size, pad s.store i = s.cells i) : s.save.Inv := by
  refine { h with flushes := fun hb r hr => ?_ }
  rcases List.mem_cons.mp hr with rfl | hr
  · exact (ByteFile.take_eq_image (hlen hb) 0).trans (ByteFile.image_congr (hst hb))
  · exact h.flushes hb r hr

/-- A flush of any range writes back what the store has. -/
theorem Inv.flush {off size : Nat} {r : (AddrSpace × List UInt8) × Nat} (hsp : s.space = some a)
    (hc : s.Flushes off size) (hr : a.flushCounted s.store off size s.flushes = some r) :
    ({ s with space := some r.1.1, store := r.1.2, flushes := r.2 } : CacheSys).save.Inv ∧
      (s.hasStore = false → r.1.2 = []) := by
  obtain ⟨⟨a', store'⟩, hflush, hr⟩ := Option.bind_eq_some_iff.mp hr
  obtain ⟨n, -, rfl⟩ := Option.map_eq_some_iff.mp hr
  obtain ⟨hf, hsz, hb, hshow⟩ := h.entry a hsp
  obtain ⟨heq, hshow', hstore⟩ := AddrSpace.vfsAsFlush_spec hshow (fun i hi => Or.inl (hsz ▸ hi)) hflush
  have hbare : s.hasStore = false → store' = [] := fun hno =>
    (hstore (hb.trans hno)).trans (h.bare hno)
  have hlen : s.hasStore = true → s.size ≤ store'.length := fun hst => by
    rw [← hsz]
    rcases ((hc a hsp).2 (hb.trans hst)).2 with hlong | htail
    · exact hlong.trans (AddrSpace.vfsAsFlush_grows hflush)
    · exact AddrSpace.vfsAsFlush_length hf (hb.trans hst) htail hflush
  have hinv : ({ s with space := some a', store := store', flushes := n } : CacheSys).Inv := by
    rw [show a' = _ from heq]
    exact h.setSpace { hf with } hsz hb ⟨hshow'.src, hshow'.store⟩ hbare h.reads
  exact ⟨hinv.save hlen fun hst i hi => hshow'.store (hb.trans hst) i (Or.inl hi), hbare⟩

/-- What a growth to `k` uncovers is as good as visible. -/
theorem Inv.shows_to (hs : a.Shows s.store s.cells s.Seen) (hz : s.ZeroTo a k) :
    a.Shows s.store s.cells fun i => s.Seen i ∨ i < k := by
  have hnew : ∀ i, ¬s.Seen i → i < k → s.cells i = 0 ∧ a.src s.store i = 0 ∧ pad s.store i = 0 :=
    fun i hv hik => by
      obtain ⟨hge, hcut⟩ := not_or.mp hv
      have hcut : s.cut = true := by simpa using hcut
      exact ⟨h.zero hcut i (not_lt.mp hge), hz hcut i hik (not_lt.mp hge)⟩
  refine ⟨fun i hi => ?_, fun hst i hi => ?_⟩ <;> by_cases hv : s.Seen i
  · exact hs.src i hv
  · obtain ⟨h₀, h₁, -⟩ := hnew i hv (hi.resolve_left hv)
    rw [h₀, h₁]
  · exact hs.store hst i hv
  · obtain ⟨h₀, -, h₂⟩ := hnew i hv (hi.resolve_left hv)
    rw [h₀, h₂]

/-- **A new size.** -/
theorem Inv.resize {a' : AddrSpace} (hreg : s.Registered) (ha : s.asOf al = some a)
    (hz : s.ZeroTo a k) (hsize : a'.size = k) (hab : a'.backed = a.backed)
    (hspec : a'.Fit ∧ a'.src s.store = a.src s.store) : { s.resize k with space := some a' }.Inv := by
  obtain ⟨-, -, hb, hs⟩ := h.asOf hreg ha
  have hto := h.shows_to hs hz
  -- cutting zeroes what is cut; growing shows bytes that `ZeroTo` says are zero
  have hseen : ∀ i, (s.resize k).Seen i → (s.Seen i ∨ i < k) ∧ s.cells i = (s.resize k).cells i := by
    rintro i (hik | hc)
    · refine ⟨Or.inr hik, ?_⟩
      show _ = (if k < s.size then fun i => if i < k then s.cells i else 0 else s.cells) i
      split
      · exact (if_pos hik).symm
      · rfl
    · have hc : (s.cut || decide (k < s.size)) = false := hc
      rw [Bool.or_eq_false_iff, decide_eq_false_iff_not] at hc
      exact ⟨Or.inl (Or.inr hc.1), (congrFun (if_neg hc.2) i).symm⟩
  exact
    { h with
      entry := by
        rintro a'' h'
        cases h'
        refine ⟨hspec.1, hsize, hab.trans hb, fun i hi => ?_, fun hst i hi => ?_⟩ <;> obtain ⟨hv, hcell⟩ := hseen i hi
        · exact (congrFun hspec.2 i).trans ((hto.src i hv).trans hcell)
        · exact (hto.store (hab.symm.trans hst) i hv).trans hcell
      empty := nofun
      zero := by
        intro hc i hi
        show (if k < s.size then fun i => if i < k then s.cells i else 0 else s.cells) i = 0
        have hi : k ≤ i := hi
        split
        · exact if_neg (by omega)
        · next hcut =>
          have hc : s.cut = true := by
            have hc : (s.cut || decide (k < s.size)) = true := hc
            simpa [hcut] using hc
          exact h.zero hc i (by omega) }

/-- **One call** keeps the invariant. -/
theorem Inv.step (hc : s.Clean e) (hs : s.step e = some s') : s'.Inv := by
  obtain ⟨op, al⟩ := e
  cases op <;> simp only [CacheSys.step] at hs
  case setBacking =>
    split_ifs at hs with hst
    cases hs
    split
    · next a ha =>
      unfold CacheSys.asOf at ha
      split at ha
      · next a' hsp =>
        cases ha
        obtain ⟨hf, hsz, hb, hshow⟩ := h.entry _ hsp
        have heq : { a with backed := true } = a := by
          rw [← hst, ← hb]
        rw [heq]
        exact h.setSpace hf hsz hb hshow h.bare h.reads
      · next hsp =>
        split_ifs at ha
        cases ha
        obtain ⟨h₁, -, h₃⟩ := h.empty hsp
        obtain ⟨hf, hshow⟩ := @new_shows s.store s.Seen true nofun
        exact h.setSpace hf h₁.symm hst.symm (h₃ ▸ hshow) h.bare h.reads
    · exact h
  case write off bs =>
    split_ifs at hs with hnil
    · cases hs
      exact h
    split at hs
    · cases hs
      exact h
    next a ha =>
    obtain ⟨r, hr, rfl⟩ := Option.map_eq_some_iff.mp hs
    obtain ⟨hreg, hmax, hcond⟩ := hc
    obtain ⟨hwhole, hz⟩ := hcond a ha
    obtain ⟨hf, hsz, hb, hshow⟩ := h.asOf hreg ha
    rcases AddrSpace.vfsAsWrite_cases hr with rfl | ⟨hn, hw⟩
    · exact h.setSpace hf hsz hb hshow h.bare h.reads
    rw [hn]
    -- before the write, the gap it leaves is as good as visible
    obtain ⟨hf', hshow'⟩ := hw.shows hf (h.shows_to hshow hz) hwhole hmax
    have hseen : ∀ i, i < max s.size (off + bs.length) ∨ s.cut = false →
        (s.Seen i ∨ i < off) ∨ off ≤ i ∧ i < off + bs.length := by
      intro i hi
      by_cases hv : s.Seen i
      · exact Or.inl (Or.inl hv)
      · obtain ⟨hge, hcut⟩ := not_or.mp hv
        have := hi.resolve_right hcut
        omega
    exact
      { h with
        entry := by
          rintro a'' h'
          cases h'
          refine ⟨hf', hw.size.trans (by rw [hsz]), hw.backed.trans hb,
            fun i hi => hshow'.src i (hseen i hi), fun hst i hi => hshow'.store hst i (hseen i hi)⟩
        empty := nofun
        zero := by
          intro hcut i hi
          have hi : max s.size (off + bs.length) ≤ i := hi
          show splice s.cells off bs i = 0
          rw [AddrSpace.splice_of_out (by omega)]
          exact h.zero hcut i (by omega)
        bare := by
          intro hno
          rw [hw.store, hb, if_neg (by simp [show s.hasStore = false from hno])]
          exact h.bare hno }
  case others p f =>
    obtain ⟨p', -, hs⟩ := Option.bind_eq_some_iff.mp hs
    obtain ⟨f', -, rfl⟩ := Option.map_eq_some_iff.mp hs
    exact { h with }
  -- what is left goes by the object of the file, if there is one
  all_goals
    split at hs
    · cases hs
      exact h
  case h_2 off size a ha => -- `read`
    obtain ⟨r', hr', rfl⟩ := Option.map_eq_some_iff.mp hs
    obtain ⟨r, hr, hr'⟩ := Option.bind_eq_some_iff.mp hr'
    obtain ⟨n, -, rfl⟩ := Option.map_eq_some_iff.mp hr'
    obtain ⟨hf, hsz, hb, hshow⟩ := h.asOf hc.1 ha
    obtain ⟨h₁, h₂, h₃, h₄⟩ := AddrSpace.vfsAsRead_spec hf hshow (fun i hi => Or.inl (hsz ▸ hi)) hr
    refine h.setSpace h₁ (h₃.1.trans hsz) (h₃.2.trans hb) h₂ h.bare (List.forall_mem_cons.mpr ⟨?_, h.reads⟩)
    rw [h₄, hsz]
    rfl
  case h_2 k a ha => -- `truncate`
    cases hs
    obtain ⟨hreg, hk, hgrow⟩ := hc
    exact h.resize hreg ha (hgrow a ha).2 rfl rfl
      (AddrSpace.vfsAsTruncate_spec (h.asOf hreg ha).1 hk (hgrow a ha).1)
  case h_2 k a ha => -- `setsize`
    cases hs
    obtain ⟨hreg, hk, hgrow⟩ := hc
    exact h.resize hreg ha (hgrow a ha).2 rfl rfl
      (AddrSpace.vfsAsSetsize_spec (h.asOf hreg ha).1 hk (hgrow a ha).1)
  case h_2 off size a hsp => -- `flush`
    obtain ⟨r, hr, rfl⟩ := Option.map_eq_some_iff.mp hs
    exact (h.flush hsp hc hr).1
  case h_2 a hsp => -- `release`
    obtain ⟨r, hr, rfl⟩ := Option.map_eq_some_iff.mp hs
    rw [(h.entry a hsp).2.1] at hr
    obtain ⟨hinv, hbare⟩ := h.flush hsp hc hr
    exact
      { hinv with
        entry := nofun
        empty := fun _ => ⟨rfl, rfl, rfl⟩
        zero := nofun
        bare := hbare }

omit h in
/-- A flush that meets the condition ends. -/
theorem Flushes.ends {off size : Nat} (hsp : s.space = some a) (hc : s.Flushes off size) :
    (a.flushCounted s.store off size s.flushes).isSome = true := by
  obtain ⟨hcount, hsum⟩ := hc a hsp
  refine AddrSpace.counted_isSome.mpr ⟨AddrSpace.vfsAsFlush_isSome.mpr ?_, hcount⟩
  by_cases hb : a.backed = true
  · have := (hsum hb).1
    omega
  · exact Or.inl (by simpa using hb)

/-- **Every call ends** that meets the condition. -/
theorem Inv.ends (hc : s.Clean e) : (s.step e).isSome = true := by
  obtain ⟨op, al⟩ := e
  cases op <;> simp only [CacheSys.step]
  case setBacking => rw [if_pos (show s.hasStore = true from hc), Option.isSome_some]
  case others =>
    obtain ⟨hp, hf⟩ := hc
    rw [checkedAdd, if_pos hp, checkedAdd, if_pos hf]
    rfl
  case read off size =>
    split
    · rfl
    next a ha =>
    rw [Option.isSome_map]
    refine AddrSpace.counted_isSome.mpr ⟨AddrSpace.vfsAsRead_isSome.mpr (Or.inr (Or.inr ?_)), hc.2 a ha⟩
    -- the file is within what the bitmaps can describe
    obtain ⟨hf, -⟩ := h.asOf hc.1 ha
    have h₁ := hf.size_le.trans hf.small
    simp only [maxFile, memfdPagesMax, pageSize] at *
    omega
  case write off bs =>
    split_ifs
    · rfl
    split
    · rfl
    · rw [Option.isSome_map]
      exact AddrSpace.vfsAsWrite_isSome
  all_goals split
  all_goals try rfl
  case h_2 a hsp => -- `flush`
    rw [Option.isSome_map]
    exact Flushes.ends hsp hc
  case h_2 a hsp => -- `release`
    rw [Option.isSome_map, (h.entry a hsp).2.1]
    exact Flushes.ends hsp hc

end

/-- **Main result.**  From any store, or none, every run of calls that meet the condition
comes to its end, and the page cache refines the file. -/
theorem page_cache_refines {store : Option (List UInt8)} {es : List (CacheOp × CacheAlloc)}
    (hclean : MeetsAll CacheSys.step Clean (initial store) es) :
    ∃ s, run CacheSys.step (initial store) es = some s ∧ s.Refines := by
  obtain ⟨s, hrun, h⟩ := run_total
    (fun {s e} (h : s.Inv) hc => by
      obtain ⟨s', hs'⟩ := Option.isSome_iff_exists.mp (h.ends hc)
      exact ⟨s', hs', h.step hc hs'⟩) (initial_inv store) hclean
  exact ⟨s, hrun, h.reads, h.flushes⟩

/-- `Clean`, with every write to pages that are present. -/
def Calm (s : CacheSys) (e : CacheOp × CacheAlloc) : Prop :=
  match e.1 with
  | .write off bs => s.Registered ∧ off + bs.length ≤ maxFile ∧
      ∀ a ∈ s.asOf e.2, a.Loaded off bs.length ∧ s.ZeroTo a off
  | _ => s.Clean e

instance decidableCalm (s : CacheSys) (e : CacheOp × CacheAlloc) : Decidable (s.Calm e) := by
  obtain ⟨op, al⟩ := e
  cases op <;> unfold Calm <;> first | unfold AddrSpace.Loaded; infer_instance | unfold Clean; infer_instance

theorem Calm.clean (h : s.Calm e) : s.Clean e := by
  obtain ⟨op, al⟩ := e
  cases op
  case write off bs =>
    refine ⟨h.1, h.2.1, fun a ha => ⟨fun _ i hi hlo _ hcold => ?_, (h.2.2 a ha).2⟩⟩
    have := (h.2.2 a ha).1 (i / pageSize) ((Nat.div_lt_iff_lt_mul pageSize_pos).mpr hi) hlo
    rw [hcold] at this
    cases this
  all_goals exact h

/-- A stored file is made longer, read, changed, flushed, cut and given up. -/
def writtenRun : List (CacheOp × CacheAlloc) :=
  [(.setBacking, ⟨true, true, true⟩), (.setsize 5, ⟨true, true, true⟩), (.read 0 8, ⟨true, true, true⟩),
    (.write 1 [9], ⟨true, true, true⟩), (.read 0 8, ⟨true, false, false⟩), (.others 7 7, ⟨true, true, true⟩),
    (.flush 4 4, ⟨true, true, true⟩), (.truncate 2, ⟨true, true, true⟩), (.release, ⟨true, true, true⟩)]

theorem page_cache_refines_written : ∃ s, run CacheSys.step (initial (some [1, 2, 3])) writtenRun = some s ∧
    s.log.map Prod.fst = [[1, 9, 3, 0, 0], [1, 2, 3, 0, 0]] ∧
    s.saved.map Prod.fst = [[1, 9], [1, 9, 3, 0, 0]] ∧ s.Refines := by
  refine exists_of_check (p := fun s => s.log.map Prod.fst = [[1, 9, 3, 0, 0], [1, 2, 3, 0, 0]] ∧
      s.saved.map Prod.fst = [[1, 9], [1, 9, 3, 0, 0]])
    (by decide +kernel) fun s hs ⟨hlog, hsaved⟩ => ⟨hlog, hsaved, ?_⟩
  have hclean : MeetsAll CacheSys.step CacheSys.Clean (initial (some [1, 2, 3])) writtenRun :=
    MeetsAll.mono (by decide +kernel) fun s e (h : Calm s e) => h.clean
  obtain ⟨s', hs', h⟩ := page_cache_refines hclean
  obtain rfl := Option.some.inj (hs.symm.trans hs')
  exact h

/-- After the operations, on a file of three stored bytes, the cache has departed from the object. -/
def Departs (es : List (CacheOp × CacheAlloc)) (log saved : List (List UInt8 × List UInt8)) : Prop :=
  ∃ s, run CacheSys.step (initial (some [1, 2, 3])) ([(.setBacking, ⟨true, true, true⟩),
      (.setsize 3, ⟨true, true, true⟩)] ++ es) = some s ∧ s.log = log ∧ s.saved = saved ∧ ¬s.Refines

theorem departs_of_check {es : List (CacheOp × CacheAlloc)} {log saved : List (List UInt8 × List UInt8)}
    (hcheck : (run CacheSys.step (initial (some [1, 2, 3])) ([(.setBacking, ⟨true, true, true⟩),
      (.setsize 3, ⟨true, true, true⟩)] ++ es)).any (fun s => decide (s.hasStore = true ∧ s.log = log ∧
      s.saved = saved ∧ ¬∀ x ∈ log ++ saved, x.1 = x.2)) = true) : Departs es log saved := by
  refine exists_of_check hcheck fun s _ ⟨hstore, hlog, hsaved, hbad⟩ => ⟨hlog, hsaved, fun h => hbad ?_⟩
  intro x hx
  rcases List.mem_append.mp hx with hx | hx
  · exact h.reads x (hlog ▸ hx)
  · exact h.flushes hstore x (hsaved ▸ hx)

/-- **A write to a part of a page that was never read** loses the rest of the page, in the
cache and, after a flush, in the store; what was cut off comes back when the file grows; and
a flush leaves the store shorter than the file. -/
theorem cold_write_loses_page :
    Departs [(.write 1 [9], ⟨true, true, true⟩), (.read 0 3, ⟨true, true, true⟩),
        (.flush 0 3, ⟨true, true, true⟩)] [([0, 9, 0], [1, 9, 3])] [([0, 9, 0], [1, 9, 3])] ∧
      Departs [(.truncate 1, ⟨true, true, true⟩), (.truncate 3, ⟨true, true, true⟩),
        (.read 0 3, ⟨true, true, true⟩)] [([1, 2, 3], [1, 0, 0])] [] ∧
      Departs [(.setsize 4, ⟨true, true, true⟩), (.flush 0 4, ⟨true, true, true⟩)]
        [] [([1, 2, 3], [1, 2, 3, 0])] :=
  ⟨departs_of_check (by decide +kernel), departs_of_check (by decide +kernel),
    departs_of_check (by decide +kernel)⟩

end CacheSys

end CactKernel
