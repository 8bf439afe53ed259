/-
CactKernel/Mm/MemfdLaw.lean

A memfd object as a byte file.

The bytes of an object lie in the frames of its page array.  `Holds m h n`
says that the first `n` slots of the array name different frames, all
allocated; growing an object extends this to more slots, and a growth that
fails leaves the old slots and the bytes in their frames as they were
(`growLocked_spec`).  The copy loops then read and write the bytes one would
expect (`copyOut_eq`, `copyIn_spec`).

What is between the size and the end of the last page is not part of the file
but becomes part of it when the object grows, and nothing clears it then: a
shrink keeps its frames and the bytes in them.  `ZeroTo m h n` says that a
growth to `n` uncovers no such byte.  **Main result** `memfd_refines_file`.
-/
import CactKernel.Lib.ByteFile
import CactKernel.Mm.Memfd

namespace CactKernel

open Function Runs ByteFile

/-! ### Frames of an object -/

/-- `free_page` does nothing to other frames. -/
theorem freePage_bitmap_of_ne {s : Pmm} {f g : Nat} (h : g ≠ f) :
    (freePage s (pageToAddr f)).bitmap g = s.bitmap g := by
  unfold freePage
  rw [addrToPage_pageToAddr]
  split_ifs <;> first | rfl | exact update_of_ne h ..

namespace Mm

variable {m m' m'' : Mm} {h n k i j f : Nat}

/-- The frame in slot `i` of the page array. -/
def slotFrame (m : Mm) (h i : Nat) : Nat := (m.memfds h).pages i

/-- Byte `i` of the object. -/
def memfdByte (m : Mm) (h i : Nat) : UInt8 := m.mem (m.slotFrame h (i / pageSize)) (i % pageSize)

/-- The first `n` slots name different frames that are allocated. -/
structure Holds (m : Mm) (h n : Nat) : Prop where
  used : ∀ i < n, m.pmm.bitmap (m.slotFrame h i) = true
  distinct : ∀ i j, i < n → j < n → m.slotFrame h i = m.slotFrame h j → i = j

/-- The first `n` slots, the bytes behind them and the object's size are the same. -/
structure Kept (m m' : Mm) (h n : Nat) : Prop where
  slot : ∀ i < n, m'.slotFrame h i = m.slotFrame h i
  mem : ∀ i < n, m'.mem (m.slotFrame h i) = m.mem (m.slotFrame h i)
  valid : (m'.memfds h).valid = (m.memfds h).valid
  size : (m'.memfds h).size = (m.memfds h).size
  numPages : (m'.memfds h).numPages = (m.memfds h).numPages

theorem Kept.refl : Kept m m h n := ⟨fun _ _ => rfl, fun _ _ => rfl, rfl, rfl, rfl⟩

theorem Kept.trans (h₁ : Kept m m' h n) (h₂ : Kept m' m'' h n) : Kept m m'' h n where
  slot i hi := (h₂.slot i hi).trans (h₁.slot i hi)
  mem i hi := by
    have := h₂.mem i hi
    rw [h₁.slot i hi] at this
    exact this.trans (h₁.mem i hi)
  valid := h₂.valid.trans h₁.valid
  size := h₂.size.trans h₁.size
  numPages := h₂.numPages.trans h₁.numPages

theorem Kept.mono (h₁ : Kept m m' h n) (hk : k ≤ n) : Kept m m' h k :=
  ⟨fun i hi => h₁.slot i (by omega), fun i hi => h₁.mem i (by omega), h₁.valid, h₁.size, h₁.numPages⟩

theorem div_lt_of_lt_mul (h : i < n * pageSize) : i / pageSize < n :=
  (Nat.div_lt_iff_lt_mul pageSize_pos).mpr h

theorem Kept.byte (h₁ : Kept m m' h n) (hi : i < n * pageSize) : m'.memfdByte h i = m.memfdByte h i := by
  have hlt := div_lt_of_lt_mul hi
  unfold memfdByte
  rw [h₁.slot _ hlt, h₁.mem _ hlt]

theorem setMemfdPage_slot_self : (m.setMemfdPage h i f).slotFrame h i = f := by
  simp [slotFrame, setMemfdPage, setMemfd]

theorem setMemfdPage_slot_of_ne (hij : j ≠ i) : (m.setMemfdPage h i f).slotFrame h j = m.slotFrame h j := by
  simp [slotFrame, setMemfdPage, setMemfd, hij]

theorem setMemfdPage_self : (m.setMemfdPage h i f).memfds h =
    { m.memfds h with pages := update (m.memfds h).pages i f } := update_self ..

/-! ### Changes that keep the page array -/

section SetMemfd

variable {o : MemFd}

theorem setMemfd_self : (m.setMemfd h o).memfds h = o := update_self ..

theorem setMemfd_slot (ho : o.pages = (m.memfds h).pages) :
    (m.setMemfd h o).slotFrame h i = m.slotFrame h i := by
  rw [slotFrame, setMemfd_self, ho]
  rfl

theorem setMemfd_byte (ho : o.pages = (m.memfds h).pages) :
    (m.setMemfd h o).memfdByte h i = m.memfdByte h i := by
  rw [memfdByte, setMemfd_slot ho]
  rfl

theorem Holds.setMemfd (hm : m.Holds h n) (ho : o.pages = (m.memfds h).pages) :
    (m.setMemfd h o).Holds h n := by
  refine ⟨fun i hi => ?_, fun i j hi hj he => ?_⟩
  · rw [setMemfd_slot ho]
    exact hm.used i hi
  · rw [setMemfd_slot ho, setMemfd_slot ho] at he
    exact hm.distinct i j hi hj he

end SetMemfd

/-! ### Growing -/

/-- **One more frame.** -/
theorem Holds.grow (hm : m.Holds h n) (hk : m.kalloc = some (f, m')) :
    ((m'.setPage f zeroPage).setMemfdPage h n f).Holds h (n + 1) ∧
      Kept m ((m'.setPage f zeroPage).setMemfdPage h n f) h n ∧
      ((m'.setPage f zeroPage).setMemfdPage h n f).mem f = zeroPage := by
  obtain ⟨hfree, -, -, hm', -, hbitmap, -⟩ := kalloc_spec hk
  -- a frame just allocated was free, so it backs no slot yet
  have hne : ∀ i < n, m.slotFrame h i ≠ f := fun i hi he => by
    have := hm.used i hi
    rw [he, hfree] at this
    exact nomatch this
  have hslot : ∀ i, i ≠ n → ((m'.setPage f zeroPage).setMemfdPage h n f).slotFrame h i = m.slotFrame h i := by
    intro i hi
    rw [setMemfdPage_slot_of_ne hi, hm']
    rfl
  refine ⟨⟨fun i hi => ?_, fun i j hi hj he => ?_⟩, ⟨fun i hi => hslot i (by omega), fun i hi => ?_, ?_, ?_, ?_⟩,
    update_self ..⟩
  · show m'.pmm.bitmap _ = true
    rw [hbitmap]
    by_cases hin : i = n
    · subst hin
      rw [setMemfdPage_slot_self, update_self]
    · rw [hslot i hin, update_of_ne (hne i (by omega))]
      exact hm.used i (by omega)
  · by_cases hin : i = n <;> by_cases hjn : j = n
    · omega
    · subst hin
      rw [setMemfdPage_slot_self, hslot j hjn] at he
      exact absurd he.symm (hne j (by omega))
    · subst hjn
      rw [setMemfdPage_slot_self, hslot i hin] at he
      exact absurd he (hne i (by omega))
    · rw [hslot i hin, hslot j hjn] at he
      exact hm.distinct i j (by omega) (by omega) he
  · show update m'.mem f zeroPage _ = _
    rw [update_of_ne (hne i hi), kalloc_mem hk]
  all_goals
    rw [setMemfdPage_self, hm']
    rfl

/-- One frame of a growth that failed is given back. -/
def dropSlot (h : Nat) (m : Mm) (j : Nat) : Mm := (m.freePage (m.slotFrame h j)).setMemfdPage h j 0

/-- The rollback leaves the slots before it alone. -/
theorem Holds.drop {l : List Nat} (hm : m.Holds h n) (hl : ∀ j ∈ l, n ≤ j) (hnd : l.Nodup)
    (hout : ∀ j ∈ l, ∀ i < n, m.slotFrame h i ≠ m.slotFrame h j) :
    (l.foldl (dropSlot h) m).Holds h n ∧ Kept m (l.foldl (dropSlot h) m) h n := by
  induction l generalizing m with
  | nil => exact ⟨hm, .refl⟩
  | cons j l ih =>
    obtain ⟨hjl, hnd⟩ := List.nodup_cons.mp hnd
    have hj := hl j List.mem_cons_self
    have hslot : ∀ i, i ≠ j → (dropSlot h m j).slotFrame h i = m.slotFrame h i := fun i hi =>
      setMemfdPage_slot_of_ne hi
    have hkept : Kept m (dropSlot h m j) h n := by
      refine ⟨fun i hi => hslot i (by omega), fun _ _ => rfl, ?_, ?_, ?_⟩ <;> rw [dropSlot, setMemfdPage_self] <;> rfl
    have hholds : (dropSlot h m j).Holds h n := by
      refine ⟨fun i hi => ?_, fun i k hi hk he => ?_⟩
      · rw [hslot i (by omega)]
        exact (freePage_bitmap_of_ne (hout j List.mem_cons_self i hi)).trans (hm.used i hi)
      · rw [hslot i (by omega), hslot k (by omega)] at he
        exact hm.distinct i k hi hk he
    obtain ⟨h₁, h₂⟩ := ih hholds (fun k hk => hl k (List.mem_cons_of_mem j hk)) hnd fun k hk i hi => by
      rw [hslot i (by omega), hslot k (ne_of_mem_of_not_mem hk hjl)]
      exact hout k (List.mem_cons_of_mem j hk) i hi
    exact ⟨h₁, hkept.trans h₂⟩

end Mm

open Mm

variable {m m' : Mm} {h n k i j start need pos off size fuel : Nat} {heapOk : Bool}
  {bs : List UInt8} {r : Mm × Int}

/-- **The growth loop**: all frames, zeroed, or the old state of the object. -/
theorem growPages_spec {r : Mm × Bool} (hm : m.Holds h i) (hs : start ≤ i)
    (hr : growPages h start m n i = r) :
    (r.2 = true → r.1.Holds h (i + n) ∧ Kept m r.1 h i ∧
      ∀ j, i ≤ j → j < i + n → r.1.mem (r.1.slotFrame h j) = zeroPage) ∧
    (r.2 = false → r.1.Holds h start ∧ Kept m r.1 h start) := by
  subst hr
  induction n generalizing m i with
  | zero => exact ⟨fun _ => ⟨hm, .refl, fun j h₁ h₂ => by omega⟩, nofun⟩
  | succ n ih =>
    rw [growPages]
    rcases hk : m.kalloc with - | ⟨f, m₁⟩
    · refine ⟨nofun, fun _ => ?_⟩
      -- out of frames: everything from `start` on is given back
      refine Holds.drop ⟨fun j hj => hm.used j (by omega), fun j k hj hk => hm.distinct j k (by omega) (by omega)⟩
        (fun j hj => (List.mem_range'_1.mp hj).1) List.nodup_range' fun j hj k hk he => ?_
      have := List.mem_range'_1.mp hj
      have := hm.distinct k j (by omega) (by omega) he
      omega
    · dsimp only
      obtain ⟨hm₂, hkept, hzero⟩ := hm.grow hk
      generalize hm₂' : (m₁.setPage f zeroPage).setMemfdPage h i f = m₂ at *
      have hslot : m₂.slotFrame h i = f := by
        rw [← hm₂']
        exact setMemfdPage_slot_self
      obtain ⟨hok, hfail⟩ := ih hm₂ (by omega)
      refine ⟨fun hb => ?_, fun hb => ?_⟩
      · obtain ⟨h₁, h₂, h₃⟩ := hok hb
        refine ⟨by rwa [show i + (n + 1) = i + 1 + n by omega], hkept.trans (h₂.mono (by omega)), fun j hj₁ hj₂ => ?_⟩
        by_cases hj : j = i
        · subst hj
          rw [h₂.slot j (by omega), h₂.mem j (by omega), hslot]
          exact hzero
        · exact h₃ j (by omega) (by omega)
      · obtain ⟨h₁, h₂⟩ := hfail hb
        exact ⟨h₁, (hkept.mono hs).trans h₂⟩

/-- What a growth may do, whether it succeeds or not: more slots, with zeroed frames. -/
structure Grown (m m' : Mm) (h : Nat) : Prop where
  holds : m'.Holds h (m'.memfds h).numPages
  le : (m.memfds h).numPages ≤ (m'.memfds h).numPages
  byte : ∀ i < (m.memfds h).numPages * pageSize, m'.memfdByte h i = m.memfdByte h i
  zero : ∀ i, (m.memfds h).numPages * pageSize ≤ i → i < (m'.memfds h).numPages * pageSize →
    m'.memfdByte h i = 0
  valid : (m'.memfds h).valid = (m.memfds h).valid
  size : (m'.memfds h).size = (m.memfds h).size

theorem Grown.refl (hm : m.Holds h (m.memfds h).numPages) : Grown m m h :=
  ⟨hm, le_rfl, fun _ _ => rfl, fun i h₁ h₂ => by omega, rfl, rfl⟩

theorem Grown.of_kept (hm : m'.Holds h (m.memfds h).numPages) (hk : Kept m m' h (m.memfds h).numPages) :
    Grown m m' h where
  holds := hk.numPages ▸ hm
  le := hk.numPages.ge
  byte i hi := hk.byte hi
  zero i h₁ h₂ := by
    rw [hk.numPages] at h₂
    omega
  valid := hk.valid
  size := hk.size

/-- A larger page array holds the same frames. -/
theorem ensureCapacity_kept (hm : m.Holds h n) (hc : ensureCapacity m h need heapOk = some m') :
    m'.Holds h n ∧ Kept m m' h n := by
  unfold ensureCapacity at hc
  split at hc
  · obtain rfl := Option.some.inj hc
    exact ⟨hm, .refl⟩
  split at hc
  · exact nomatch hc
  split at hc
  · obtain rfl := Option.some.inj hc
    refine ⟨hm.setMemfd rfl, fun i _ => setMemfd_slot rfl, fun _ _ => rfl, ?_, ?_, ?_⟩ <;> rw [setMemfd_self]
  · exact nomatch hc

/-- **`grow_locked`.** -/
theorem growLocked_spec (need : Nat) (heapOk : Bool) (hm : m.Holds h (m.memfds h).numPages) :
    Grown m (growLocked m h need heapOk).1 h ∧
      ((growLocked m h need heapOk).2 = true →
        need ≤ ((growLocked m h need heapOk).1.memfds h).numPages) ∧
      ((growLocked m h need heapOk).2 = false → (m.memfds h).numPages < need) := by
  unfold growLocked
  split
  · next hle => exact ⟨.refl hm, fun _ => hle, nofun⟩
  next hlt =>
  split
  · exact ⟨.refl hm, nofun, fun _ => not_le.mp hlt⟩
  next m₁ hc =>
  obtain ⟨hm₁, hk₁⟩ := ensureCapacity_kept hm hc
  dsimp only
  rw [hk₁.numPages]
  -- the pages come first, the count of them last
  generalize hr : growPages h (m.memfds h).numPages m₁ (need - (m.memfds h).numPages)
    (m.memfds h).numPages = r
  obtain ⟨hok, hfail⟩ := growPages_spec hm₁ le_rfl hr
  split
  · next hb =>
    obtain ⟨h₁, h₂, h₃⟩ := hok hb
    have hk := hk₁.trans h₂
    rw [show (m.memfds h).numPages + (need - (m.memfds h).numPages) = need by omega] at h₁ h₃
    have hbyte : ∀ i, (r.1.setMemfd h { r.1.memfds h with numPages := need }).memfdByte h i =
        r.1.memfdByte h i := fun i => setMemfd_byte rfl
    refine ⟨⟨?_, ?_, fun i hi => (hbyte i).trans (hk.byte hi), fun i hi₁ hi₂ => (hbyte i).trans ?_, ?_, ?_⟩,
      fun _ => ?_, nofun⟩
    all_goals rw [setMemfd_self] at *
    · exact h₁.setMemfd rfl
    · exact le_of_lt (not_le.mp hlt)
    · rw [memfdByte, h₃ _ ((Nat.le_div_iff_mul_le pageSize_pos).mpr hi₁) (div_lt_of_lt_mul hi₂)]
      rfl
    · exact hk.valid
    · exact hk.size
  · next hb =>
    obtain ⟨h₁, h₂⟩ := hfail (by simpa using hb)
    exact ⟨.of_kept h₁ (hk₁.trans h₂), nofun, fun _ => not_le.mp hlt⟩

/-! ### The copy loops -/

/-- A step inside a page. -/
theorem page_add (hj : j < pageSize - pos % pageSize) :
    (pos + j) / pageSize = pos / pageSize ∧ (pos + j) % pageSize = pos % pageSize + j := by
  have hpos := Nat.div_add_mod pos pageSize
  have hdiv : (pos + j) / pageSize = pos / pageSize := by
    refine Nat.div_eq_of_lt_le ?_ ?_
    · have := Nat.div_mul_le_self pos pageSize
      omega
    · rw [Nat.succ_mul, Nat.mul_comm]
      omega
  have := Nat.div_add_mod (pos + j) pageSize
  rw [hdiv] at this
  exact ⟨hdiv, by omega⟩

/-- **`memfd_read` copies the bytes of the object.** -/
theorem copyOut_eq (hn : n ≤ fuel) :
    copyOut m h fuel pos n = image n fun i => m.memfdByte h (pos + i) := by
  induction fuel generalizing pos n with
  | zero =>
    obtain rfl : n = 0 := by omega
    rfl
  | succ fuel ih =>
    rw [copyOut]
    split
    · next hz =>
      subst hz
      rfl
    · next hz =>
      dsimp only
      have hmod : pos % pageSize < pageSize := Nat.mod_lt _ pageSize_pos
      generalize hc : min n (pageSize - pos % pageSize) = c
      rw [ih (by omega)]
      -- the first chunk lies in one page
      have hfirst : (List.range c).map (fun j => m.mem ((m.memfds h).pages (pos / pageSize))
          (pos % pageSize + j)) = image c fun i => m.memfdByte h (pos + i) := by
        refine image_congr fun j hj => ?_
        obtain ⟨hdiv, hmod'⟩ : _ ∧ _ := page_add (show j < pageSize - pos % pageSize by omega)
        rw [memfdByte, hdiv, hmod']
        rfl
      rw [hfirst]
      refine eq_image fun i => ?_
      rw [List.getElem?_append, image_length, image_getElem?, image_getElem?]
      by_cases hi : i < c
      · rw [if_pos hi, if_pos hi, if_pos (by omega)]
      · rw [if_neg hi, show pos + c + (i - c) = pos + i by omega]
        by_cases hin : i < n
        · rw [if_pos hin, if_pos (by omega)]
        · rw [if_neg hin, if_neg (by omega)]

/-- One pass of the copy loop of `memfd_write`. -/
theorem splice_byte {c : Nat} (hm : m.Holds h k) (hpos : pos < k * pageSize)
    (hc : c ≤ pageSize - pos % pageSize) (hi : i < k * pageSize) :
    (m.setPage (m.slotFrame h (pos / pageSize)) (splice (m.mem (m.slotFrame h (pos / pageSize)))
        (pos % pageSize) (bs.take c))).memfdByte h i = splice (m.memfdByte h) pos (bs.take c) i := by
  have hp := Nat.div_add_mod pos pageSize
  have hii := Nat.div_add_mod i pageSize
  show update m.mem _ _ (m.slotFrame h (i / pageSize)) (i % pageSize) = _
  unfold splice
  by_cases hpage : i / pageSize = pos / pageSize
  · rw [hpage] at hii
    rw [hpage, update_self, memfdByte, hpage]
    by_cases hle : pos ≤ i
    · rw [if_pos hle, if_pos (by omega), show i % pageSize - pos % pageSize = i - pos by omega]
    · rw [if_neg hle, if_neg (by omega)]
  · have hne : m.slotFrame h (i / pageSize) ≠ m.slotFrame h (pos / pageSize) := fun he =>
      hpage (hm.distinct _ _ (div_lt_of_lt_mul hi) (div_lt_of_lt_mul hpos) he)
    rw [update_of_ne hne]
    -- in another page, so before `pos` or behind the chunk
    split
    · next hle =>
      have hlt : pos / pageSize < i / pageSize :=
        lt_of_le_of_ne (Nat.div_le_div_right hle) (Ne.symm hpage)
      have hmul := Nat.mul_le_mul_left pageSize (Nat.succ_le_of_lt hlt)
      rw [Nat.mul_succ] at hmul
      rw [List.getElem?_take, if_neg (by omega)]
      rfl
    · rfl

/-- **`memfd_write` writes the bytes.** -/
theorem copyIn_spec (hm : m.Holds h k) (hfuel : bs.length ≤ fuel)
    (hfit : pos + bs.length ≤ k * pageSize) :
    (copyIn h fuel m pos bs).memfds = m.memfds ∧ (copyIn h fuel m pos bs).pmm = m.pmm ∧
      ∀ i < k * pageSize, (copyIn h fuel m pos bs).memfdByte h i = splice (m.memfdByte h) pos bs i := by
  have hnil : ∀ i, m.memfdByte h i = splice (m.memfdByte h) pos [] i := by simp [splice]
  induction fuel generalizing m pos bs with
  | zero =>
    obtain rfl := List.length_eq_zero_iff.mp (Nat.le_zero.mp hfuel)
    exact ⟨rfl, rfl, fun i _ => hnil i⟩
  | succ fuel ih =>
    rw [copyIn]
    split
    · next hz =>
      subst hz
      exact ⟨rfl, rfl, fun i _ => hnil i⟩
    next hz =>
    have hlen := List.length_pos_iff.mpr hz
    have hmod := Nat.mod_lt pos pageSize_pos
    dsimp only
    generalize hc : min bs.length (pageSize - pos % pageSize) = c
    -- one chunk, up to the end of its page; the rest by induction
    generalize hm₁ : m.setPage ((m.memfds h).pages (pos / pageSize))
      (splice (m.mem ((m.memfds h).pages (pos / pageSize))) (pos % pageSize) (bs.take c)) = m₁
    have hbyte₁ : ∀ i < k * pageSize, m₁.memfdByte h i = splice (m.memfdByte h) pos (bs.take c) i := by
      intro i hi
      rw [← hm₁]
      exact splice_byte hm (by omega) (by omega) hi
    have hholds : m₁.Holds h k := by
      rw [← hm₁]
      exact ⟨hm.used, hm.distinct⟩
    have hdrop : (bs.drop c).length = bs.length - c := List.length_drop ..
    obtain ⟨h₁, h₂, h₃⟩ := @ih m₁ (pos + c) (bs.drop c) hholds (by omega) (by omega) (by simp [splice])
    refine ⟨h₁.trans (by rw [← hm₁]; rfl), h₂.trans (by rw [← hm₁]; rfl), fun i hi => ?_⟩
    rw [h₃ i hi, splice, hbyte₁ i hi, splice, splice, List.getElem?_drop, List.getElem?_take]
    by_cases hle : pos ≤ i
    · rw [if_pos hle, if_pos hle]
      by_cases hlt : i - pos < c
      · rw [if_neg (by omega), if_pos hlt]
      · rw [if_pos (by omega), if_neg hlt, show c + (i - (pos + c)) = i - pos by omega]
        rfl
    · rw [if_neg hle, if_neg hle, if_neg (by omega)]

/-! ### The object and its file -/

/-- **The invariant of an object.** -/
structure ObjInv (m : Mm) (h : Nat) : Prop where
  valid : handleValid m h = true
  word : (m.memfds h).size < u32Size
  holds : m.Holds h (m.memfds h).numPages
  room : (m.memfds h).size ≤ (m.memfds h).numPages * pageSize

/-- The file an object stands for. -/
def contents (m : Mm) (h : Nat) : List UInt8 := image (m.memfds h).size (m.memfdByte h)

/-- From the size to `n`, the frames the object has already are zero. -/
def ZeroTo (m : Mm) (h n : Nat) : Prop :=
  ∀ i < n, (m.memfds h).size ≤ i → i < (m.memfds h).numPages * pageSize → m.memfdByte h i = 0

instance decidableZeroTo (m : Mm) (h n : Nat) : Decidable (ZeroTo m h n) :=
  inferInstanceAs (Decidable (∀ i < n, _))

theorem handleValid_eq (hv : (m'.memfds h).valid = (m.memfds h).valid) :
    handleValid m' h = handleValid m h := by
  unfold handleValid
  rw [hv]

/-- A growth, successful or not, changes nothing in the file. -/
theorem Grown.inv (ho : ObjInv m h) (hg : Grown m m' h) : ObjInv m' h ∧ contents m' h = contents m h := by
  have hroom := ho.room
  have hmul := Nat.mul_le_mul_right pageSize hg.le
  refine ⟨⟨(handleValid_eq hg.valid).trans ho.valid, hg.size ▸ ho.word, hg.holds, by rw [hg.size]; omega⟩, ?_⟩
  unfold contents
  rw [hg.size]
  exact image_congr fun i hi => hg.byte i (by omega)

/-- New frames are zero. -/
theorem Grown.zeroTo (hg : Grown m m' h) (hz : ZeroTo m h n) : ZeroTo m' h n := by
  intro i hi h₁ h₂
  rw [hg.size] at h₁
  by_cases hlt : i < (m.memfds h).numPages * pageSize
  · rw [hg.byte i hlt]
    exact hz i hi h₁ hlt
  · exact hg.zero i (not_lt.mp hlt) h₂

/-- The size moves within the frames. -/
theorem ObjInv.setSize (ho : ObjInv m h) (hword : size < u32Size)
    (hfit : size ≤ (m.memfds h).numPages * pageSize) :
    ObjInv (m.setMemfd h { m.memfds h with size := size }) h := by
  refine ⟨(handleValid_eq (by rw [setMemfd_self])).trans ho.valid, ?_, ?_, ?_⟩ <;> rw [setMemfd_self]
  · exact hword
  · exact ho.holds.setMemfd rfl
  · exact hfit

/-- **A new size shows a file cut or extended with zeros**, if the frames it uncovers are zero. -/
theorem contents_setSize (hz : ZeroTo m h size) (hfit : size ≤ (m.memfds h).numPages * pageSize) :
    contents (m.setMemfd h { m.memfds h with size := size }) h = truncate 0 (contents m h) size := by
  have hbyte : ∀ i, (m.setMemfd h { m.memfds h with size := size }).memfdByte h i = m.memfdByte h i :=
    fun i => setMemfd_byte rfl
  unfold contents
  rw [truncate_image, setMemfd_self]
  refine image_congr fun i hi => ?_
  rw [hbyte]
  split
  · rfl
  · next hs => exact hz i hi (not_lt.mp hs) (lt_of_lt_of_le hi hfit)

theorem le_ceilPages (x : Nat) : x ≤ ceilPages x * pageSize := by
  unfold ceilPages pageSize
  omega

/-- A growth to `last` bytes. -/
structure GrownTo (m : Mm) (r : Mm × Bool) (h last : Nat) : Prop extends Grown m r.1 h where
  obj : ObjInv r.1 h
  same : contents r.1 h = contents m h
  fit : r.2 = true → last ≤ (r.1.memfds h).numPages * pageSize
  short : r.2 = false → (m.memfds h).numPages < ceilPages last

theorem growLocked_to (last : Nat) (heapOk : Bool) (ho : ObjInv m h) :
    GrownTo m (growLocked m h (ceilPages last) heapOk) h last := by
  obtain ⟨hg, hneed, hshort⟩ := growLocked_spec (ceilPages last) heapOk ho.holds
  obtain ⟨ho', hc⟩ := hg.inv ho
  exact ⟨hg, ho', hc, fun hb => (le_ceilPages last).trans (Nat.mul_le_mul_right _ (hneed hb)), hshort⟩

/-- **`memfd_grow_to`.** -/
theorem memfdGrowTo_spec {last : Nat} (ho : ObjInv m h) (hword : last < u32Size) (hz : ZeroTo m h last) :
    ObjInv (memfdGrowTo m h last heapOk).1 h ∧ contents (memfdGrowTo m h last heapOk).1 h =
      if (memfdGrowTo m h last heapOk).2 then extend 0 (contents m h) last else contents m h := by
  unfold memfdGrowTo
  rw [if_pos ho.valid]
  have hg := growLocked_to last heapOk ho
  generalize growLocked m h (ceilPages last) heapOk = r at *
  dsimp only
  split
  · next hb =>
    have hfit := max_le (hg.fit hb) hg.obj.room
    have hz' : ZeroTo r.1 h (max last (r.1.memfds h).size) := fun i hi h₁ =>
      hg.zeroTo hz i (by omega) h₁
    refine ⟨hg.obj.setSize (max_lt hword hg.obj.word) hfit, ?_⟩
    rw [if_pos rfl, contents_setSize hz' hfit, hg.same]
    unfold contents
    rw [extend_image, truncate_image, hg.size, max_comm]
  · exact ⟨hg.obj, hg.same⟩

/-- **`memfd_truncate`.** -/
theorem memfdTruncate_spec {newSize : Nat} (ho : ObjInv m h) (hword : newSize < u32Size)
    (hz : ZeroTo m h newSize) (hr : memfdTruncate m h newSize heapOk = r) :
    ObjInv r.1 h ∧ (r.2 = 0 ∧ contents r.1 h = truncate 0 (contents m h) newSize ∨
      r.2 = -1 ∧ contents r.1 h = contents m h) := by
  subst hr
  unfold memfdTruncate
  split
  · exact ⟨ho, Or.inr ⟨rfl, rfl⟩⟩
  rw [if_neg (by rw [ho.valid]; decide)]
  split
  · next hlt =>
    have hg := growLocked_to newSize heapOk ho
    dsimp only
    split
    · exact ⟨hg.obj, Or.inr ⟨rfl, hg.same⟩⟩
    · next hb =>
      have hfit := hg.fit (by simpa using hb)
      refine ⟨hg.obj.setSize hword hfit, Or.inl ⟨rfl, ?_⟩⟩
      rw [contents_setSize (hg.zeroTo hz) hfit, hg.same]
  · next hle =>
    have hfit : newSize ≤ (m.memfds h).numPages * pageSize := (not_lt.mp hle).trans ho.room
    exact ⟨ho.setSize hword hfit, Or.inl ⟨rfl, contents_setSize hz hfit⟩⟩

theorem toI32_of_lt (hn : n < 0x80000000) : toI32 n = n := if_pos hn

/-- The bytes are in the frames of the grown object `m`. -/
structure CopiedIn (m m' : Mm) (h off : Nat) (bs : List UInt8) : Prop where
  obj : ObjInv m' h
  size : (m'.memfds h).size = max (off + bs.length) (m.memfds h).size
  numPages : (m'.memfds h).numPages = (m.memfds h).numPages
  fit : off + bs.length ≤ (m.memfds h).numPages * pageSize
  byte : ∀ i < (m.memfds h).numPages * pageSize, m'.memfdByte h i = splice (m.memfdByte h) off bs i

section

variable (ho : ObjInv m h)
include ho

theorem ObjInv.copiedIn (hword : off + bs.length < u32Size)
    (hfit : off + bs.length ≤ (m.memfds h).numPages * pageSize) :
    CopiedIn m (copyIn h bs.length (m.setMemfd h { m.memfds h with
      size := max (off + bs.length) (m.memfds h).size }) off bs) h off bs := by
  have ho₁ := ho.setSize (max_lt hword ho.word) (max_le hfit ho.room)
  set m₁ := m.setMemfd h { m.memfds h with size := max (off + bs.length) (m.memfds h).size }
  have hself : m₁.memfds h = { m.memfds h with size := max (off + bs.length) (m.memfds h).size } :=
    setMemfd_self
  obtain ⟨h₁, h₂, h₃⟩ := copyIn_spec ho₁.holds le_rfl (by rw [hself]; exact hfit)
  refine ⟨⟨?_, ?_, ⟨fun i hi => ?_, fun i j hi hj => ?_⟩, ?_⟩, ?_, ?_, hfit, fun i hi => ?_⟩
  · exact (handleValid_eq (by rw [h₁])).trans ho₁.valid
  · rw [h₁]
    exact ho₁.word
  · rw [h₁] at hi
    rw [h₂, slotFrame, h₁]
    exact ho₁.holds.used i hi
  · rw [h₁] at hi hj
    rw [slotFrame, slotFrame, h₁]
    exact ho₁.holds.distinct i j hi hj
  · rw [h₁]
    exact ho₁.room
  · rw [h₁, hself]
  · rw [h₁, hself]
  · rw [h₃ i (by rw [hself]; exact hi), show m₁.memfdByte h = _ from funext fun i => setMemfd_byte rfl]

/-- **`memfd_write`**: it fails for lack of frames, or the bytes are written. -/
theorem memfdWrite_cases (hbs : bs ≠ [])
    (hr : memfdWrite m h off bs false heapOk = r) :
    (r.2 = -1 ∧ Grown m r.1 h ∧
        ((satAdd off bs.length < off ∨ memfdPagesMax < ceilPages (satAdd off bs.length)) ∨
          (m.memfds h).numPages < ceilPages (satAdd off bs.length))) ∨
      r.2 = toI32 bs.length ∧ off + bs.length < u32Size ∧
        ¬(satAdd off bs.length < off ∨ memfdPagesMax < ceilPages (satAdd off bs.length)) ∧
        ∃ m', Grown m m' h ∧ CopiedIn m' r.1 h off bs := by
  rw [← hr]
  unfold memfdWrite
  rw [if_neg hbs, if_neg (by decide), if_neg (by rw [ho.valid]; decide)]
  dsimp only
  split
  · next hbig => exact Or.inl ⟨rfl, .refl ho.holds, Or.inl hbig⟩
  next hbig =>
  -- the sum did not saturate
  have hlast : satAdd off bs.length = off + bs.length ∧ off + bs.length < u32Size := by
    simp only [satAdd, ceilPages, memfdPagesMax, u32Size, pageSize] at *
    omega
  rw [hlast.1] at hbig ⊢
  have hg := growLocked_to (off + bs.length) heapOk ho
  generalize growLocked m h (ceilPages (off + bs.length)) heapOk = r at *
  split
  · next hb => exact Or.inl ⟨rfl, hg.toGrown, Or.inr (hg.short hb)⟩
  · next hb =>
    exact Or.inr ⟨rfl, hlast.2, hbig, r.1, hg.toGrown, hg.obj.copiedIn hlast.2 (hg.fit (by simpa using hb))⟩

/-- **`memfd_write`** of fewer than 2³¹ bytes. -/
theorem memfdWrite_spec (hbs : bs ≠ []) (hlen : bs.length < 0x80000000)
    (hz : ZeroTo m h off) (hr : memfdWrite m h off bs false heapOk = r) :
    ObjInv r.1 h ∧ (r.2 = bs.length ∧ contents r.1 h = write 0 (contents m h) off bs ∨
      r.2 = -1 ∧ contents r.1 h = contents m h) := by
  rcases memfdWrite_cases ho hbs hr with ⟨hret, hg, -⟩ | ⟨hret, -, -, m', hg, hw⟩
  · obtain ⟨ho', hc⟩ := hg.inv ho
    exact ⟨ho', Or.inr ⟨hret, hc⟩⟩
  refine ⟨hw.obj, Or.inl ⟨hret.trans (toI32_of_lt hlen), ?_⟩⟩
  have hfit := hw.fit
  have hroom := ho.room
  have hmul := Nat.mul_le_mul_right pageSize hg.le
  unfold contents
  rw [hw.size, hg.size, max_comm]
  refine (write_image (fun j b hj => ?_) fun i hi hlt => ?_).symm
  · have hjlt : j < bs.length := (List.getElem?_eq_some_iff.mp hj).1
    rw [hw.byte _ (by omega), splice, if_pos (by omega), Nat.add_sub_cancel_left, hj]
    rfl
  · have hout : m'.memfdByte h i = if i < (m.memfds h).size then m.memfdByte h i else 0 := by
      split
      · exact hg.byte i (by omega)
      · exact hg.zeroTo hz i (by omega) (by rw [hg.size]; omega) (by omega)
    rw [hw.byte i (by omega), splice, ← hout]
    split
    · rw [List.getElem?_eq_none (by omega)]
      rfl
    · rfl

/-- **`memfd_read`** of fewer than 2³¹ bytes. -/
theorem memfdRead_spec (hsize : size ≠ 0)
    (hsmall : size < 0x80000000 ∨ (m.memfds h).size < 0x80000000) :
    memfdRead m h off size false =
      (((read (contents m h) off size).length : Int), read (contents m h) off size) := by
  unfold memfdRead contents
  rw [if_neg hsize, if_neg (by decide), if_neg (by rw [ho.valid]; decide), read_image, image_length]
  split
  · next hoff =>
    rw [show min size ((m.memfds h).size - off) = 0 by omega]
    rfl
  · next hoff =>
    have hn : (if off + size < u32Size ∧ off + size ≤ (m.memfds h).size then size
        else (m.memfds h).size - off) = min size ((m.memfds h).size - off) := by
      have := ho.word
      split <;> omega
    dsimp only
    rw [hn, copyOut_eq le_rfl, toI32_of_lt (by omega)]

end

/-! ### Runs -/

/-- The operations on a handle; `null` says that the buffer is null, `heapOk` that `kmalloc` has room. -/
inductive MemfdOp where
  | read (off size : Nat) (null : Bool)
  | write (off : Nat) (bs : List UInt8) (null heapOk : Bool)
  | truncate (newSize : Nat) (heapOk : Bool)
  | growTo (last : Nat) (heapOk : Bool)
deriving DecidableEq, Repr

/-- A return value and the bytes copied to the caller. -/
structure MemfdResult where
  ret : Int
  bytes : List UInt8
deriving DecidableEq, Repr

def memfdOp (m : Mm) (h : Nat) : MemfdOp → Mm × MemfdResult
  | .read off size null => (m, ⟨(memfdRead m h off size null).1, (memfdRead m h off size null).2⟩)
  | .write off bs null heapOk => ((memfdWrite m h off bs null heapOk).1, ⟨(memfdWrite m h off bs null heapOk).2, []⟩)
  | .truncate newSize heapOk => ((memfdTruncate m h newSize heapOk).1, ⟨(memfdTruncate m h newSize heapOk).2, []⟩)
  | .growTo last heapOk => ((memfdGrowTo m h last heapOk).1, ⟨if (memfdGrowTo m h last heapOk).2 then 0 else -1, []⟩)

/-- **The abstract file**: what each operation does to a list of bytes.  An operation that changes the
file may fail for lack of memory, and then changes nothing; a read does not fail. -/
def fileOp (f : List UInt8) (failed : Bool) : MemfdOp → List UInt8 × MemfdResult
  | .read off size null =>
    (f, if size = 0 then ⟨0, []⟩ else if null then ⟨-1, []⟩
      else ⟨(read f off size).length, read f off size⟩)
  | .write off bs null _ =>
    if bs = [] then (f, ⟨0, []⟩) else if null ∨ failed then (f, ⟨-1, []⟩)
    else (write 0 f off bs, ⟨bs.length, []⟩)
  | .truncate newSize _ => if failed then (f, ⟨-1, []⟩) else (truncate 0 f newSize, ⟨0, []⟩)
  | .growTo last _ => if failed then (f, ⟨-1, []⟩) else (extend 0 f last, ⟨0, []⟩)

/-- An object and a file side by side; `log` pairs what they returned. -/
structure MemfdSys where
  mm : Mm
  file : List UInt8
  log : List (MemfdResult × MemfdResult)

inductive MemfdEvent where
  | op (o : MemfdOp)
  /-- The rest of the kernel: it leaves the frames of the object to it. -/
  | other (pmm : Pmm) (mem : Nat → Page)

/-- Sizes are 32-bit words. -/
def MemfdOp.Words : MemfdOp → Prop
  | .truncate newSize _ => newSize < u32Size
  | .growTo last _ => last < u32Size
  | _ => True

instance decidableWords : (o : MemfdOp) → Decidable o.Words
  | .truncate newSize _ => inferInstanceAs (Decidable (newSize < u32Size))
  | .growTo last _ => inferInstanceAs (Decidable (last < u32Size))
  | .read .. => isTrue trivial
  | .write .. => isTrue trivial

def memfdStep (h : Nat) (s : MemfdSys) : MemfdEvent → Option MemfdSys
  | .op o =>
    if o.Words then
      let r := memfdOp s.mm h o
      let a := fileOp s.file (decide (r.2.ret = -1)) o
      some ⟨r.1, a.1, (r.2, a.2) :: s.log⟩
    else none
  | .other pmm mem =>
    if ∀ i < (s.mm.memfds h).numPages, pmm.bitmap (s.mm.slotFrame h i) = true ∧
        ∀ k < pageSize, mem (s.mm.slotFrame h i) k = s.mm.mem (s.mm.slotFrame h i) k then
      some { s with mm := { s.mm with pmm := pmm, mem := mem } }
    else none

/-- **The condition**: the frames a growth uncovers are zero, and nothing moves 2³¹ bytes at once. -/
def MemfdSys.Clean (h : Nat) (s : MemfdSys) : MemfdEvent → Prop
  | .op (.read _ size _) => size < 0x80000000 ∨ (s.mm.memfds h).size < 0x80000000
  | .op (.write off bs _ _) => bs.length < 0x80000000 ∧ ZeroTo s.mm h off
  | .op (.truncate newSize _) => ZeroTo s.mm h newSize
  | .op (.growTo last _) => ZeroTo s.mm h last
  | .other .. => True

instance decidableClean (h : Nat) (s : MemfdSys) : (e : MemfdEvent) → Decidable (s.Clean h e)
  | .op (.read _ size _) => inferInstanceAs (Decidable (size < 0x80000000 ∨ _))
  | .op (.write _ bs _ _) => inferInstanceAs (Decidable (bs.length < 0x80000000 ∧ _))
  | .op (.truncate newSize _) => decidableZeroTo s.mm h newSize
  | .op (.growTo last _) => decidableZeroTo s.mm h last
  | .other .. => isTrue trivial

/-- The object stands for the file, and the results so far agree. -/
structure Refined (h : Nat) (s : MemfdSys) : Prop where
  obj : ObjInv s.mm h
  file : contents s.mm h = s.file
  log : ∀ r ∈ s.log, r.1 = r.2

/-- **One operation**, where the file fails if the object did. -/
theorem memfdOp_refined {s : MemfdSys} {o : MemfdOp} {failed : Bool} (hr : Refined h s) (hw : o.Words)
    (hc : s.Clean h (.op o)) (hfail : failed = true ↔ (memfdOp s.mm h o).2.ret = -1) :
    ObjInv (memfdOp s.mm h o).1 h ∧
      (contents (memfdOp s.mm h o).1 h, (memfdOp s.mm h o).2) = fileOp s.file failed o := by
  obtain ⟨ho, hf, -⟩ := hr
  rw [← hf]
  cases o with
  | read off size null =>
    refine ⟨ho, Prod.ext rfl ?_⟩
    show MemfdResult.mk _ _ = _
    by_cases hsize : size = 0
    · subst hsize
      rfl
    -- a null buffer is refused after the size test, as in the source
    cases null with
    | true =>
      unfold memfdRead
      rw [if_neg hsize]
      exact ((if_neg hsize).trans (if_pos rfl)).symm
    | false =>
      rw [memfdRead_spec ho hsize hc]
      exact ((if_neg hsize).trans (if_neg (by decide))).symm
  | write off bs null heapOk =>
    by_cases hbs : bs = []
    · subst hbs
      exact ⟨ho, rfl⟩
    cases null with
    | true =>
      have hw : memfdWrite s.mm h off bs true heapOk = (s.mm, -1) := (if_neg hbs).trans (if_pos rfl)
      simp only [memfdOp, hw]
      exact ⟨ho, ((if_neg hbs).trans (if_pos (Or.inl rfl))).symm⟩
    | false =>
      obtain ⟨ho', hres⟩ := memfdWrite_spec ho hbs hc.1 hc.2 rfl
      refine ⟨ho', ?_⟩
      replace hfail : failed = true ↔ (memfdWrite s.mm h off bs false heapOk).2 = -1 := hfail
      simp only [memfdOp, fileOp, if_neg hbs, Bool.false_eq_true, false_or]
      -- success and failure are told apart by the code returned, on both sides
      rcases hres with ⟨h₁, h₂⟩ | ⟨h₁, h₂⟩ <;> rw [h₁] at hfail <;> rw [h₁, h₂]
      · rw [if_neg (hfail.not.mpr (by omega))]
      · rw [if_pos (hfail.mpr rfl)]
  | truncate newSize heapOk =>
    obtain ⟨ho', hres⟩ := memfdTruncate_spec ho hw hc rfl
    refine ⟨ho', ?_⟩
    replace hfail : failed = true ↔ (memfdTruncate s.mm h newSize heapOk).2 = -1 := hfail
    simp only [memfdOp, fileOp]
    rcases hres with ⟨h₁, h₂⟩ | ⟨h₁, h₂⟩ <;> rw [h₁] at hfail <;> rw [h₁, h₂]
    · rw [if_neg (hfail.not.mpr (by decide))]
    · rw [if_pos (hfail.mpr rfl)]
  | growTo last heapOk =>
    obtain ⟨ho', hres⟩ := memfdGrowTo_spec ho hw hc
    refine ⟨ho', ?_⟩
    replace hfail : failed = true ↔ (if (memfdGrowTo s.mm h last heapOk).2 then (0 : Int) else -1) = -1 := hfail
    simp only [memfdOp, fileOp]
    rw [hres]
    cases hg : (memfdGrowTo s.mm h last heapOk).2 <;> rw [hg] at hfail
    · rw [if_pos (hfail.mpr rfl)]
      rfl
    · rw [if_neg (hfail.not.mpr (by decide))]
      rfl

/-- **One step.** -/
theorem memfdStep_refined {s s' : MemfdSys} {e : MemfdEvent} (hr : Refined h s) (hc : s.Clean h e)
    (hstep : memfdStep h s e = some s') : Refined h s' := by
  cases e with
  | op o =>
    simp only [memfdStep] at hstep
    split at hstep
    · next hw =>
      obtain rfl := Option.some.inj hstep
      obtain ⟨ho, he⟩ := memfdOp_refined hr hw hc decide_eq_true_iff
      exact ⟨ho, congrArg Prod.fst he, List.forall_mem_cons.mpr ⟨congrArg Prod.snd he, hr.log⟩⟩
    · exact nomatch hstep
  | other pmm mem =>
    simp only [memfdStep] at hstep
    split at hstep
    · next hsame =>
      obtain rfl := Option.some.inj hstep
      refine ⟨⟨hr.obj.valid, hr.obj.word, ⟨fun i hi => (hsame i hi).1, hr.obj.holds.distinct⟩, hr.obj.room⟩,
        ?_, hr.log⟩
      rw [← hr.file]
      refine image_congr fun i hi => ?_
      have hslot : i / pageSize < (s.mm.memfds h).numPages :=
        Nat.div_lt_of_lt_mul (Nat.mul_comm _ pageSize ▸ lt_of_lt_of_le hi hr.obj.room)
      exact (hsame _ hslot).2 _ (Nat.mod_lt _ (by decide +kernel))
    · exact nomatch hstep

/-- A new object stands for the empty file. -/
theorem refined_created (m : Mm) (h₀ : 1 ≤ h) (h₁ : h ≤ memfdMax) : Refined h ⟨memfdCreated m h, [], []⟩ := by
  have hnew : (memfdCreated m h).memfds h = ⟨true, 0, 0, 0, fun _ => 0, 0, 0⟩ := setMemfd_self
  refine ⟨⟨?_, ?_, ⟨?_, ?_⟩, ?_⟩, ?_, nofun⟩
  · simp [handleValid, hnew, h₀, h₁]
  · rw [hnew]
    decide +kernel
  · rw [hnew]
    nofun
  · rw [hnew]
    nofun
  · rw [hnew]
    exact Nat.zero_le _
  · show image _ _ = []
    rw [hnew]
    rfl

/-- **A memfd object refines a byte file.**  From a new object, in every run whose growths uncover zeros
only and whose transfers stay below 2³¹ bytes, the object stands for the file and has returned what the
file returned. -/
theorem memfd_refines_file (m : Mm) (h : Nat) (h₀ : 1 ≤ h) (h₁ : h ≤ memfdMax) (es : List MemfdEvent) (s : MemfdSys)
    (hc : MeetsAll (memfdStep h) (MemfdSys.Clean h) ⟨memfdCreated m h, [], []⟩ es)
    (hrun : run (memfdStep h) ⟨memfdCreated m h, [], []⟩ es = some s) :
    contents s.mm h = s.file ∧ ∀ r ∈ s.log, r.1 = r.2 := by
  have hr := run_invariant memfdStep_refined (refined_created m h₀ h₁) hc hrun
  exact ⟨hr.file, hr.log⟩

/-- Five bytes written, three of them cut off, and one written at the cut: nothing old is uncovered. -/
theorem memfd_refines_file_rewritten :
    ∃ s, run (memfdStep 1) ⟨memfdCreated (.boot 0 plainMap) 1, [], []⟩
      [.op (.write 0 [1, 2, 3, 4, 5] false true), .op (.truncate 2 true), .op (.write 2 [7] false true),
        .op (.read 0 9 false)] = some s ∧ contents s.mm 1 = s.file ∧ ∀ r ∈ s.log, r.1 = r.2 := by
  refine exists_of_check (p := fun _ => True) (by decide +kernel) fun s hs _ => ?_
  exact memfd_refines_file (.boot 0 plainMap) 1 (by decide) (by decide) _ s (by decide +kernel) hs

/-- **Bytes that a shrink cut off come back**: written, cut to two bytes and grown again, the object
returns the old bytes where the file has zeros. -/
theorem truncated_bytes_return :
    (run (memfdStep 1) ⟨memfdCreated (.boot 0 plainMap) 1, [], []⟩
      [.op (.write 0 [1, 2, 3, 4, 5] false true), .op (.truncate 2 true), .op (.truncate 5 true),
        .op (.read 0 5 false)]).map (fun s => (s.log.head?, contents s.mm 1, s.file)) =
      some (some (⟨5, [1, 2, 3, 4, 5]⟩, ⟨5, [1, 2, 0, 0, 0]⟩), [1, 2, 3, 4, 5], [1, 2, 0, 0, 0]) := by
  decide +kernel

end CactKernel
