/-
CactKernel/Drivers/BlkdevLaw.lean

Partition I/O stays inside the partition.

`BlkTable.Ok` is the invariant of the table: every partition refers to a live
whole disk and lies inside it, and the pointer of the swap subsystem is
current.  Adding a device changes no slot in use (`Grows`); dropping the
partitions of a disk changes no other slot (`clearPartitions_spec`).

`BlkSys` adds those who keep pointers: a handle remembers what its slot denoted
when it was obtained.  The table is refilled under them, and an old pointer then
reaches into whatever the slot has become (`rescan_moves_partition`).  As long
as a disk is rescanned or removed only while nobody keeps a pointer into it,
**`partition_io_confined`**: all I/O goes where its pointer pointed.
-/
import CactKernel.Drivers.Blkdev
import CactKernel.Lib.Run
import Mathlib.Data.List.Induction

namespace CactKernel

open Function Runs

namespace BlkTable

variable {t t' t'' : BlkTable} {i j p d disk lba : Nat} {env : ScanEnv}

/-! ### The invariant of the table -/

structure Sound (t : BlkTable) : Prop where
  lt : ∀ i, t.used i = true → i < blkdevSlots
  free : ∀ i, t.used i = false → t.dev i = .zero
  part : ∀ i p, (t.dev i).parent = some p →
    t.used p = true ∧ (t.dev p).parent = none ∧
      (t.dev i).startLba + (t.dev i).maxLba ≤ (t.dev p).maxLba

/-- The pointer still denotes what it denoted. -/
def Current (t : BlkTable) (h : BlkHandle) : Prop :=
  t.used h.slot = true ∧ t.extentOf h.slot = h.denoted

structure Ok (t : BlkTable) : Prop where
  sound : Sound t
  /-- Swap sits on partitions only. -/
  swap : ∀ h ∈ t.swapDev, t.Current h ∧ (t.dev h.slot).parent ≠ none

/-- Slot `i` of `t` is in use, and `t'` has it as it was. -/
def SlotKept (t t' : BlkTable) (i : Nat) : Prop :=
  t'.used i = true ∧ t'.dev i = t.dev i ∧ t'.extentOf i = t.extentOf i

/-- Slots in use are as they were. -/
def Grows (t t' : BlkTable) : Prop := ∀ i, t.used i = true → SlotKept t t' i

theorem Grows.refl : Grows t t := fun _ hi => ⟨hi, rfl, rfl⟩

theorem SlotKept.trans (h : SlotKept t t' i) (h' : SlotKept t' t'' i) : SlotKept t t'' i :=
  ⟨h'.1, h'.2.1.trans h.2.1, h'.2.2.trans h.2.2⟩

theorem Grows.trans (h : Grows t t') (h' : Grows t' t'') : Grows t t'' :=
  fun i hi => (h i hi).trans (h' i (h i hi).1)

theorem Current.kept {h : BlkHandle} (hc : t.Current h) (hk : SlotKept t t' h.slot) : t'.Current h :=
  ⟨hk.1, hk.2.2.trans hc.2⟩

theorem Sound.used_of_parent (h : Sound t) (hp : (t.dev i).parent = some p) : t.used i = true := by
  by_contra hno
  rw [h.free i (by simpa using hno)] at hp
  cases hp

theorem Sound.used_of_maxLba (h : Sound t) (hl : 0 < (t.dev i).maxLba) : t.used i = true := by
  by_contra hno
  rw [h.free i (by simpa using hno)] at hl
  exact absurd hl (Nat.lt_irrefl 0)

theorem extentOf_congr (hi : t'.dev i = t.dev i)
    (hp : ∀ p, (t.dev i).parent = some p → (t'.dev p).drv = (t.dev p).drv) :
    t'.extentOf i = t.extentOf i := by
  unfold extentOf
  rw [hi]
  rcases hpar : (t.dev i).parent with - | p
  · rfl
  · dsimp only
    rw [hp p hpar]

/-- **Sector I/O** reaches a sector of what the slot denotes. -/
theorem Sound.reach (h : Sound t) {fuel sec : Nat} (hr : t.reach fuel i lba = some (d, sec)) :
    (t.extentOf i).drv = some d ∧ (t.extentOf i).start ≤ sec ∧
      sec < (t.extentOf i).start + (t.extentOf i).len := by
  cases fuel with
  | zero => cases hr
  | succ fuel =>
    rw [BlkTable.reach] at hr
    split_ifs at hr with hlba
    unfold extentOf
    rcases hpar : (t.dev i).parent with - | p
    · rw [hpar] at hr
      obtain ⟨e, hdrv, rfl, rfl⟩ := of_map_pair hr
      exact ⟨hdrv, Nat.zero_le _, by dsimp only; omega⟩
    · -- one more step, to the disk itself
      rw [hpar] at hr
      dsimp only at hr ⊢
      split_ifs at hr
      cases fuel with
      | zero => cases hr
      | succ fuel =>
        rw [BlkTable.reach] at hr
        split_ifs at hr
        rw [(h.part i p hpar).2.1] at hr
        obtain ⟨e, hdrv, rfl, rfl⟩ := of_map_pair hr
        exact ⟨hdrv, by omega, by omega⟩

/-! ### Adding devices -/

theorem allocSlot_spec (h : t.allocSlot = some i) : i < blkdevSlots ∧ t.used i = false := by
  refine ⟨List.mem_range.mp (List.mem_of_find?_eq_some h), ?_⟩
  have := List.find?_some h
  simpa using this

theorem blkdevFind_spec {name : List UInt8} (h : t.blkdevFind name = some i) : t.used i = true := by
  have := List.find?_some h
  rw [Bool.and_eq_true] at this
  exact this.1

/-- **A new device** in a free slot. -/
theorem Sound.setDev {x : Blkdev} (h : Sound t) (hlt : i < blkdevSlots) (hfree : t.used i = false)
    (hx : ∀ p, x.parent = some p → t.used p = true ∧ (t.dev p).parent = none ∧
      x.startLba + x.maxLba ≤ (t.dev p).maxLba) :
    Sound (t.setDev i x) ∧ Grows t (t.setDev i x) := by
  have hself : (t.setDev i x).dev i = x := update_self ..
  have hother : ∀ {j}, j ≠ i → (t.setDev i x).dev j = t.dev j := fun hj => update_of_ne hj ..
  have hused : ∀ {j}, j ≠ i → (t.setDev i x).used j = t.used j := fun hj => update_of_ne hj ..
  -- the slot was free, so no device and no parent sits in it
  have hne : ∀ {j}, t.used j = true → j ≠ i := by
    rintro j hj rfl
    rw [hfree] at hj
    cases hj
  refine ⟨⟨fun j hj => ?_, fun j hj => ?_, fun j p hp => ?_⟩, fun j hj => ⟨?_, hother (hne hj), ?_⟩⟩
  · by_cases hji : j = i
    · exact hji ▸ hlt
    · rw [hused hji] at hj
      exact h.lt j hj
  · have hji : j ≠ i := by
      rintro rfl
      rw [show (t.setDev j x).used j = true from update_self ..] at hj
      cases hj
    rw [hused hji] at hj
    rw [hother hji, h.free j hj]
  · by_cases hji : j = i
    · rw [hji, hself] at hp ⊢
      obtain ⟨hp₁, hp₂, hp₃⟩ := hx p hp
      rw [hused (hne hp₁), hother (hne hp₁)]
      exact ⟨hp₁, hp₂, hp₃⟩
    · rw [hother hji] at hp ⊢
      obtain ⟨hp₁, hp₂, hp₃⟩ := h.part j p hp
      rw [hused (hne hp₁), hother (hne hp₁)]
      exact ⟨hp₁, hp₂, hp₃⟩
  · rw [hused (hne hj), hj]
  · exact extentOf_congr (hother (hne hj)) fun p hp => by rw [hother (hne (h.part j p hp).1)]

section

variable (h : Ok t)
include h

theorem Ok.grow (hs : Sound t') (hg : Grows t t') (hswap : t'.swapDev = t.swapDev) : Ok t' :=
  ⟨hs, fun x hx => by
    obtain ⟨hc, hp⟩ := h.swap x (hswap ▸ hx)
    have hk := hg x.slot hc.1
    exact ⟨hc.kept hk, by rw [hk.2.1]; exact hp⟩⟩

theorem Ok.addPartition {partNo startLba lenLba : Nat}
    (ha : t.addPartition disk partNo startLba lenLba = some (t', i)) :
    Ok t' ∧ Grows t t' ∧ t'.used i = true := by
  unfold BlkTable.addPartition at ha
  dsimp only at ha
  split_ifs at ha with hargs hcount hrange hdup
  rw [not_or, not_not] at hargs
  split at ha
  · cases ha
  · next k halloc =>
    obtain ⟨rfl, rfl⟩ := of_pair ha
    obtain ⟨hlt, hfree⟩ := allocSlot_spec halloc
    -- the range check leaves room on a disk that exists
    obtain ⟨hs, hg⟩ := h.sound.setDev (x := ⟨_, lenLba, some disk, startLba, partNo, none⟩) hlt hfree
      fun p hp => by
        obtain rfl := Option.some.inj hp
        exact ⟨h.sound.used_of_maxLba (by omega), hargs.1, by dsimp only; omega⟩
    exact ⟨h.grow hs hg rfl, hg, update_self ..⟩

theorem Ok.swapEnable (ok : Bool) (hi : t.used i = true) :
    Ok (t.swapEnable i ok) ∧ Grows t (t.swapEnable i ok) := by
  unfold BlkTable.swapEnable
  dsimp only
  split_ifs with hpart
  · exact ⟨h, .refl⟩
  · exact ⟨h, .refl⟩
  · refine ⟨⟨{ h.sound with }, fun x hx => ?_⟩, .refl⟩
    obtain rfl := Option.some.inj hx
    exact ⟨⟨hi, rfl⟩, fun hno => hpart (Or.inl hno)⟩
  · exact ⟨⟨{ h.sound with }, fun x hx => by cases hx⟩, .refl⟩

theorem Ok.partCreate (disk : Nat) (env : ScanEnv) (e : PartEntry) :
    Ok (partCreate disk env t e) ∧ Grows t (partCreate disk env t e) := by
  unfold BlkTable.partCreate
  by_cases hlba : blkdevMaxLba < e.startLba ∨ blkdevMaxLba < e.lenLba
  · rw [if_pos hlba]
    exact ⟨h, .refl⟩
  · rw [if_neg hlba]
    split
    · exact ⟨h, .refl⟩
    · next t₁ i ha =>
      obtain ⟨hok, hg, hi⟩ := h.addPartition ha
      split_ifs
      · obtain ⟨hok', hg'⟩ := hok.swapEnable (env.swapOk e.partNo) hi
        exact ⟨hok', hg.trans hg'⟩
      · exact ⟨hok, hg⟩

theorem Ok.createAll (disk : Nat) (env : ScanEnv) (es : List PartEntry) :
    Ok (es.foldl (BlkTable.partCreate disk env) t) ∧
      Grows t (es.foldl (BlkTable.partCreate disk env) t) := by
  refine List.foldlRecOn (motive := fun t' => Ok t' ∧ Grows t t') es _ ⟨h, .refl⟩ fun t' h' e _ => ?_
  obtain ⟨hok, hg⟩ := h'.1.partCreate disk env e
  exact ⟨hok, h'.2.trans hg⟩

end

/-! ### Dropping devices -/

/-- Slot `j` is a partition of disk `d`. -/
def PartOf (t : BlkTable) (d j : Nat) : Prop := t.used j = true ∧ (t.dev j).parent = some d
deriving Decidable

/-- Slot `j` is the same in both tables. -/
def SlotSame (t t' : BlkTable) (j : Nat) : Prop :=
  t'.used j = t.used j ∧ t'.dev j = t.dev j ∧ t'.extentOf j = t.extentOf j

theorem SlotSame.trans (h : SlotSame t t' j) (h' : SlotSame t' t'' j) : SlotSame t t'' j :=
  ⟨h'.1.trans h.1, h'.2.1.trans h.2.1, h'.2.2.trans h.2.2⟩

section

variable (h : Ok t)
include h

/-- **A slot is dropped** to which nothing refers. -/
theorem Ok.dropSlot (hpart : ∀ j, (t.dev j).parent ≠ some i)
    (hswap : ∀ x ∈ t.swapDev, x.slot ≠ i) :
    Ok (t.dropSlot i) ∧ ∀ j, j ≠ i → SlotSame t (t.dropSlot i) j := by
  have hself : (t.dropSlot i).dev i = .zero := update_self ..
  have hsame : ∀ j, j ≠ i → SlotSame t (t.dropSlot i) j := by
    intro j hj
    have hother : (t.dropSlot i).dev j = t.dev j := update_of_ne hj ..
    refine ⟨update_of_ne hj .., hother, extentOf_congr hother fun p hp => ?_⟩
    have hpi : p ≠ i := fun hpi => hpart j (hpi ▸ hp)
    rw [show (t.dropSlot i).dev p = t.dev p from update_of_ne hpi ..]
  refine ⟨⟨⟨fun j hj => ?_, fun j hj => ?_, fun j p hp => ?_⟩, fun x hx => ?_⟩, hsame⟩
  · have hji : j ≠ i := by
      rintro rfl
      rw [show (t.dropSlot j).used j = false from update_self ..] at hj
      cases hj
    rw [(hsame j hji).1] at hj
    exact h.sound.lt j hj
  · by_cases hji : j = i
    · rw [hji, hself]
    · rw [(hsame j hji).1] at hj
      rw [(hsame j hji).2.1, h.sound.free j hj]
  · have hji : j ≠ i := by
      rintro rfl
      rw [hself] at hp
      cases hp
    rw [(hsame j hji).2.1] at hp ⊢
    have hpi : p ≠ i := fun hpi => hpart j (hpi ▸ hp)
    rw [(hsame p hpi).1, (hsame p hpi).2.1]
    exact h.sound.part j p hp
  · obtain ⟨⟨hused, hext⟩, hp⟩ := h.swap x hx
    obtain ⟨h₁, h₂, h₃⟩ := hsame x.slot (hswap x hx)
    exact ⟨⟨h₁.trans hused, h₃.trans hext⟩, by rw [h₂]; exact hp⟩

theorem Ok.swapNotify (i : Nat) :
    Ok (t.swapNotify i) ∧ (∀ x ∈ (t.swapNotify i).swapDev, x.slot ≠ i) ∧
      ∀ j, SlotSame t (t.swapNotify i) j := by
  unfold BlkTable.swapNotify
  split_ifs with hslot
  · exact ⟨⟨{ h.sound with }, fun _ hx => by cases hx⟩, (fun _ hx => by cases hx),
      fun _ => ⟨rfl, rfl, rfl⟩⟩
  · refine ⟨h, fun x hx hxi => hslot ?_, fun _ => ⟨rfl, rfl, rfl⟩⟩
    rw [Option.mem_def.mp hx, Option.map_some, hxi]

/-- Slot `i` is dropped if it is a partition of `d`. -/
theorem Ok.clearSlot (d i : Nat) (ht : t' =
      if t.used i && decide ((t.dev i).parent = some d) then (t.swapNotify i).dropSlot i else t) :
    Ok t' ∧ (∀ j, ¬t.PartOf d j → SlotSame t t' j) ∧ ∀ j, t'.PartOf d j → t.PartOf d j ∧ j ≠ i := by
  by_cases hcond : (t.used i && decide ((t.dev i).parent = some d)) = true
  · rw [if_pos hcond] at ht
    subst ht
    rw [Bool.and_eq_true, decide_eq_true_iff] at hcond
    obtain ⟨hn, hswap, hsame⟩ := h.swapNotify i
    -- a partition is nobody's disk
    have hpart : ∀ j, ((t.swapNotify i).dev j).parent ≠ some i := fun j hj => by
      rw [(hsame j).2.1] at hj
      have := (h.sound.part j i hj).2.1
      rw [hcond.2] at this
      cases this
    obtain ⟨hok, hkept⟩ := hn.dropSlot hpart hswap
    refine ⟨hok, fun j hj => ?_, fun j hj => ?_⟩
    · exact (hsame j).trans (hkept j fun hji => hj (hji ▸ hcond))
    · have hji : j ≠ i := by
        rintro rfl
        rw [PartOf, show ((t.swapNotify j).dropSlot j).used j = false from update_self ..] at hj
        cases hj.1
      obtain ⟨h₁, h₂, -⟩ := (hsame j).trans (hkept j hji)
      rw [PartOf, h₁, h₂] at hj
      exact ⟨hj, hji⟩
  · rw [if_neg hcond] at ht
    subst ht
    rw [Bool.and_eq_true, decide_eq_true_iff] at hcond
    exact ⟨h, fun _ _ => ⟨rfl, rfl, rfl⟩, fun j hj => ⟨hj, fun hji => hcond (hji ▸ hj)⟩⟩

theorem Ok.clearSlots (l : List Nat) (ht : t' = l.foldl (fun t i =>
      if t.used i && decide ((t.dev i).parent = some d) then (t.swapNotify i).dropSlot i else t) t) :
    Ok t' ∧ (∀ j, ¬t.PartOf d j → SlotSame t t' j) ∧ ∀ j, t'.PartOf d j → t.PartOf d j ∧ j ∉ l := by
  induction l generalizing t with
  | nil =>
    subst ht
    exact ⟨h, fun _ _ => ⟨rfl, rfl, rfl⟩, fun _ hj => ⟨hj, List.not_mem_nil⟩⟩
  | cons i l ih =>
    obtain ⟨hok, hsame, hin⟩ := h.clearSlot d i rfl
    obtain ⟨hok', hsame', hin'⟩ := ih hok ht
    refine ⟨hok', fun j hj => (hsame j hj).trans (hsame' j fun hno => hj (hin j hno).1), fun j hj => ?_⟩
    obtain ⟨hj', hjl⟩ := hin' j hj
    obtain ⟨hj'', hji⟩ := hin j hj'
    exact ⟨hj'', List.not_mem_cons_of_ne_of_not_mem hji hjl⟩

/-- **Dropping the partitions of a disk** leaves every other slot as it is. -/
theorem clearPartitions_spec (d : Nat) :
    Ok (t.clearPartitions d) ∧ (∀ j, ((t.clearPartitions d).dev j).parent ≠ some d) ∧
      ∀ j, ¬t.PartOf d j → SlotSame t (t.clearPartitions d) j := by
  obtain ⟨hok, hsame, hgone⟩ :=
    h.clearSlots (List.range blkdevSlots) (show t.clearPartitions d = _ from rfl)
  refine ⟨hok, fun j hj => ?_, hsame⟩
  have hu := hok.sound.used_of_parent hj
  exact (hgone j ⟨hu, hj⟩).2 (List.mem_range.mpr (hok.sound.lt j hu))

/-- **A scan** keeps the table right, and every slot that is not a partition of the disk. -/
theorem Ok.partScanDisk (disk : Nat) (env : ScanEnv) :
    Ok (t.partScanDisk disk env) ∧
      ∀ j, t.used j = true → ¬t.PartOf disk j → SlotKept t (t.partScanDisk disk env) j := by
  unfold BlkTable.partScanDisk
  split_ifs
  · exact ⟨h, fun j hj _ => ⟨hj, rfl, rfl⟩⟩
  · obtain ⟨hok, -, hkept⟩ := clearPartitions_spec h disk
    obtain ⟨hok', hg⟩ := hok.createAll disk env ((t.clearPartitions disk).readLabel disk env)
    refine ⟨hok', fun j hj hp => ?_⟩
    obtain ⟨h₁, h₂, h₃⟩ := hkept j hp
    have hk : SlotKept t (t.clearPartitions disk) j := ⟨h₁.trans hj, h₂, h₃⟩
    exact hk.trans (hg j hk.1)

theorem Ok.registerBlkdev (name : List UInt8) (maxLba drv : Nat) (hook : Bool)
    (env : ScanEnv) :
    Ok (t.registerBlkdev name maxLba drv hook env) ∧
      Grows t (t.registerBlkdev name maxLba drv hook env) := by
  unfold BlkTable.registerBlkdev
  by_cases hargs : name = [] ∨ t.blkdevFind name ≠ none ∨ maxLba = 0
  · rw [if_pos hargs]
    exact ⟨h, .refl⟩
  rw [if_neg hargs]
  split
  · exact ⟨h, .refl⟩
  · next i halloc =>
    obtain ⟨hlt, hfree⟩ := allocSlot_spec halloc
    obtain ⟨hs, hg⟩ := h.sound.setDev
      (x := ⟨name.take (blkdevNameMax - 1), maxLba, none, 0, 0, some drv⟩) hlt hfree
      fun p hp => by cases hp
    have hok := h.grow hs hg rfl
    have hok' : Ok { t.setDev i ⟨name.take (blkdevNameMax - 1), maxLba, none, 0, 0, some drv⟩ with
        bootDev := t.bootDev.or (some i) } :=
      ⟨{ hok.sound with }, hok.swap⟩
    cases hook with
    | false => exact ⟨hok', hg⟩
    | true =>
      obtain ⟨hscan, hkept⟩ := hok'.partScanDisk i env
      refine ⟨hscan, fun j hj => (hg j hj).trans (hkept j (hg j hj).1 fun hno => ?_)⟩
      -- nothing was a partition of a slot that was free
      have hpar : (t.dev j).parent = some i := by
        rw [← (hg j hj).2.1]
        exact hno.2
      have := (h.sound.part j i hpar).1
      rw [hfree] at this
      cases this

theorem Ok.unregisterBlkdev (name : List UInt8) :
    Ok (t.unregisterBlkdev name) ∧
      ∀ j, t.used j = true → (∀ d ∈ t.blkdevFind name, j ≠ d ∧ ¬t.PartOf d j) →
        SlotKept t (t.unregisterBlkdev name) j := by
  unfold BlkTable.unregisterBlkdev
  split
  · exact ⟨h, fun j hj _ => ⟨hj, rfl, rfl⟩⟩
  · next d hfind =>
    split_ifs with hdisk
    · exact ⟨h, fun j hj _ => ⟨hj, rfl, rfl⟩⟩
    rw [not_not] at hdisk
    obtain ⟨hok, hnone, hkept⟩ := clearPartitions_spec h d
    -- the disk itself is still there, and swap sits on partitions
    have hd := hkept d fun hno => by
      rw [PartOf, hdisk] at hno
      cases hno.2
    obtain ⟨hok', hsame⟩ := hok.dropSlot hnone fun x hx hxd =>
      (hok.swap x hx).2 (by rw [hxd, hd.2.1, hdisk])
    refine ⟨⟨{ hok'.sound with }, hok'.swap⟩, fun j hj hnot => ?_⟩
    obtain ⟨hjd, hp⟩ := hnot d hfind
    obtain ⟨h₁, h₂, h₃⟩ := (hkept j hp).trans (hsame j hjd)
    exact ⟨h₁.trans hj, h₂, h₃⟩

end

end BlkTable

/-! ### Those who keep pointers -/

/-- An access that reached a driver: what its pointer denoted, and where it went. -/
structure BlkTouch where
  denoted : Extent
  drv : Nat
  sector : Nat
deriving DecidableEq, Repr

structure BlkSys where
  table : BlkTable
  /-- The partition layer's probe hook is set. -/
  hook : Bool
  /-- The pointers that are kept: mounts, filesystems, callers of `blkdev_find`. -/
  handles : List BlkHandle
  touched : List BlkTouch

namespace BlkSys

open BlkTable

variable {s s' : BlkSys} {t : BlkTable}

def start (media : Nat → Nat → Sector) : BlkSys := ⟨.empty media, false, [], []⟩

inductive Event where
  | probeInit
  | register (name : List UInt8) (maxLba drv : Nat) (env : ScanEnv)
  | unregister (name : List UInt8)
  | scan (disk : Nat) (env : ScanEnv)
  | rescan (name : List UInt8) (env : ScanEnv)
  /-- The contents of a driver's disk change. -/
  | media (drv : Nat) (sectors : Nat → Sector)
  | find (name : List UInt8)
  /-- The `n`th pointer is given up. -/
  | release (n : Nat)
  /-- `blkdev_read`, or `blkdev_write` of the given bytes, through the `n`th pointer. -/
  | io (n lba : Nat) (data : Option Sector)
  | swapIo (lba : Nat) (data : Option Sector)

/-- `blkdev_read` or `blkdev_write` through a pointer. -/
def access (s : BlkSys) (h : BlkHandle) (lba : Nat) (data : Option Sector) : BlkSys :=
  match s.table.reach blkdevSlots h.slot lba with
  | none => s
  | some (d, sec) =>
    { s with
      table := match data with
        | none => s.table
        | some x => s.table.setSector d sec x
      touched := s.touched ++ [⟨h.denoted, d, sec⟩] }

def step (s : BlkSys) : Event → Option BlkSys
  | .probeInit => some { s with hook := true }
  | .register name maxLba drv env =>
    some { s with table := s.table.registerBlkdev name maxLba drv s.hook env }
  | .unregister name => some { s with table := s.table.unregisterBlkdev name }
  | .scan disk env => some { s with table := s.table.partScanDisk disk env }
  | .rescan name env => some { s with table := s.table.partRescan name env }
  | .media drv sectors => some { s with table := { s.table with media := update s.table.media drv sectors } }
  | .find name =>
    match s.table.blkdevFind name with
    | none => some s
    | some i => some { s with handles := s.handles ++ [⟨i, s.table.extentOf i⟩] }
  | .release n => some { s with handles := s.handles.eraseIdx n }
  | .io n lba data => (s.handles[n]?).map fun h => s.access h lba data
  | .swapIo lba data => s.table.swapDev.map fun h => s.access h lba data

/-- Nobody keeps a pointer to a partition of `d`. -/
def Unheld (s : BlkSys) (d : Nat) : Prop := ∀ h ∈ s.handles, ¬s.table.PartOf d h.slot
deriving Decidable

/-- What a run has to keep to. -/
def Clean (s : BlkSys) : Event → Prop
  | .scan disk _ => s.Unheld disk
  | .rescan name _ => ∀ d ∈ s.table.blkdevFind name, s.Unheld d
  | .unregister name =>
    ∀ d ∈ s.table.blkdevFind name, s.Unheld d ∧ ∀ h ∈ s.handles, h.slot ≠ d
  | _ => True

instance decidableClean (s : BlkSys) (e : Event) : Decidable (Clean s e) := by
  unfold Clean
  split <;> infer_instance

structure Inv (s : BlkSys) : Prop where
  ok : s.table.Ok
  handles : ∀ h ∈ s.handles, s.table.Current h
  touched : ∀ x ∈ s.touched, x.denoted.drv = some x.drv ∧ x.denoted.start ≤ x.sector ∧
    x.sector < x.denoted.start + x.denoted.len

theorem Inv.start (media : Nat → Nat → Sector) : Inv (BlkSys.start media) where
  ok := ⟨⟨(fun _ h => by cases h), fun _ _ => rfl, fun _ _ h => by cases h⟩, fun _ h => by cases h⟩
  handles := fun _ h => by cases h
  touched := fun _ h => by cases h

/-- The table changes, and keeps every slot that a pointer names. -/
theorem Inv.setTable {b : Bool} (h : Inv s) (hok : t.Ok)
    (hkept : ∀ x ∈ s.handles, s.table.used x.slot = true → SlotKept s.table t x.slot) :
    Inv { s with table := t, hook := b } :=
  ⟨hok, fun x hx => (h.handles x hx).kept (hkept x hx (h.handles x hx).1), h.touched⟩

/-- The contents of the disks are no part of the invariant. -/
theorem ok_media {m : Nat → Nat → Sector} (h : t.Ok) : ({ t with media := m } : BlkTable).Ok :=
  ⟨{ h.sound with }, h.swap⟩

/-- **An access through a current pointer** stays inside what it denotes. -/
theorem Inv.access {x : BlkHandle} {lba : Nat} {data : Option Sector} (h : Inv s)
    (hx : s.table.Current x) : Inv (s.access x lba data) := by
  unfold BlkSys.access
  split
  · exact h
  · next d sec hreach =>
    have hin := h.ok.sound.reach hreach
    rw [hx.2] at hin
    refine ⟨?_, ?_, List.forall_mem_append.mpr ⟨h.touched, List.forall_mem_singleton.mpr hin⟩⟩
    all_goals cases data
    · exact h.ok
    · exact ok_media h.ok
    · exact h.handles
    · exact h.handles

theorem Inv.step {ev : Event} (h : Inv s) (hc : Clean s ev) (hs : step s ev = some s') : Inv s' := by
  cases ev
  case find name =>
    unfold BlkSys.step at hs
    dsimp only at hs
    split at hs
    · obtain rfl := Option.some.inj hs
      exact h
    · next i hi =>
      obtain rfl := Option.some.inj hs
      refine ⟨h.ok, List.forall_mem_append.mpr ⟨h.handles, ?_⟩, h.touched⟩
      exact List.forall_mem_singleton.mpr ⟨blkdevFind_spec hi, rfl⟩
  case io n lba data =>
    obtain ⟨x, hx, rfl⟩ := Option.map_eq_some_iff.mp hs
    exact h.access (h.handles x (List.mem_of_getElem? hx))
  case swapIo lba data =>
    obtain ⟨x, hx, rfl⟩ := Option.map_eq_some_iff.mp hs
    exact h.access (h.ok.swap x hx).1
  -- the others change the table; a handle out must keep its slot
  all_goals obtain rfl := Option.some.inj hs
  case probeInit => exact ⟨h.ok, h.handles, h.touched⟩
  case register name maxLba drv env =>
    obtain ⟨hok, hg⟩ := h.ok.registerBlkdev name maxLba drv s.hook env
    exact h.setTable hok fun x _ hu => hg x.slot hu
  case unregister name =>
    obtain ⟨hok, hkept⟩ := h.ok.unregisterBlkdev name
    exact h.setTable hok fun x hx hu =>
      hkept x.slot hu fun d hd => ⟨(hc d hd).2 x hx, (hc d hd).1 x hx⟩
  case scan disk env =>
    obtain ⟨hok, hkept⟩ := h.ok.partScanDisk disk env
    exact h.setTable hok fun x hx hu => hkept x.slot hu (hc x hx)
  case rescan name env =>
    unfold partRescan
    split
    · exact h
    · next d hd =>
      obtain ⟨hok, hkept⟩ := h.ok.partScanDisk d env
      exact h.setTable hok fun x hx hu => hkept x.slot hu (hc d hd x hx)
  case media drv sectors => exact ⟨ok_media h.ok, h.handles, h.touched⟩
  case release n =>
    exact ⟨h.ok, fun x hx => h.handles x ((List.eraseIdx_sublist ..).subset hx), h.touched⟩

/-- **Partition I/O is confined**: whatever reached a driver went to the disk that the pointer
denoted, inside the run of sectors that it denoted; and every partition of the table lies inside
a live disk. -/
structure Confined (s : BlkSys) : Prop where
  io : ∀ x ∈ s.touched, x.denoted.drv = some x.drv ∧ x.denoted.start ≤ x.sector ∧
    x.sector < x.denoted.start + x.denoted.len
  extents : ∀ i p, s.table.used i = true → (s.table.dev i).parent = some p →
    s.table.used p = true ∧ (s.table.dev p).parent = none ∧
      (s.table.dev i).startLba + (s.table.dev i).maxLba ≤ (s.table.dev p).maxLba

/-- **Partition I/O is confined** in every run that rescans or removes a disk only while nobody
keeps a pointer to it or to one of its partitions. -/
theorem partition_io_confined (media : Nat → Nat → Sector) (es : List Event) (s : BlkSys)
    (hclean : MeetsAll step Clean (start media) es) (hrun : run step (start media) es = some s) :
    Confined s := by
  have hinv := run_invariant Inv.step (Inv.start media) hclean hrun
  exact ⟨hinv.touched, fun i p _ hp => hinv.ok.sound.part i p hp⟩

/-! ### Runs that do and do not keep to it -/

/-- A disk with one partition in its MBR. -/
def mbrDisk (start len : UInt8) : Nat → Sector := fun lba off =>
  if lba = 0 then
    if off = 450 then 0x83 else if off = 454 then start else if off = 458 then len
    else if off = 510 then 0x55 else if off = 511 then 0xAA else 0
  else 0

def quietEnv : ScanEnv := ⟨true, fun _ => 0, fun _ => true⟩

/-- "sda". -/
def sda : List UInt8 := [115, 100, 97]

/-- "sda1". -/
def sda1 : List UInt8 := [115, 100, 97, 49]

def mounted : List Event :=
  [.probeInit, .media 7 (mbrDisk 10 10), .register sda 1000 7 quietEnv, .find sda1]

def tidyRun : List Event :=
  mounted ++ [.io 0 5 none, .io 0 10 none, .release 0, .media 7 (mbrDisk 100 100), .rescan sda quietEnv]

theorem partition_io_confined_tidyRun :
    MeetsAll step Clean (start fun _ _ => zeroSector) tidyRun ∧
      ∃ s, run step (start fun _ _ => zeroSector) tidyRun = some s ∧ Confined s ∧
        s.touched = [⟨⟨some 7, 10, 10⟩, 7, 15⟩] := by
  have hclean : MeetsAll step Clean (start fun _ _ => zeroSector) tidyRun := by decide +kernel
  exact ⟨hclean, exists_of_check (by decide +kernel) fun s hs hview =>
    ⟨partition_io_confined _ _ s hclean hs, hview⟩⟩

/-- The label is rewritten and rescanned under a filesystem that keeps its partition. -/
def staleRun : List Event :=
  mounted ++ [.media 7 (mbrDisk 100 100), .rescan sda quietEnv, .io 0 5 (some zeroSector)]

/-- **A rescan moves the partition** under the pointer: a write through a pointer that denoted
sectors 10 to 19 goes to sector 105. -/
theorem rescan_moves_partition :
    ∃ s, run step (start fun _ _ => zeroSector) staleRun = some s ∧ ¬Confined s ∧
      s.touched = [⟨⟨some 7, 10, 10⟩, 7, 105⟩] :=
  exists_of_check (by decide +kernel) fun s _ hview =>
    ⟨fun h => absurd (h.io _ (hview ▸ List.mem_singleton_self _)).2.2 (by decide), hview⟩

end BlkSys

end CactKernel
