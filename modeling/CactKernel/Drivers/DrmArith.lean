/-
CactKernel/Drivers/DrmArith.lean

The arithmetic of the DRM calls (`drm/rust_drm/src/gem.rs`, `kms/src/atomic.rs`).

A client chooses the numbers that CREATE_DUMB and ATOMIC compute with.  The height
is compared with what is left of the 32 bits before it is multiplied; the width is
not, nor are the rounding up to a page and the sum of the property counts.  A commit
also computes with numbers of the device, each of its own type: the reference counts
of two objects (`i32`), the number of the CRTC (`i32`, which it shifts by) and the
count of vertical blanks (`u32`).
**Main result** `drm_arith_iff`: which calls panic, and that a buffer that comes
into being is as large as its geometry asks for.
-/
import CactKernel.Drivers.SyncWait
import Mathlib.Algebra.Ring.Nat

namespace CactKernel.DrmArith

open Function SyncWait

def checkedMul (a b : Nat) : Option Nat := if a * b < u32Size then some (a * b) else none

/-- The result of an `i32` operation. -/
def checkedI32 (x : Int) : Option Int := if -0x80000000 ≤ x ∧ x < 0x80000000 then some x else none

/-- `1u32 << n` with an `i32` on the right. -/
def checkedShl (n : Int) : Option Nat := if 0 ≤ n ∧ n < 32 then some (2 ^ n.toNat) else none

/-- What the rest of the kernel answers. -/
structure Kernel where
  copyIn : Bool
  kmalloc : Bool
  /-- The memfd is created and sized, and the driver accepts the object. -/
  backed : Bool
  copyOut : Bool
  nextHandle : Nat
  nextMapOffset : Nat

/-- A dumb buffer, with the size that is reported and that of its object. -/
structure Dumb where
  width : Nat
  height : Nat
  bpp : Nat
  pitch : Nat
  size : Nat
  objSize : Nat
  mapOffset : Nat
  handle : Nat
deriving DecidableEq

/-- The size of the new object, if there is one; the outer `none` is a kernel panic. -/
def drmGemCreate (k : Kernel) (size : Nat) : Option (Option Nat) :=
  if size = 0 ∨ k.kmalloc = false then some none
  else (checkedAdd size 4095).map fun rounded =>
    if k.backed then some (rounded / 4096 * 4096) else none

/-- The offset, and the next one of the device, which wraps. -/
def drmGemMapOffset (next cached : Nat) : Option (Nat × Nat) :=
  some (if cached = 0 then (next, (next + 0x10000000) % u32Size) else (cached, next))

/-- The new handle, and the references of the object then; the client's next handle is a `u32`. -/
def drmGemHandleCreate (nextHandle : Nat) (refcount : Int) : Option (Nat × Int) := do
  let handle ← checkedAdd nextHandle 1
  let refcount ← checkedI32 (refcount + 1)
  some (handle, refcount)

def drmGemDumbCreate (k : Kernel) (height width bpp : Nat) : Option (Int × Option Dumb) :=
  if k.copyIn = false ∨ width = 0 ∨ height = 0 then some (-22, none)
  else
    let bpp := if bpp ≠ 0 then bpp else 32
    if bpp ∉ [8, 16, 24, 32] then some (-22, none)
    else do
      let row ← checkedAdd (← checkedMul width (bpp / 8)) 63
      let pitch := row / 64 * 64
      if pitch = 0 ∨ 0xFFFFFFFF / pitch < height then some (-22, none)
      else
        let size ← checkedMul pitch height
        if size = 0 then some (-22, none)
        else
          match ← drmGemCreate k size with
          | none => some (-12, none)
          | some objSize =>
            let offset ← drmGemMapOffset k.nextMapOffset 0
            -- the object was created with one reference
            let handle ← drmGemHandleCreate k.nextHandle 1
            some (if k.copyOut then 0 else -1,
              some ⟨width, height, bpp, pitch, size, objSize, offset.1, handle.1⟩)

/-! ### ATOMIC -/

/-- A framebuffer, and its object if it has one. -/
structure Framebuffer where
  id : Nat
  obj : Option Nat
deriving DecidableEq

structure Crtc where
  /-- An `i32`. -/
  index : Int
  enabled : Bool
  fb : Option Framebuffer
  /-- A `u32`. -/
  vblankCount : Nat

/-- The device, with the answer of its driver. -/
structure Device where
  fbFind : Nat → Option Framebuffer
  /-- The reference counts of the objects, each an `i32`. -/
  refcount : Nat → Int
  setConfig : Int

/-- What the properties of a request stage, as far as `commit` computes with it. -/
structure AtomicState where
  /-- The CRTC that was named, or that of the plane. -/
  crtc : Option Crtc
  planeFbId : Option Nat
  active : Option Nat
  /-- There is a mode, and it is not that of the CRTC. -/
  newMode : Bool
  /-- The `CRTC_ID` of the connector, and whether the connector has an encoder. -/
  conn : Option (Option Nat × Bool)

structure AtomicRequest where
  /-- The payload can be copied in and has no unknown flag. -/
  valid : Bool
  /-- The property counts of the objects. -/
  counts : List Nat
  readable : Bool
  propsReadable : Bool
  /-- What `apply` answers to the pairs, and what they stage. -/
  staged : Int
  state : AtomicState
  testOnly : Bool
  allowModeset : Bool
  flipEvent : Bool

/-- Take a reference. -/
def drmGemRef (refcount : Nat → Int) : Option Nat → Option (Nat → Int)
  | none => some refcount
  | some o => (checkedI32 (refcount o + 1)).map (update refcount o)

/-- Drop a reference. -/
def drmGemUnref (refcount : Nat → Int) : Option Nat → Option (Nat → Int)
  | none => some refcount
  | some o =>
    if refcount o = 0 then some refcount
    else (checkedI32 (refcount o - 1)).map (update refcount o)

/-- The first part of `commit`: the CRTC, its new framebuffer and whether that is a change, or the error
it returns before it publishes anything. -/
def commitCheck (dev : Device) (req : AtomicRequest) : Except Int (Crtc × Option Framebuffer × Bool) :=
  match req.state.crtc with
  | none => .error (-22)
  | some crtc =>
    let found : Option (Option Framebuffer × Bool) :=
      match req.state.planeFbId with
      | none => some (crtc.fb, false)
      | some id => if id = 0 then some (none, true) else (dev.fbFind id).map fun fb => (some fb, true)
    match found with
    | none => .error (-22)
    | some found =>
      let found := if req.state.active = some 0 then (none, true) else found
      if req.state.newMode = true ∧ crtc.enabled = true ∧ req.allowModeset = false then .error (-22)
      else if dev.setConfig ≠ 0 then .error dev.setConfig
      else .ok (crtc, found)

/-- `commit` looks for an encoder that can drive the CRTC. -/
def AtomicState.PicksEncoder (st : AtomicState) : Prop := ∃ cid, st.conn = some (some cid, false) ∧ cid ≠ 0

instance (st : AtomicState) : Decidable st.PicksEncoder :=
  match h : st.conn with
  | some (some cid, false) => decidable_of_iff (cid ≠ 0) (by simp [AtomicState.PicksEncoder, h])
  | none | some (none, _) | some (some _, true) => isFalse (by simp [AtomicState.PicksEncoder, h])

/-- `commit`; `none` is a kernel panic. -/
def commit (dev : Device) (req : AtomicRequest) : Option Int :=
  match commitCheck dev req with
  | .error rc => some rc
  | .ok (crtc, fb, changed) => do
    -- the old object is given back before the new one is taken
    let _refcount ← (if changed = true ∧ crtc.fb ≠ fb then
        (drmGemUnref dev.refcount (crtc.fb.bind (·.obj))).bind fun r => drmGemRef r (fb.bind (·.obj))
      else some dev.refcount)
    let _mask ← (if req.state.PicksEncoder then checkedShl crtc.index else some 0)
    let _count ← (if req.flipEvent = true ∧ changed = true then checkedAdd crtc.vblankCount 1
      else some crtc.vblankCount)
    some 0

/-- `mode_atomic`. -/
def modeAtomic (dev : Device) (req : AtomicRequest) : Option Int :=
  if req.valid = false ∨ req.counts = [] ∨ 32 < req.counts.length then some (-22)
  else if req.readable = false then some (-14)
  else do
    let total ← req.counts.foldlM checkedAdd 0
    if total = 0 ∨ 256 < total then some (-22)
    else if req.propsReadable = false then some (-14)
    else if req.staged ≠ 0 then some req.staged
    else if req.testOnly then some 0
    else commit dev req

/-! ### What has to fit -/

def GemFits (k : Kernel) (size : Nat) : Prop := size ≠ 0 → k.kmalloc → size + 4095 < u32Size

def DumbFits (k : Kernel) (height width bpp : Nat) : Prop :=
  let bpp := if bpp ≠ 0 then bpp else 32
  let pitch := (width * (bpp / 8) + 63) / 64 * 64
  k.copyIn → width ≠ 0 → height ≠ 0 → bpp ∈ [8, 16, 24, 32] →
    width * (bpp / 8) + 63 < u32Size ∧
      (pitch ≠ 0 → height ≤ 0xFFFFFFFF / pitch → GemFits k (pitch * height) ∧
        (k.kmalloc → k.backed → k.nextHandle + 1 < u32Size))

/-- The reference counts of the old and the new object stay in range; if they are one object, it is given
back first. -/
def RefsFit (refcount : Nat → Int) (old new : Option Nat) : Prop :=
  (∀ o ∈ old, refcount o ≠ 0 → -0x80000000 ≤ refcount o - 1 ∧ refcount o - 1 < 0x80000000) ∧
    ∀ o ∈ new, -0x80000000 ≤ (if old = some o ∧ refcount o ≠ 0 then refcount o - 1 else refcount o) + 1 ∧
      (if old = some o ∧ refcount o ≠ 0 then refcount o - 1 else refcount o) + 1 < 0x80000000

/-- The numbers of the device that a commit computes with fit their types. -/
def CommitFits (dev : Device) (req : AtomicRequest) : Prop :=
  ∀ crtc fb changed, commitCheck dev req = .ok (crtc, fb, changed) →
    (changed = true → crtc.fb ≠ fb → RefsFit dev.refcount (crtc.fb.bind (·.obj)) (fb.bind (·.obj))) ∧
      (req.state.PicksEncoder → 0 ≤ crtc.index ∧ crtc.index < 32) ∧
      (req.flipEvent = true → changed = true → crtc.vblankCount + 1 < u32Size)

def AtomicFits (dev : Device) (req : AtomicRequest) : Prop :=
  req.valid → req.counts ≠ [] → req.counts.length ≤ 32 → req.readable →
    req.counts.sum < u32Size ∧
      (req.counts.sum ≠ 0 → req.counts.sum ≤ 256 → req.propsReadable → req.staged = 0 →
        req.testOnly = false → CommitFits dev req)

/-! ### The calls -/

theorem checkedMul_eq_some {a b c : Nat} : checkedMul a b = some c ↔ a * b < u32Size ∧ c = a * b := by
  unfold checkedMul
  split <;> simp [*, eq_comm]

theorem isSome_refuse {α : Type} {p : Prop} [Decidable p] {a : α} {o : Option α} :
    (if p then some a else o).isSome ↔ (¬p → o.isSome) := by
  split <;> simp [*]

theorem isSome_checked {α : Type} {p : Prop} [Decidable p] {n : Nat} {f : Nat → Option α} :
    ((if p then some n else none).bind f).isSome ↔ p ∧ (f n).isSome := by
  split <;> simp [*]

theorem drmGemCreate_isSome (k : Kernel) (size : Nat) :
    (drmGemCreate k size).isSome ↔ GemFits k size := by
  unfold drmGemCreate GemFits checkedAdd
  rw [isSome_refuse, not_or, and_imp, Bool.not_eq_false]
  refine imp_congr_right fun _ => imp_congr_right fun _ => ?_
  split <;> simp [*]

theorem foldlM_checkedAdd (l : List Nat) {a : Nat} (ha : a < u32Size) :
    l.foldlM checkedAdd a = if a + l.sum < u32Size then some (a + l.sum) else none := by
  induction l generalizing a with
  | nil => simp [ha]
  | cons b l ih =>
    rw [List.foldlM_cons, List.sum_cons, ← Nat.add_assoc]
    by_cases hb : a + b < u32Size
    · rw [checkedAdd_of_lt hb]
      exact ih hb
    · rw [checkedAdd, if_neg hb, if_neg (by omega)]
      rfl

theorem isSome_then {α β : Type} {o : Option α} {q : Option β} :
    (o.bind fun _ => q).isSome ↔ o.isSome ∧ q.isSome := by
  cases o <;> simp

theorem isSome_if {α : Type} {p : Prop} [Decidable p] {o : Option α} {a : α} :
    (if p then o else some a).isSome ↔ (p → o.isSome) := by
  split <;> simp [*]

theorem isSome_checkedI32 {x : Int} : (checkedI32 x).isSome ↔ -0x80000000 ≤ x ∧ x < 0x80000000 := by
  unfold checkedI32
  split <;> simp [*]

theorem drmGemRef_isSome (refcount : Nat → Int) (new : Option Nat) : (drmGemRef refcount new).isSome ↔
    ∀ o ∈ new, -0x80000000 ≤ refcount o + 1 ∧ refcount o + 1 < 0x80000000 := by
  cases new with
  | none => simp [drmGemRef]
  | some n => simp [drmGemRef, isSome_checkedI32]

/-- **Two references**: the old object is given back, then the new one is taken. -/
theorem refs_isSome (refcount : Nat → Int) (old new : Option Nat) :
    ((drmGemUnref refcount old).bind fun r => drmGemRef r new).isSome ↔ RefsFit refcount old new := by
  unfold RefsFit
  cases old with
  | none => simp [drmGemUnref, drmGemRef_isSome]
  | some m =>
    unfold drmGemUnref
    simp only [Option.mem_def, Option.some.injEq, forall_eq']
    -- a count of 0 is left alone, any other is lowered before the new one is raised
    by_cases h0 : refcount m = 0
    · rw [if_pos h0, Option.bind_some, drmGemRef_isSome, and_iff_right fun hne => absurd h0 hne]
      refine forall₂_congr fun o _ => ?_
      rw [if_neg fun ⟨hm, hne⟩ => hne (hm ▸ h0)]
    · rw [if_neg h0]
      unfold checkedI32
      split_ifs with hfit
      · rw [Option.map_some, Option.bind_some, drmGemRef_isSome, and_iff_right fun _ => hfit]
        refine forall₂_congr fun o _ => ?_
        by_cases ho : o = m
        · rw [ho, update_self, if_pos ⟨rfl, h0⟩]
        · rw [update_of_ne ho, if_neg fun h => ho h.1.symm]
      · simp only [Option.map_none, Option.bind_none, Option.isSome_none, Bool.false_eq_true, false_iff]
        exact fun h => hfit (h.1 h0)

theorem commit_isSome (dev : Device) (req : AtomicRequest) :
    (commit dev req).isSome ↔ CommitFits dev req := by
  unfold commit CommitFits
  rcases commitCheck dev req with rc | ⟨crtc, fb, changed⟩
  · simp
  dsimp only
  have hok : ∀ {P : Crtc → Option Framebuffer → Bool → Prop}, (∀ c f b,
      (Except.ok (crtc, fb, changed) : Except Int _) = .ok (c, f, b) → P c f b) ↔ P crtc fb changed :=
    ⟨fun h => h _ _ _ rfl, fun h _ _ _ he => by cases he; exact h⟩
  rw [hok, ← refs_isSome]
  simp only [Option.bind_eq_bind, isSome_then, isSome_if, checkedShl, checkedAdd, Option.isSome_some, and_true,
    and_imp]
  simp

theorem modeAtomic_isSome (dev : Device) (req : AtomicRequest) :
    (modeAtomic dev req).isSome ↔ AtomicFits dev req := by
  have hpos : 0 < u32Size := by simp [u32Size]
  unfold modeAtomic AtomicFits
  rw [foldlM_checkedAdd _ hpos]
  simp only [isSome_refuse, Option.bind_eq_bind, isSome_checked, not_or, and_imp, Bool.not_eq_false,
    Bool.not_eq_true, Nat.not_lt, Ne, not_not, commit_isSome]
  simp

theorem drmGemDumbCreate_isSome (k : Kernel) (height width bpp : Nat) :
    (drmGemDumbCreate k height width bpp).isSome ↔ DumbFits k height width bpp := by
  unfold drmGemDumbCreate DumbFits GemFits
  generalize (if bpp ≠ 0 then bpp else 32) = b
  simp only [isSome_refuse, Option.bind_eq_bind, not_or, and_imp, Bool.not_eq_false, not_not, checkedMul,
    checkedAdd, isSome_checked, Nat.not_lt]
  generalize (width * (b / 8) + 63) / 64 * 64 = pitch
  refine imp_congr_right fun _ => imp_congr_right fun _ => imp_congr_right fun hh =>
    imp_congr_right fun _ => ?_
  have hmul : width * (b / 8) + 63 < u32Size → width * (b / 8) < u32Size := by omega
  rw [← and_assoc, and_iff_right_of_imp hmul]
  refine and_congr_right fun _ => imp_congr_right fun hp => imp_congr_right fun hle => ?_
  have hsize : pitch * height < u32Size := by
    have := Nat.mul_le_of_le_div pitch height _ hle
    rw [Nat.mul_comm, u32Size]
    omega
  have hne : pitch * height ≠ 0 := Nat.mul_ne_zero hp hh
  generalize pitch * height = size at hsize hne
  unfold drmGemCreate checkedAdd
  cases k.kmalloc <;> cases k.backed <;> by_cases hround : size + 4095 < u32Size <;>
    simp [hsize, hne, hround, drmGemMapOffset, drmGemHandleCreate, checkedI32, Option.bind_assoc, isSome_checked,
      checkedAdd]

theorem drmGemCreate_le {k : Kernel} {size n : Nat} (h : drmGemCreate k size = some (some n)) :
    size ≤ n := by
  unfold drmGemCreate at h
  split at h
  · cases h
  obtain ⟨rounded, hrounded, h⟩ := Option.map_eq_some_iff.mp h
  obtain ⟨-, rfl⟩ := checkedAdd_eq_some.mp hrounded
  split at h
  · obtain rfl := Option.some.inj h
    omega
  · cases h

/-- A buffer that comes into being has room for its rows, and its object for the buffer. -/
theorem dumb_geometry {k : Kernel} {height width bpp : Nat} {code : Int} {d : Dumb}
    (h : drmGemDumbCreate k height width bpp = some (code, some d)) :
    d.width * (d.bpp / 8) ≤ d.pitch ∧ d.pitch * d.height ≤ d.size ∧ d.size ≤ d.objSize := by
  unfold drmGemDumbCreate at h
  dsimp only at h
  generalize (if bpp ≠ 0 then bpp else 32) = b at h
  split at h
  · cases h
  split at h
  · cases h
  obtain ⟨bytes, hbytes, h⟩ := Option.bind_eq_some_iff.mp h
  obtain ⟨row, hrow, h⟩ := Option.bind_eq_some_iff.mp h
  split at h
  · cases h
  obtain ⟨size, hsize, h⟩ := Option.bind_eq_some_iff.mp h
  split at h
  · cases h
  obtain ⟨obj, hobj, h⟩ := Option.bind_eq_some_iff.mp h
  cases obj with
  | none => cases h
  | some objSize =>
    obtain ⟨offset, -, h⟩ := Option.bind_eq_some_iff.mp h
    obtain ⟨handle, -, h⟩ := Option.bind_eq_some_iff.mp h
    obtain ⟨-, rfl⟩ := checkedMul_eq_some.mp hbytes
    obtain ⟨-, rfl⟩ := checkedAdd_eq_some.mp hrow
    obtain ⟨-, rfl⟩ := checkedMul_eq_some.mp hsize
    obtain ⟨-, hd⟩ := Prod.mk.inj (Option.some.inj h)
    obtain rfl := Option.some.inj hd
    exact ⟨by dsimp only; omega, Nat.le_refl _, drmGemCreate_le hobj⟩

/-- **The arithmetic of the DRM calls**: they panic exactly if the numbers of the client, or those of the
device, do not fit, and a dumb buffer is as large as it has to be. -/
theorem drm_arith_iff (k : Kernel) (height width bpp size next cached : Nat) (timeoutNsec : Int)
    (dev : Device) (req : AtomicRequest) :
    ((drmGemDumbCreate k height width bpp).isSome ↔ DumbFits k height width bpp) ∧
      ((drmGemCreate k size).isSome ↔ GemFits k size) ∧
      (drmGemMapOffset next cached).isSome ∧
      ((waitTicks timeoutNsec).isSome ↔
        (0 < timeoutNsec → (timeoutNsec / 10000000).toNat % u32Size + 1 < u32Size)) ∧
      ((modeAtomic dev req).isSome ↔ AtomicFits dev req) ∧
      ∀ code d, drmGemDumbCreate k height width bpp = some (code, some d) →
        d.width * (d.bpp / 8) ≤ d.pitch ∧ d.pitch * d.height ≤ d.size ∧ d.size ≤ d.objSize := by
  refine ⟨drmGemDumbCreate_isSome .., drmGemCreate_isSome .., rfl, ?_, modeAtomic_isSome ..,
    fun _ _ => dumb_geometry⟩
  unfold waitTicks checkedAdd
  rw [isSome_refuse, Int.not_le]
  refine imp_congr_right fun _ => ?_
  split <;> simp [*]

/-- A commit of framebuffer 2 in place of framebuffer 1 on CRTC 0. -/
def flipTo : AtomicRequest :=
  ⟨true, [1], true, true, 0, ⟨some ⟨0, true, some ⟨1, some 1⟩, 0⟩, some 2, none, false, none⟩, false, false, true⟩

/-- 2³⁰ pixels of 32 bits in a row; 2²⁶ - 1 rows of 64 bytes, which leave no room to round up; a sum of
property counts; and a commit of an object with as many references as there can be. -/
theorem drm_arith_panics :
    let k : Kernel := ⟨true, true, true, true, 0, 0x10000000⟩
    drmGemDumbCreate k 1 0x40000000 32 = none ∧ drmGemDumbCreate k 0x3FFFFFF 16 32 = none ∧
      drmGemCreate k 0xFFFFF001 = none ∧ waitTicks 42949672950000000 = none ∧
      modeAtomic ⟨fun _ => none, fun _ => 1, 0⟩ { flipTo with counts := [0xFFFFFFFF, 1] } = none ∧
      modeAtomic ⟨fun id => some ⟨id, some id⟩, fun _ => 0x7FFFFFFF, 0⟩ flipTo = none := by
  decide +kernel

end CactKernel.DrmArith
