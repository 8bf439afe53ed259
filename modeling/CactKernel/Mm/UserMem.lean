/-
CactKernel/Mm/UserMem.lean

The calls with which a process maps memory: `mmap`, `shm_at`
(`process/shm_api.rs`, `process/shm.rs`) and `brk` (`core/syscall/mem/mm.c`).

`UserMem` is the memory of a process together with what these calls read: the
shared memory segments, the attachments of the process and its break.  It
carries what every process starts with and no call changes: the break begins
inside the low reservation, and the bump pointer of the region table never
goes below the mmap window.

Counts of attachments, owners and permissions of a segment are left out:
they are read by `shm_dt` and `shm_ctl` only.
-/
import CactKernel.Mm.TableLaw

namespace CactKernel

open Loops

@[irreducible] def shmVaBase : Nat := 0xA0000000
@[irreducible] def shmVaLimit : Nat := 0xB0000000

def shmMaxPages : Nat := 64
def shmMaxSegments : Nat := 32
def taskShmMax : Nat := 16

/-- `USER_BRK_MAX_GROWTH`. -/
@[irreducible] def userBrkMaxGrowth : Nat := 0x1000000

/-! ### State -/

/-- A slot of the segment table; `pages` holds the frames of the segment. -/
structure ShmSeg where
  numPages : Nat
  pages : Nat → Nat
  valid : Bool
  few : numPages ≤ shmMaxPages

/-- An attachment of a process, free if `shmId` is 0. -/
structure ShmAttachment where
  shmId : Nat
  shmVaddr : Nat
deriving DecidableEq, Repr

/-- The memory of a process. -/
structure UserMem extends Space where
  segs : Nat → ShmSeg
  shmAttachments : List ShmAttachment
  brkStart : Nat
  brkCurrent : Nat
  brk_low : brkStart < reservedEndMin
  next_high : mmapBase ≤ tbl.nextBase

/-- The same process over other frames and another page directory. -/
def UserMem.over (u : UserMem) (mm : Mm) (pd : PageDir) : UserMem := { u with mm := mm, pd := pd }

/-! ### `shm_at` -/

def segValid (segs : Nat → ShmSeg) (id : Nat) : Prop :=
  1 ≤ id ∧ id ≤ shmMaxSegments ∧ (segs (id - 1)).valid = true
deriving Decidable

/-- The first attachment that meets `[candidate, candidate + size)`: where to look next. -/
def shmClash (segs : Nat → ShmSeg) (size candidate : Nat) : List ShmAttachment → Option (Option Nat)
  | [] => some none
  | a :: as =>
    if a.shmId = 0 ∨ ¬segValid segs a.shmId then shmClash segs size candidate as
    else
      (checkedAdd a.shmVaddr ((segs (a.shmId - 1)).numPages * pageSize)).bind fun last =>
        (checkedAdd candidate size).bind fun cend =>
          if candidate < last ∧ a.shmVaddr < cend then (pageUp last).map some
          else shmClash segs size candidate as

/-- The search moves on. -/
theorem shmClash_lt {segs : Nat → ShmSeg} {size c c' : Nat} {as : List ShmAttachment}
    (h : shmClash segs size c as = some (some c')) : c < c' := by
  induction as with
  | nil => exact nomatch h
  | cons a as ih =>
    rw [shmClash] at h
    split_ifs at h with hskip
    · exact ih h
    · obtain ⟨last, -, h⟩ := Option.bind_eq_some_iff.mp h
      obtain ⟨cend, -, h⟩ := Option.bind_eq_some_iff.mp h
      split_ifs at h with hmeet
      · obtain ⟨y, hy, he⟩ := Option.map_eq_some_iff.mp h
        obtain rfl := Option.some.inj he
        exact hmeet.1.trans_le (pageUp_spec hy).1
      · exact ih h

/-- The search of `find_shm_va` from `candidate` on; 0 if there is no room. -/
def findShmVaFrom (segs : Nat → ShmSeg) (as : List ShmAttachment) (size candidate : Nat) : Option Nat :=
  match _hend : checkedAdd candidate size with
  | none => none
  | some cend =>
    if _hroom : cend ≤ shmVaLimit then
      match _hclash : shmClash segs size candidate as with
      | none => none
      | some none => some candidate
      | some (some next) => findShmVaFrom segs as size next
    else some 0
termination_by shmVaLimit + 1 - candidate
decreasing_by
  have := shmClash_lt _hclash
  have := (checkedAdd_eq_some.mp _hend).2
  omega

def UserMem.findShmVa (u : UserMem) (numPages : Nat) : Option Nat :=
  findShmVaFrom u.segs u.shmAttachments (numPages * pageSize) shmVaBase

/-- The address `shm_at` uses for a `shmaddr` that is not 0. -/
def shmRounded (shmaddr : Nat) (rnd : Bool) : Nat := if rnd then shmaddr / pageSize * pageSize else shmaddr

/-- Where `shm_at` puts the segment. -/
def UserMem.shmPlace (u : UserMem) (numPages shmaddr : Nat) (rnd : Bool) : Option (Option Nat) :=
  if shmaddr ≠ 0 then
    some (if shmRounded shmaddr rnd % pageSize ≠ 0 then none else some (shmRounded shmaddr rnd))
  else (u.findShmVa numPages).map fun va => if va = 0 then none else some va

/-- One page of `shm_at`. -/
def shmPage (seg : ShmSeg) (va : Nat) (rw : Bool) (s : Mm × PageDir) (i : Nat) : Flow (Mm × PageDir) :=
  match checkedAdd va (i * pageSize) with
  | none => .panic
  | some a => .next (vmmMap s.1 s.2 a (pageToAddr (seg.pages i)) rw)

/-- `shm_at`; the answer is the address, `none` for `u32::MAX`. -/
def UserMem.shmAt (u : UserMem) (shmid shmaddr : Nat) (rnd rdonly : Bool) :
    Option (UserMem × Option Nat) :=
  if ¬segValid u.segs shmid then some (u, none)
  else
    match u.shmAttachments.findIdx? fun a => a.shmId == 0 with
    | none => some (u, none)
    | some slot =>
      let seg := u.segs (shmid - 1)
      (u.shmPlace seg.numPages shmaddr rnd).bind fun place =>
        match place with
        | none => some (u, none)
        | some va =>
          (loop (shmPage seg va !rdonly) seg.numPages 0 (u.mm, u.pd)).state.map fun r =>
            ({ u.over r.1 r.2 with shmAttachments := u.shmAttachments.set slot ⟨shmid, va⟩ }, some va)

/-! ### `brk` -/

/-- `(x + PAGE_SIZE - 1) & ~(PAGE_SIZE - 1)` in C, where the sum wraps; by page. -/
def brkEnd (x : Nat) : Nat := (x + (pageSize - 1)) % u32Size / pageSize

/-- One page of `brk`. -/
def brkPage (s : Mm × PageDir) (v : Nat) : Flow (Mm × PageDir) :=
  match s.1.kalloc with
  | none => .stop s
  | some (f, m) => .next (vmmMap (m.setPage f zeroPage) s.2 (pageToAddr v) (pageToAddr f) true)

/-- `sys_brk`; the answer is the break, `none` for `-1`. -/
def UserMem.sysBrk (u : UserMem) (newBrk : Nat) : Option (UserMem × Option Nat) :=
  if newBrk = 0 then some (u, some u.brkCurrent)
  else if newBrk < u.brkStart then some (u, none)
  else if userBrkMaxGrowth < newBrk - u.brkStart then some (u, none)
  else
    let run := loop brkPage (brkEnd newBrk - brkEnd u.brkCurrent) (brkEnd u.brkCurrent) (u.mm, u.pd)
    run.state.map fun r =>
      -- without a frame the pages so far stay mapped and the break stays where it was
      if run.finished then ({ u.over r.1 r.2 with brkCurrent := newBrk }, some newBrk)
      else (u.over r.1 r.2, none)

/-! ### The calls -/

theorem Shrunk.nextBase {t t' : MmapTable} (h : Shrunk t t') : t'.nextBase = t.nextBase := by
  cases h with
  | same => rfl
  | cut => rfl

/-- The bump pointer only moves up. -/
theorem doMmap_nextBase {env : MmapEnv} {s s' : Space} {hint length offset : Nat} {write : Bool}
    {flags : MapFlags} {fd : Int} {o : Option Nat}
    (h : doMmap env s hint length write flags fd offset = some (s', o)) :
    s.tbl.nextBase ≤ s'.tbl.nextBase := by
  obtain ⟨rfl, -⟩ | ⟨len, va, i, s₁, o₁, -, -, -, -, hb, hrec⟩ := doMmap_cases h
  · exact le_rfl
  have hnext : s₁.tbl.nextBase = s.tbl.nextBase := by
    rcases mapBacking_table hb with ht | ⟨-, ht⟩
    · rw [ht]
    · exact ht.nextBase
  obtain ⟨rfl, -, -⟩ | ⟨obj, -, -, rfl⟩ := hrec
  · exact hnext.ge
  · exact hnext.ge.trans (le_max_left ..)

/-- The calls with which a process maps memory. -/
inductive MapCall where
  | mmap (env : MmapEnv) (hint length : Nat) (write : Bool) (flags : MapFlags) (fd : Int) (offset : Nat)
  | shmAt (shmid shmaddr : Nat) (rnd rdonly : Bool)
  | brk (newBrk : Nat)

def mapCall (u : UserMem) : MapCall → Option UserMem
  | .mmap env hint length write flags fd offset =>
    match h : doMmap env u.toSpace hint length write flags fd offset with
    | none => none
    | some r => some { u with toSpace := r.1, next_high := u.next_high.trans (doMmap_nextBase h) }
  | .shmAt shmid shmaddr rnd rdonly => (u.shmAt shmid shmaddr rnd rdonly).map Prod.fst
  | .brk newBrk => (u.sysBrk newBrk).map Prod.fst

end CactKernel
