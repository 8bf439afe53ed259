/-
CactKernel/Syscall/Validate.lean

User pointers in system calls (`core/syscall/validate.c`; `sys_read` and
`sys_write` of `core/syscall/io/fd.c`).

The check is a range test on two constants, and the copies that follow it
run in ring 0.  A `UserSpace` is what they run against: the kernel's
identity map, which covers every page, overlaid with the regions the process
has mapped itself.  `Represents` ties it to page directories: a fresh
directory represents the bare identity map, and `vmm_map` adds a region of
one page.

Pointers and sizes are 32-bit words, as in the source, so the sum in the
check wraps.  A transfer is a byte-by-byte copy through the entries of the
space.  What the file layer reads and returns is the argument `vfs`.

Main results: when an accepted range stays clear of supervisor pages
(`accepted_range_confined_iff`): exactly when the regions of the process, one
behind the other, reach from its start to its end; and what the four calls
then touch: they overwrite only frames of the process (`copyToUser_frame`,
`sysRead_frame`) and learn nothing of other frames (`copyFromUser_own`,
`sysWrite_own`).
-/
import CactKernel.Mm.Vm
import CactKernel.Lib.Cover

namespace CactKernel

open Function

/-! ### Address spaces -/

/-- A mapping of the process: `pages` pages from the page `first` on, with the
`PAGE_USER` entries that stand there. -/
structure UserRegion where
  first : Nat
  pages : Nat
  pte : Nat → Pte
  user : ∀ v, (pte v).user = true

namespace UserRegion

/-- The address of its first byte. -/
def base (r : UserRegion) : Nat := r.first * pageSize

/-- The address behind its last byte. -/
def stop (r : UserRegion) : Nat := (r.first + r.pages) * pageSize

theorem holds_iff {r : UserRegion} {a : Nat} :
    r.base ≤ a ∧ a < r.stop ↔ r.first ≤ addrToPage a ∧ addrToPage a < r.first + r.pages := by
  unfold base stop addrToPage
  rw [Nat.le_div_iff_mul_le pageSize_pos, Nat.div_lt_iff_lt_mul pageSize_pos]

end UserRegion

/-- The identity map overlaid with the regions of the process, the newest first. -/
structure UserSpace where
  regions : List UserRegion

namespace UserSpace

open Cover

variable (sp : UserSpace)

/-- The entry of the process for the page `v`, if it has one. -/
def own (v : Nat) : Option Pte :=
  (sp.regions.find? fun r => r.first ≤ v ∧ v < r.first + r.pages).map (·.pte v)

/-- The entry of the page `v`. -/
def entry (v : Nat) : Pte := (sp.own v).getD (kernelPte v)

/-- The byte at `a` lies in a page that is present without `PAGE_USER`. -/
def Supervisor (a : Nat) : Prop :=
  (sp.entry (addrToPage a)).present = true ∧ (sp.entry (addrToPage a)).user = false

/-- A process that has mapped nothing. -/
def bare : UserSpace := ⟨[]⟩

/-- The process maps the page `v` with the user entry `e`. -/
def map (v : Nat) (e : Pte) (he : e.user = true) : UserSpace :=
  ⟨⟨v, 1, fun _ => e, fun _ => he⟩ :: sp.regions⟩

/-- The directory `pd` has the entries of `sp`. -/
def Represents (pd : PageDir) : Prop := ∀ v, pd.pte v = sp.entry v

variable {sp}

/-- `vmm_map` adds a page of the process, or does nothing. -/
theorem Represents.vmmMap {pd : PageDir} (h : sp.Represents pd) (m : Mm) (va pa : Nat) (rw : Bool) :
    sp.Represents (vmmMap m pd va pa rw).2 ∨
    (sp.map (addrToPage va) (.mapped (addrToPage pa) (rw || inStack (addrToPage va))) rfl).Represents
      (vmmMap m pd va pa rw).2 := by
  rcases vmmMap_cases m pd va pa rw with he | ⟨m', pd', -, hv, hs, he⟩
  · rw [he]
    exact Or.inl h
  · rw [he]
    refine Or.inr fun w => ?_
    rw [PageDir.setPte_of_private (hs.isPrivate hv), hs.pte]
    unfold map entry own
    by_cases hw : w = addrToPage va
    · subst hw
      simp
    · rw [update_of_ne hw, List.find?_cons_of_neg (by simp; omega)]
      exact h w

theorem own_user {v : Nat} {e : Pte} (h : sp.own v = some e) : e.user = true := by
  obtain ⟨r, -, rfl⟩ := Option.map_eq_some_iff.mp h
  exact r.user v

/-- The process has an entry for the page of `a` where a region holds `a`. -/
theorem own_eq_none {a : Nat} :
    sp.own (addrToPage a) = none ↔ ¬Covered UserRegion.base UserRegion.stop sp.regions a := by
  simp only [own, Option.map_eq_none_iff, List.find?_eq_none, decide_eq_true_eq, Covered,
    UserRegion.holds_iff, not_exists, not_and]

/-- Outside the pages of the process everything is a supervisor page. -/
theorem supervisor_iff {a : Nat} : sp.Supervisor a ↔ sp.own (addrToPage a) = none := by
  unfold Supervisor entry
  rcases ho : sp.own (addrToPage a) with - | e
  · simp [kernelPte]
  · simp [own_user ho]

/-- The first address from `a` on that no region holds. -/
def mappedEnd (sp : UserSpace) (a : Nat) : Nat := reach UserRegion.base UserRegion.stop sp.regions a

end UserSpace

/-! ### The check -/

/-- `validate_user_ptr`. -/
def validateUserPtr (ptr size : UInt32) : Bool :=
  if ptr = 0 then false
  else if ptr.toNat < userSpaceStart then false
  else if kernelBase ≤ ptr.toNat then false
  else if size = 0 then true
  else if ptr + size < ptr then false
  else if kernelBase < (ptr + size).toNat then false
  else true

/-- **What the check accepts**: a range in `[USER_SPACE_START, KERNEL_BASE)`. -/
theorem validateUserPtr_iff {ptr size : UInt32} : validateUserPtr ptr size = true ↔
    userSpaceStart ≤ ptr.toNat ∧ ptr.toNat < kernelBase ∧
      (size = 0 ∨ ptr.toNat + size.toNat ≤ kernelBase) := by
  have hptr : ptr = 0 ↔ ptr.toNat = 0 := by
    rw [← UInt32.toNat_inj]
    rfl
  have hsize : size = 0 ↔ size.toNat = 0 := by
    rw [← UInt32.toNat_inj]
    rfl
  have hs := size.toNat_lt
  unfold validateUserPtr
  simp only [UInt32.lt_iff_toNat_lt, UInt32.toNat_add, hptr, hsize]
  split_ifs with h₁ h₂ h₃ h₄ h₅ h₆
  all_goals simp only [userSpaceStart, kernelBase] at *
  all_goals simp only [false_iff, true_iff]
  all_goals omega

/-! ### Transfers -/

namespace UserSpace

variable (sp : UserSpace)

/-- Read the byte at `a`. -/
def load (mem : Nat → Page) (a : Nat) : UInt8 := mem (sp.entry (addrToPage a)).frame (a % pageSize)

/-- Write the byte at `a`. -/
def store (mem : Nat → Page) (a : Nat) (b : UInt8) : Nat → Page :=
  update mem (sp.entry (addrToPage a)).frame
    (update (mem (sp.entry (addrToPage a)).frame) (a % pageSize) b)

/-- Read `n` bytes from `a` on. -/
def loadBytes (mem : Nat → Page) (a n : Nat) : List UInt8 := (List.range' a n).map (sp.load mem)

/-- Write bytes from `a` on. -/
def storeBytes (mem : Nat → Page) (a : Nat) : List UInt8 → Nat → Page
  | [] => mem
  | b :: bs => storeBytes (sp.store mem a b) (a + 1) bs

end UserSpace

/-- An open file: its offset, and whether it has a node. -/
structure File where
  hasNode : Bool
  offset : Nat

/-- What the file layer does: the bytes a read delivers, at most `size` of
them, with its answer, and the answer to a write. -/
structure Vfs where
  read : File → Nat → Nat → Int × List UInt8
  write : File → Nat → List UInt8 → Int
  read_le : ∀ f off size, (read f off size).2.length ≤ size

/-- The file behind a descriptor (`_get_file`), if it has a node. -/
def getFile (files : Nat → Option File) (fd : Int) : Option File :=
  if fd < 0 ∨ (maxFd : Int) ≤ fd then none else (files fd.toNat).filter (·.hasNode)

/-- Move the file offset past the bytes that were transferred. -/
def advance (files : Nat → Option File) (fd : Int) (f : File) (ret : Int) : Nat → Option File :=
  if 0 < ret then update files fd.toNat (some { f with offset := (f.offset + ret.toNat) % u32Size })
  else files

section Calls

variable (sp : UserSpace) (vfs : Vfs)

/-- `copy_to_user` of the kernel bytes `src 0, src 1, …`. -/
def copyToUser (mem : Nat → Page) (dst : UInt32) (src : Nat → UInt8) (size : UInt32) :
    (Nat → Page) × Int :=
  if validateUserPtr dst size then
    (sp.storeBytes mem dst.toNat ((List.range size.toNat).map src), 0)
  else (mem, -1)

/-- `copy_from_user`; `none` when it returns -1. -/
def copyFromUser (mem : Nat → Page) (src size : UInt32) : Option (List UInt8) :=
  if validateUserPtr src size then some (sp.loadBytes mem src.toNat size.toNat) else none

/-- `sys_read`. -/
def sysRead (mem : Nat → Page) (files : Nat → Option File) (fd : Int) (buf size : UInt32) :
    (Nat → Page) × (Nat → Option File) × Int :=
  if size = 0 then (mem, files, -1)
  else if validateUserPtr buf size = false then (mem, files, -1)
  else
    match getFile files fd with
    | none => (mem, files, -1)
    | some f =>
      let r := vfs.read f f.offset size.toNat
      (sp.storeBytes mem buf.toNat r.2, advance files fd f r.1, r.1)

/-- `sys_write`. -/
def sysWrite (mem : Nat → Page) (files : Nat → Option File) (fd : Int) (buf size : UInt32) :
    (Nat → Option File) × Int :=
  if size = 0 then (files, -1)
  else if validateUserPtr buf size = false then (files, -1)
  else
    match getFile files fd with
    | none => (files, -1)
    | some f =>
      let ret := vfs.write f f.offset (sp.loadBytes mem buf.toNat size.toNat)
      (advance files fd f ret, ret)

end Calls

/-! ### Confinement -/

namespace UserSpace

variable {sp : UserSpace} {mem mem' : Nat → Page} {a n : Nat}

/-- The process has mapped every page of `[a, a + n)`. -/
def Mapped (sp : UserSpace) (a n : Nat) : Prop :=
  ∀ b, a ≤ b → b < a + n → sp.own (addrToPage b) ≠ none

/-- Every page is mapped where the regions reach the end of the range. -/
theorem mapped_iff : sp.Mapped a n ↔ a + n ≤ sp.mappedEnd a := by
  simp only [Mapped, mappedEnd, Cover.le_reach_iff, ne_eq, own_eq_none, not_not]

/-- The frame `f` is behind some page of the process. -/
def Owns (sp : UserSpace) (f : Nat) : Prop := ∃ v e, sp.own v = some e ∧ e.frame = f

theorem Mapped.owns (h : sp.Mapped a n) {b : Nat} (h₁ : a ≤ b) (h₂ : b < a + n) :
    sp.Owns (sp.entry (addrToPage b)).frame := by
  obtain ⟨e, he⟩ := Option.ne_none_iff_exists'.mp (h b h₁ h₂)
  exact ⟨_, e, he, by rw [entry, he]; rfl⟩

/-- Writing to mapped pages changes only frames of the process. -/
theorem storeBytes_frame {bs : List UInt8} {f : Nat} (h : sp.Mapped a n) (hn : bs.length ≤ n)
    (hf : ¬sp.Owns f) : sp.storeBytes mem a bs f = mem f := by
  induction bs generalizing a n mem with
  | nil => rfl
  | cons b bs ih =>
    rw [List.length_cons] at hn
    have hrest : sp.Mapped (a + 1) (n - 1) := fun c h₁ h₂ => h c (by omega) (by omega)
    rw [storeBytes, ih hrest (by omega), store, update_of_ne]
    rintro rfl
    exact hf (h.owns le_rfl (by omega))

/-- Reading mapped pages depends only on frames of the process. -/
theorem loadBytes_own (h : sp.Mapped a n) (hmem : ∀ f, sp.Owns f → mem f = mem' f) :
    sp.loadBytes mem a n = sp.loadBytes mem' a n := by
  refine List.map_congr_left fun b hb => ?_
  obtain ⟨h₁, h₂⟩ := List.mem_range'_1.mp hb
  unfold load
  rw [hmem _ (h.owns h₁ h₂)]

end UserSpace

/-- **When an accepted range is confined.**  No byte of a range the check
accepts lies in a supervisor page exactly when the range is empty, the check
rejects it for its place, or the regions of the process reach from its start
to its end. -/
theorem accepted_range_confined_iff (sp : UserSpace) (ptr size : UInt32) :
    (validateUserPtr ptr size = true →
      ∀ a, ptr.toNat ≤ a → a < ptr.toNat + size.toNat → ¬sp.Supervisor a) ↔
    size = 0 ∨ ptr.toNat < userSpaceStart ∨ kernelBase ≤ ptr.toNat ∨
      kernelBase < ptr.toNat + size.toNat ∨ ptr.toNat + size.toNat ≤ sp.mappedEnd ptr.toNat := by
  rw [validateUserPtr_iff, ← UserSpace.mapped_iff]
  simp only [UserSpace.supervisor_iff]
  constructor
  · intro h
    by_contra hc
    simp only [not_or, not_lt, not_le] at hc
    obtain ⟨h₁, h₂, h₃, h₄, h₅⟩ := hc
    exact h₅ (h ⟨h₂, h₃, Or.inr h₄⟩)
  · rintro (rfl | h | h | h | h) hacc a h₁ h₂
    · exact absurd h₁ (not_le.mpr h₂)
    · exact absurd hacc.1 (by omega)
    · exact absurd hacc.2.1 (by omega)
    · rcases hacc.2.2 with rfl | hle
      · exact absurd h₁ (not_le.mpr h₂)
      · omega
    · exact h a h₁ h₂

/-- **The check accepts the kernel heap**: four bytes at `HEAP_START` pass, the
page is a supervisor page, and `copy_to_user` overwrites its frame. -/
theorem kernel_heap_accepted :
    validateUserPtr 0x20000000 4 = true ∧ UserSpace.bare.Supervisor heapStart ∧
    (copyToUser .bare (fun _ => zeroPage) 0x20000000 (fun _ => 1) 4).1 (addrToPage heapStart) 0 = 1 := by
  refine ⟨by decide +kernel, ?_, by decide +kernel⟩
  rw [UserSpace.supervisor_iff]
  rfl

section Frames

variable {sp : UserSpace} {mem mem' : Nat → Page} {f : Nat} {files : Nat → Option File} {vfs : Vfs}
  {fd : Int}

/-- `copy_to_user` to mapped pages changes only frames of the process. -/
theorem copyToUser_frame {dst size : UInt32} {src : Nat → UInt8}
    (h : sp.Mapped dst.toNat size.toNat) (hf : ¬sp.Owns f) :
    (copyToUser sp mem dst src size).1 f = mem f := by
  unfold copyToUser
  split_ifs
  · exact UserSpace.storeBytes_frame h (by simp) hf
  · rfl

/-- `sys_read` into mapped pages changes only frames of the process. -/
theorem sysRead_frame {buf size : UInt32} (h : sp.Mapped buf.toNat size.toNat)
    (hf : ¬sp.Owns f) : (sysRead sp vfs mem files fd buf size).1 f = mem f := by
  unfold sysRead
  split_ifs
  · rfl
  · rfl
  · rcases getFile files fd with - | file
    · rfl
    · exact UserSpace.storeBytes_frame h (vfs.read_le _ _ _) hf

/-- `copy_from_user` from mapped pages learns nothing of other frames. -/
theorem copyFromUser_own {src size : UInt32} (h : sp.Mapped src.toNat size.toNat)
    (hmem : ∀ f, sp.Owns f → mem f = mem' f) :
    copyFromUser sp mem src size = copyFromUser sp mem' src size := by
  unfold copyFromUser
  rw [UserSpace.loadBytes_own h hmem]

/-- `sys_write` from mapped pages hands on nothing of other frames. -/
theorem sysWrite_own {buf size : UInt32} (h : sp.Mapped buf.toNat size.toNat)
    (hmem : ∀ f, sp.Owns f → mem f = mem' f) :
    sysWrite sp vfs mem files fd buf size = sysWrite sp vfs mem' files fd buf size := by
  unfold sysWrite
  rw [UserSpace.loadBytes_own h hmem]

end Frames

end CactKernel
