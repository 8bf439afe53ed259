/-
CactKernel/Mm/System.lean

All processes over one memory manager.

A process is its page directory, its region table and the pages its System V
segments are attached at; processes are named by their position.  An
operation of one process runs on its `Space` and is put back
(`System.onSpace`); `fork` (the address space part of `task_fork.rs`) also
adds the child.  What a step does to the other processes is settled here
once: nothing (`System.onSpace_spec`, `System.fork_spec`).
-/
import CactKernel.Mm.Fork

namespace CactKernel

/-- The memory of one process; `shm` are the pages of its attached segments. -/
structure Proc where
  pd : PageDir
  tbl : MmapTable
  shm : Nat → Bool

/-- All processes and the memory manager. -/
structure System where
  mm : Mm
  procs : List Proc

/-- A region slot as `kmalloc` leaves it; `mmap_table_init` follows. -/
def MmapRegion.blank : MmapRegion := ⟨0, 0, ⟨false, false, false, false⟩, false, -1, 0, false, 0⟩

/-- A freshly initialised region table. -/
def MmapTable.fresh : MmapTable :=
  mmapTableInit ⟨List.replicate mmapMaxRegions .blank, 0, List.length_replicate⟩

namespace System

/-- One process with the given address space, if there is one. -/
def ofFirst (m : Mm) : Option (Mm × PageDir) → System
  | some (m', pd) => ⟨m', [⟨pd, .fresh, fun _ => false⟩]⟩
  | none => ⟨m, []⟩

/-- One process with a fresh address space. -/
def booted (modulesEnd : Nat) (mmap : List Mb2MmapFlat) : System :=
  ofFirst (.boot modulesEnd mmap) (vmmCreateAddressSpace (.boot modulesEnd mmap))

/-- Run an operation on the memory of process `p`. -/
def onSpace (s : System) (p : Nat) (op : Space → Option Space) : Option System :=
  s.procs[p]?.bind fun q => (op ⟨s.mm, q.pd, q.tbl⟩).map fun r =>
    ⟨r.mm, s.procs.set p ⟨r.pd, r.tbl, q.shm⟩⟩

/-- The address space part of `task_fork`: the child is the last process.
Segment attachments are not inherited. -/
def fork (s : System) (p : Nat) : Option System :=
  s.procs[p]?.bind fun q => (vmmCreateAddressSpace s.mm).bind fun c =>
    (mmapTableClone (vmmForkAddressSpace ⟨c.1, q.pd, c.2⟩) q.tbl .fresh).map fun r =>
      ⟨r.1.mm, s.procs.set p { q with pd := r.1.src } ++ [⟨r.1.dst, r.2, fun _ => false⟩]⟩

variable {s s' : System} {p : Nat}

theorem ofFirst_proc {m : Mm} {o : Option (Mm × PageDir)} {q : Proc}
    (h : (ofFirst m o).procs[p]? = some q) : q.tbl = .fresh ∧ q.shm = fun _ => false := by
  rcases o with - | ⟨m', pd⟩
  · cases List.mem_of_getElem? h
  · obtain rfl := List.mem_singleton.mp (List.mem_of_getElem? h)
    exact ⟨rfl, rfl⟩

theorem onSpace_spec {op : Space → Option Space} (h : s.onSpace p op = some s') :
    ∃ q r, s.procs[p]? = some q ∧ op ⟨s.mm, q.pd, q.tbl⟩ = some r ∧
      s' = ⟨r.mm, s.procs.set p ⟨r.pd, r.tbl, q.shm⟩⟩ := by
  obtain ⟨q, hq, h⟩ := Option.bind_eq_some_iff.mp h
  obtain ⟨r, hr, rfl⟩ := Option.map_eq_some_iff.mp h
  exact ⟨q, r, hq, hr, rfl⟩

/-- **What `fork` does**: a frame becomes the child's directory, a copy of the
kernel's, and a number of actions fill it. -/
theorem fork_spec (h : s.fork p = some s') :
    ∃ q d m r, s.procs[p]? = some q ∧ s.mm.kalloc = some (d, m) ∧
      ForkSteps q.tbl ⟨m, q.pd, .template d⟩ r ∧
      s' = ⟨r.mm, s.procs.set p { q with pd := r.src } ++
        [⟨r.dst, cloneTable q.tbl .fresh, fun _ => false⟩]⟩ := by
  obtain ⟨q, hq, h⟩ := Option.bind_eq_some_iff.mp h
  obtain ⟨c, hc, h⟩ := Option.bind_eq_some_iff.mp h
  obtain ⟨⟨r, t⟩, hr, rfl⟩ := Option.map_eq_some_iff.mp h
  obtain ⟨⟨d, m⟩, hk, rfl⟩ := Option.map_eq_some_iff.mp hc
  obtain ⟨hsteps, rfl⟩ := mmapTableClone_steps hr
  exact ⟨q, d, m, r, hq, hk, (vmmForkAddressSpace_steps q.tbl _).trans hsteps, rfl⟩

/-- The processes after an operation of process `p`. -/
theorem getElem?_set {l : List Proc} {i : Nat} {q x : Proc}
    (h : (l.set p q)[i]? = some x) : i = p ∧ x = q ∨ i ≠ p ∧ l[i]? = some x := by
  rw [List.getElem?_set] at h
  by_cases hip : p = i
  · split_ifs at h
    exact Or.inl ⟨hip.symm, (Option.some.inj h).symm⟩
  · rw [if_neg hip] at h
    exact Or.inr ⟨Ne.symm hip, h⟩

end System

end CactKernel
