/-
CactKernel/Lib/NameTree.lean

Trees written as a list of named entries.

A directory tree is a list of entries `⟨dir, name, target⟩`: the directory an
entry stands in, the name it carries and the object it names.  `IsTree dirs
root es` says that the list is a tree over the objects for which `dirs` holds:
entries stand in directories only, siblings have different names, nothing
names the root, a directory is named at most once, and every directory with an
entry can be reached from the root.

The three operations of a name space keep it: adding an entry (`IsTree.add`),
removing one whose target holds nothing (`IsTree.remove`) and moving one to a
directory that does not lie below its target (`IsTree.move`).  For the last
two the argument is the same: a path of the old tree either avoids the entry
or runs through its target (`below_split`).

`IsTree.acyclic` is the global consequence: no object lies strictly below
itself.
-/
import Mathlib.Data.List.Nodup
import Mathlib.Data.List.Count
import Mathlib.Logic.Relation

namespace NameTree

/-- One named entry of a directory. -/
structure Entry (ι κ : Type*) where
  dir : ι
  name : κ
  target : ι
deriving DecidableEq, Repr

variable {ι κ : Type*}

/-- What has to be unique among siblings. -/
def Entry.key (e : Entry ι κ) : ι × κ := (e.dir, e.name)

/-- `n` has an entry in `d`. -/
def Edge (es : List (Entry ι κ)) (d n : ι) : Prop := ∃ e ∈ es, e.dir = d ∧ e.target = n

/-- `n` is `d` or lies somewhere under it. -/
def Below (es : List (Entry ι κ)) : ι → ι → Prop := Relation.ReflTransGen (Edge es)

/-- How many entries name `n`. -/
def links [DecidableEq ι] (es : List (Entry ι κ)) (n : ι) : Nat :=
  es.countP fun e => decide (e.target = n)

/-! ### Paths -/

variable {es fs : List (Entry ι κ)} {e : Entry ι κ} {d n : ι}

theorem Edge.mono (h : ∀ e ∈ es, e ∈ fs) (he : Edge es d n) : Edge fs d n := by
  obtain ⟨e, hmem, hd, hn⟩ := he
  exact ⟨e, h e hmem, hd, hn⟩

theorem Below.mono (h : ∀ e ∈ es, e ∈ fs) (hb : Below es d n) : Below fs d n :=
  Relation.ReflTransGen.mono (fun _ _ he => Edge.mono h he) d n hb

/-- A path either avoids the entry `e` or can be taken up again at its target. -/
theorem below_split {rest : List (Entry ι κ)} {r : ι}
    (h : Below (e :: rest) r d) : Below rest r d ∨ Below rest e.target d := by
  induction h with
  | refl => exact .inl .refl
  | tail _ hedge ih =>
    obtain ⟨g, hg, hd, hn⟩ := hedge
    rcases List.mem_cons.mp hg with rfl | hg
    · -- the last step is the entry itself, so the path starts afresh here
      right
      rw [hn]
      exact .refl
    · have hstep : Edge rest _ _ := ⟨g, hg, hd, hn⟩
      exact ih.imp (·.tail hstep) (·.tail hstep)

/-- Nothing but itself lies below an object without entries. -/
theorem below_eq_of_empty (hn : ∀ e ∈ es, e.dir ≠ n) (h : Below es n d) : d = n := by
  rcases Relation.ReflTransGen.cases_head h with h | ⟨c, ⟨e, he, hd, -⟩, -⟩
  · exact h.symm
  · exact absurd hd (hn e he)

section Links

variable [DecidableEq ι]

theorem links_cons (e : Entry ι κ) (es : List (Entry ι κ)) (n : ι) :
    links (e :: es) n = links es n + if e.target = n then 1 else 0 := by
  simp [links, List.countP_cons]

theorem links_perm (h : es.Perm fs) (n : ι) : links es n = links fs n := h.countP_eq _

theorem links_pos : 0 < links es n ↔ ∃ e ∈ es, e.target = n := by
  simp [links]

theorem links_eq_zero (h : links es n = 0) (he : e ∈ es) : e.target ≠ n := fun hn =>
  absurd (links_pos.mpr ⟨e, he, hn⟩) (by omega)

/-- Two entries that name an object named once are the same entry. -/
theorem eq_of_links_le_one (h : links es n ≤ 1) {f : Entry ι κ} (he : e ∈ es) (hf : f ∈ es)
    (hen : e.target = n) (hfn : f.target = n) : e = f := by
  rw [links, List.countP_eq_length_filter] at h
  have he' : e ∈ es.filter fun g => decide (g.target = n) := by simp [he, hen]
  have hf' : f ∈ es.filter fun g => decide (g.target = n) := by simp [hf, hfn]
  generalize es.filter (fun g => decide (g.target = n)) = found at h he' hf'
  match found, h with
  | [], _ => cases he'
  | [g], _ => rw [List.mem_singleton.mp he', List.mem_singleton.mp hf']

/-! ### Trees -/

/-- The entries form a tree below `root` over the directories `dirs`. -/
structure IsTree (dirs : ι → Bool) (root : ι) (es : List (Entry ι κ)) : Prop where
  holder : ∀ e ∈ es, dirs e.dir = true
  names : (es.map Entry.key).Nodup
  unnamed : ∀ e ∈ es, e.target ≠ root
  once : ∀ n, dirs n = true → links es n ≤ 1
  reach : ∀ e ∈ es, Below es root e.dir

variable {dirs : ι → Bool} {root : ι} {es : List (Entry ι κ)}

theorem isTree_nil (dirs : ι → Bool) (root : ι) : IsTree dirs root ([] : List (Entry ι κ)) where
  holder := by simp
  names := by simp
  unnamed := by simp
  once := by simp [links]
  reach := by simp

section

variable (h : IsTree dirs root es)
include h

theorem IsTree.perm (hp : es.Perm fs) : IsTree dirs root fs where
  holder e he := h.holder e (hp.mem_iff.mpr he)
  names := (hp.map _).nodup_iff.mp h.names
  unnamed e he := h.unnamed e (hp.mem_iff.mpr he)
  once n hn := by
    rw [← links_perm hp]
    exact h.once n hn
  reach e he := (h.reach e (hp.mem_iff.mpr he)).mono fun _ => hp.mem_iff.mp

/-- The set of directories may change where no entry is concerned. -/
theorem IsTree.changeDirs {dirs' : ι → Bool}
    (hold : ∀ e ∈ es, dirs' e.dir = true)
    (hnew : ∀ n, dirs' n = true → dirs n = true ∨ links es n = 0) : IsTree dirs' root es :=
  { h with
    holder := hold
    once := fun n hn => by
      rcases hnew n hn with hn | hn
      · exact h.once n hn
      · omega }

theorem IsTree.add (hdir : dirs e.dir = true)
    (hname : e.key ∉ es.map Entry.key) (hroot : e.target ≠ root)
    (honce : dirs e.target = true → links es e.target = 0) (hreach : Below es root e.dir) :
    IsTree dirs root (e :: es) where
  holder := List.forall_mem_cons.mpr ⟨hdir, h.holder⟩
  names := List.nodup_cons.mpr ⟨hname, h.names⟩
  unnamed := List.forall_mem_cons.mpr ⟨hroot, h.unnamed⟩
  once := by
    intro n hn
    rw [links_cons]
    split_ifs with heq
    · subst heq
      have := honce hn
      omega
    · exact h.once n hn
  reach := by
    rintro f (_ | ⟨_, hf⟩)
    · exact hreach.mono fun _ => List.mem_cons_of_mem _
    · exact (h.reach f hf).mono fun _ => List.mem_cons_of_mem _

end

/-- Removing the name of an object that holds nothing. -/
theorem IsTree.remove (h : IsTree dirs root (e :: es))
    (hempty : ∀ f ∈ es, f.dir ≠ e.target) : IsTree dirs root es where
  holder f hf := h.holder f (List.mem_cons_of_mem _ hf)
  names := (List.nodup_cons.mp h.names).2
  unnamed f hf := h.unnamed f (List.mem_cons_of_mem _ hf)
  once n hn := by
    have hle := h.once n hn
    rw [links_cons] at hle
    omega
  reach f hf := by
    rcases below_split (h.reach f (List.mem_cons_of_mem _ hf)) with hb | hb
    · exact hb
    · exact absurd (below_eq_of_empty hempty hb) (hempty f hf)

/-- Moving an entry to a directory that does not lie below what it names. -/
theorem IsTree.move {e' : Entry ι κ} (h : IsTree dirs root (e :: es))
    (htarget : e'.target = e.target) (hdir : dirs e'.dir = true)
    (hname : e'.key ∉ es.map Entry.key) (hreach : Below (e :: es) root e'.dir)
    (hbelow : ¬ Below (e :: es) e.target e'.dir) : IsTree dirs root (e' :: es) := by
  have hkeep : ∀ {r d : ι}, Below es r d → Below (e' :: es) r d :=
    fun hb => hb.mono fun _ => List.mem_cons_of_mem _
  -- the new place is reached without the moved entry, and the target through it
  have hplace : Below (e' :: es) root e'.dir := by
    rcases below_split hreach with hb | hb
    · exact hkeep hb
    · exact absurd (hb.mono fun _ => List.mem_cons_of_mem _) hbelow
  have hmoved : Below (e' :: es) root e.target :=
    hplace.tail ⟨e', List.mem_cons_self, rfl, htarget⟩
  refine ⟨?_, ?_, ?_, ?_, ?_⟩
  · exact List.forall_mem_cons.mpr ⟨hdir, (List.forall_mem_cons.mp h.holder).2⟩
  · exact List.nodup_cons.mpr ⟨hname, (List.nodup_cons.mp h.names).2⟩
  · exact List.forall_mem_cons.mpr (htarget ▸ List.forall_mem_cons.mp h.unnamed)
  · intro n hn
    have hle := h.once n hn
    rwa [links_cons, ← htarget, ← links_cons] at hle
  · rintro f (_ | ⟨_, hf⟩)
    · exact hplace
    · rcases below_split (h.reach f (List.mem_cons_of_mem _ hf)) with hb | hb
      · exact hkeep hb
      · exact hmoved.trans (hkeep hb)

section

variable (h : IsTree dirs root es)
include h

/-- A directory with a name is reached from the root. -/
theorem IsTree.below_of_named (hn : 0 < links es n) : Below es root n := by
  obtain ⟨e, he, rfl⟩ := links_pos.mp hn
  exact (h.reach e he).tail ⟨e, he, rfl, rfl⟩

/-- Only the root and what has a name hold entries. -/
theorem IsTree.empty_of_unnamed (hroot : n ≠ root)
    (hn : links es n = 0) : ∀ e ∈ es, e.dir ≠ n := by
  rintro e he rfl
  rcases Relation.ReflTransGen.cases_tail (h.reach e he) with hr | ⟨c, -, f, hf, -, hft⟩
  · exact hroot hr
  · exact links_eq_zero hn hf hft

/-- **No object lies strictly below itself.**  A cycle through an object that is
reached from the root would pass its one parent, so the root would lie on one. -/
theorem IsTree.acyclic (d : ι) :
    ¬ Relation.TransGen (Edge es) d d := by
  have hreached : ∀ {n : ι}, Below es root n → ¬ Relation.TransGen (Edge es) n n := by
    intro n hb
    induction hb with
    | refl =>
      intro hcycle
      obtain ⟨c, -, e, he, -, ht⟩ := Relation.TransGen.tail'_iff.mp hcycle
      exact h.unnamed e he ht
    | @tail p n _ hedge ih =>
      intro hcycle
      obtain ⟨e, he, hep, hen⟩ := hedge
      obtain ⟨c, hc, f, hf, hfc, hfn⟩ := Relation.TransGen.tail'_iff.mp hcycle
      obtain ⟨_, ⟨g, hg, hgn, -⟩, -⟩ := Relation.TransGen.head'_iff.mp hcycle
      have hdirs : dirs n = true := hgn ▸ h.holder g hg
      have heq : f = e := eq_of_links_le_one (h.once n hdirs) hf he hfn hen
      -- the cycle enters `n` from its parent `p`, which therefore lies on it
      have hcp : c = p := by rw [← hfc, heq, hep]
      exact ih (Relation.TransGen.head' ⟨e, he, hep, hen⟩ (hcp ▸ hc))
  intro hcycle
  obtain ⟨_, ⟨g, hg, hgd, -⟩, -⟩ := Relation.TransGen.head'_iff.mp hcycle
  exact hreached (hgd ▸ h.reach g hg) hcycle

end

end Links

end NameTree
