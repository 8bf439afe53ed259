/-
CactKernel/Lib/Run.lean

Finite runs of a partial step function.

A system is a step function `step : σ → ε → Option σ`: an event either moves
the state on or is refused (`none`), and a refused event ends the run.  `run`
folds a list of events; `MeetsAll step ok` says that each event of the list
meets the side condition `ok` in the state it is taken from.

`run_invariant` is the one induction on runs: a property kept by every step
that meets `ok` holds in the state any such run ends in.  Because every
prefix of a run is a run, this is a statement about every state reached.
-/
import Mathlib.Data.List.Basic

namespace Runs

variable {σ ε : Type*}

/-- Take the events of a list one after the other. -/
def run (step : σ → ε → Option σ) : σ → List ε → Option σ
  | s, [] => some s
  | s, e :: es => (step s e).bind fun s' => run step s' es

/-- Each event of the list meets `ok` in the state it is taken from. -/
def MeetsAll (step : σ → ε → Option σ) (ok : σ → ε → Prop) : σ → List ε → Prop
  | _, [] => True
  | s, e :: es => ok s e ∧ ∀ s', step s e = some s' → MeetsAll step ok s' es

variable {step : σ → ε → Option σ} {ok ok' : σ → ε → Prop} {es : List ε} {s t : σ}

theorem run_cons (s : σ) (e : ε) (es : List ε) :
    run step s (e :: es) = (step s e).bind fun s' => run step s' es := rfl

theorem run_cons_some {e : ε} (h : run step s (e :: es) = some t) :
    ∃ s', step s e = some s' ∧ run step s' es = some t := by
  exact Option.bind_eq_some_iff.mp h

/-- A run over `es₁ ++ es₂` is a run over `es₁` followed by one over `es₂`. -/
theorem run_append (s : σ) (es₁ es₂ : List ε) :
    run step s (es₁ ++ es₂) = (run step s es₁).bind fun s' => run step s' es₂ := by
  induction es₁ generalizing s with
  | nil => rfl
  | cons e es ih =>
    rw [List.cons_append, run_cons, run_cons]
    rcases step s e with - | s'
    · rfl
    · exact ih s'

/-- **Invariant rule.**  A property kept by every step that meets `ok` holds
at the end of every run whose steps meet `ok`. -/
theorem run_invariant {P : σ → Prop}
    (hstep : ∀ {s e s'}, P s → ok s e → step s e = some s' → P s')
    (hs : P s) (hok : MeetsAll step ok s es) (hrun : run step s es = some t) : P t := by
  induction es generalizing s with
  | nil =>
    obtain rfl := Option.some.inj hrun
    exact hs
  | cons e es ih =>
    obtain ⟨s', he, hes⟩ := run_cons_some hrun
    exact ih (hstep hs hok.1 he) (hok.2 s' he) hes

/-- **Progress rule.**  If every step that meets `ok` can be taken and keeps a property, a run
whose steps meet `ok` comes to its end, with the property. -/
theorem run_total {P : σ → Prop} (hstep : ∀ {s e}, P s → ok s e → ∃ s', step s e = some s' ∧ P s')
    (hs : P s) (hok : MeetsAll step ok s es) : ∃ t, run step s es = some t ∧ P t := by
  induction es generalizing s with
  | nil => exact ⟨s, rfl, hs⟩
  | cons e es ih =>
    obtain ⟨s', he, hs'⟩ := hstep hs hok.1
    obtain ⟨t, hrun, ht⟩ := ih hs' (hok.2 s' he)
    exact ⟨t, by rw [run_cons, he]; exact hrun, ht⟩

/-- Without a side condition every run meets it. -/
theorem meetsAll_true (s : σ) (es : List ε) : MeetsAll step (fun _ _ => True) s es := by
  induction es generalizing s with
  | nil => trivial
  | cons e es ih => exact ⟨trivial, fun s' _ => ih s'⟩

theorem MeetsAll.mono (h : MeetsAll step ok s es)
    (hok : ∀ s e, ok s e → ok' s e) : MeetsAll step ok' s es := by
  induction es generalizing s with
  | nil => trivial
  | cons e es ih => exact ⟨hok s e h.1, fun s' hs => ih (h.2 s' hs)⟩

/-- A run that meets the condition can be cut anywhere. -/
theorem MeetsAll.split {fs : List ε} (h : MeetsAll step ok s (es ++ fs))
    (hrun : run step s es = some t) : MeetsAll step ok s es ∧ MeetsAll step ok t fs := by
  induction es generalizing s with
  | nil =>
    obtain rfl := Option.some.inj hrun
    exact ⟨trivial, h⟩
  | cons e es ih =>
    obtain ⟨s', he, hes⟩ := run_cons_some hrun
    refine ⟨⟨h.1, fun s'' hs'' => ?_⟩, (ih (h.2 s' he) hes).2⟩
    obtain rfl := Option.some.inj (he.symm.trans hs'')
    exact (ih (h.2 s' he) hes).1

/-- A guarded step that is taken. -/
theorem of_guard {p : Prop} [Decidable p] (h : (if p then some s else none) = some t) : p ∧ s = t := by
  obtain ⟨hp, he⟩ := Option.ite_none_right_eq_some.mp h
  exact ⟨hp, Option.some.inj he⟩

/-- A call that returns the new state and a value. -/
theorem of_pair {α β : Type*} {a c : α} {b d : β} (h : some (a, b) = some (c, d)) : a = c ∧ b = d :=
  Prod.mk.inj (Option.some.inj h)

/-- A call that returns the state it was given. -/
theorem same_of_pair {α β : Type*} {a c : α} {b d : β} (h : some (a, b) = some (c, d)) : c = a ∧ d = b :=
  (of_pair h).imp Eq.symm Eq.symm

theorem of_map_pair {α β γ : Type*} {o : Option γ} {f : γ → α} {g : γ → β} {a : α} {b : β}
    (h : (o.map fun x => (f x, g x)) = some (a, b)) : ∃ x, o = some x ∧ f x = a ∧ g x = b := by
  obtain ⟨x, hx, he⟩ := Option.map_eq_some_iff.mp h
  exact ⟨x, hx, Prod.mk.inj he⟩

/-- **Checked by computing.**  What follows from a decidable test of the last state of a run
holds of that state. -/
theorem exists_of_check {o : Option σ} {p q : σ → Prop} [DecidablePred p]
    (hcheck : o.any (fun s => decide (p s)) = true) (h : ∀ s, o = some s → p s → q s) :
    ∃ s, o = some s ∧ q s := by
  cases ho : o with
  | none =>
    rw [ho] at hcheck
    cases hcheck
  | some s =>
    rw [ho] at hcheck
    exact ⟨s, rfl, h s ho (of_decide_eq_true hcheck)⟩

/-- For a decidable side condition, whether a run meets it can be computed. -/
instance decidableMeetsAll [∀ s e, Decidable (ok s e)] :
    ∀ s es, Decidable (MeetsAll step ok s es)
  | _, [] => isTrue trivial
  | s, e :: es =>
    match h : step s e with
    | none => decidable_of_iff (ok s e) ⟨fun ho => ⟨ho, by simp [h]⟩, fun ho => ho.1⟩
    | some s' =>
      have := decidableMeetsAll s' es
      decidable_of_iff (ok s e ∧ MeetsAll step ok s' es)
        ⟨fun ho => ⟨ho.1, fun t ht => Option.some.inj (h.symm.trans ht) ▸ ho.2⟩,
          fun ho => ⟨ho.1, ho.2 s' h⟩⟩

/-- What `mapM` collects comes from somewhere. -/
theorem exists_of_mem_mapM {α β : Type} {g : α → Option β} {xs : List α} {ys : List β} {y : β}
    (h : xs.mapM g = some ys) (hy : y ∈ ys) : ∃ x, g x = some y := by
  induction xs generalizing ys with
  | nil =>
    obtain rfl := Option.some.inj h
    cases hy
  | cons x xs ih =>
    rw [List.mapM_cons] at h
    obtain ⟨y', hx, h⟩ := Option.bind_eq_some_iff.mp h
    obtain ⟨ys', hxs, h⟩ := Option.bind_eq_some_iff.mp h
    obtain rfl := Option.some.inj h
    rcases List.mem_cons.mp hy with rfl | hy
    · exact ⟨x, hx⟩
    · exact ih hxs hy

end Runs
