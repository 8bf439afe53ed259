/-
CactKernel/Lib/Loop.lean

Counted loops with early exit and panic.

A loop body maps a state and an index to a `Flow`: go on with a new state,
leave the loop with one, or panic.  `loop body n k` runs the indices
`k, …, k + n - 1`.  Five rules cover the uses: a property every pass keeps
holds in whatever state the loop leaves (`loop_invariant`), also an indexed
one (`loop_indexed`, and `loop_passes` with the index the loop got to); an
indexed property holds at the end of a loop that ran to its end (`loop_next`);
and a loop whose passes all go on runs to its end (`loop_runs`).
-/
import Mathlib.Data.Nat.Basic
import Mathlib.Tactic.Common

namespace Loops

variable {σ : Type*}

/-- What one pass of a loop body does. -/
inductive Flow (σ : Type*) where
  | next (s : σ)
  | stop (s : σ)
  | panic

namespace Flow

/-- The state a pass leaves behind, unless it panics. -/
def state : Flow σ → Option σ
  | next s => some s
  | stop s => some s
  | panic => none

/-- Did the loop run to its end? -/
def finished : Flow σ → Bool
  | next _ => true
  | _ => false

end Flow

/-- Run `body` at the indices `k, …, k + n - 1`. -/
def loop (body : σ → ℕ → Flow σ) : ℕ → ℕ → σ → Flow σ
  | 0, _, s => .next s
  | n + 1, k, s =>
    match body s k with
    | .next s' => loop body n (k + 1) s'
    | .stop s' => .stop s'
    | .panic => .panic

variable {body : σ → ℕ → Flow σ}

theorem loop_succ (n k : ℕ) (s : σ) :
    loop body (n + 1) k s =
      match body s k with
      | .next s' => loop body n (k + 1) s'
      | .stop s' => .stop s'
      | .panic => .panic := rfl

variable {P : ℕ → σ → Prop} {n k : ℕ} {s t : σ}

/-- An indexed property of the states between the passes of a loop that runs
to its end. -/
theorem loop_next (hbody : ∀ j s s', k ≤ j → j < k + n → P j s → body s j = .next s' → P (j + 1) s')
    (hs : P k s) (h : loop body n k s = .next t) : P (k + n) t := by
  -- on the passes left, while the index moves up
  induction n generalizing k s with
  | zero =>
    cases h
    exact hs
  | succ n ih =>
    rw [loop_succ] at h
    rcases hb : body s k with s' | s' | - <;> rw [hb] at h
    · have := ih (fun j s s' h₁ h₂ => hbody j s s' (by omega) (by omega))
        (hbody k s s' le_rfl (by omega) hs hb) h
      rwa [show k + (n + 1) = k + 1 + n by omega]
    · cases h
    · cases h

/-- An indexed property that every pass keeps holds in the state the loop leaves, at some
index up to its end. -/
theorem loop_indexed
    (hbody : ∀ j s s', k ≤ j → j < k + n → P j s → (body s j).state = some s' → P (j + 1) s')
    (hs : P k s) (h : (loop body n k s).state = some t) : ∃ j ≤ k + n, P j t := by
  induction n generalizing k s with
  | zero =>
    obtain rfl := Option.some.inj h
    exact ⟨k, le_rfl, hs⟩
  | succ n ih =>
    have hk : ∀ s', (body s k).state = some s' → P (k + 1) s' := fun s' =>
      hbody k s s' le_rfl (by omega) hs
    rw [loop_succ] at h
    rcases hb : body s k with s' | s' | - <;> rw [hb] at h hk
    · obtain ⟨j, hj, hP⟩ := ih (fun j s s' h₁ h₂ => hbody j s s' (by omega) (by omega)) (hk s' rfl) h
      exact ⟨j, by omega, hP⟩
    · exact ⟨k + 1, by omega, hk t h⟩
    · cases h

/-- A property every pass keeps holds in the state the loop leaves, whether
the loop ran to its end or was left early. -/
theorem loop_invariant {P : σ → Prop}
    (hbody : ∀ j s s', k ≤ j → j < k + n → P s → (body s j).state = some s' → P s')
    (hs : P s) (h : (loop body n k s).state = some t) : P t :=
  let ⟨_, _, hP⟩ := loop_indexed (P := fun _ => P) hbody hs h
  hP

/-- How many passes go on before the loop ends or is left. -/
def passes (body : σ → ℕ → Flow σ) : ℕ → ℕ → σ → ℕ
  | 0, _, _ => 0
  | n + 1, k, s =>
    match body s k with
    | .next s' => passes body n (k + 1) s' + 1
    | _ => 0

/-- A loop whose passes all go on runs to its end. -/
theorem loop_runs
    (hbody : ∀ j s, k ≤ j → j < k + n → P j s → ∃ s', body s j = .next s' ∧ P (j + 1) s')
    (hs : P k s) : ∃ t, loop body n k s = .next t ∧ P (k + n) t := by
  induction n generalizing k s with
  | zero => exact ⟨s, rfl, hs⟩
  | succ n ih =>
    obtain ⟨s', hb, hs'⟩ := hbody k s le_rfl (by omega) hs
    obtain ⟨t, ht, hP⟩ := ih (fun j s h₁ h₂ => hbody j s (by omega) (by omega)) hs'
    refine ⟨t, ?_, ?_⟩
    · rw [loop_succ, hb]
      exact ht
    · rwa [show k + (n + 1) = k + 1 + n by omega]

end Loops
