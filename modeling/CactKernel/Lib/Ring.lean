/-
CactKernel/Lib/Ring.lean

A ring of cells read and written as a queue.

The cells are a function of the position, of which the positions below the
capacity `cap` are used.  `load` and `store` copy a run of cells out of and
into the ring in at most two contiguous pieces, the second one from position
zero.  `window cap g pos n` is the run of `n` cells from `pos` on with the
positions taken modulo `cap`: `load` reads a window, `store` behind a window
lengthens it (`window_store`), and dropping the front of a window moves its
start (`drop_window`).
-/
import Mathlib.Data.List.Basic

namespace Ring

variable {α : Type*}

/-- The cells `g pos, …, g (pos + n - 1)`. -/
def slice (g : Nat → α) (pos n : Nat) : List α := (List.range n).map fun i => g (pos + i)

/-- The cells `xs` from position `pos` on. -/
def blit (g : Nat → α) (pos : Nat) (xs : List α) : Nat → α := fun k =>
  if pos ≤ k then (xs[k - pos]?).getD (g k) else g k

/-- Copy `n` cells from `pos` on out of the ring. -/
def load (cap : Nat) (g : Nat → α) (pos n : Nat) : List α :=
  if n ≤ cap - pos then slice g pos n
  else slice g pos (cap - pos) ++ slice g 0 (n - (cap - pos))

/-- Copy `xs` into the ring from `pos` on. -/
def store (cap : Nat) (g : Nat → α) (pos : Nat) (xs : List α) : Nat → α :=
  if xs.length ≤ cap - pos then blit g pos xs
  else blit (blit g pos (xs.take (cap - pos))) 0 (xs.drop (cap - pos))

/-- The run of `n` cells from `pos` on, around the ring. -/
def window (cap : Nat) (g : Nat → α) (pos n : Nat) : List α :=
  (List.range n).map fun i => g ((pos + i) % cap)

variable {cap pos n k i : Nat} {g : Nat → α} {xs : List α} {x : α}

@[simp] theorem window_length : (window cap g pos n).length = n := by
  simp [window]

@[simp] theorem window_zero : window cap g pos 0 = [] := rfl

theorem slice_getElem? : (slice g pos n)[i]? = if i < n then some (g (pos + i)) else none := by
  unfold slice
  rw [List.getElem?_map]
  split
  · next h => rw [List.getElem?_range h, Option.map_some]
  · next h =>
    rw [List.getElem?_eq_none (by simpa using h)]
    rfl

theorem window_getElem? :
    (window cap g pos n)[i]? = if i < n then some (g ((pos + i) % cap)) else none :=
  slice_getElem? (g := fun k => g (k % cap))

@[simp] theorem slice_length : (slice g pos n).length = n := by
  simp [slice]

/-! ### Taking from the front -/

/-- One step past the end of the ring starts again at zero. -/
theorem mod_of_wrap (hpos : pos < cap) (h : cap - pos ≤ i) (hi : i < cap) :
    (pos + i) % cap = i - (cap - pos) := by
  rw [Nat.mod_eq_sub_mod (by omega), Nat.mod_eq_of_lt (by omega)]
  omega

/-- A copy out of the ring is a window. -/
theorem load_eq_window (hpos : pos < cap) (hn : n ≤ cap) : load cap g pos n = window cap g pos n := by
  refine List.ext_getElem? fun i => ?_
  rw [window_getElem?]
  unfold load
  split
  · next h =>
    rw [slice_getElem?]
    by_cases hin : i < n
    · rw [if_pos hin, if_pos hin, Nat.mod_eq_of_lt (by omega)]
    · rw [if_neg hin, if_neg hin]
  · next h =>
    rw [List.getElem?_append, slice_length]
    split
    · next hi =>
      rw [slice_getElem?, if_pos hi, if_pos (by omega), Nat.mod_eq_of_lt (by omega)]
    · next hi =>
      rw [slice_getElem?, Nat.zero_add]
      by_cases hin : i < n
      · rw [if_pos (by omega), if_pos hin, mod_of_wrap hpos (by omega) (by omega)]
      · rw [if_neg (by omega), if_neg hin]

/-- Dropping cells from the front of a window moves its start. -/
theorem drop_window (hk : k ≤ n) :
    (window cap g pos n).drop k = window cap g ((pos + k) % cap) (n - k) := by
  refine List.ext_getElem? fun i => ?_
  rw [List.getElem?_drop, window_getElem?, window_getElem?, Nat.mod_add_mod, Nat.add_assoc]
  exact if_congr (by omega) rfl rfl

theorem take_window (hk : k ≤ n) : (window cap g pos n).take k = window cap g pos k := by
  refine List.ext_getElem? fun i => ?_
  rw [List.getElem?_take, window_getElem?, window_getElem?]
  split_ifs <;> first | rfl | omega

/-! ### Adding at the back -/

theorem blit_of_lt (h : k < pos) : blit g pos xs k = g k := by
  rw [blit, if_neg (by omega)]

theorem blit_of_ge (h : pos + xs.length ≤ k) : blit g pos xs k = g k := by
  rw [blit, if_pos (by omega), List.getElem?_eq_none (by omega), Option.getD_none]

theorem blit_mid (h : xs[i]? = some x) : blit g pos xs (pos + i) = x := by
  rw [blit, if_pos (by omega), Nat.add_sub_cancel_left, h, Option.getD_some]

/-- The cells a store wrote. -/
theorem store_at (hpos : pos < cap) (hlen : xs.length ≤ cap) (h : xs[i]? = some x) :
    store cap g pos xs ((pos + i) % cap) = x := by
  have hi : i < xs.length := (List.getElem?_eq_some_iff.mp h).1
  unfold store
  split
  · next hfit => rw [Nat.mod_eq_of_lt (by omega), blit_mid h]
  · next hfit =>
    by_cases hend : i < cap - pos
    · -- the first piece, past which the second one does not reach
      rw [Nat.mod_eq_of_lt (by omega), blit_of_ge (by rw [List.length_drop]; omega),
        blit_mid (by rw [List.getElem?_take, if_pos hend, h])]
    · rw [mod_of_wrap hpos (by omega) (by omega), ← Nat.zero_add (i - (cap - pos)),
        blit_mid (by rw [List.getElem?_drop, Nat.add_sub_cancel' (by omega), h])]

/-- The cells a store left alone. -/
theorem store_of_ge (hpos : pos < cap) (hi : i < cap) (h : xs.length ≤ i) :
    store cap g pos xs ((pos + i) % cap) = g ((pos + i) % cap) := by
  unfold store
  by_cases hend : i < cap - pos
  · rw [Nat.mod_eq_of_lt (by omega), if_pos (by omega), blit_of_ge (by omega)]
  · rw [mod_of_wrap hpos (by omega) (by omega)]
    split
    · rw [blit_of_lt (by omega)]
    · rw [blit_of_ge (by rw [List.length_drop]; omega), blit_of_lt (by omega)]

/-- **A store behind a window** lengthens the window. -/
theorem window_store (hpos : pos < cap) (hfit : n + xs.length ≤ cap) :
    window cap (store cap g ((pos + n) % cap) xs) pos (n + xs.length) = window cap g pos n ++ xs := by
  have hcap : 0 < cap := by omega
  refine List.ext_getElem? fun i => ?_
  rw [window_getElem?, List.getElem?_append, window_length]
  by_cases hi : i < n
  · -- seen from the store, the window starts `cap - n` cells further on
    have heq : (pos + i) % cap = ((pos + n) % cap + (cap - n + i)) % cap := by
      rw [Nat.mod_add_mod, show pos + n + (cap - n + i) = pos + i + cap by omega, Nat.add_mod_right]
    rw [if_pos (by omega), if_pos hi, window_getElem?, if_pos hi, heq,
      store_of_ge (Nat.mod_lt _ hcap) (by omega) (by omega)]
  · rw [if_neg hi]
    by_cases hin : i < n + xs.length
    · obtain ⟨x, hx⟩ : ∃ x, xs[i - n]? = some x := ⟨_, List.getElem?_eq_getElem (by omega)⟩
      have heq : (pos + i) % cap = ((pos + n) % cap + (i - n)) % cap := by
        rw [Nat.mod_add_mod, show pos + n + (i - n) = pos + i by omega]
      rw [if_pos hin, hx, heq, store_at (Nat.mod_lt _ hcap) (by omega) hx]
    · rw [if_neg hin, List.getElem?_eq_none (by omega)]

/-- Positions of a window of at most `cap` cells do not meet. -/
theorem mod_ne_of_lt (hi : i < n) (hn : n < cap + i) : (pos + i) % cap ≠ (pos + n) % cap := by
  intro heq
  have hdvd : cap ∣ pos + n - (pos + i) :=
    Nat.dvd_of_mod_eq_zero (Nat.sub_mod_eq_zero_of_mod_eq heq.symm)
  have := Nat.le_of_dvd (by omega) hdvd
  omega

/-- One cell behind a window lengthens it by that cell. -/
theorem window_update {c : α} (hn : n < cap) :
    window cap (Function.update g ((pos + n) % cap) c) pos (n + 1) = window cap g pos n ++ [c] := by
  unfold window
  rw [List.range_succ, List.map_append, List.map_singleton, Function.update_self]
  refine congrArg (· ++ [c]) (List.map_congr_left fun i hi => ?_)
  have hin := List.mem_range.mp hi
  exact Function.update_of_ne (mod_ne_of_lt hin (by omega)) _ _

/-! ### Two positions

A ring kept by its two positions alone: equal positions mean empty, so one
cell stays free. -/

section Positions

variable {rd wr : Nat}

/-- How many cells lie from `rd` up to `wr`. -/
def span (cap rd wr : Nat) : Nat := (wr + cap - rd) % cap

section

variable (hr : rd < cap)
include hr

theorem span_eq (hw : wr < cap) :
    span cap rd wr = if rd ≤ wr then wr - rd else wr + cap - rd := by
  unfold span
  split_ifs with h
  · rw [show wr + cap - rd = wr - rd + cap by omega, Nat.add_mod_right, Nat.mod_eq_of_lt (by omega)]
  · rw [Nat.mod_eq_of_lt (by omega)]

theorem succ_mod : (rd + 1) % cap = if rd + 1 = cap then 0 else rd + 1 := by
  split_ifs with h
  · rw [h, Nat.mod_self]
  · rw [Nat.mod_eq_of_lt (by omega)]

section

variable (hw : wr < cap)
include hw

theorem span_eq_zero : span cap rd wr = 0 ↔ rd = wr := by
  rw [span_eq hr hw]
  split_ifs <;> omega

/-- The writing position is behind the last cell. -/
theorem add_span : (rd + span cap rd wr) % cap = wr := by
  rw [span_eq hr hw]
  split_ifs with h
  · rw [Nat.add_sub_cancel' h, Nat.mod_eq_of_lt hw]
  · rw [show rd + (wr + cap - rd) = wr + cap by omega, Nat.add_mod_right, Nat.mod_eq_of_lt hw]

theorem span_push (hfull : (wr + 1) % cap ≠ rd) :
    span cap rd ((wr + 1) % cap) = span cap rd wr + 1 ∧ span cap rd wr + 1 < cap := by
  rw [span_eq hr (Nat.mod_lt _ (by omega)), span_eq hr hw]
  rw [succ_mod hw] at hfull ⊢
  split_ifs at hfull ⊢ <;> omega

theorem span_pop (hne : rd ≠ wr) :
    span cap ((rd + 1) % cap) wr + 1 = span cap rd wr := by
  rw [span_eq (Nat.mod_lt _ (by omega)) hw, span_eq hr hw, succ_mod hr]
  split_ifs <;> omega

end

end

/-- The first cell of a window that is not empty. -/
theorem window_cons (hpos : pos < cap) :
    window cap g pos (n + 1) = g pos :: window cap g ((pos + 1) % cap) n := by
  have hdrop : (window cap g pos (n + 1)).drop 1 = window cap g ((pos + 1) % cap) n :=
    drop_window (by omega)
  rw [← hdrop]
  unfold window
  rw [List.range_succ_eq_map, List.map_cons, Nat.add_zero, Nat.mod_eq_of_lt hpos]
  rfl

theorem window_eq_nil (hr : rd < cap) (hw : wr < cap) : window cap g rd (span cap rd wr) = [] ↔ rd = wr := by
  rw [← List.length_eq_zero_iff, window_length, span_eq_zero hr hw]

/-- **A push** into a ring that is not full. -/
theorem window_push {c : α} (hr : rd < cap) (hw : wr < cap) (hfull : (wr + 1) % cap ≠ rd) :
    window cap (Function.update g wr c) rd (span cap rd ((wr + 1) % cap)) =
      window cap g rd (span cap rd wr) ++ [c] := by
  obtain ⟨hspan, hlt⟩ := span_push hr hw hfull
  rw [hspan]
  nth_rewrite 1 [← add_span hr hw]
  exact window_update (Nat.lt_of_succ_lt hlt)

/-- **The first cell** of a ring that is not empty. -/
theorem window_pop (hr : rd < cap) (hw : wr < cap) (hne : rd ≠ wr) :
    window cap g rd (span cap rd wr) =
      g rd :: window cap g ((rd + 1) % cap) (span cap ((rd + 1) % cap) wr) := by
  rw [← span_pop hr hw hne, window_cons hr]

end Positions

end Ring
