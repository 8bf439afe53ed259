/-
CactKernel/Lib/Words.lean

32-bit words in a memory of bytes, least significant byte first.

`pokeWords m base ws` writes the words `ws` from `base` on and `peekWord` reads
one.  A word that was written is read back (`peekWord_pokeWords`), and a word
outside of what was written is what it was (`peekWord_pokeWords_of_disjoint`).
-/
import Mathlib.Data.BitVec
import Mathlib.Data.List.GetD

namespace Words

/-- Byte `k` of a word. -/
def byteOf (w : BitVec 32) (k : Nat) : BitVec 8 := w.extractLsb' (8 * k) 8

def peekWord (m : Nat → BitVec 8) (a : Nat) : BitVec 32 := m (a + 3) ++ m (a + 2) ++ m (a + 1) ++ m a

def pokeWords (m : Nat → BitVec 8) (base : Nat) (ws : List (BitVec 32)) : Nat → BitVec 8 := fun a =>
  if base ≤ a ∧ a < base + 4 * ws.length then byteOf (ws.getD ((a - base) / 4) 0) ((a - base) % 4)
  else m a

theorem join_bytes (w : BitVec 32) :
    (byteOf w 3 ++ byteOf w 2 ++ byteOf w 1 ++ byteOf w 0 : BitVec 32) = w := by
  unfold byteOf
  rw [BitVec.extractLsb'_append_extractLsb'_eq_extractLsb' (by rfl),
    BitVec.extractLsb'_append_extractLsb'_eq_extractLsb' (by rfl),
    BitVec.extractLsb'_append_extractLsb'_eq_extractLsb' (by rfl)]
  exact BitVec.extractLsb'_eq_self

variable {m m' : Nat → BitVec 8} {base a i : Nat} {ws : List (BitVec 32)}

theorem peekWord_congr (h : ∀ k < 4, m (a + k) = m' (a + k)) : peekWord m a = peekWord m' a := by
  unfold peekWord
  rw [h 3 (by omega), h 2 (by omega), h 1 (by omega), show m a = m' a from h 0 (by omega)]

/-- Byte `k` of word `i` of what was written. -/
theorem pokeWords_byte (hi : i < ws.length) (k : Nat) (hk : k < 4) :
    pokeWords m base ws (base + 4 * i + k) = byteOf (ws.getD i 0) k := by
  have hquot : (base + 4 * i + k - base) / 4 = i := by omega
  have hrem : (base + 4 * i + k - base) % 4 = k := by omega
  unfold pokeWords
  rw [if_pos (by omega), hquot, hrem]

theorem peekWord_pokeWords (hi : i < ws.length) :
    peekWord (pokeWords m base ws) (base + 4 * i) = ws.getD i 0 := by
  unfold peekWord
  rw [pokeWords_byte hi 3 (by omega), pokeWords_byte hi 2 (by omega),
    pokeWords_byte hi 1 (by omega),
    show pokeWords m base ws (base + 4 * i) = byteOf (ws.getD i 0) 0 from
      pokeWords_byte hi 0 (by omega)]
  exact join_bytes _

theorem peekWord_pokeWords_of_disjoint (h : a + 4 ≤ base ∨ base + 4 * ws.length ≤ a) :
    peekWord (pokeWords m base ws) a = peekWord m a := by
  refine peekWord_congr fun k hk => ?_
  unfold pokeWords
  rw [if_neg (by omega)]

end Words
