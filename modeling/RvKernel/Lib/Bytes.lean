/-
# Words as bytes

A 32-bit word as the four bytes it takes in memory, in either order, and the padding of a string of
bytes to a whole number of words.
-/
import RvKernel.Lib.Word

namespace RvKernel.Bytes

/-! ## 1. Byte order -/

/-- The `i`-th byte of a word, from the low end. -/
def byte (w : U32) (i : ℕ) : U8 := w.extractLsb' (8 * i) 8

/-- A little-endian word. -/
def le32 (a b c d : U8) : U32 := d ++ c ++ b ++ a

/-- The bytes of a word, the high one first. -/
def be32 (w : U32) : List U8 := [byte w 3, byte w 2, byte w 1, byte w 0]

theorem le32_byte (w : U32) : le32 (byte w 0) (byte w 1) (byte w 2) (byte w 3) = w := by
  apply BitVec.eq_of_getLsbD_eq
  intro i hi
  simp only [le32, byte, BitVec.getLsbD_append, BitVec.getLsbD_extractLsb']
  grind

theorem byte_le32 (a b c d : U8) :
    byte (le32 a b c d) 0 = a ∧ byte (le32 a b c d) 1 = b ∧ byte (le32 a b c d) 2 = c ∧
      byte (le32 a b c d) 3 = d := by
  refine ⟨?_, ?_, ?_, ?_⟩ <;>
  · apply BitVec.eq_of_getLsbD_eq
    intro i hi
    simp only [le32, byte, BitVec.getLsbD_append, BitVec.getLsbD_extractLsb']
    grind

@[simp] theorem length_be32 (w : U32) : (be32 w).length = 4 := rfl

/-! ## 2. Padding -/

/-- Zeros up to the next word. -/
def padWord (l : List U8) : List U8 := l ++ List.replicate ((4 - l.length % 4) % 4) 0

theorem length_padWord (l : List U8) : (padWord l).length = 4 * ((l.length + 3) / 4) := by
  rw [padWord, List.length_append, List.length_replicate]
  omega

end RvKernel.Bytes
