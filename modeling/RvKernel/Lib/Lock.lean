/-
# A lock that is one word

A word that is `free` or `taken`.  Who swaps `taken` into it and gets `free` back is inside, and
writes `free` to leave.  `Guards free taken w S` is what such a word `w` says about the set `S` of
those who are inside: nobody is, or exactly one is.  The three operations keep it, whoever they are
run by and in whatever order.
-/
import Mathlib.Order.BooleanAlgebra.Set

namespace RvKernel.Lock

variable {W κ : Type} {free taken w : W} {S : Set κ} {c c' : κ}

/-- The word `w` guards the section that the contexts in `S` are in. -/
def Guards (free taken w : W) (S : Set κ) : Prop := w = free ∧ S = ∅ ∨ w = taken ∧ ∃ c, S = {c}

/-- A swap that gets `free` back enters... -/
theorem Guards.enter (hne : taken ≠ free) (h : Guards free taken free S) (c : κ) :
    Guards free taken taken (insert c S) := by
  rcases h with ⟨-, rfl⟩ | ⟨hfree, -⟩
  · exact Or.inr ⟨rfl, c, by simp⟩
  · exact absurd hfree.symm hne

/-- ...any other swap changes nothing... -/
theorem Guards.spin (h : Guards free taken w S) (hw : w ≠ free) : Guards free taken taken S := by
  rcases h with ⟨hfree, -⟩ | ⟨-, hS⟩
  · exact absurd hfree hw
  · exact Or.inr ⟨rfl, hS⟩

/-- ...and who is inside may write `free`. -/
theorem Guards.leave (h : Guards free taken w S) (hc : c ∈ S) :
    Guards free taken free (S \ {c}) := by
  refine Or.inl ⟨rfl, ?_⟩
  rcases h with ⟨-, rfl⟩ | ⟨-, d, rfl⟩
  · exact absurd hc (Set.notMem_empty c)
  · rw [Set.mem_singleton_iff.mp hc]
    exact sdiff_self

/-- **Mutual exclusion.** -/
theorem Guards.unique (h : Guards free taken w S) (hc : c ∈ S) (hc' : c' ∈ S) : c = c' := by
  rcases h with ⟨-, rfl⟩ | ⟨-, d, rfl⟩
  · exact absurd hc (Set.notMem_empty c)
  · exact (Set.mem_singleton_iff.mp hc).trans (Set.mem_singleton_iff.mp hc').symm

theorem Guards.held (h : Guards free taken w S) (hc : c ∈ S) : w = taken := by
  rcases h with ⟨-, rfl⟩ | ⟨hw, -⟩
  · exact absurd hc (Set.notMem_empty c)
  · exact hw

end RvKernel.Lock
