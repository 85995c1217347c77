/-
# Emptying a stack

A traversal with a stack and no marks: pop a node, push its successors, go on until the stack is
empty.  Nothing keeps it from meeting a node twice.  What a run that ends has popped is the stack
it started from together with the successors of everything it popped, each as often as it was
pushed (`Sweep.perm`); so a run that pops no node twice has met every node along ONE edge at most
(`Sweep.parent_unique`).
-/
import Mathlib.Tactic

namespace RvKernel.Worklist

variable {α : Type}

/-- Emptying `stack` pops the nodes `out`, first to last.  The successors of a node may be pushed
in any order. -/
inductive Sweep (next : α → List α) : List α → List α → Prop
  | done : Sweep next [] []
  | pop {x : α} {pushed stack out : List α} : pushed.Perm (next x) →
      Sweep next (pushed ++ stack) out → Sweep next (x :: stack) (x :: out)

variable {next : α → List α} {stack out : List α}

/-- **What was popped is what was pushed.** -/
theorem Sweep.perm (h : Sweep next stack out) : out.Perm (stack ++ out.flatMap next) := by
  induction h with
  | done => exact List.Perm.refl _
  | @pop x pushed stack out hp _ ih =>
    have hswap : (pushed ++ stack).Perm (stack ++ next x) :=
      List.perm_append_comm.trans (hp.append_left stack)
    have htail : out.Perm (stack ++ (next x ++ out.flatMap next)) := by
      rw [← List.append_assoc]
      exact ih.trans (hswap.append_right _)
    rw [List.flatMap_cons, List.cons_append]
    exact htail.cons x

theorem Sweep.mem_of_stack (h : Sweep next stack out) {x : α} (hx : x ∈ stack) : x ∈ out :=
  h.perm.mem_iff.mpr (List.mem_append_left _ hx)

theorem Sweep.mem_of_next (h : Sweep next stack out) {x y : α} (hx : x ∈ out) (hy : y ∈ next x) :
    y ∈ out :=
  h.perm.mem_iff.mpr (List.mem_append_right _ (List.mem_flatMap.mpr ⟨x, hx, hy⟩))

section Nodup

variable (h : Sweep next stack out) (hn : out.Nodup) {x x' y : α}

include h hn in
/-- A node that was popped once has one parent among the nodes popped. -/
theorem Sweep.parent_unique (hx : x ∈ out) (hx' : x' ∈ out) (hy : y ∈ next x) (hy' : y ∈ next x') :
    x = x' := by
  have hflat := (List.nodup_append.mp (h.perm.nodup_iff.mp hn)).2.1
  obtain ⟨-, hpair⟩ := List.nodup_flatMap.mp hflat
  by_contra hne
  have hsymm : Std.Symm (Function.onFun List.Disjoint next) := ⟨fun _ _ hd => hd.symm⟩
  exact hpair.forall hx hx' hne hy hy'

end Nodup

end RvKernel.Worklist
