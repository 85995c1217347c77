/-
# Radix trees stored in a memory

A radix tree is a set of fixed-size tables in a memory.  A table's slot `i` holds an entry, and an
entry either points to a further table or does not.  A table is named by its PATH from the root,
the list of slot indices leading to it, innermost index first; `find` follows the pointers.

Everything a program that only adds tables needs to know about such a tree is in two facts:

* `find_congr`: a write that changes no pointer changes no path;
* `find_grow`: linking one fresh, pointer-free table under an unused slot adds exactly one path.

Both rest on the single invariant that makes the structure a TREE, `Injective`: no table is
reached along two different paths.  The layout is a parameter (`Format`): where a slot lives, and
which entries are pointers.  The latter may depend on the path of the entry, so that a format can
bound the depth and exempt chosen slots.
-/
import Mathlib.Data.Finset.Card
import Mathlib.Tactic

namespace RvKernel.Radix

/-- The layout of a radix tree: `A` addresses, `E` entries, `T` tables. -/
structure Format (A E T : Type) where
  /-- Where slot `i` of a table lives. -/
  slot : T → ℕ → A
  /-- The table that the entry at this path points to, if it is a pointer. -/
  child : List ℕ → E → Option T

variable {A E T : Type} (F : Format A E T)

/-- The table at the end of a path. -/
def find (m : A → E) (root : T) : List ℕ → Option T
  | [] => some root
  | i :: p => (find m root p).bind fun t => F.child (i :: p) (m (F.slot t i))

/-- No table is reached along two different paths. -/
def Injective (m : A → E) (root : T) : Prop :=
  ∀ p q t, find F m root p = some t → find F m root q = some t → p = q

variable {F} {m m' : A → E} {root : T}

theorem find_cons (i : ℕ) (p : List ℕ) :
    find F m root (i :: p) = (find F m root p).bind fun t => F.child (i :: p) (m (F.slot t i)) :=
  rfl

theorem find_cons_of_find {i : ℕ} {p : List ℕ} {t : T} (h : find F m root p = some t) :
    find F m root (i :: p) = F.child (i :: p) (m (F.slot t i)) := by
  rw [find_cons, h, Option.bind_some]

theorem find_of_find_cons {i : ℕ} {p : List ℕ} {c : T} (h : find F m root (i :: p) = some c) :
    ∃ t, find F m root p = some t ∧ F.child (i :: p) (m (F.slot t i)) = some c :=
  Option.bind_eq_some_iff.mp h

/-- **A write that changes no pointer changes no path.** -/
theorem find_congr
    (h : ∀ q t j, find F m root q = some t →
      F.child (j :: q) (m' (F.slot t j)) = F.child (j :: q) (m (F.slot t j))) :
    ∀ q, find F m' root q = find F m root q := by
  intro q
  induction q with
  | nil => rfl
  | cons j q ih =>
    rw [find_cons, find_cons, ih]
    cases hq : find F m root q with
    | none => rfl
    | some t => exact h q t j hq

/-- **Linking a fresh table adds exactly one path.**  The slot `i` of the table at `p` held no
pointer; it now points to `c`, whose own slots hold none; every other pointer is as it was. -/
theorem find_grow (hinj : Injective F m root) {p : List ℕ} {i : ℕ} {t c : T}
    (hp : find F m root p = some t) (hfree : find F m root (i :: p) = none)
    (hlink : F.child (i :: p) (m' (F.slot t i)) = some c)
    (hempty : ∀ j, F.child (j :: i :: p) (m' (F.slot c j)) = none)
    (hother : ∀ q t' j, find F m root q = some t' → ¬ (t' = t ∧ j = i) →
      F.child (j :: q) (m' (F.slot t' j)) = F.child (j :: q) (m (F.slot t' j))) :
    ∀ q, find F m' root q = if q = i :: p then some c else find F m root q := by
  intro q
  induction q with
  | nil => rfl
  | cons j q ih =>
    rw [find_cons, ih]
    by_cases hq : q = i :: p
    · -- below the new table: it has no pointers, and the path did not exist before
      subst hq
      rw [if_pos rfl, Option.bind_some, hempty, if_neg (by simp), find_cons, hfree]
      rfl
    · rw [if_neg hq]
      cases hfq : find F m root q with
      | none =>
        have hne : j :: q ≠ i :: p := by
          rintro heq
          injection heq with _ heq
          subst heq
          rw [hp] at hfq
          exact absurd hfq (by simp)
        rw [if_neg hne, find_cons, hfq]
        rfl
      | some t' =>
        rw [Option.bind_some]
        by_cases hti : t' = t ∧ j = i
        · obtain ⟨rfl, rfl⟩ := hti
          obtain rfl : q = p := hinj q p t' hfq hp
          rw [if_pos rfl, hlink]
        · have hne : j :: q ≠ i :: p := by
            rintro heq
            injection heq with hj heq
            subst heq
            rw [hp, Option.some.injEq] at hfq
            exact hti ⟨hfq.symm, hj⟩
          rw [if_neg hne, hother q t' j hfq hti, find_cons_of_find hfq]

/-- The paths of a tree to which one fresh table was linked. -/
theorem injective_of_grow (hinj : Injective F m root) {p : List ℕ} {c : T}
    (hfresh : ∀ q, find F m root q ≠ some c)
    (hfind : ∀ q, find F m' root q = if q = p then some c else find F m root q) :
    Injective F m' root := by
  intro q r t hq hr
  rw [hfind] at hq hr
  split at hq
  · split at hr
    · subst q r; rfl
    · rw [Option.some.injEq] at hq
      exact absurd (hq ▸ hr) (hfresh r)
  · split at hr
    · rw [Option.some.injEq] at hr
      exact absurd (hr ▸ hq) (hfresh q)
    · exact hinj q r t hq hr

/-- **Counting tables by their paths.**  If `n` distinct tables all lie on paths of a finite set,
there are at most as many tables as paths. -/
theorem card_le_of_paths {f : ℕ → T} {n : ℕ} (P : Finset (List ℕ))
    (hf : ∀ a < n, ∀ b < n, f a = f b → a = b)
    (hpath : ∀ a < n, ∃ p ∈ P, find F m root p = some (f a)) : n ≤ P.card := by
  choose! g hg using hpath
  have hinj : Set.InjOn g (Finset.range n : Set ℕ) := by
    intro a ha b hb hab
    simp only [Finset.coe_range, Set.mem_Iio] at ha hb
    have h₁ := (hg a ha).2
    rw [hab, (hg b hb).2, Option.some.injEq] at h₁
    exact hf a ha b hb h₁.symm
  have hmaps : Set.MapsTo g (Finset.range n : Set ℕ) (P : Set (List ℕ)) := by
    intro a ha
    simp only [Finset.coe_range, Set.mem_Iio] at ha
    exact (hg a ha).1
  simpa using Finset.card_le_card_of_injOn g hmaps hinj

end RvKernel.Radix
