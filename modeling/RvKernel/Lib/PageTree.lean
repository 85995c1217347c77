/-
# Page tables as a radix tree

The tables reachable from an Sv39 root, read as a `Radix` tree of depth two.  `S` is a set of root
slots that the tree leaves alone (they may hold superpage leaves, or anything at all).

Every page-table builder performs two kinds of write, and each has one lemma here:

* `Tree.grow`: a fresh zeroed page is linked under an invalid entry.  One path appears and NO
  level-0 entry changes, so no translation does;
* `Tree.store0`: a level-0 entry is stored.  No path changes, and exactly one level-0 entry does.

`walk_eq` then reads the hardware's translation off the level-0 entry alone.
-/
import RvKernel.Lib.Sv39

namespace RvKernel.Sv39

/-! ## 1. The tree -/

/-- Sv39 tables as a radix tree: pointers live in the two upper levels, outside the root slots
of `S`. -/
def format (S : ℕ → Bool) : Radix.Format U64 U64 U64 where
  slot := slot
  child := fun p e => match p with
    | [] => none
    | i :: q =>
      if decide (q.length < 2) && decide (i < 512) && !(q.isEmpty && S i) && isPointer e then
        some (ppnAddr e)
      else none

/-- The table at a path of slot indices, innermost first: `[]` is the root, `[i]` a level-1 table
and `[j, i]` a level-0 one. -/
def tableAt (S : ℕ → Bool) (m : Mem) (root : U64) (p : List ℕ) : Option U64 :=
  Radix.find (format S) m root p

/-- The level-0 entry for the page numbers `i`, `j`, `k`; zero where there is no table. -/
def entry0 (S : ℕ → Bool) (m : Mem) (root : U64) (i j k : ℕ) : U64 :=
  match tableAt S m root [j, i] with
  | some t => m (slot t k)
  | none => 0

/-- **The page-table invariant.**  The tables form a tree, and every valid entry of its two upper
levels is a well-formed pointer. -/
structure Tree (S : ℕ → Bool) (m : Mem) (root : U64) : Prop where
  aligned : Aligned root
  inj : Radix.Injective (format S) m root
  link : ∀ {q t i}, q.length < 2 → tableAt S m root q = some t → i < 512 →
    ¬ (q = [] ∧ S i = true) → (m (slot t i)).getLsbD 0 = true → IsLink (m (slot t i))

variable {S : ℕ → Bool} {m m' : Mem} {root : U64}

theorem child_eq_some {i : ℕ} {q : List ℕ} {e c : U64} :
    (format S).child (i :: q) e = some c ↔
      q.length < 2 ∧ i < 512 ∧ ¬ (q = [] ∧ S i = true) ∧ isPointer e = true ∧ ppnAddr e = c := by
  simp only [format]
  split
  · rename_i h
    simp only [Bool.and_eq_true, decide_eq_true_eq, Bool.not_eq_true', Bool.and_eq_false_iff,
      List.isEmpty_eq_false_iff] at h
    simp only [Option.some.injEq, not_and, Bool.not_eq_true]
    refine ⟨fun hc => ⟨h.1.1.1, h.1.1.2, ?_, h.2, hc⟩, fun hc => hc.2.2.2.2⟩
    intro hq
    exact h.1.2.resolve_left (fun hne => hne hq)
  · rename_i h
    simp only [Bool.and_eq_true, decide_eq_true_eq, Bool.not_eq_true', Bool.and_eq_false_iff,
      List.isEmpty_eq_false_iff, not_and] at h
    refine ⟨fun hc => absurd hc (by simp), ?_⟩
    rintro ⟨h1, h2, h3, h4, -⟩
    refine absurd h4 (h ⟨⟨h1, h2⟩, ?_⟩)
    by_cases hq : q = []
    · exact Or.inr (Bool.eq_false_iff.mpr fun hs => h3 ⟨hq, hs⟩)
    · exact Or.inl hq

@[simp] theorem tableAt_nil : tableAt S m root [] = some root := rfl

theorem tableAt_cons {i : ℕ} {q : List ℕ} {c : U64} :
    tableAt S m root (i :: q) = some c ↔
      ∃ t, tableAt S m root q = some t ∧ q.length < 2 ∧ i < 512 ∧ ¬ (q = [] ∧ S i = true) ∧
        isPointer (m (slot t i)) = true ∧ ppnAddr (m (slot t i)) = c := by
  constructor
  · intro h
    obtain ⟨t, ht, hc⟩ := Radix.find_of_find_cons h
    exact ⟨t, ht, child_eq_some.mp hc⟩
  · rintro ⟨t, ht, hc⟩
    exact (Radix.find_cons_of_find ht).trans (child_eq_some.mpr hc)

theorem aligned_of_tableAt (hr : Aligned root) {p : List ℕ} {t : U64}
    (h : tableAt S m root p = some t) : Aligned t := by
  cases p with
  | nil =>
    rw [tableAt_nil, Option.some.injEq] at h
    exact h ▸ hr
  | cons i q =>
    obtain ⟨_, _, _, _, _, _, hc⟩ := tableAt_cons.mp h
    exact hc ▸ aligned_ppnAddr _

/-- An entry whose valid bit is clear is no pointer. -/
theorem isPointer_of_invalid {e : U64} (h : e.getLsbD 0 = false) : isPointer e = false := by
  unfold isPointer
  rw [h, Bool.false_and]

/-- The table under an invalid entry does not exist. -/
theorem tableAt_cons_of_invalid {i : ℕ} {q : List ℕ} {t : U64} (ht : tableAt S m root q = some t)
    (hinv : (m (slot t i)).getLsbD 0 = false) : tableAt S m root (i :: q) = none := by
  rw [Option.eq_none_iff_forall_ne_some]
  intro c hc
  obtain ⟨t', ht', -, -, -, hp, -⟩ := tableAt_cons.mp hc
  rw [ht, Option.some.injEq] at ht'
  subst ht'
  rw [isPointer_of_invalid hinv] at hp
  exact absurd hp (by simp)

/-- The table under a well-formed pointer is the page the pointer names. -/
theorem tableAt_cons_of_link {i : ℕ} {q : List ℕ} {t : U64} (ht : tableAt S m root q = some t)
    (hq : q.length < 2) (hi : i < 512) (hS : ¬ (q = [] ∧ S i = true))
    (hl : IsLink (m (slot t i))) : tableAt S m root (i :: q) = some (ppnAddr (m (slot t i))) :=
  tableAt_cons.mpr ⟨t, ht, hq, hi, hS, hl.isPointer, rfl⟩

/-- **A fresh root** all of whose tree entries are invalid has no other table. -/
theorem tableAt_of_fresh (h : ∀ i < 512, S i = false → (m (slot root i)).getLsbD 0 = false)
    {p : List ℕ} (hp : p ≠ []) : tableAt S m root p = none := by
  rw [Option.eq_none_iff_forall_ne_some]
  intro c hc
  induction p generalizing c with
  | nil => exact hp rfl
  | cons i q ih =>
    obtain ⟨t, ht, -, hi, hS, hptr, -⟩ := tableAt_cons.mp hc
    by_cases hq : q = []
    · subst hq
      rw [tableAt_nil, Option.some.injEq] at ht
      subst ht
      have hSi : S i = false := Bool.eq_false_iff.mpr fun hs => hS ⟨rfl, hs⟩
      rw [isPointer_of_invalid (h i hi hSi)] at hptr
      exact absurd hptr (by simp)
    · exact ih hq t ht

theorem Tree.of_fresh (hr : Aligned root)
    (h : ∀ i < 512, S i = false → (m (slot root i)).getLsbD 0 = false) : Tree S m root where
  aligned := hr
  inj := by
    intro p q t hp hq
    have hnil : ∀ r, Radix.find (format S) m root r = some t → r = [] := by
      intro r hr
      by_contra hne
      have := tableAt_of_fresh h hne
      rw [tableAt, hr] at this
      exact absurd this (by simp)
    rw [hnil p hp, hnil q hq]
  link := by
    intro q t i _ ht hi hS hv
    by_cases hq : q = []
    · subst hq
      rw [tableAt_nil, Option.some.injEq] at ht
      subst ht
      have hSi : S i = false := Bool.eq_false_iff.mpr fun hs => hS ⟨rfl, hs⟩
      rw [h i hi hSi] at hv
      exact absurd hv (by simp)
    · rw [tableAt_of_fresh h hq] at ht
      exact absurd ht (by simp)

/-! ## 2. Linking a fresh table -/

section Grow

variable {q : List ℕ} {i : ℕ} {t c : U64}

/-- **Linking a fresh zeroed page** under an invalid upper entry: the tree gains exactly the path
`i :: q`. -/
theorem Tree.tableAt_grow (T : Tree S m root) (hq : q.length < 2) (hi : i < 512)
    (hS : ¬ (q = [] ∧ S i = true)) (ht : tableAt S m root q = some t)
    (hinv : (m (slot t i)).getLsbD 0 = false) (hc : Aligned c) (hlt : c.toNat < 2 ^ 56)
    (hfresh : ∀ p, tableAt S m root p ≠ some c)
    (hzero : ∀ j < 512, m' (slot c j) = 0)
    (hlink : m' (slot t i) = mkPte (c.toNat / 4096) 1)
    (hframe : ∀ a, ¬ InPage c a → a ≠ slot t i → m' a = m a) (p : List ℕ) :
    tableAt S m' root p = if p = i :: q then some c else tableAt S m root p := by
  have hti : Aligned t := aligned_of_tableAt T.aligned ht
  refine Radix.find_grow T.inj ht (tableAt_cons_of_invalid ht hinv) ?_ ?_ ?_ p
  · refine child_eq_some.mpr ⟨hq, hi, hS, ?_, ?_⟩
    · show isPointer (m' (slot t i)) = true
      rw [hlink]
      exact (isLink_mkPte (by omega)).isPointer
    · show ppnAddr (m' (slot t i)) = c
      rw [hlink]
      exact ppnAddr_mkPte hc hlt (by norm_num)
  · intro j
    rw [Option.eq_none_iff_forall_ne_some]
    intro d hd
    obtain ⟨-, hj, -, hptr, -⟩ := child_eq_some.mp hd
    rw [show (format S).slot c j = slot c j from rfl, hzero j hj] at hptr
    exact absurd hptr (by decide)
  · intro r t' j hr hne
    -- an entry of an old table other than the one written keeps its value
    by_cases hj : j < 512
    · have ht' : Aligned t' := aligned_of_tableAt T.aligned hr
      have hne' : slot t' j ≠ slot t i := fun h => hne (slot_inj ht' hti hj hi h)
      have hout : ¬ InPage c (slot t' j) := fun h =>
        hfresh r (by rw [inPage_inj hc ht' h (inPage_slot ht' hj)]; exact hr)
      show (format S).child (j :: r) (m' (slot t' j)) = (format S).child (j :: r) (m (slot t' j))
      rw [hframe _ hout hne']
    · have hnone : ∀ e, (format S).child (j :: r) e = none := by
        intro e
        rw [Option.eq_none_iff_forall_ne_some]
        intro d hd
        exact hj (child_eq_some.mp hd).2.1
      rw [hnone, hnone]

theorem Tree.grow (T : Tree S m root) (hq : q.length < 2) (hi : i < 512)
    (hS : ¬ (q = [] ∧ S i = true)) (ht : tableAt S m root q = some t)
    (hinv : (m (slot t i)).getLsbD 0 = false) (hc : Aligned c) (hlt : c.toNat < 2 ^ 56)
    (hfresh : ∀ p, tableAt S m root p ≠ some c)
    (hzero : ∀ j < 512, m' (slot c j) = 0)
    (hlink : m' (slot t i) = mkPte (c.toNat / 4096) 1)
    (hframe : ∀ a, ¬ InPage c a → a ≠ slot t i → m' a = m a) : Tree S m' root := by
  have hfind := T.tableAt_grow hq hi hS ht hinv hc hlt hfresh hzero hlink hframe
  have hti : Aligned t := aligned_of_tableAt T.aligned ht
  refine ⟨T.aligned, Radix.injective_of_grow T.inj hfresh hfind, ?_⟩
  intro r u j hr hu hj hSj hv
  rw [hfind] at hu
  by_cases hrq : r = i :: q
  · rw [if_pos hrq, Option.some.injEq] at hu
    subst hu
    rw [hzero j hj] at hv
    exact absurd hv (by decide)
  · rw [if_neg hrq] at hu
    have hau : Aligned u := aligned_of_tableAt T.aligned hu
    by_cases heq : slot u j = slot t i
    · rw [heq, hlink]
      exact isLink_mkPte (by omega)
    · have hout : ¬ InPage c (slot u j) := fun h =>
        hfresh r (by rw [inPage_inj hc hau h (inPage_slot hau hj)]; exact hu)
      rw [hframe _ hout heq] at hv ⊢
      exact T.link hr hu hj hSj hv

/-- ...and no level-0 entry changes: a new level-0 table is all zero, which is what its missing
entries counted as. -/
theorem Tree.entry0_grow (T : Tree S m root) (hq : q.length < 2) (hi : i < 512)
    (hS : ¬ (q = [] ∧ S i = true)) (ht : tableAt S m root q = some t)
    (hinv : (m (slot t i)).getLsbD 0 = false) (hc : Aligned c) (hlt : c.toNat < 2 ^ 56)
    (hfresh : ∀ p, tableAt S m root p ≠ some c)
    (hzero : ∀ j < 512, m' (slot c j) = 0)
    (hlink : m' (slot t i) = mkPte (c.toNat / 4096) 1)
    (hframe : ∀ a, ¬ InPage c a → a ≠ slot t i → m' a = m a) {a b k : ℕ} (hk : k < 512) :
    entry0 S m' root a b k = entry0 S m root a b k := by
  have hfind := T.tableAt_grow hq hi hS ht hinv hc hlt hfresh hzero hlink hframe
  have hti : Aligned t := aligned_of_tableAt T.aligned ht
  unfold entry0
  rw [hfind]
  by_cases hab : [b, a] = i :: q
  · rw [if_pos hab]
    have hnone : tableAt S m root [b, a] = none := hab ▸ tableAt_cons_of_invalid ht hinv
    simp only [hnone]
    exact hzero k hk
  · rw [if_neg hab]
    cases hu : tableAt S m root [b, a] with
    | none => rfl
    | some u =>
      have hau : Aligned u := aligned_of_tableAt T.aligned hu
      have hout : ¬ InPage c (slot u k) := fun h =>
        hfresh _ (by rw [inPage_inj hc hau h (inPage_slot hau hk)]; exact hu)
      have hne : slot u k ≠ slot t i := by
        intro h
        obtain ⟨rfl, -⟩ := slot_inj hau hti hk hi h
        have hlen := congrArg List.length (T.inj _ _ _ hu ht)
        simp only [List.length_cons, List.length_nil] at hlen
        omega
      exact hframe _ hout hne

end Grow

/-! ## 3. Storing a level-0 entry, or an exempt root entry -/

/-- A write outside the tree's pointers keeps every path. -/
theorem tableAt_congr
    (h : ∀ q t j, tableAt S m root q = some t → q.length < 2 → j < 512 → ¬ (q = [] ∧ S j = true) →
      m' (slot t j) = m (slot t j)) (p : List ℕ) :
    tableAt S m' root p = tableAt S m root p := by
  refine Radix.find_congr ?_ p
  intro q t j ht
  show (format S).child (j :: q) (m' (slot t j)) = (format S).child (j :: q) (m (slot t j))
  by_cases hok : q.length < 2 ∧ j < 512 ∧ ¬ (q = [] ∧ S j = true)
  · rw [h q t j ht hok.1 hok.2.1 hok.2.2]
  · have hnone : ∀ e, (format S).child (j :: q) e = none := by
      intro e
      rw [Option.eq_none_iff_forall_ne_some]
      intro d hd
      obtain ⟨h1, h2, h3, -, -⟩ := child_eq_some.mp hd
      exact hok ⟨h1, h2, h3⟩
    rw [hnone, hnone]

theorem Tree.congr (T : Tree S m root)
    (h : ∀ q t j, tableAt S m root q = some t → q.length < 2 → j < 512 → ¬ (q = [] ∧ S j = true) →
      m' (slot t j) = m (slot t j)) : Tree S m' root := by
  have hfind := tableAt_congr h
  refine ⟨T.aligned, ?_, ?_⟩
  · intro p q t hp hq
    exact T.inj p q t ((hfind p).symm.trans hp) ((hfind q).symm.trans hq)
  · intro q t i hq ht hi hS hv
    rw [hfind] at ht
    rw [h q t i ht hq hi hS] at hv ⊢
    exact T.link hq ht hi hS hv

section Store

variable {i j k : ℕ} {t : U64}

/-- The upper entries do not see a write to a level-0 slot. -/
theorem Tree.upper_ne_slot0 (T : Tree S m root) (ht : tableAt S m root [j, i] = some t)
    (hk : k < 512) {q : List ℕ} {u : U64} {l : ℕ} (hu : tableAt S m root q = some u)
    (hq : q.length < 2) (hl : l < 512) : slot u l ≠ slot t k := by
  intro h
  obtain ⟨rfl, -⟩ :=
    slot_inj (aligned_of_tableAt T.aligned hu) (aligned_of_tableAt T.aligned ht) hl hk h
  have hlen := congrArg List.length (T.inj _ _ _ hu ht)
  simp only [List.length_cons, List.length_nil] at hlen
  omega

theorem Tree.tableAt_store0 (T : Tree S m root) (ht : tableAt S m root [j, i] = some t)
    (hk : k < 512) (hframe : ∀ a, a ≠ slot t k → m' a = m a) (p : List ℕ) :
    tableAt S m' root p = tableAt S m root p :=
  tableAt_congr (fun _ _ _ hu hq hl _ => hframe _ (T.upper_ne_slot0 ht hk hu hq hl)) p

theorem Tree.store0 (T : Tree S m root) (ht : tableAt S m root [j, i] = some t)
    (hk : k < 512) (hframe : ∀ a, a ≠ slot t k → m' a = m a) : Tree S m' root :=
  T.congr fun _ _ _ hu hq hl _ => hframe _ (T.upper_ne_slot0 ht hk hu hq hl)

/-- **A level-0 store changes exactly one level-0 entry.** -/
theorem Tree.entry0_store0 (T : Tree S m root) (ht : tableAt S m root [j, i] = some t)
    (hk : k < 512) (hframe : ∀ a, a ≠ slot t k → m' a = m a) {a b l : ℕ} (hl : l < 512) :
    entry0 S m' root a b l =
      if a = i ∧ b = j ∧ l = k then m' (slot t k) else entry0 S m root a b l := by
  unfold entry0
  rw [T.tableAt_store0 ht hk hframe]
  by_cases hab : a = i ∧ b = j ∧ l = k
  · obtain ⟨rfl, rfl, rfl⟩ := hab
    simp [ht]
  · rw [if_neg hab]
    cases hu : tableAt S m root [b, a] with
    | none => rfl
    | some u =>
      refine hframe _ fun h => hab ?_
      obtain ⟨rfl, rfl⟩ :=
        slot_inj (aligned_of_tableAt T.aligned hu) (aligned_of_tableAt T.aligned ht) hl hk h
      have hpath := T.inj _ _ _ hu ht
      simp only [List.cons.injEq, and_true] at hpath
      exact ⟨hpath.2, hpath.1, rfl⟩

end Store

section Exempt

variable {i : ℕ}

/-- A tree entry is never an exempt root slot. -/
theorem Tree.ne_exempt_slot (T : Tree S m root) (hi : i < 512) (hS : S i = true)
    {q : List ℕ} {u : U64} {l : ℕ} (hu : tableAt S m root q = some u) (hl : l < 512)
    (hl' : ¬ (q = [] ∧ S l = true)) : slot u l ≠ slot root i := by
  intro h
  obtain ⟨rfl, rfl⟩ := slot_inj (aligned_of_tableAt T.aligned hu) T.aligned hl hi h
  exact hl' ⟨T.inj _ _ _ hu tableAt_nil, hS⟩

theorem Tree.tableAt_exempt (T : Tree S m root) (hi : i < 512) (hS : S i = true)
    (hframe : ∀ a, a ≠ slot root i → m' a = m a) (p : List ℕ) :
    tableAt S m' root p = tableAt S m root p :=
  tableAt_congr (fun _ _ _ hu _ hl hl' => hframe _ (T.ne_exempt_slot hi hS hu hl hl')) p

theorem Tree.store_exempt (T : Tree S m root) (hi : i < 512) (hS : S i = true)
    (hframe : ∀ a, a ≠ slot root i → m' a = m a) : Tree S m' root :=
  T.congr fun _ _ _ hu _ hl hl' => hframe _ (T.ne_exempt_slot hi hS hu hl hl')

theorem Tree.entry0_exempt (T : Tree S m root) (hi : i < 512) (hS : S i = true)
    (hframe : ∀ a, a ≠ slot root i → m' a = m a) {a b k : ℕ} (hk : k < 512) :
    entry0 S m' root a b k = entry0 S m root a b k := by
  unfold entry0
  rw [T.tableAt_exempt hi hS hframe]
  cases hu : tableAt S m root [b, a] with
  | none => rfl
  | some u => exact hframe _ (T.ne_exempt_slot hi hS hu hk (by simp))

end Exempt

/-- Exempt slots that hold no pointer can as well be read as part of the tree. -/
theorem tableAt_unexempt (h : ∀ i < 512, S i = true → isPointer (m (slot root i)) = false)
    (p : List ℕ) : tableAt (fun _ => false) m root p = tableAt S m root p := by
  induction p with
  | nil => rfl
  | cons i q ih =>
    apply Option.ext
    intro c
    rw [tableAt_cons, tableAt_cons, ih]
    constructor
    · rintro ⟨t, ht, hq, hi, -, hptr, hc⟩
      refine ⟨t, ht, hq, hi, ?_, hptr, hc⟩
      rintro ⟨rfl, hS⟩
      rw [tableAt_nil, Option.some.injEq] at ht
      subst ht
      rw [h i hi hS] at hptr
      exact absurd hptr (by simp)
    · rintro ⟨t, ht, hq, hi, -, hptr, hc⟩
      exact ⟨t, ht, hq, hi, by simp, hptr, hc⟩

/-! ## 4. The walk on a tree -/

/-- One step of the walk at an upper level: an invalid entry faults, a pointer is followed. -/
theorem walkFrom_succ_of_invalid {va t : U64} {level : ℕ}
    (h : (m (slot t (vpn va (level + 1)))).getLsbD 0 = false) :
    walkFrom m va (level + 1) t = none := by
  rw [walkFrom, kind_of_invalid h]

theorem walkFrom_succ_of_link {va t : U64} {level : ℕ}
    (h : IsLink (m (slot t (vpn va (level + 1))))) :
    walkFrom m va (level + 1) t
      = walkFrom m va level (ppnAddr (m (slot t (vpn va (level + 1))))) := by
  rw [walkFrom, h.kind]

/-- **On a tree, the translation of an address outside the exempt slots is what its level-0 entry
says.** -/
theorem walk_eq (T : Tree S m root) {va : U64} (hcan : Canonical va)
    (hS : S (vpn va 2) = false) :
    walk m root va = leaf0 va (entry0 S m root (vpn va 2) (vpn va 1) (vpn va 0)) := by
  rw [walk, if_pos hcan]
  have hS2 : ¬ (([] : List ℕ) = [] ∧ S (vpn va 2) = true) := by simp [hS]
  have hS1 : ¬ ([vpn va 2] = [] ∧ S (vpn va 1) = true) := by simp
  cases h2 : (m (slot root (vpn va 2))).getLsbD 0 with
  | false =>
    have hnone : tableAt S m root [vpn va 1, vpn va 2] = none := by
      have ht1 : tableAt S m root [vpn va 2] = none := tableAt_cons_of_invalid tableAt_nil h2
      simp only [tableAt, Radix.find_cons] at ht1 ⊢
      rw [ht1]
      rfl
    rw [walkFrom_succ_of_invalid h2, entry0, hnone, leaf0_zero]
  | true =>
    have hl2 := T.link (by simp) tableAt_nil (vpn_lt va 2) hS2 h2
    have ht1 := tableAt_cons_of_link tableAt_nil (by simp) (vpn_lt va 2) hS2 hl2
    rw [walkFrom_succ_of_link hl2]
    cases h1 : (m (slot (ppnAddr (m (slot root (vpn va 2)))) (vpn va 1))).getLsbD 0 with
    | false =>
      rw [walkFrom_succ_of_invalid h1, entry0, tableAt_cons_of_invalid ht1 h1, leaf0_zero]
    | true =>
      have hl1 := T.link (by simp) ht1 (vpn_lt va 1) hS1 h1
      have ht0 := tableAt_cons_of_link ht1 (by simp) (vpn_lt va 1) hS1 hl1
      rw [walkFrom_succ_of_link hl1, entry0, ht0]
      rfl

end RvKernel.Sv39
