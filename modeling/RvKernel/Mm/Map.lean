/-
# `vm_map_page`

The walk that maps one page: down from the root, creating the tables that are missing, to the
level-0 entry.  The source's `do ... while (level-- > 0)` loop is a recursion on the level; its
body is `descend` above level 0 and `mapLeaf` at level 0.

The behaviour in the early-boot regime is stated once, by `vmMapPage_cases`: from a well-formed
state (`VmInv`) a call with acceptable arguments whose root slot belongs to the tree first GROWS
the tree (`Grows`: new tables along the path of `va`, no level-0 entry changed, nothing else
touched) and then either

* runs out of pages, or
* finds a valid level-0 entry and refuses, having grown nothing, or
* stores the new level-0 entry.
-/
import RvKernel.Mm.PgTable

namespace RvKernel.Mm

open Sv39

/-! ## 1. The code -/

/-- The loop body above level 0: the table that the entry leads to, created if it is missing. -/
def descend (mmu : Mmu) (ptep : U64) : KM U64 := do
  let pte ← load mmu ptep
  if !pteValid pte then
    let nextPtbAddr ← allocZeroPage mmu
    let pte := pteFromPpn (physToPpn nextPtbAddr) &&& ~~~PTE.leaf ||| PTE.valid
    store mmu ptep pte
    return pteNextPtb pte
  else
    return pteNextPtb pte

/-- The loop body at level 0: refuse a valid entry, else turn it into a leaf. -/
def mapLeaf (mmu : Mmu) (va pa flags ptep : U64) : KM Int := do
  let pte ← load mmu ptep
  if pteValid pte then
    critical (.mapRemap va pte)
    BUG .vmMapPage
    return -1
  else
    store mmu ptep (pteFromPpn (physToPpn pa) ||| flags ||| PTE.valid)
    return 0

/-- The loop from `level` down, at the table `ptb`. -/
def vmMapLoop (mmu : Mmu) (va pa flags : U64) : ℕ → U64 → KM Int
  | 0, ptb => do
    let index ← vaGetIndex va 0
    mapLeaf mmu va pa flags (ptbGetPtep ptb index)
  | level + 1, ptb => do
    let index ← vaGetIndex va (level + 1)
    let next ← descend mmu (ptbGetPtep ptb index)
    vmMapLoop mmu va pa flags level next

/-- `vm_map_page(va, pa, flags)`. -/
def vmMapPage (mmu : Mmu) (va pa flags : U64) : KM Int := do
  let ptb := (← get).kernelRootPtb
  if !isAligned va || !isAligned pa then
    critical (.mapMisaligned va pa)
    BUG .vmMapPage
    return -1
  else if va > 0x3fffffffff ∧ va < 0xffffffc000000000 then
    critical .mapNonCanonical
    BUG .vmMapPage
    return -1
  else
    vmMapLoop mmu va pa flags (ptbLevels - 1) ptb

/-- The range check of the source is the canonical-address check of the hardware. -/
theorem not_canonical_iff (va : U64) :
    (va > 0x3fffffffff ∧ va < 0xffffffc000000000) ↔ ¬ Canonical va := by
  unfold Canonical
  rw [gt_iff_lt, BitVec.lt_def, BitVec.lt_def]
  simp only [BitVec.ofNat_eq_ofNat, BitVec.toNat_ofNat]
  have := va.isLt
  omega

/-! ## 2. A fresh zeroed page -/

theorem slot_succ (d : U64) (j : ℕ) : slot (d + 8) j = slot d (j + 1) := by
  apply BitVec.eq_of_toNat_eq
  simp only [slot, BitVec.toNat_add, BitVec.toNat_ofNat, BitVec.ofNat_eq_ofNat]
  omega

/-- `memset` to zero in the early-boot regime: the words are zero, the rest is as it was, and the
only events are those stores. -/
theorem run_memset_physical : ∀ (words : ℕ) (d : U64) (s : Kernel), ∃ mem' es,
    memset physical d 0 words s = .ok () { s with mem := mem', events := s.events ++ es } ∧
      (∀ j < words, mem' (slot d j) = 0) ∧
      (∀ a, (∀ j < words, a ≠ slot d j) → mem' a = s.mem a) ∧
      ∀ e ∈ es, ∃ j < words, e = .store (slot d j) 0
  | 0, d, s => ⟨s.mem, [], by simp [memset], by simp, by simp, by simp⟩
  | words + 1, d, s => by
    obtain ⟨mem', es, hrun, hzero, hframe, hes⟩ :=
      run_memset_physical words (d + 8) (s.write d (fillWord 0))
    have hslot0 : slot d 0 = d := by simp [slot]
    have hd : mem' d = 0 := by
      by_cases h : ∀ j < words, d ≠ slot (d + 8) j
      · rw [hframe d h]
        exact Function.update_self _ _ _
      · simp only [not_forall, not_not] at h
        obtain ⟨j, hj, hdj⟩ := h
        rw [hdj]
        exact hzero j hj
    refine ⟨mem', .store d 0 :: es, ?_, ?_, ?_, ?_⟩
    · rw [memset, Effect.run_bind, run_store_physical]
      show memset physical (d + 8) 0 words (s.write d (fillWord 0)) = _
      rw [hrun]
      simp only [Kernel.write, List.append_assoc, List.singleton_append]
      rfl
    · intro j hj
      cases j with
      | zero => rw [hslot0]; exact hd
      | succ j => rw [← slot_succ]; exact hzero j (by omega)
    · intro a ha
      have had : a ≠ d := hslot0 ▸ ha 0 (by omega)
      rw [hframe a fun j hj => slot_succ d j ▸ ha (j + 1) (by omega)]
      exact Function.update_of_ne had _ _
    · intro e he
      rcases List.mem_cons.mp he with rfl | he
      · exact ⟨0, by omega, by rw [hslot0]⟩
      · obtain ⟨j, hj, rfl⟩ := hes e he
        exact ⟨j + 1, by omega, by rw [slot_succ]⟩

/-- A successful `alloc_zero_page` in the early-boot regime. -/
theorem run_allocZeroPage_physical {s : Kernel} (hi : s.alloc.initialized = true)
    (hn : s.alloc.next ≠ allocListSize - 1) (hc : Aligned (s.alloc.list s.alloc.next)) :
    ∃ mem' es, allocZeroPage physical s = .ok (s.alloc.list s.alloc.next)
        { s with
          alloc := s.alloc.pop, mem := mem'
          events := s.events ++ es ++ [.zeroPage (s.alloc.list s.alloc.next)] } ∧
      (∀ j < 512, mem' (slot (s.alloc.list s.alloc.next) j) = 0) ∧
      (∀ a, ¬ InPage (s.alloc.list s.alloc.next) a → mem' a = s.mem a) ∧
      ∀ e ∈ es, ∃ a, e = .store a 0 ∧ InPage (s.alloc.list s.alloc.next) a := by
  obtain ⟨mem', es, hrun, hzero, hframe, hes⟩ := run_memset_physical 512
    (s.alloc.list s.alloc.next) { s with alloc := s.alloc.pop }
  refine ⟨mem', es, ?_, hzero, ?_, ?_⟩
  · simp only [allocZeroPage, Effect.run_bind, run_allocGetPage hi hn, hrun, run_emit,
      Effect.run_pure]
  · intro a ha
    exact hframe a fun j hj h => ha (h ▸ inPage_slot hc hj)
  · intro e he
    obtain ⟨j, hj, rfl⟩ := hes e he
    exact ⟨_, rfl, inPage_slot hc hj⟩

/-! ## 3. Well-formed states, and what growing the tree does to them -/

/-- **The invariant of the early-boot regime**: the tables form a tree, and the pages still free
are distinct, addressable by a page-table entry, and none of them is a table. -/
structure VmInv (S : ℕ → Bool) (s : Kernel) : Prop where
  tree : Tree S s.mem s.kernelRootPtb
  initialized : s.alloc.initialized = true
  next_le : s.alloc.next ≤ allocListSize - 1
  free_aligned : ∀ n, s.alloc.next ≤ n → n < allocListSize → Aligned (s.alloc.list n)
  free_lt : ∀ n, s.alloc.next ≤ n → n < allocListSize → (s.alloc.list n).toNat < 2 ^ 56
  free_fresh : ∀ n, s.alloc.next ≤ n → n < allocListSize →
    ∀ p, tableAt S s.mem s.kernelRootPtb p ≠ some (s.alloc.list n)
  free_inj : ∀ n n', s.alloc.next ≤ n → n < allocListSize → s.alloc.next ≤ n' →
    n' < allocListSize → s.alloc.list n = s.alloc.list n' → n = n'

/-- An allocator whose free suffix is still as `alloc_init(start)` filled it. -/
theorem VmInv.of_pages {S : ℕ → Bool} {s : Kernel} {start : U64}
    (tree : Tree S s.mem s.kernelRootPtb) (hi : s.alloc.initialized = true)
    (hn : s.alloc.next ≤ allocListSize - 1) (ha : Aligned start)
    (hlt : start.toNat + allocListSize * 4096 ≤ 2 ^ 56)
    (hlist : ∀ n, s.alloc.next ≤ n → n < allocListSize → s.alloc.list n = pageAt start n)
    (hfresh : ∀ n, s.alloc.next ≤ n → n < allocListSize →
      ∀ p, tableAt S s.mem s.kernelRootPtb p ≠ some (pageAt start n)) : VmInv S s := by
  have h64 : start.toNat + allocListSize * 4096 < 2 ^ 64 := lt_of_le_of_lt hlt (by norm_num)
  refine ⟨tree, hi, hn, ?_, ?_, ?_, ?_⟩
  · intro n h1 h2
    rw [hlist n h1 h2]
    exact aligned_pageAt ha n
  · intro n h1 h2
    rw [hlist n h1 h2, toNat_pageAt h64 h2]
    exact lt_of_lt_of_le (Nat.add_lt_add_left (Nat.mul_lt_mul_of_pos_right h2 (by norm_num)) _) hlt
  · intro n h1 h2
    rw [hlist n h1 h2]
    exact hfresh n h1 h2
  · intro n n' h1 h2 h1' h2' heq
    rw [hlist n h1 h2, hlist n' h1' h2'] at heq
    exact pageAt_inj h2 h2' heq

/-- The table of the kernel's tree at a path. -/
def Kernel.table (S : ℕ → Bool) (s : Kernel) (p : List ℕ) : Option U64 :=
  tableAt S s.mem s.kernelRootPtb p

/-- The level-0 entry that the kernel's tree holds for `va`. -/
def Kernel.pte0 (S : ℕ → Bool) (s : Kernel) (va : U64) : U64 :=
  entry0 S s.mem s.kernelRootPtb (vpn va 2) (vpn va 1) (vpn va 0)

/-- The address `a` lies in one of the tables. -/
def Kernel.InTable (S : ℕ → Bool) (s : Kernel) (a : U64) : Prop :=
  ∃ p t, s.table S p = some t ∧ InPage t a

/-- **`s'` is `s` with some missing tables added**, all of them on paths in `N`: new tables come
from the allocator, zeroed, and are linked; no level-0 entry changes, nothing outside the tables is
written, and no message is printed. -/
structure Grows (S : ℕ → Bool) (N : List ℕ → Prop) (s s' : Kernel) : Prop where
  root : s'.kernelRootPtb = s.kernelRootPtb
  kmap : s'.kmap = s.kmap
  bug : s'.bugBehavior = s.bugBehavior
  inv : VmInv S s'
  mono : ∀ p t, s.table S p = some t → s'.table S p = some t
  new : ∀ p t, s.table S p = none → s'.table S p = some t →
    N p ∧ ∃ n, s.alloc.next ≤ n ∧ n < s'.alloc.next ∧ t = s.alloc.list n
  entry0 : ∀ i j k, k < 512 → entry0 S s'.mem s'.kernelRootPtb i j k
    = Sv39.entry0 S s.mem s.kernelRootPtb i j k
  next_le : s.alloc.next ≤ s'.alloc.next
  list_eq : ∀ n, s'.alloc.next ≤ n → s'.alloc.list n = s.alloc.list n
  handed : ∀ n, s.alloc.next ≤ n → n < s'.alloc.next → ∃ p, s'.table S p = some (s.alloc.list n)
  frame : ∀ a, ¬ s'.InTable S a → s'.mem a = s.mem a
  exempt : ∀ i < 512, S i = true →
    s'.mem (slot s.kernelRootPtb i) = s.mem (slot s.kernelRootPtb i)
  events : ∃ es, s'.events = s.events ++ es ∧ (∀ msg, .critical msg ∉ es) ∧
    (∀ a v, .store a v ∈ es → s'.InTable S a) ∧
    ∀ p t, s.table S p = none → s'.table S p = some t → .zeroPage t ∈ es

section Grows

variable {S : ℕ → Bool} {N N' : List ℕ → Prop} {s s₁ s₂ : Kernel}

theorem Grows.refl (h : VmInv S s) : Grows S N s s where
  root := rfl
  kmap := rfl
  bug := rfl
  inv := h
  mono _ _ ht := ht
  new p t hn ht := by
    rw [hn] at ht
    cases ht
  entry0 _ _ _ _ := rfl
  next_le := Nat.le_refl _
  list_eq _ _ := rfl
  handed n h1 h2 := absurd h1 (by omega)
  frame _ _ := rfl
  exempt _ _ _ := rfl
  events := ⟨[], by simp, by simp, by simp, fun p t hn ht => by rw [hn] at ht; cases ht⟩

theorem Grows.inTable (g : Grows S N s s₁) {a : U64} (h : s.InTable S a) : s₁.InTable S a := by
  obtain ⟨p, t, ht, ha⟩ := h
  exact ⟨p, t, g.mono p t ht, ha⟩

theorem Grows.trans (g₁ : Grows S N s s₁) (g₂ : Grows S N' s₁ s₂) :
    Grows S (fun p => N p ∨ N' p) s s₂ where
  root := g₂.root.trans g₁.root
  kmap := g₂.kmap.trans g₁.kmap
  bug := g₂.bug.trans g₁.bug
  inv := g₂.inv
  mono p t ht := g₂.mono p t (g₁.mono p t ht)
  new p t hn ht := by
    have hle₁ := g₁.next_le
    have hle₂ := g₂.next_le
    cases h₁ : s₁.table S p with
    | none =>
      obtain ⟨hp, n, hn1, hn2, rfl⟩ := g₂.new p t h₁ ht
      exact ⟨Or.inr hp, n, by omega, hn2, g₁.list_eq n hn1⟩
    | some u =>
      obtain ⟨hp, n, hn1, hn2, hu⟩ := g₁.new p u hn h₁
      have hut := g₂.mono p u h₁
      rw [ht, Option.some.injEq] at hut
      exact ⟨Or.inl hp, n, hn1, by omega, hut.trans hu⟩
  entry0 i j k hk := (g₂.entry0 i j k hk).trans (g₁.entry0 i j k hk)
  next_le := g₁.next_le.trans g₂.next_le
  list_eq n hn := (g₂.list_eq n hn).trans (g₁.list_eq n (g₂.next_le.trans hn))
  handed n h1 h2 := by
    by_cases hn : n < s₁.alloc.next
    · obtain ⟨p, hp⟩ := g₁.handed n h1 hn
      exact ⟨p, g₂.mono p _ hp⟩
    · obtain ⟨p, hp⟩ := g₂.handed n (by omega) h2
      rw [g₁.list_eq n (by omega)] at hp
      exact ⟨p, hp⟩
  frame a ha := (g₂.frame a ha).trans (g₁.frame a fun h => ha (g₂.inTable h))
  exempt i hi hS := by
    have h₂ := g₂.exempt i hi hS
    rw [g₁.root] at h₂
    exact h₂.trans (g₁.exempt i hi hS)
  events := by
    obtain ⟨es₁, he₁, hc₁, hs₁, hz₁⟩ := g₁.events
    obtain ⟨es₂, he₂, hc₂, hs₂, hz₂⟩ := g₂.events
    refine ⟨es₁ ++ es₂, by rw [he₂, he₁, List.append_assoc], ?_, ?_, ?_⟩
    · intro msg hm
      rcases List.mem_append.mp hm with hm | hm
      · exact hc₁ msg hm
      · exact hc₂ msg hm
    · intro a v hm
      rcases List.mem_append.mp hm with hm | hm
      · exact g₂.inTable (hs₁ a v hm)
      · exact hs₂ a v hm
    · intro p t hn ht
      cases h₁ : s₁.table S p with
      | none => exact List.mem_append_right _ (hz₂ p t h₁ ht)
      | some u =>
        have hut := g₂.mono p u h₁
        rw [ht, Option.some.injEq] at hut
        subst hut
        exact List.mem_append_left _ (hz₁ p t hn h₁)

theorem Grows.weaken (g : Grows S N s s₁) (h : ∀ p, N p → N' p) : Grows S N' s s₁ :=
  { g with new := fun p t hn ht => ⟨h p (g.new p t hn ht).1, (g.new p t hn ht).2⟩ }

end Grows

/-! ## 4. One step of the walk -/

section Descend

variable {S : ℕ → Bool} {s : Kernel} {q : List ℕ} {i : ℕ} {t : U64}

theorem run_descend_follow {ptep : U64} (hv : (s.mem ptep).getLsbD 0 = true) :
    descend physical ptep s = .ok (ppnAddr (s.mem ptep)) s := by
  simp only [descend, Effect.run_bind, run_load_physical, pteValid_eq, hv, pteNextPtb_eq,
    Bool.not_true, Bool.false_eq_true, if_false, Effect.run_pure]

/-- A valid entry is followed. -/
theorem run_descend_valid (h : VmInv S s) (ht : s.table S q = some t) (hq : q.length < 2)
    (hi : i < 512) (hS : ¬ (q = [] ∧ S i = true)) (hv : (s.mem (slot t i)).getLsbD 0 = true) :
    ∃ c, descend physical (slot t i) s = .ok c s ∧ s.table S (i :: q) = some c := by
  have hl : IsLink (s.mem (slot t i)) := h.tree.link hq ht hi hS hv
  exact ⟨ppnAddr (s.mem (slot t i)), run_descend_follow hv, tableAt_cons_of_link ht hq hi hS hl⟩

/-- `s'` is `s` with the next free page taken, zeroed, and linked at entry `i` of the table `t`. -/
structure Links (s s' : Kernel) (t : U64) (i : ℕ) : Prop where
  root : s'.kernelRootPtb = s.kernelRootPtb
  kmap : s'.kmap = s.kmap
  bug : s'.bugBehavior = s.bugBehavior
  alloc : s'.alloc = s.alloc.pop
  zero : ∀ j < 512, s'.mem (slot (s.alloc.list s.alloc.next) j) = 0
  link : s'.mem (slot t i) = mkPte ((s.alloc.list s.alloc.next).toNat / 4096) 1
  frame : ∀ a, ¬ InPage (s.alloc.list s.alloc.next) a → a ≠ slot t i → s'.mem a = s.mem a
  events : ∃ es, s'.events = s.events ++ es ∧ .zeroPage (s.alloc.list s.alloc.next) ∈ es ∧
    (∀ msg, .critical msg ∉ es) ∧
    ∀ a v, .store a v ∈ es → InPage (s.alloc.list s.alloc.next) a ∨ a = slot t i

theorem VmInv.next_lt (h : VmInv S s) : s.alloc.next < allocListSize := by
  have := h.next_le
  unfold allocListSize at *
  omega

/-- A pop leaves the rest of the list alone. -/
theorem Links.list_eq {s' : Kernel} (hl : Links s s' t i) (n : ℕ) (hn : s.alloc.next + 1 ≤ n) :
    s'.alloc.list n = s.alloc.list n := by
  rw [hl.alloc]
  exact Function.update_of_ne (by omega) _ _

section Links

variable {s' : Kernel} (hl : Links s s' t i) (h : VmInv S s) (ht : s.table S q = some t)
  (hq : q.length < 2) (hi : i < 512) (hS : ¬ (q = [] ∧ S i = true))
  (hv : (s.mem (slot t i)).getLsbD 0 = false) (hn : s.alloc.next ≠ allocListSize - 1)

include hl h ht hq hi hS hv in
/-- The tree gains one path, which leads to the page. -/
theorem Links.table (p : List ℕ) :
    s'.table S p = if p = i :: q then some (s.alloc.list s.alloc.next) else s.table S p := by
  have hlt := h.next_lt
  rw [Kernel.table, hl.root]
  exact h.tree.tableAt_grow hq hi hS ht hv (h.free_aligned _ (Nat.le_refl _) hlt)
    (h.free_lt _ (Nat.le_refl _) hlt) (h.free_fresh _ (Nat.le_refl _) hlt) hl.zero hl.link
    hl.frame p

include hl h ht hq hi hS hv hn in
theorem Links.inv : VmInv S s' := by
  have hlt := h.next_lt
  have hle := h.next_le
  have hnext : s'.alloc.next = s.alloc.next + 1 := by
    rw [hl.alloc]
    rfl
  refine ⟨?_, ?_, by omega, ?_, ?_, ?_, ?_⟩
  · rw [hl.root]
    exact h.tree.grow hq hi hS ht hv (h.free_aligned _ (Nat.le_refl _) hlt)
      (h.free_lt _ (Nat.le_refl _) hlt) (h.free_fresh _ (Nat.le_refl _) hlt) hl.zero hl.link
      hl.frame
  · rw [hl.alloc]
    exact h.initialized
  · intro n h1 h2
    rw [hl.list_eq n (by omega)]
    exact h.free_aligned n (by omega) h2
  · intro n h1 h2
    rw [hl.list_eq n (by omega)]
    exact h.free_lt n (by omega) h2
  · intro n h1 h2 p hp
    rw [hl.list_eq n (by omega)] at hp
    have hp' : s'.table S p = some (s.alloc.list n) := hp
    rw [hl.table h ht hq hi hS hv] at hp'
    split at hp'
    · -- the page just linked is not free any more
      rw [Option.some.injEq] at hp'
      have := h.free_inj _ n (Nat.le_refl _) hlt (by omega) h2 hp'
      omega
    · exact h.free_fresh n (by omega) h2 p hp'
  · intro n n' h1 h2 h1' h2' heq
    rw [hl.list_eq n (by omega), hl.list_eq n' (by omega)] at heq
    exact h.free_inj n n' (by omega) h2 (by omega) h2' heq

include hl h ht hq hi hS hv hn in
theorem Links.grows : Grows S (fun p => p = i :: q) s s' := by
  have hlt := h.next_lt
  have hc := h.free_aligned _ (Nat.le_refl _) hlt
  have hta : Aligned t := aligned_of_tableAt h.tree.aligned ht
  have htab := hl.table h ht hq hi hS hv
  have hnone : s.table S (i :: q) = none := tableAt_cons_of_invalid ht hv
  have hnext : s'.alloc.next = s.alloc.next + 1 := by
    rw [hl.alloc]
    rfl
  have hnew : s'.table S (i :: q) = some (s.alloc.list s.alloc.next) := by rw [htab, if_pos rfl]
  have hmono : ∀ p u, s.table S p = some u → s'.table S p = some u := by
    intro p u hu
    rw [htab, if_neg (by rintro rfl; rw [hnone] at hu; cases hu)]
    exact hu
  have hstore : s'.InTable S (slot t i) := ⟨q, t, hmono q t ht, inPage_slot hta hi⟩
  have hadded : ∀ p u, s.table S p = none → s'.table S p = some u →
      p = i :: q ∧ u = s.alloc.list s.alloc.next := by
    intro p u hp hu
    rw [htab] at hu
    split at hu
    · rename_i heq
      exact ⟨heq, (Option.some.inj hu).symm⟩
    · rw [hp] at hu
      cases hu
  refine ⟨hl.root, hl.kmap, hl.bug, hl.inv h ht hq hi hS hv hn, hmono, ?_, ?_, by omega,
    fun n h1 => hl.list_eq n (by omega), ?_, ?_, ?_, ?_⟩
  · intro p u hp hu
    obtain ⟨hpq, rfl⟩ := hadded p u hp hu
    exact ⟨hpq, _, Nat.le_refl _, by omega, rfl⟩
  · intro a b k hk
    rw [hl.root]
    exact h.tree.entry0_grow hq hi hS ht hv hc (h.free_lt _ (Nat.le_refl _) hlt)
      (h.free_fresh _ (Nat.le_refl _) hlt) hl.zero hl.link hl.frame hk
  · intro n h1 h2
    obtain rfl : n = s.alloc.next := by omega
    exact ⟨i :: q, hnew⟩
  · intro a ha
    refine hl.frame a (fun hp => ha ⟨i :: q, _, hnew, hp⟩) ?_
    rintro rfl
    exact ha hstore
  · intro l hl512 hSl
    refine hl.frame _ ?_ (h.tree.ne_exempt_slot hl512 hSl ht hi hS).symm
    intro hin
    have heq := inPage_inj hc h.tree.aligned hin (inPage_slot h.tree.aligned hl512)
    exact h.free_fresh _ (Nat.le_refl _) hlt [] (by rw [heq]; rfl)
  · obtain ⟨es, hes, hzp, hcrit, hst⟩ := hl.events
    refine ⟨es, hes, hcrit, ?_, ?_⟩
    · intro a v hm
      rcases hst a v hm with hin | rfl
      · exact ⟨i :: q, _, hnew, hin⟩
      · exact hstore
    · intro p u hp hu
      rw [(hadded p u hp hu).2]
      exact hzp

end Links

/-- An invalid entry, wherever it is, is given a fresh zeroed page, which is then followed. -/
theorem run_descend_fresh {ptep : U64} (hi : s.alloc.initialized = true)
    (hn : s.alloc.next ≠ allocListSize - 1) (hc : Aligned (s.alloc.list s.alloc.next))
    (h56 : (s.alloc.list s.alloc.next).toNat < 2 ^ 56) (hv : (s.mem ptep).getLsbD 0 = false) :
    ∃ mem' es, descend physical ptep s = .ok (s.alloc.list s.alloc.next)
        (Kernel.write { s with
          alloc := s.alloc.pop, mem := mem'
          events := s.events ++ es ++ [.zeroPage (s.alloc.list s.alloc.next)] } ptep
            (mkPte ((s.alloc.list s.alloc.next).toNat / 4096) 1)) ∧
      (∀ j < 512, mem' (slot (s.alloc.list s.alloc.next) j) = 0) ∧
      (∀ a, ¬ InPage (s.alloc.list s.alloc.next) a → mem' a = s.mem a) ∧
      ∀ e ∈ es, ∃ a, e = .store a 0 ∧ InPage (s.alloc.list s.alloc.next) a := by
  obtain ⟨mem', es, hrun, hzero, hframe, hes⟩ := run_allocZeroPage_physical hi hn hc
  refine ⟨mem', es, ?_, hzero, hframe, hes⟩
  simp only [descend, Effect.run_bind, run_load_physical, pteValid_eq, hv, hrun,
    Bool.not_false, if_true, linkPte_eq h56, run_store_physical, Effect.run_pure, pteNextPtb_eq,
    ppnAddr_mkPte hc h56 (show 1 < 1024 by norm_num)]

/-- Where the entry lies in some other page, that links the page. -/
theorem run_descend_links (hin : s.alloc.initialized = true) (hn : s.alloc.next ≠ allocListSize - 1)
    (hc : Aligned (s.alloc.list s.alloc.next)) (h56 : (s.alloc.list s.alloc.next).toNat < 2 ^ 56)
    (hta : Aligned t) (hi : i < 512) (hne : s.alloc.list s.alloc.next ≠ t)
    (hv : (s.mem (slot t i)).getLsbD 0 = false) :
    ∃ s', descend physical (slot t i) s = .ok (s.alloc.list s.alloc.next) s' ∧
      Links s s' t i := by
  obtain ⟨mem', es, hrun, hzero, hframe, hes⟩ := run_descend_fresh hin hn hc h56 hv
  have hslot : ¬ InPage (s.alloc.list s.alloc.next) (slot t i) := fun hp =>
    hne (inPage_inj hc hta hp (inPage_slot hta hi))
  refine ⟨_, hrun, rfl, rfl, rfl, rfl, ?_, ?_, ?_, ?_⟩
  · intro j hj
    have hne : slot (s.alloc.list s.alloc.next) j ≠ slot t i := fun he =>
      hslot (he ▸ inPage_slot hc hj)
    exact (Function.update_of_ne hne _ _).trans (hzero j hj)
  · exact Function.update_self _ _ _
  · intro a ha hne
    exact (Function.update_of_ne hne _ _).trans (hframe a ha)
  · refine ⟨es ++ [.zeroPage (s.alloc.list s.alloc.next)] ++
      [.store (slot t i) (mkPte ((s.alloc.list s.alloc.next).toNat / 4096) 1)], ?_, by simp, ?_, ?_⟩
    · simp only [Kernel.write, List.append_assoc]
    · intro msg hm
      simp only [List.mem_append, List.mem_singleton, reduceCtorEq, or_false] at hm
      obtain ⟨a, ha, -⟩ := hes _ hm
      cases ha
    · intro a v hm
      simp only [List.mem_append, List.mem_singleton, reduceCtorEq, or_false,
        Event.store.injEq] at hm
      rcases hm with hm | ⟨rfl, -⟩
      · obtain ⟨b, hb, hin⟩ := hes _ hm
        injection hb with hb
        exact Or.inl (hb ▸ hin)
      · exact Or.inr rfl

/-- In a table of the tree in particular. -/
theorem run_descend_new (h : VmInv S s) (ht : s.table S q = some t) (hi : i < 512)
    (hv : (s.mem (slot t i)).getLsbD 0 = false) (hn : s.alloc.next ≠ allocListSize - 1) :
    ∃ s', descend physical (slot t i) s = .ok (s.alloc.list s.alloc.next) s' ∧
      Links s s' t i := by
  have hlt := h.next_lt
  refine run_descend_links h.initialized hn (h.free_aligned _ (Nat.le_refl _) hlt)
    (h.free_lt _ (Nat.le_refl _) hlt) (aligned_of_tableAt h.tree.aligned ht) hi ?_ hv
  intro he
  exact h.free_fresh _ (Nat.le_refl _) hlt q (by rw [he]; exact ht)

/-- No page is left for the missing table. -/
theorem exhausted_descend (h : VmInv S s) (hv : (s.mem (slot t i)).getLsbD 0 = false)
    (hn : s.alloc.next = allocListSize - 1) :
    (final (descend physical (slot t i) s)).Exhausted := by
  have hz : (final (allocZeroPage physical s)).Exhausted :=
    mem_events_bind (fun _ => (Logs.memset _ _ _ _).bind fun _ => (Logs.emit _).bind fun _ =>
      Logs.pure _) (exhausted_allocGetPage h.initialized hn)
  rw [descend, Effect.run_bind, run_load_physical]
  simp only [pteValid_eq, hv, Bool.not_false, if_true]
  exact mem_events_bind (fun _ => (Logs.store _ _ _).bind fun _ => Logs.pure _) hz

/-- **Everything one step of the walk can do** in a well-formed state. -/
theorem descend_cases (h : VmInv S s) (ht : s.table S q = some t) (hq : q.length < 2)
    (hi : i < 512) (hS : ¬ (q = [] ∧ S i = true)) :
    (∃ c s', descend physical (slot t i) s = .ok c s' ∧ Grows S (fun p => p = i :: q) s s' ∧
        s'.table S (i :: q) = some c ∧ s'.alloc.next ≤ s.alloc.next + 1 ∧
        (s.table S (i :: q) ≠ none → s' = s)) ∨
      (s.alloc.next = allocListSize - 1 ∧ (final (descend physical (slot t i) s)).Exhausted) := by
  cases hv : (s.mem (slot t i)).getLsbD 0 with
  | true =>
    obtain ⟨c, hrun, hc⟩ := run_descend_valid h ht hq hi hS hv
    exact Or.inl ⟨c, s, hrun, Grows.refl h, hc, Nat.le_succ _, fun _ => rfl⟩
  | false =>
    by_cases hn : s.alloc.next = allocListSize - 1
    · exact Or.inr ⟨hn, exhausted_descend h hv hn⟩
    · obtain ⟨s', hrun, hl⟩ := run_descend_new h ht hi hv hn
      refine Or.inl ⟨_, s', hrun, hl.grows h ht hq hi hS hv hn, ?_, ?_, fun hne => ?_⟩
      · rw [hl.table h ht hq hi hS hv, if_pos rfl]
      · rw [hl.alloc]
        exact Nat.le_refl _
      · exact absurd (tableAt_cons_of_invalid ht hv) hne

end Descend

theorem Logs.descend (mmu : Mmu) (ptep : U64) : Logs (Mm.descend mmu ptep) := by
  refine (Logs.load _ _).bind fun pte => Logs.ite ?_ (Logs.pure _)
  exact (Logs.allocZeroPage _).bind fun _ => (Logs.store _ _ _).bind fun _ => Logs.pure _

theorem Logs.mapLeaf (mmu : Mmu) (va pa flags ptep : U64) :
    Logs (Mm.mapLeaf mmu va pa flags ptep) := by
  refine (Logs.load _ _).bind fun pte => Logs.ite ?_ ?_
  · exact (Logs.emit _).bind fun _ => (Logs.BUG _).bind fun _ => Logs.pure _
  · exact (Logs.store _ _ _).bind fun _ => Logs.pure _

theorem Logs.vaGetIndex (va : U64) (level : ℕ) : Logs (Mm.vaGetIndex va level) := by
  unfold Mm.vaGetIndex
  split
  · exact Logs.pure _
  · exact Logs.pure _
  · exact Logs.pure _
  · exact Logs.throw _

theorem Logs.vmMapLoop (mmu : Mmu) (va pa flags : U64) : ∀ (level : ℕ) (ptb : U64),
    Logs (Mm.vmMapLoop mmu va pa flags level ptb)
  | 0, _ => (Logs.vaGetIndex _ _).bind fun _ => Logs.mapLeaf _ _ _ _ _
  | level + 1, _ => (Logs.vaGetIndex _ _).bind fun _ => (Logs.descend _ _).bind fun _ =>
      Logs.vmMapLoop mmu va pa flags level _

theorem Logs.vmMapPage (mmu : Mmu) (va pa flags : U64) : Logs (Mm.vmMapPage mmu va pa flags) := by
  refine Logs.get.bind fun s => Logs.ite ?_ (Logs.ite ?_ (Logs.vmMapLoop _ _ _ _ _ _))
  · exact (Logs.emit _).bind fun _ => (Logs.BUG _).bind fun _ => Logs.pure _
  · exact (Logs.emit _).bind fun _ => (Logs.BUG _).bind fun _ => Logs.pure _

/-! ## 5. The store at level 0 -/

section Write0

variable {S : ℕ → Bool} {s : Kernel} {i j k : ℕ} {t v : U64}

theorem table_write0 (h : VmInv S s) (ht : s.table S [j, i] = some t) (hk : k < 512)
    (p : List ℕ) : (s.write (slot t k) v).table S p = s.table S p :=
  h.tree.tableAt_store0 ht hk (fun _ ha => Function.update_of_ne ha _ _) p

theorem entry0_write0 (h : VmInv S s) (ht : s.table S [j, i] = some t) (hk : k < 512)
    {a b l : ℕ} (hl : l < 512) :
    entry0 S (s.write (slot t k) v).mem s.kernelRootPtb a b l =
      if a = i ∧ b = j ∧ l = k then v else entry0 S s.mem s.kernelRootPtb a b l := by
  have hframe : ∀ a, a ≠ slot t k → (s.write (slot t k) v).mem a = s.mem a :=
    fun _ ha => Function.update_of_ne ha _ _
  rw [h.tree.entry0_store0 ht hk hframe hl]
  simp only [Kernel.write, Function.update_self]

theorem VmInv.write0 (h : VmInv S s) (ht : s.table S [j, i] = some t) (hk : k < 512) :
    VmInv S (s.write (slot t k) v) where
  tree := h.tree.store0 ht hk fun _ ha => Function.update_of_ne ha _ _
  initialized := h.initialized
  next_le := h.next_le
  free_aligned := h.free_aligned
  free_lt := h.free_lt
  free_fresh n h1 h2 p hp := h.free_fresh n h1 h2 p ((table_write0 h ht hk p).symm.trans hp)
  free_inj := h.free_inj

end Write0

/-! ## 6. The whole call -/

/-- The arguments that `vm_map_page` does not reject outright. -/
def Acceptable (va pa : U64) : Prop := Aligned va ∧ Aligned pa ∧ Canonical va

instance (va pa : U64) : Decidable (Acceptable va pa) := inferInstanceAs (Decidable (_ ∧ _ ∧ _))

/-- The level-0 entry that a successful call stores. -/
def leafPte (pa flags : U64) : U64 := pteFromPpn (physToPpn pa) ||| flags ||| PTE.valid

/-- A refused call: two messages, or one and a panic. -/
def refusal (msg : Msg) : KM Int := do
  critical msg
  BUG .vmMapPage
  return -1

/-- The paths of the two tables below the root that lead to `va`. -/
def OnPath (va : U64) (p : List ℕ) : Prop := p = [vpn va 2] ∨ p = [vpn va 1, vpn va 2]

theorem vmMapPage_of_acceptable {va pa : U64} (h : Acceptable va pa) (mmu : Mmu) (flags : U64)
    (s : Kernel) :
    vmMapPage mmu va pa flags s = vmMapLoop mmu va pa flags 2 s.kernelRootPtb s := by
  have hva := (isAligned_iff va).mpr h.1
  have hpa := (isAligned_iff pa).mpr h.2.1
  have hcan : ¬ (va > 0x3fffffffff ∧ va < 0xffffffc000000000) := by
    rw [not_canonical_iff]
    exact not_not_intro h.2.2
  simp only [vmMapPage, Effect.run_bind, Effect.run_get, hva, hpa, Bool.not_true, Bool.or_self,
    Bool.false_eq_true, if_false, if_neg hcan, ptbLevels]

theorem vmMapPage_of_not_acceptable {va pa : U64} (h : ¬ Acceptable va pa) (mmu : Mmu)
    (flags : U64) (s : Kernel) :
    ∃ msg, msg ≠ .allocExhausted ∧ vmMapPage mmu va pa flags s = refusal msg s := by
  by_cases hal : Aligned va ∧ Aligned pa
  · have hcan : va > 0x3fffffffff ∧ va < 0xffffffc000000000 := by
      rw [not_canonical_iff]
      exact fun hc => h ⟨hal.1, hal.2, hc⟩
    refine ⟨.mapNonCanonical, by simp, ?_⟩
    have hva := (isAligned_iff va).mpr hal.1
    have hpa := (isAligned_iff pa).mpr hal.2
    simp only [vmMapPage, Effect.run_bind, Effect.run_get, hva, hpa, Bool.not_true, Bool.or_self,
      Bool.false_eq_true, if_false, if_pos hcan]
    rfl
  · refine ⟨.mapMisaligned va pa, by simp, ?_⟩
    have hor : (!isAligned va || !isAligned pa) = true := by
      rw [← isAligned_iff, ← isAligned_iff] at hal
      simpa [or_iff_not_imp_left] using hal
    simp only [vmMapPage, Effect.run_bind, Effect.run_get, hor, if_true]
    rfl

theorem run_refusal_log {s : Kernel} (hb : s.bugBehavior = .bugLog) (msg : Msg) :
    refusal msg s = .ok (-1) (s.refuse msg .vmMapPage) := run_critical_BUG hb msg _ _

/-- The step at level 0. -/
theorem run_mapLeaf_valid {va pa flags ptep : U64} {s : Kernel}
    (h : (s.mem ptep).getLsbD 0 = true) :
    mapLeaf physical va pa flags ptep s = refusal (.mapRemap va (s.mem ptep)) s := by
  simp only [mapLeaf, Effect.run_bind, run_load_physical, pteValid_eq, h, if_true]
  rfl

theorem run_mapLeaf_new {va pa flags ptep : U64} {s : Kernel}
    (h : (s.mem ptep).getLsbD 0 = false) :
    mapLeaf physical va pa flags ptep s = .ok 0 (s.write ptep (leafPte pa flags)) := by
  simp only [mapLeaf, Effect.run_bind, run_load_physical, pteValid_eq, h, Bool.false_eq_true,
    if_false, run_store_physical, Effect.run_pure, leafPte]

section MapPage

variable {S : ℕ → Bool} {s : Kernel} {va pa : U64}

theorem pte0_of_table {t : U64} (h : s.table S [vpn va 1, vpn va 2] = some t) :
    s.pte0 S va = s.mem (slot t (vpn va 0)) := by
  rw [Kernel.pte0, entry0, show tableAt S s.mem s.kernelRootPtb _ = some t from h]

/-- A level-0 entry that is valid lies in a table. -/
theorem exists_table_of_pte0 (h : (s.pte0 S va).getLsbD 0 = true) :
    ∃ t, s.table S [vpn va 1, vpn va 2] = some t := by
  cases ht : s.table S [vpn va 1, vpn va 2] with
  | some t => exact ⟨t, rfl⟩
  | none =>
    have hz : s.pte0 S va = 0 := by
      rw [Kernel.pte0, entry0, show tableAt S s.mem s.kernelRootPtb _ = none from ht]
    rw [hz] at h
    exact absurd h (by decide)

/-- The two steps above level 0: the level-0 table of `va`, in a state that has grown by what was
missing on the way. -/
theorem run_vmMapLoop_two (h : VmInv S s) (hS : S (vpn va 2) = false) (pa flags : U64) :
    (∃ t s₁, vmMapLoop physical va pa flags 2 s.kernelRootPtb s
          = mapLeaf physical va pa flags (slot t (vpn va 0)) s₁ ∧
        Grows S (OnPath va) s s₁ ∧ s₁.table S [vpn va 1, vpn va 2] = some t ∧
        ((s.pte0 S va).getLsbD 0 = true → s₁ = s)) ∨
      (allocListSize - 1 < s.alloc.next + 2 ∧
        (final (vmMapLoop physical va pa flags 2 s.kernelRootPtb s)).Exhausted) := by
  have hS2 : ¬ (([] : List ℕ) = [] ∧ S (vpn va 2) = true) := by simp [hS]
  have hS1 : ¬ ([vpn va 2] = [] ∧ S (vpn va 1) = true) := by simp
  have hroot : s.table S [] = some s.kernelRootPtb := rfl
  rw [vmMapLoop, Effect.run_bind, run_vaGetIndex va (by norm_num)]
  simp only [ptbGetPtep_eq]
  obtain ⟨c, s₁, hrun₁, hg₁, hc, hnext₁, hsame₁⟩ | ⟨hn, hex⟩ :=
    descend_cases h hroot (by simp) (vpn_lt va 2) hS2
  swap
  · exact Or.inr ⟨by omega, mem_events_bind (fun _ => Logs.vmMapLoop _ _ _ _ _ _) hex⟩
  rw [Effect.run_bind, hrun₁]
  simp only []
  rw [vmMapLoop, Effect.run_bind, run_vaGetIndex va (by norm_num)]
  simp only [ptbGetPtep_eq]
  obtain ⟨d, s₂, hrun₂, hg₂, hd, hnext₂, hsame₂⟩ | ⟨hn, hex⟩ :=
    descend_cases hg₁.inv hc (by simp) (vpn_lt va 1) hS1
  swap
  · exact Or.inr ⟨by omega, mem_events_bind (fun _ => Logs.vmMapLoop _ _ _ _ _ _) hex⟩
  rw [Effect.run_bind, hrun₂]
  simp only []
  rw [vmMapLoop, Effect.run_bind, run_vaGetIndex va (by norm_num)]
  simp only [ptbGetPtep_eq]
  refine Or.inl ⟨d, s₂, rfl, (hg₁.trans hg₂).weaken fun p hp => hp, hd, fun hv => ?_⟩
  -- a valid entry needs both tables, so neither step has changed the state
  obtain ⟨t, ht⟩ := exists_table_of_pte0 hv
  obtain ⟨u, hu, -⟩ := tableAt_cons.mp ht
  obtain rfl : s₁ = s := hsame₁ (by rw [show s.table S [vpn va 2] = some u from hu]; simp)
  exact hsame₂ (by rw [ht]; simp)

/-- **Everything a call with acceptable arguments can do** in a well-formed state. -/
theorem vmMapPage_cases (h : VmInv S s) (hok : Acceptable va pa) (hS : S (vpn va 2) = false)
    (flags : U64) :
    ((s.pte0 S va).getLsbD 0 = true ∧
        vmMapPage physical va pa flags s = refusal (.mapRemap va (s.pte0 S va)) s) ∨
      ((s.pte0 S va).getLsbD 0 = false ∧
        ∃ t s₁, Grows S (OnPath va) s s₁ ∧ s₁.table S [vpn va 1, vpn va 2] = some t ∧
          vmMapPage physical va pa flags s
            = .ok 0 (s₁.write (slot t (vpn va 0)) (leafPte pa flags))) ∨
      (allocListSize - 1 < s.alloc.next + 2 ∧
        (final (vmMapPage physical va pa flags s)).Exhausted) := by
  rw [vmMapPage_of_acceptable hok]
  obtain ⟨t, s₁, hrun, hg, ht, hsame⟩ | hex := run_vmMapLoop_two h hS pa flags
  swap
  · exact Or.inr (Or.inr hex)
  have hpte : s.pte0 S va = s₁.mem (slot t (vpn va 0)) := by
    rw [← pte0_of_table ht]
    exact (hg.entry0 _ _ _ (vpn_lt va 0)).symm
  rw [hrun, hpte]
  cases hv : (s₁.mem (slot t (vpn va 0))).getLsbD 0 with
  | true =>
    obtain rfl : s₁ = s := hsame (hpte ▸ hv)
    exact Or.inl ⟨rfl, run_mapLeaf_valid hv⟩
  | false => exact Or.inr (Or.inl ⟨rfl, t, s₁, hg, ht, run_mapLeaf_new hv⟩)

/-- A refusal never reports exhaustion. -/
theorem not_exhausted_refusal {msg : Msg} (hmsg : msg ≠ .allocExhausted) (hs : ¬ s.Exhausted) :
    ¬ (final (refusal msg s)).Exhausted := by
  have hmsg' : Msg.allocExhausted ≠ msg := fun h => hmsg h.symm
  unfold Kernel.Exhausted at hs ⊢
  cases hb : s.bugBehavior with
  | bugLog => simp [run_refusal_log hb, final, Kernel.refuse, hs, hmsg']
  | bugPanic => simp [refusal, run_BUG_panic, hb, final, hs, hmsg']

/-- Two free pages are enough for a call. -/
theorem vmMapPage_not_exhausted (h : VmInv S s) (hok : Acceptable va pa)
    (hS : S (vpn va 2) = false) (flags : U64) (hn : s.alloc.next + 2 ≤ allocListSize - 1)
    (hs : ¬ s.Exhausted) : ¬ (final (vmMapPage physical va pa flags s)).Exhausted := by
  obtain ⟨-, hrun⟩ | ⟨-, t, s₁, hg, -, hrun⟩ | ⟨hlt, -⟩ := vmMapPage_cases h hok hS flags
  · rw [hrun]
    exact not_exhausted_refusal (by simp) hs
  · obtain ⟨es, hes, hcrit, -⟩ := hg.events
    rw [hrun]
    simp only [final, Kernel.Exhausted, Kernel.write, hes, List.mem_append, List.mem_singleton,
      reduceCtorEq, or_false, not_or]
    exact ⟨hs, hcrit _⟩
  · omega

end MapPage

end RvKernel.Mm
