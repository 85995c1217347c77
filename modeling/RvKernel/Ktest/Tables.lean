/-
# The kernel's tables under test

After `vm_init` a call of `vm_map_page` with acceptable arguments faults.  The fault of a test is
caught, and the next call finds what the last one has left: a malformed entry in the root, and a
page less in the allocator.  Here is what survives all that.

* `Grown` says what may become of the memory: the tables keep what they hold, and an invalid entry
  of the root can become a malformed one.  It leaves every translation as it is (`Grown.walk`).
* `Usable` is the state between two calls.  `vm_map_page` faults in it, and leaves one like it
  (`Usable.vmMapPage`), or refuses its arguments; and there are pages to be had and to be given
  back.
-/
import RvKernel.Boot.Regime

namespace RvKernel.VmTests

open Sv39 Mm Effect

/-! ## 1. The memory -/

/-- What may have become of the memory `m₀` that `vm_init` has left, with its tables in `n`
pages. -/
structure Grown (k : MemoryMap) (n : ℕ) (m₀ m : Mem) : Prop where
  below : ∀ a : U64, a.toNat < k.freeStart.toNat + n * 4096 → ¬ InPage k.freeStart a → m a = m₀ a
  root : ∀ i < 512, m (slot k.freeStart i) = m₀ (slot k.freeStart i) ∨
    pteValid (m₀ (slot k.freeStart i)) = false ∧
      ∃ f, Aligned f ∧ f.toNat ≤ 32 * 2 ^ 30 ∧ m (slot k.freeStart i) = newPte (paToVa f)

theorem Grown.refl (k : MemoryMap) (n : ℕ) (m : Mem) : Grown k n m m :=
  ⟨fun _ _ _ => rfl, fun _ _ => Or.inl rfl⟩

theorem kind_of_reserved {e : U64} (h : e >>> 54 ≠ 0) : kind e = .fault := by
  have hne : (e >>> 54 != 0) = true := by rwa [bne_iff_ne]
  unfold kind
  rw [hne, Bool.or_true]
  rfl

/-- The walk looks at an entry, and goes on below it if it is a pointer. -/
theorem walkFrom_congr {m m' : Mem} {va t : U64} {level : ℕ}
    (hentry : m' (slot t (vpn va (level + 1))) = m (slot t (vpn va (level + 1))))
    (hnext : kind (m (slot t (vpn va (level + 1)))) = .table →
      walkFrom m' va level (ppnAddr (m (slot t (vpn va (level + 1)))))
        = walkFrom m va level (ppnAddr (m (slot t (vpn va (level + 1)))))) :
    walkFrom m' va (level + 1) t = walkFrom m va (level + 1) t := by
  unfold walkFrom
  rw [hentry]
  cases hkind : kind (m (slot t (vpn va (level + 1)))) with
  | fault => rfl
  | leaf => rfl
  | table => exact hnext hkind

theorem pteValid_of_table {e : U64} (h : kind e = .table) : pteValid e = true := by
  cases hv : pteValid e with
  | true => rfl
  | false =>
    rw [pteValid_eq] at hv
    rw [kind_of_invalid hv] at h
    cases h

theorem directMapPte_valid {i : ℕ} (hi : i < 32) : pteValid (directMapPte i) = true := by
  interval_cases i <;> decide

section Tables

variable {k : MemoryMap} (L : Layout k) {n : ℕ} {s₀ : Kernel}

theorem tree_of_ready (h : MmReady directSlots k n s₀) : Tree directSlots s₀.mem k.freeStart ∧
    (∀ i < 32, s₀.mem (slot k.freeStart (256 + i)) = directMapPte i) ∧
    ∀ p t, tableAt directSlots s₀.mem k.freeStart p = some t →
      ∃ q < n, t = pageAt k.freeStart q := by
  obtain ⟨s₁, hb, hroot, hd, hmem, hnext⟩ := h.boot
  have htree := hb.maps.inv.tree
  have htaken := hb.tables.taken
  unfold DirectMapped at hd
  unfold Kernel.table at htaken
  rw [hroot, hmem] at htree htaken hd
  rw [hnext] at htaken
  exact ⟨htree, hd, htaken⟩

/-- An entry that the hardware follows leads to one of the tables. -/
theorem table_of_kind (h : MmReady directSlots k n s₀) {q : List ℕ} (hq : q.length < 2) {t : U64}
    (ht : tableAt directSlots s₀.mem k.freeStart q = some t) {i : ℕ} (hi : i < 512)
    (hkind : kind (s₀.mem (slot t i)) = .table) :
    tableAt directSlots s₀.mem k.freeStart (i :: q) = some (ppnAddr (s₀.mem (slot t i))) := by
  obtain ⟨htree, hd, -⟩ := tree_of_ready h
  -- the gigapages of the direct map are leaves
  have hS : ¬ (q = [] ∧ directSlots i = true) := by
    rintro ⟨rfl, hS⟩
    unfold directSlots at hS
    rw [decide_eq_true_eq] at hS
    obtain ⟨l, rfl⟩ : ∃ l, i = 256 + l := ⟨i - 256, by omega⟩
    have hl : l < 32 := by omega
    rw [tableAt_nil, Option.some.injEq] at ht
    rw [← ht, hd l hl] at hkind
    interval_cases l <;> revert hkind <;> decide
  have hvalid := pteValid_of_table hkind
  rw [pteValid_eq] at hvalid
  exact tableAt_cons_of_link ht hq hi hS (htree.link hq ht hi hS hvalid)

include L in
/-- The entries of the tables below the root. -/
theorem slot_below (h : MmReady directSlots k n s₀) (hn : n ≤ 517) {p : List ℕ} (hp : p ≠ [])
    {t : U64} (ht : tableAt directSlots s₀.mem k.freeStart p = some t) {j : ℕ} (hj : j < 512) :
    (slot t j).toNat < k.freeStart.toNat + n * 4096 ∧ ¬ InPage k.freeStart (slot t j) := by
  obtain ⟨htree, -, htaken⟩ := tree_of_ready h
  obtain ⟨q, hq, rfl⟩ := htaken p t ht
  have hlt : q < 2 * allocListSize := by
    unfold allocListSize
    omega
  obtain ⟨hnat, -⟩ := toNat_pageAt_freeStart L hlt
  have hal := L.freeStart_aligned
  have hpal : Aligned (pageAt k.freeStart q) := by
    unfold Aligned at *
    omega
  have hpos : q ≠ 0 := by
    rintro rfl
    rw [pageAt_zero] at ht
    exact hp (htree.inj _ _ _ ht tableAt_nil)
  have hslot := toNat_slot hpal hj
  unfold InPage Aligned at *
  omega

include L in
/-- **A grown memory translates as before.** -/
theorem Grown.walk (h : MmReady directSlots k n s₀) (hn : n ≤ 517) {m : Mem}
    (hg : Grown k n s₀.mem m) (va : U64) : walk m k.freeStart va = walk s₀.mem k.freeStart va := by
  have hsame : ∀ {p : List ℕ} {t : U64}, p ≠ [] →
      tableAt directSlots s₀.mem k.freeStart p = some t → ∀ j < 512,
      m (slot t j) = s₀.mem (slot t j) := by
    intro p t hp ht j hj
    obtain ⟨hlt, hout⟩ := slot_below L h hn hp ht hj
    exact hg.below _ hlt hout
  unfold Sv39.walk
  split
  · rcases hg.root _ (vpn_lt va 2) with heq | ⟨hinv, f, hal, hf, heq⟩
    · refine walkFrom_congr heq fun hkind => ?_
      have ht₁ := table_of_kind h (by simp) tableAt_nil (vpn_lt va 2) hkind
      refine walkFrom_congr (hsame (by simp) ht₁ _ (vpn_lt va 1)) fun hkind₁ => ?_
      have ht₀ := table_of_kind h (by simp) ht₁ (vpn_lt va 1) hkind₁
      unfold walkFrom
      rw [hsame (by simp) ht₀ _ (vpn_lt va 0)]
    · -- the entry faulted, and still does
      have hbad := (newPte_paToVa hf hal).1
      rw [pteValid_eq] at hinv
      unfold walkFrom
      rw [heq, kind_of_reserved hbad, kind_of_invalid hinv]
  · rfl

end Tables

/-! ## 2. Clearing a page through the direct map -/

/-- `memset` of words outside the root, at their direct-map address, is `memset` of these words. -/
theorem memset_paToVa {root : U64} (hr : Aligned root) : ∀ (words : ℕ) (d : U64) (s : Kernel),
    (∀ i < 32, s.mem (slot root (256 + i)) = directMapPte i) →
    (∀ j < words, (slot d j).toNat < 32 * 2 ^ 30 ∧ ¬ InPage root (slot d j)) →
    memset (hardware root) (paToVa d) 0 words s = memset physical d 0 words s
  | 0, _, _, _, _ => by rw [memset, memset]
  | words + 1, d, s, hd, hj => by
    have hslot0 : slot d 0 = d := by simp [slot]
    have h0 := hj 0 (by omega)
    rw [hslot0] at h0
    have hkeep : ∀ i < 32, (s.write d (fillWord 0)).mem (slot root (256 + i)) = directMapPte i := by
      intro i hi
      rw [← hd i hi]
      refine Function.update_of_ne (fun heq => h0.2 ?_) _ _
      rw [← heq]
      exact inPage_slot hr (by omega)
    have hnext : paToVa d + 8 = paToVa (d + 8) := by
      unfold paToVa
      rw [BitVec.add_assoc, BitVec.add_comm kernelDirectMapStart, ← BitVec.add_assoc]
    have hstore := run_store (hardware_paToVa hd h0.1) (fillWord 0)
    rw [memset, bind_of_ok hstore, hnext, memset_paToVa hr words (d + 8) _ hkeep
      fun j hjw => by rw [slot_succ]; exact hj (j + 1) (by omega)]
    symm
    rw [memset, bind_of_ok (run_store_physical d (fillWord 0) s)]

/-! ## 3. The state between two calls -/

/-- The direct-map address of a page behind the tables. -/
def IsPage (k : MemoryMap) (n : ℕ) (p : U64) : Prop :=
  ∃ q, n ≤ q ∧ q < n + allocListSize ∧ p = paToVa (pageAt k.freeStart q)

/-- **The state between two calls**, at most `b` pages down. -/
structure Usable (k : MemoryMap) (n : ℕ) (m₀ : Mem) (b : ℕ) (s : Kernel) : Prop where
  root : s.kernelRootPtb = paToVa k.freeStart
  kmap : s.kmap = k
  grown : Grown k n m₀ s.mem
  initialized : s.alloc.initialized = true
  next_le : s.alloc.next ≤ b
  pages : ∀ j, s.alloc.next ≤ j → j < allocListSize → IsPage k n (s.alloc.list j)

section Usable

variable {k : MemoryMap} (L : Layout k) {n b : ℕ} {s₀ s : Kernel}

include L in
theorem IsPage.spec (hn : n ≤ 517) {p : U64} (hp : IsPage k n p) : ∃ d, p = paToVa d ∧ Aligned d ∧
    d.toNat ≤ 32 * 2 ^ 30 ∧ Aligned p ∧ k.freeStart.toNat + n * 4096 ≤ d.toNat ∧
    ∀ j < 512, (slot d j).toNat < 32 * 2 ^ 30 := by
  obtain ⟨q, hnq, hq, rfl⟩ := hp
  have hlt : q < 2 * allocListSize := by
    unfold allocListSize at *
    omega
  obtain ⟨hnat, hle⟩ := toNat_pageAt_freeStart L hlt
  have hva := toNat_paToVa hle
  have hal := L.freeStart_aligned
  have hfree := L.toNat_freeStart
  have hend := k.kernelEnd.isLt
  have hdal : Aligned (pageAt k.freeStart q) := by
    unfold Aligned at *
    omega
  refine ⟨_, rfl, hdal, hle, ?_, by omega, fun j hj => ?_⟩
  · unfold Aligned at *
    omega
  · have hslot := toNat_slot hdal hj
    unfold allocListSize at hq
    omega

theorem Usable.of_eq (h : Usable k n s₀.mem b s) {s' : Kernel}
    (hroot : s'.kernelRootPtb = s.kernelRootPtb) (hkmap : s'.kmap = s.kmap)
    (hmem : s'.mem = s.mem) (halloc : s'.alloc = s.alloc) : Usable k n s₀.mem b s' where
  root := hroot.trans h.root
  kmap := hkmap.trans h.kmap
  grown := hmem ▸ h.grown
  initialized := halloc ▸ h.initialized
  next_le := halloc ▸ h.next_le
  pages := halloc ▸ h.pages

theorem Usable.mono (h : Usable k n s₀.mem b s) {b' : ℕ} (hb : b ≤ b') : Usable k n s₀.mem b' s :=
  ⟨h.root, h.kmap, h.grown, h.initialized, h.next_le.trans hb, h.pages⟩

/-- There is a page to be had. -/
theorem Usable.getPage (h : Usable k n s₀.mem b s) (hb : b < allocListSize - 1) :
    ∃ p s', allocGetPage s = .ok p s' ∧ IsPage k n p ∧ Usable k n s₀.mem (b + 1) s' ∧
      s'.bugBehavior = s.bugBehavior ∧ s'.mem = s.mem := by
  have hnext := h.next_le
  refine ⟨_, _, run_allocGetPage h.initialized (by omega), h.pages _ le_rfl (by omega), ?_, rfl,
    rfl⟩
  refine ⟨h.root, h.kmap, h.grown, h.initialized, Nat.succ_le_succ hnext, fun j hj hlt => ?_⟩
  have hj : s.alloc.next + 1 ≤ j := hj
  show IsPage k n (Function.update s.alloc.list s.alloc.next 0 j)
  rw [Function.update_of_ne (by omega)]
  exact h.pages j (by omega) hlt

variable (hready : MmReady directSlots k n s₀) (hn : n ≤ 517)

include hready in
theorem Usable.direct (h : Usable k n s₀.mem b s) :
    ∀ i < 32, s.mem (slot k.freeStart (256 + i)) = directMapPte i := by
  obtain ⟨-, hd, -⟩ := tree_of_ready hready
  intro i hi
  rcases h.grown.root (256 + i) (by omega) with heq | ⟨hinv, -⟩
  · rw [heq, hd i hi]
  · rw [hd i hi, directMapPte_valid hi] at hinv
    cases hinv

include L hready hn

theorem Usable.walk (h : Usable k n s₀.mem b s) (va : U64) :
    walk s.mem k.freeStart va = kernelMapping k va := by
  rw [h.grown.walk L hready hn, (hready.lateInv L hn).walk]

/-- A page is cleared; it is one behind the tables. -/
theorem Usable.zeroPage (h : Usable k n s₀.mem b s) (hb : b < allocListSize - 1) :
    ∃ d s', allocZeroPage (hardware k.freeStart) s = .ok (paToVa d) s' ∧ Aligned d ∧
      d.toNat ≤ 32 * 2 ^ 30 ∧ Usable k n s₀.mem (b + 1) s' ∧ s'.bugBehavior = s.bugBehavior ∧
      ∀ a, InPage k.freeStart a → s'.mem a = s.mem a := by
  obtain ⟨p, s₁, hget, hp, h₁, hbug, hmem₁⟩ := h.getPage hb
  obtain ⟨d, rfl, hal, hle, -, hlow, hslots⟩ := hp.spec L hn
  have hroot := L.freeStart_aligned
  have hpos : 0 < n := (hready.lateInv L hn).pos
  -- no word of the page is one of the tables
  have hout : ∀ j < 512, k.freeStart.toNat + n * 4096 ≤ (slot d j).toNat ∧
      ¬ InPage k.freeStart (slot d j) := by
    intro j hj
    have hslot := toNat_slot hal hj
    unfold InPage Aligned at *
    omega
  obtain ⟨mem', es, hphys, -, hframe, -⟩ := run_memset_physical 512 d s₁
  have hset : memset (hardware k.freeStart) (paToVa d) 0 512 s₁
      = .ok () { s₁ with mem := mem', events := s₁.events ++ es } := by
    rw [memset_paToVa hroot 512 d s₁ (h₁.direct hready) fun j hj => ⟨hslots j hj, (hout j hj).2⟩,
      hphys]
  have hkeep : ∀ a, (a.toNat < k.freeStart.toNat + n * 4096 ∨ InPage k.freeStart a) →
      mem' a = s₁.mem a := by
    intro a ha
    refine hframe a fun j hj heq => ?_
    obtain ⟨hge, hnot⟩ := hout j hj
    rcases ha with hlt | hin
    · rw [heq] at hlt
      omega
    · exact hnot (heq ▸ hin)
  refine ⟨d, { s₁ with
    mem := mem', events := s₁.events ++ (es ++ [.zeroPage (paToVa d)]) }, ?_, hal, hle, ?_, hbug,
    ?_⟩
  · rw [allocZeroPage, bind_of_ok hget, bind_of_ok hset, bind_of_ok (run_emit _ _),
      Effect.run_pure, List.append_assoc]
  · refine ⟨h₁.root, h₁.kmap, ⟨fun a hlt hnot => ?_, fun i hi => ?_⟩, h₁.initialized, h₁.next_le,
      h₁.pages⟩
    · exact (hkeep a (Or.inl hlt)).trans (h₁.grown.below a hlt hnot)
    · have heq : mem' (slot k.freeStart i) = s₁.mem (slot k.freeStart i) :=
        hkeep _ (Or.inr (inPage_slot hroot hi))
      show mem' _ = _ ∨ _ ∧ ∃ f, _ ∧ _ ∧ mem' _ = _
      rw [heq]
      exact h₁.grown.root i hi
  · exact fun a ha => (hkeep a (Or.inr ha)).trans (congrFun hmem₁ a)

end Usable

end RvKernel.VmTests
