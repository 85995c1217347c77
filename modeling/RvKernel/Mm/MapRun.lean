/-
# Runs of `vm_map_page` in the early-boot regime

A sequence of calls that starts from an all-zero root and a fresh allocator.  The abstract state
of such a run is the list of the calls that returned 0 so far; `MapsTo` relates it to the tables:

* the level-0 entry of every page in the list is the leaf its call stored, and
* no other page of the canonical address space has a valid level-0 entry.

One call preserves the relation (`RunInv.call`), whatever its arguments and its answer, unless the
allocator runs dry in it; and the relation determines the whole translation (`MapsTo.walk_of_mem`,
`MapsTo.walk_of_not_mem`).
-/
import RvKernel.Mm.Map

namespace RvKernel.Mm

open Sv39

/-! ## 1. Runs -/

/-- The arguments of a call of `vm_map_page`. -/
structure Call where
  va : U64
  pa : U64
  flags : U64

/-- A sequence of calls; the result lists what they returned. -/
def mapCalls : List Call → KM (List Int)
  | [] => return []
  | c :: cs => do
    let r ← vmMapPage physical c.va c.pa c.flags
    let rs ← mapCalls cs
    return r :: rs

/-- The calls that returned 0, oldest last, on top of those that did so before. -/
def succeeded (done : List Call) : List Call → List Int → List Call
  | c :: cs, r :: rs => succeeded (if r = 0 then c :: done else done) cs rs
  | _, _ => done

/-- The calls the source's callers make: a physical page an entry can name, and permissions that
give a readable leaf. -/
structure Call.Ok (c : Call) : Prop where
  pa_lt : c.pa.toNat < 2 ^ 56
  flags : FlagsRWX c.flags
  read : c.flags &&& PTE.read ≠ 0

/-- The root slots left out of the tree: none. -/
abbrev noSlots : ℕ → Bool := fun _ => false

/-! ## 2. The abstraction relation -/

/-- The tables of `s`, outside the root slots of `S`, map exactly the pages of the calls in
`done`. -/
structure MapsTo (S : ℕ → Bool) (s : Kernel) (done : List Call) : Prop where
  inv : VmInv S s
  acceptable : ∀ c ∈ done, Acceptable c.va c.pa ∧ S (vpn c.va 2) = false
  mapped : ∀ c ∈ done, s.pte0 S c.va = leafPte c.pa c.flags
  only : ∀ va, Canonical va → (s.pte0 S va).getLsbD 0 = true → ∃ c ∈ done, InPage c.va va

theorem leafPte_valid (pa flags : U64) : (leafPte pa flags).getLsbD 0 = true := by
  unfold leafPte
  rw [BitVec.getLsbD_or, show PTE.valid.getLsbD 0 = true from by decide, Bool.or_true]

section MapsTo

variable {S : ℕ → Bool} {s s₁ : Kernel} {done : List Call} {c : Call} {t : U64}

/-- A refused call changes nothing but the log. -/
theorem MapsTo.refuse (h : MapsTo S s done) (msg : Msg) (func : Func) :
    MapsTo S (s.refuse msg func) done where
  inv := ⟨h.inv.tree, h.inv.initialized, h.inv.next_le, h.inv.free_aligned, h.inv.free_lt,
    h.inv.free_fresh, h.inv.free_inj⟩
  acceptable := h.acceptable
  mapped := h.mapped
  only := h.only

/-- A call that reaches level 0 and stores its leaf there. -/
theorem MapsTo.store (h : MapsTo S s done) (hok : Acceptable c.va c.pa)
    (hS : S (vpn c.va 2) = false) (hinv : (s.pte0 S c.va).getLsbD 0 = false)
    (hg : Grows S (OnPath c.va) s s₁) (ht : s₁.table S [vpn c.va 1, vpn c.va 2] = some t) :
    MapsTo S (s₁.write (slot t (vpn c.va 0)) (leafPte c.pa c.flags)) (c :: done) := by
  have hpte : ∀ va, (s₁.write (slot t (vpn c.va 0)) (leafPte c.pa c.flags)).pte0 S va =
      if vpn va 2 = vpn c.va 2 ∧ vpn va 1 = vpn c.va 1 ∧ vpn va 0 = vpn c.va 0 then
        leafPte c.pa c.flags else s.pte0 S va := by
    intro va
    rw [Kernel.pte0, Kernel.pte0, ← hg.entry0 _ _ _ (vpn_lt va 0)]
    exact entry0_write0 hg.inv ht (vpn_lt _ _) (vpn_lt _ _)
  refine ⟨hg.inv.write0 ht (vpn_lt _ _), ?_, ?_, ?_⟩
  · intro d hd
    rcases List.mem_cons.mp hd with rfl | hd
    · exact ⟨hok, hS⟩
    · exact h.acceptable d hd
  · intro d hd
    rw [hpte]
    rcases List.mem_cons.mp hd with rfl | hd
    · exact if_pos ⟨rfl, rfl, rfl⟩
    · rw [if_neg, h.mapped d hd]
      -- an older page with the same page numbers would have been valid already
      rintro ⟨h2, h1, h0⟩
      have hsame : s.pte0 S d.va = s.pte0 S c.va := by
        rw [Kernel.pte0, Kernel.pte0, h2, h1, h0]
      rw [← hsame, h.mapped d hd, leafPte_valid] at hinv
      cases hinv
  · intro va hcan hv
    rw [hpte] at hv
    split at hv
    · rename_i heq
      exact ⟨c, List.mem_cons_self, same_page_of_vpn hcan hok.2.2 heq.1 heq.2.1 heq.2.2⟩
    · obtain ⟨d, hd, hin⟩ := h.only va hcan hv
      exact ⟨d, List.mem_cons_of_mem _ hd, hin⟩

theorem canonical_of_inPage {a b : U64} (ha : Canonical a) (h : InPage a b) : Canonical b := by
  unfold Canonical InPage at *
  have := b.isLt
  omega

/-- The translation of a page of the list is what its leaf gives. -/
theorem MapsTo.walk_eq_leaf0 (h : MapsTo S s done) (hc : c ∈ done) {va : U64}
    (hin : InPage c.va va) :
    walk s.mem s.kernelRootPtb va = leaf0 va (leafPte c.pa c.flags) := by
  obtain ⟨⟨-, -, hcan⟩, hS⟩ := h.acceptable c hc
  have hvpn : ∀ level, vpn va level = vpn c.va level := fun level => vpn_of_same_page hin level
  rw [walk_eq h.inv.tree (canonical_of_inPage hcan hin) (by rw [hvpn]; exact hS), hvpn, hvpn, hvpn,
    ← h.mapped c hc]
  rfl

/-- ...so it translates to its call's page, with its call's permissions. -/
theorem MapsTo.walk_of_mem (h : MapsTo S s done) (hc : c ∈ done) (hok : c.Ok) {va : U64}
    (hin : InPage c.va va) :
    walk s.mem s.kernelRootPtb va = some ⟨c.pa + BitVec.ofNat 64 (va.toNat % 4096), c.flags⟩ := by
  rw [h.walk_eq_leaf0 hc hin, leafPte, leafPte_eq hok.pa_lt hok.flags]
  exact leaf0_mkPte (h.acceptable c hc).1.2.1 hok.pa_lt hok.flags hok.read

/-- Every other canonical address outside `S` faults. -/
theorem MapsTo.walk_of_not_mem (h : MapsTo S s done) {va : U64} (hcan : Canonical va)
    (hS : S (vpn va 2) = false) (hout : ∀ c ∈ done, ¬ InPage c.va va) :
    walk s.mem s.kernelRootPtb va = none := by
  rw [walk_eq h.inv.tree hcan hS]
  cases hv : (s.pte0 S va).getLsbD 0 with
  | false =>
    rw [Kernel.pte0] at hv
    rw [leaf0, kind_of_invalid hv]
  | true =>
    obtain ⟨c, hc, hin⟩ := h.only va hcan hv
    exact absurd hin (hout c hc)

/-- Outside the list a canonical address has no valid level-0 entry. -/
theorem MapsTo.invalid (h : MapsTo S s done) {va : U64} (hcan : Canonical va)
    (hout : ∀ c ∈ done, ¬ InPage c.va va) : (s.pte0 S va).getLsbD 0 = false := by
  rw [Bool.eq_false_iff]
  intro hv
  obtain ⟨c, hc, hin⟩ := h.only va hcan hv
  exact hout c hc hin

end MapsTo

/-! ## 3. Runs of calls under `BUG_LOG` -/

/-- The state of a run of acceptable mappings. -/
structure RunInv (s : Kernel) (done : List Call) : Prop where
  maps : MapsTo noSlots s done
  log : s.bugBehavior = .bugLog
  ok : ∀ c ∈ done, c.Ok

theorem RunInv.refuse {s : Kernel} {done : List Call} (h : RunInv s done) (msg : Msg)
    (func : Func) : RunInv (s.refuse msg func) done :=
  ⟨h.maps.refuse msg func, h.log, h.ok⟩

/-- **One call preserves the relation**, and returns. -/
theorem RunInv.call {s : Kernel} {done : List Call} {c : Call} (h : RunInv s done) (hc : c.Ok)
    (hex : ¬ (final (vmMapPage physical c.va c.pa c.flags s)).Exhausted) :
    ∃ r s', vmMapPage physical c.va c.pa c.flags s = .ok r s' ∧
      RunInv s' (if r = 0 then c :: done else done) := by
  by_cases hok : Acceptable c.va c.pa
  · obtain ⟨-, hrun⟩ | ⟨hinv, t, s₁, hg, ht, hrun⟩ | ⟨-, hexh⟩ :=
      vmMapPage_cases h.maps.inv hok rfl c.flags
    · rw [run_refusal_log h.log] at hrun
      exact ⟨-1, _, hrun, h.refuse _ _⟩
    · refine ⟨0, _, hrun, h.maps.store hok rfl hinv hg ht, hg.bug.trans h.log, ?_⟩
      intro d hd
      rcases List.mem_cons.mp hd with rfl | hd
      · exact hc
      · exact h.ok d hd
    · exact absurd hexh hex
  · obtain ⟨msg, -, hrun⟩ := vmMapPage_of_not_acceptable hok physical c.flags s
    rw [run_refusal_log h.log] at hrun
    exact ⟨-1, _, hrun, h.refuse _ _⟩

theorem Logs.mapCalls : ∀ cs : List Call, Logs (Mm.mapCalls cs)
  | [] => Logs.pure _
  | _ :: cs => (Logs.vmMapPage _ _ _ _).bind fun _ => (Logs.mapCalls cs).bind fun _ => Logs.pure _

/-- Exhaustion in a prefix of a run shows in the whole of it. -/
theorem exhausted_mapCalls_append : ∀ {pre : List Call} {s : Kernel},
    (final (mapCalls pre s)).Exhausted → ∀ post, (final (mapCalls (pre ++ post) s)).Exhausted
  | [], s, h, post => ((Logs.mapCalls post).le s).subset h
  | c :: pre, s, h, post => by
    rw [List.cons_append, mapCalls, Effect.run_bind] at *
    cases hr : vmMapPage physical c.va c.pa c.flags s with
    | error e s₁ =>
      rw [hr] at h
      exact h
    | ok r s₁ =>
      rw [hr] at h
      simp only [] at h ⊢
      refine mem_events_bind (fun _ => Logs.pure _) (exhausted_mapCalls_append ?_ post)
      rw [Effect.run_bind] at h
      cases hr' : mapCalls pre s₁ with
      | ok rs s₂ =>
        rw [hr'] at h
        exact h
      | error e s₂ =>
        rw [hr'] at h
        exact h

/-- **A whole run preserves it.** -/
theorem RunInv.run : ∀ {cs : List Call} {s : Kernel} {done : List Call}, RunInv s done →
    (∀ c ∈ cs, c.Ok) → ¬ (final (mapCalls cs s)).Exhausted →
    ∃ rs s', mapCalls cs s = .ok rs s' ∧ rs.length = cs.length ∧
      RunInv s' (succeeded done cs rs)
  | [], s, _, h, _, _ => ⟨[], s, rfl, rfl, h⟩
  | c :: cs, s, done, h, hcs, hex => by
    obtain ⟨r, s₁, hrun, h₁⟩ := h.call (hcs c List.mem_cons_self) fun hexh =>
      hex (mem_events_bind (fun _ => (Logs.mapCalls cs).bind fun _ => Logs.pure _) hexh)
    have hex₁ : ¬ (final (mapCalls cs s₁)).Exhausted := by
      intro hexh
      refine hex ?_
      rw [mapCalls, Effect.run_bind, hrun]
      exact mem_events_bind (fun _ => Logs.pure _) hexh
    obtain ⟨rs, s', hrun', hlen, h'⟩ :=
      h₁.run (fun d hd => hcs d (List.mem_cons_of_mem _ hd)) hex₁
    refine ⟨r :: rs, s', ?_, by simp [hlen], h'⟩
    rw [mapCalls, Effect.run_bind, hrun]
    simp only []
    rw [Effect.run_bind, hrun']
    rfl

/-! ## 4. The tables as a tree -/

/-- The entry at `a`, in one of the two upper levels, is a non-leaf entry that names the page
`t`. -/
def Kernel.References (s : Kernel) (a t : U64) : Prop :=
  ∃ q u i, s.table noSlots q = some u ∧ q.length < 2 ∧ i < 512 ∧ a = slot u i ∧
    pteValid (s.mem a) = true ∧ pteLeaf (s.mem a) = false ∧ pteNextPtb (s.mem a) = t

/-- The tables form a tree over the pages the allocator has handed out. -/
structure TableTree (s : Kernel) : Prop where
  /-- every table below the root is referenced by exactly one entry -/
  unique : ∀ p t, p ≠ [] → s.table noSlots p = some t → ∃! a, s.References a t
  /-- and the root by none -/
  root : ∀ a, ¬ s.References a s.kernelRootPtb
  /-- no table is in the rest of the free list -/
  free : ∀ p t, s.table noSlots p = some t → t ∉ s.alloc.free
  /-- every valid entry above level 0 is a non-leaf -/
  nonleaf : ∀ q t i, q.length < 2 → s.table noSlots q = some t → i < 512 →
    pteValid (s.mem (slot t i)) = true → pteLeaf (s.mem (slot t i)) = false

theorem References.table {s : Kernel} {a t : U64} (h : s.References a t) :
    ∃ q u i, s.table noSlots q = some u ∧ i < 512 ∧ a = slot u i ∧
      s.table noSlots (i :: q) = some t := by
  obtain ⟨q, u, i, hu, hq, hi, rfl, hv, hl, hn⟩ := h
  refine ⟨q, u, i, hu, hi, rfl, tableAt_cons.mpr ⟨u, hu, hq, hi, by simp, ?_, ?_⟩⟩
  · rw [isPointer_eq, hv, hl]
    rfl
  · rw [← pteNextPtb_eq, hn]

theorem VmInv.tableTree {s : Kernel} (h : VmInv noSlots s) : TableTree s where
  unique := by
    intro p t hp ht
    cases p with
    | nil => exact absurd rfl hp
    | cons i q =>
      obtain ⟨u, hu, hq, hi, -, hptr, hc⟩ := tableAt_cons.mp ht
      rw [isPointer_eq, Bool.and_eq_true, Bool.not_eq_true'] at hptr
      refine ⟨slot u i, ⟨q, u, i, hu, hq, hi, rfl, hptr.1, hptr.2, ?_⟩, ?_⟩
      · rw [pteNextPtb_eq, hc]
      · intro a ha
        obtain ⟨q', u', i', hu', -, rfl, ht'⟩ := References.table ha
        have hpath := h.tree.inj _ _ _ ht' ht
        simp only [List.cons.injEq] at hpath
        obtain ⟨rfl, rfl⟩ := hpath
        have huu : some u' = some u := hu'.symm.trans hu
        rw [Option.some.injEq] at huu
        rw [huu]
  root := by
    intro a ha
    obtain ⟨q, u, i, -, -, -, ht⟩ := References.table ha
    exact absurd (h.tree.inj _ _ _ ht tableAt_nil) (by simp)
  free := by
    intro p t ht hmem
    obtain ⟨n, hn, rfl⟩ := List.mem_map.mp hmem
    rw [List.mem_range'_1] at hn
    have := h.next_le
    exact h.free_fresh n hn.1 (by unfold allocListSize at *; omega) p ht
  nonleaf := by
    intro q t i hq ht hi hv
    rw [pteValid_eq] at hv
    have hptr := (h.tree.link hq ht hi (by simp) hv).isPointer
    rw [isPointer_eq, Bool.and_eq_true, Bool.not_eq_true'] at hptr
    exact hptr.2

/-! ## 5. From an all-zero root and a fresh allocator -/

/-- The state in which a run starts. -/
structure EarlyBoot (start : U64) (s : Kernel) : Prop where
  log : s.bugBehavior = .bugLog
  fresh : ∃ s₀, allocInit start s₀ = .ok 0 s
  start_aligned : Aligned start
  pages_lt : start.toNat + allocListSize * 4096 ≤ 2 ^ 56
  root_aligned : Aligned s.kernelRootPtb
  root_zero : ∀ i < 512, s.mem (slot s.kernelRootPtb i) = 0
  root_disjoint : s.kernelRootPtb ∉ initialList start

theorem EarlyBoot.runInv {start : U64} {s : Kernel} (h : EarlyBoot start s) : RunInv s [] := by
  have hinvalid : ∀ i < 512, noSlots i = false →
      (s.mem (slot s.kernelRootPtb i)).getLsbD 0 = false := fun i hi _ => by
    rw [h.root_zero i hi]
    rfl
  have hnone : ∀ p, p ≠ [] → s.table noSlots p = none := fun p hp => tableAt_of_fresh hinvalid hp
  obtain ⟨s₀, hinit⟩ := h.fresh
  rw [run_allocInit h.start_aligned] at hinit
  injection hinit with _ hs
  have halloc := congrArg Kernel.alloc hs
  refine ⟨⟨VmInv.of_pages (Tree.of_fresh h.root_aligned hinvalid) ?_ ?_ h.start_aligned h.pages_lt
    ?_ ?_, by simp, by simp, ?_⟩, h.log, by simp⟩
  · rw [← halloc]
  · rw [← halloc]
    exact Nat.zero_le _
  · intro n _ hn
    rw [← halloc]
    exact if_pos hn
  · intro n _ hn p hp
    by_cases hp0 : p = []
    · subst hp0
      rw [tableAt_nil, Option.some.injEq] at hp
      exact h.root_disjoint (hp ▸ List.mem_map.mpr ⟨n, List.mem_range.mpr hn, rfl⟩)
    · rw [show tableAt _ _ _ p = none from hnone p hp0] at hp
      cases hp
  · intro va _ hv
    obtain ⟨t, ht⟩ := exists_table_of_pte0 hv
    rw [hnone _ (by simp)] at ht
    cases ht

theorem mem_succeeded {c : Call} : ∀ {cs : List Call} {rs : List Int} {done : List Call},
    c ∈ succeeded done cs rs ↔ c ∈ done ∨ (c, 0) ∈ cs.zip rs
  | [], _, _ => by simp [succeeded]
  | _ :: _, [], _ => by simp [succeeded]
  | d :: cs, r :: rs, done => by
    rw [succeeded, mem_succeeded, List.zip_cons_cons, List.mem_cons]
    by_cases hr : r = 0
    · subst hr
      simp only [if_true, List.mem_cons, Prod.mk.injEq, and_true]
      tauto
    · have hr' : (c, (0 : Int)) ≠ (d, r) := fun he => hr (Prod.mk.inj he).2.symm
      simp only [hr, if_false, hr', false_or]

/-- **A run of `vm_map_page` translates exactly the pages of its successful calls**, each to its
call's page with its call's permissions, and every other canonical address faults; all along the
run the tables form a tree. -/
theorem map_run_translates {start : U64} {s : Kernel} (h : EarlyBoot start s) {cs : List Call}
    (hcs : ∀ c ∈ cs, c.Ok) (hex : ¬ (final (mapCalls cs s)).Exhausted) :
    ∃ rs s', mapCalls cs s = .ok rs s' ∧ rs.length = cs.length ∧
      (∀ c va, (c, 0) ∈ cs.zip rs → InPage c.va va →
        walk s'.mem s'.kernelRootPtb va
          = some ⟨c.pa + BitVec.ofNat 64 (va.toNat % 4096), c.flags⟩) ∧
      (∀ va, Canonical va → (∀ c, (c, 0) ∈ cs.zip rs → ¬ InPage c.va va) →
        walk s'.mem s'.kernelRootPtb va = none) ∧
      ∀ pre, pre <+: cs → ∃ rs₁ s₁, mapCalls pre s = .ok rs₁ s₁ ∧ TableTree s₁ := by
  obtain ⟨rs, s', hrun, hlen, hm⟩ := h.runInv.run hcs hex
  refine ⟨rs, s', hrun, hlen, ?_, ?_, ?_⟩
  · intro c va hc hin
    have hmem : c ∈ succeeded [] cs rs := mem_succeeded.mpr (Or.inr hc)
    exact hm.maps.walk_of_mem hmem (hm.ok c hmem) hin
  · intro va hcan hout
    refine hm.maps.walk_of_not_mem hcan rfl fun c hc => hout c ?_
    simpa using mem_succeeded.mp hc
  · rintro pre ⟨post, rfl⟩
    have hex' : ¬ (final (mapCalls pre s)).Exhausted := fun hexh =>
      hex (exhausted_mapCalls_append hexh post)
    obtain ⟨rs₁, s₁, hrun₁, -, hm₁⟩ :=
      h.runInv.run (fun c hc => hcs c (List.mem_append_left _ hc)) hex'
    exact ⟨rs₁, s₁, hrun₁, hm₁.maps.inv.tableTree⟩

/-- The globals just before the first call, over a zeroed memory. -/
def earlyBootExample : Kernel :=
  { Kernel.boot (fun _ => 0) with
    kernelRootPtb := 0x80200000
    bugBehavior := .bugLog
    alloc := {
      list := fun i => if i < allocListSize then 0x80201000 + BitVec.ofNat 64 i * pageSize else 0
      next := 0
      initialized := true } }

theorem earlyBootExample_earlyBoot : EarlyBoot 0x80201000 earlyBootExample where
  log := rfl
  fresh := ⟨{ Kernel.boot (fun _ => 0) with kernelRootPtb := 0x80200000, bugBehavior := .bugLog },
    run_allocInit (by decide)⟩
  start_aligned := by decide
  pages_lt := by decide
  root_aligned := by decide
  root_zero _ _ := rfl
  root_disjoint := by
    intro hmem
    obtain ⟨i, hi, heq⟩ := List.mem_map.mp hmem
    have hnat := congrArg BitVec.toNat heq
    rw [toNat_pageAt (by decide) (List.mem_range.mp hi)] at hnat
    change 0x80201000 + i * 4096 = 0x80200000 at hnat
    omega

/-- The run that maps `0xabcde000` to `0x80000000`, readable and writable. -/
theorem map_run_translates_one_page :
    ∃ rs s', mapCalls [⟨0xabcde000, 0x80000000, 6⟩] earlyBootExample = .ok rs s' ∧ rs = [0] ∧
      walk s'.mem s'.kernelRootPtb 0xabcde123 = some ⟨0x80000123, 6⟩ ∧
      walk s'.mem s'.kernelRootPtb 0xabcdf000 = none ∧ TableTree s' := by
  have hm := earlyBootExample_earlyBoot.runInv.maps
  have hok : Acceptable 0xabcde000 0x80000000 := by decide
  have hc : ∀ c ∈ [(⟨0xabcde000, 0x80000000, 6⟩ : Call)], c.Ok := by
    intro c hc
    rw [List.mem_singleton] at hc
    subst hc
    exact ⟨by decide, by decide, by decide⟩
  have hinv := hm.invalid hok.2.2 (by simp)
  obtain ⟨hv, -⟩ | ⟨-, t, s₁, hg, -, hrun⟩ | ⟨hlt, -⟩ := vmMapPage_cases hm.inv hok rfl 6
  · rw [hv] at hinv
    exact absurd hinv (by simp)
  · have hcalls : mapCalls [⟨0xabcde000, 0x80000000, 6⟩] earlyBootExample
        = .ok [0] (s₁.write (slot t (vpn 0xabcde000 0)) (leafPte 0x80000000 6)) := by
      simp only [mapCalls, Effect.run_bind, hrun, Effect.run_pure]
    have hex : ¬ (final (mapCalls [⟨0xabcde000, 0x80000000, 6⟩] earlyBootExample)).Exhausted := by
      have hsafe := vmMapPage_not_exhausted hm.inv hok rfl 6 (by decide)
        (show Event.critical _ ∉ [] by simp)
      rw [hrun] at hsafe
      rw [hcalls]
      exact hsafe
    obtain ⟨rs, s', hrun', -, hmap, hfault, htree⟩ :=
      map_run_translates earlyBootExample_earlyBoot hc hex
    rw [hcalls] at hrun'
    injection hrun' with hrs hs
    subst hrs hs
    obtain ⟨rs₁, s₂, hrun₂, htree₂⟩ := htree _ List.prefix_rfl
    rw [hcalls] at hrun₂
    injection hrun₂ with _ hs₂
    refine ⟨_, _, hcalls, rfl, ?_, ?_, hs₂ ▸ htree₂⟩
    · exact hmap ⟨0xabcde000, 0x80000000, 6⟩ 0xabcde123 (by simp) (by decide)
    · refine hfault 0xabcdf000 (by decide) fun c hc => ?_
      simp only [List.zip_cons_cons, List.zip_nil_right, List.mem_singleton, Prod.mk.injEq,
        and_true] at hc
      subst hc
      decide
  · exact absurd hlt (by decide)

end RvKernel.Mm
