/-
# When `vm_map_page` refuses, and when it should

With `BUG_LOG` a failed call prints its complaint and returns.  Two questions about that:

* §2: with pages to spare, which calls return -1, and what do they leave behind?  The check for a
  remapped address comes LAST, when the walk may have created tables on the way; but a walk that
  has created a table ends in a zeroed page, so a call that is refused there has created none
  (`map_page_refuses_exactly`).  The tables need not be in order elsewhere: only the entries on the
  path of the address matter, and superpages beside it are welcome.
* §3: without a page to spare, is the caller told?  `alloc_get_page` returns 0, but
  `alloc_zero_page` clears the page at 0 all the same, and the walk installs a pointer to it
  (`alloc_failure_unnoticed`), whichever way pointers are translated.
-/
import RvKernel.Mm.MapRun

namespace RvKernel.Mm

open Sv39

/-! ## 1. The range check in bits -/

/-- Bits 63:38 of an address are all equal: it is a sign-extended 39-bit number. -/
def SignExtended (va : U64) : Prop := ∀ i, 38 ≤ i → i < 64 → va.getLsbD i = va.getLsbD 38

/-- A word with its bits 63:38 clear is small. -/
theorem toNat_lt_of_high_clear {x : U64} (h : ∀ i, 38 ≤ i → i < 64 → x.getLsbD i = false) :
    x.toNat < 2 ^ 38 := by
  refine Nat.lt_pow_two_of_testBit _ fun i hi => ?_
  by_cases h64 : i < 64
  · exact h i hi h64
  · exact BitVec.getLsbD_of_ge x i (by omega)

/-- **The two ranges of the source are the sign-extended addresses.** -/
theorem canonical_iff_signExtended (va : U64) : Canonical va ↔ SignExtended va := by
  have hlt := va.isLt
  have hnot : (~~~va).toNat = 2 ^ 64 - 1 - va.toNat := BitVec.toNat_not
  have hclear : ∀ {x : U64}, x.toNat < 2 ^ 38 → ∀ i, 38 ≤ i → x.getLsbD i = false := by
    intro x hx i hi
    exact Nat.testBit_lt_two_pow (lt_of_lt_of_le hx (Nat.pow_le_pow_right (by norm_num) hi))
  constructor
  · rintro (hlow | hhigh) i hi h64
    · rw [hclear hlow i hi, hclear hlow 38 (le_refl _)]
    · have hx : (~~~va).toNat < 2 ^ 38 := by omega
      have h1 := hclear hx i hi
      have h2 := hclear hx 38 (le_refl _)
      rw [BitVec.getLsbD_not] at h1 h2
      simp only [h64, decide_true, Bool.true_and, Bool.not_eq_false', show 38 < 64 by norm_num]
        at h1 h2
      rw [h1, h2]
  · intro h
    cases h38 : va.getLsbD 38 with
    | false => exact Or.inl (toNat_lt_of_high_clear fun i hi h64 => (h i hi h64).trans h38)
    | true =>
      have hx : (~~~va).toNat < 2 ^ 38 := toNat_lt_of_high_clear fun i hi h64 => by
        rw [BitVec.getLsbD_not, h i hi h64, h38]
        simp
      exact Or.inr (by omega)

/-! ## 2. Refusals with pages to spare -/

/-- **What a call for `va` needs of the state**: two pages to hand out, neither of them a table,
and no superpage on the path of `va`. -/
structure MapReady (va : U64) (s : Kernel) : Prop where
  root_aligned : Aligned s.kernelRootPtb
  initialized : s.alloc.initialized = true
  spare : s.alloc.next + 2 ≤ allocListSize - 1
  aligned : ∀ n, s.alloc.next ≤ n → n < s.alloc.next + 2 → Aligned (s.alloc.list n)
  below : ∀ n, s.alloc.next ≤ n → n < s.alloc.next + 2 → (s.alloc.list n).toNat < 2 ^ 56
  fresh : ∀ n, s.alloc.next ≤ n → n < s.alloc.next + 2 →
    ∀ p, s.table noSlots p ≠ some (s.alloc.list n)
  distinct : s.alloc.list s.alloc.next ≠ s.alloc.list (s.alloc.next + 1)
  no_superpage : ∀ q t i, OnPath va (i :: q) → s.table noSlots q = some t →
    (s.mem (slot t i)).getLsbD 0 = true → isPointer (s.mem (slot t i)) = true

section MapReady

variable {va pa flags : U64} {s : Kernel}

/-- No table on the way, no level-0 entry. -/
theorem pte0_of_no_table (h : s.table noSlots [vpn va 1, vpn va 2] = none) :
    s.pte0 noSlots va = 0 := by
  rw [Kernel.pte0, entry0, show tableAt noSlots s.mem s.kernelRootPtb _ = none from h]

theorem tableAt_none_cons {i : ℕ} {q : List ℕ} (h : s.table noSlots q = none) :
    s.table noSlots (i :: q) = none := by
  cases ht : s.table noSlots (i :: q) with
  | none => rfl
  | some c =>
    obtain ⟨t, hq, -⟩ := tableAt_cons.mp ht
    rw [Kernel.table] at h
    rw [h] at hq
    cases hq

theorem OnPath.lt {i : ℕ} {q : List ℕ} (h : OnPath va (i :: q)) : i < 512 ∧ q.length < 2 := by
  rcases h with h | h
  · injection h with hi hq
    subst hi hq
    exact ⟨vpn_lt va 2, by simp⟩
  · injection h with hi hq
    subst hi hq
    exact ⟨vpn_lt va 1, by simp⟩

/-- A valid entry on the path leads to the next table of the tree. -/
theorem MapReady.table_cons (h : MapReady va s) {q : List ℕ} {t : U64} {i : ℕ}
    (hp : OnPath va (i :: q)) (ht : s.table noSlots q = some t)
    (hv : (s.mem (slot t i)).getLsbD 0 = true) :
    s.table noSlots (i :: q) = some (ppnAddr (s.mem (slot t i))) := by
  have hlt := hp.lt
  exact tableAt_cons.mpr ⟨t, ht, hlt.2, hlt.1, by simp, h.no_superpage q t i hp ht hv, rfl⟩

/-- The last step, in a table whose entry for `va` is clear. -/
theorem run_vmMapLoop_zero_new {t : U64} (h : (s.mem (slot t (vpn va 0))).getLsbD 0 = false) :
    vmMapLoop physical va pa flags 0 t s
      = .ok 0 (s.write (slot t (vpn va 0)) (leafPte pa flags)) := by
  rw [vmMapLoop, Effect.run_bind, run_vaGetIndex va (by norm_num)]
  simp only [ptbGetPtep_eq]
  exact run_mapLeaf_new h

/-- One step of the loop, once its `descend` is known. -/
theorem run_vmMapLoop_succ {level : ℕ} {t c : U64} {s' : Kernel} (hl : level + 1 ≤ 2)
    (h : descend physical (slot t (vpn va (level + 1))) s = .ok c s') :
    vmMapLoop physical va pa flags (level + 1) t s = vmMapLoop physical va pa flags level c s' := by
  rw [vmMapLoop, Effect.run_bind, run_vaGetIndex va hl]
  simp only [ptbGetPtep_eq]
  rw [Effect.run_bind, h]

/-- **A walk that has to create a table succeeds**, below an entry at level 1. -/
theorem run_vmMapLoop_one_missing {t : U64} (hin : s.alloc.initialized = true)
    (hn : s.alloc.next ≠ allocListSize - 1) (hc : Aligned (s.alloc.list s.alloc.next))
    (h56 : (s.alloc.list s.alloc.next).toNat < 2 ^ 56) (hta : Aligned t)
    (hne : s.alloc.list s.alloc.next ≠ t) (hv : (s.mem (slot t (vpn va 1))).getLsbD 0 = false) :
    ∃ s', vmMapLoop physical va pa flags 1 t s = .ok 0 s' := by
  obtain ⟨s₁, hrun, hl⟩ := run_descend_links hin hn hc h56 hta (vpn_lt va 1) hne hv
  have hz : (s₁.mem (slot (s.alloc.list s.alloc.next) (vpn va 0))).getLsbD 0 = false := by
    rw [hl.zero _ (vpn_lt va 0)]
    rfl
  exact ⟨_, (run_vmMapLoop_succ (by norm_num) hrun).trans (run_vmMapLoop_zero_new hz)⟩

/-- The walk of a ready state: refused at a valid level-0 entry, successful otherwise. -/
theorem MapReady.run_loop (h : MapReady va s) (pa flags : U64) :
    ((s.pte0 noSlots va).getLsbD 0 = true ∧ vmMapLoop physical va pa flags 2 s.kernelRootPtb s
        = refusal (.mapRemap va (s.pte0 noSlots va)) s) ∨
      ((s.pte0 noSlots va).getLsbD 0 = false ∧
        ∃ s', vmMapLoop physical va pa flags 2 s.kernelRootPtb s = .ok 0 s') := by
  have hspare := h.spare
  have hn : s.alloc.next ≠ allocListSize - 1 := by omega
  have hc := h.aligned _ (Nat.le_refl _) (by omega)
  have h56 := h.below _ (Nat.le_refl _) (by omega)
  have hfresh := h.fresh _ (Nat.le_refl _) (by omega)
  have hroot : s.table noSlots [] = some s.kernelRootPtb := rfl
  cases h2 : (s.mem (slot s.kernelRootPtb (vpn va 2))).getLsbD 0 with
  | false =>
    -- both tables are missing
    have hnone : s.table noSlots [vpn va 2] = none := tableAt_cons_of_invalid hroot h2
    refine Or.inr ⟨by rw [pte0_of_no_table (tableAt_none_cons hnone)]; rfl, ?_⟩
    have hne : s.alloc.list s.alloc.next ≠ s.kernelRootPtb := fun he =>
      hfresh [] (by rw [he]; exact hroot)
    obtain ⟨s₁, hrun, hl⟩ :=
      run_descend_links h.initialized hn hc h56 h.root_aligned (vpn_lt va 2) hne h2
    have hlist : s₁.alloc.list s₁.alloc.next = s.alloc.list (s.alloc.next + 1) := by
      have hnext : s₁.alloc.next = s.alloc.next + 1 := by
        rw [hl.alloc]
        rfl
      rw [hnext]
      exact hl.list_eq _ (Nat.le_refl _)
    obtain ⟨s', hs'⟩ : ∃ s', vmMapLoop physical va pa flags 1 (s.alloc.list s.alloc.next) s₁
        = .ok 0 s' :=
      run_vmMapLoop_one_missing (by rw [hl.alloc]; exact h.initialized)
        (by rw [hl.alloc]; simp only [AllocT.pop]; omega)
        (by rw [hlist]; exact h.aligned _ (by omega) (by omega))
        (by rw [hlist]; exact h.below _ (by omega) (by omega)) hc
        (by rw [hlist]; exact h.distinct.symm) (by rw [hl.zero _ (vpn_lt va 1)]; rfl)
    exact ⟨s', (run_vmMapLoop_succ (by norm_num) hrun).trans hs'⟩
  | true =>
    have ht1 := h.table_cons (Or.inl rfl) hroot h2
    have hta := aligned_of_tableAt h.root_aligned ht1
    rw [run_vmMapLoop_succ (by norm_num) (run_descend_follow h2)]
    cases h1 : (s.mem (slot (ppnAddr (s.mem (slot s.kernelRootPtb (vpn va 2)))) (vpn va 1))).getLsbD
        0 with
    | false =>
      have hnone : s.table noSlots [vpn va 1, vpn va 2] = none := tableAt_cons_of_invalid ht1 h1
      refine Or.inr ⟨by rw [pte0_of_no_table hnone]; rfl, ?_⟩
      exact run_vmMapLoop_one_missing h.initialized hn hc h56 hta
        (fun he => hfresh [vpn va 2] (by rw [he]; exact ht1)) h1
    | true =>
      have ht0 := h.table_cons (Or.inr rfl) ht1 h1
      rw [run_vmMapLoop_succ (by norm_num) (run_descend_follow h1), pte0_of_table ht0]
      cases h0 : (s.mem (slot (ppnAddr (s.mem (slot (ppnAddr (s.mem (slot s.kernelRootPtb
          (vpn va 2)))) (vpn va 1)))) (vpn va 0))).getLsbD 0 with
      | false => exact Or.inr ⟨rfl, _, run_vmMapLoop_zero_new h0⟩
      | true =>
        refine Or.inl ⟨rfl, ?_⟩
        rw [vmMapLoop, Effect.run_bind, run_vaGetIndex va (by norm_num)]
        simp only [ptbGetPtep_eq]
        exact run_mapLeaf_valid h0

/-- **`vm_map_page` refuses exactly what it should, and a refusal changes nothing.** -/
theorem map_page_refuses_exactly (h : MapReady va s) (hb : s.bugBehavior = .bugLog)
    (pa flags : U64) :
    ∃ r s', vmMapPage physical va pa flags s = .ok r s' ∧ (r = 0 ∨ r = -1) ∧
      (r = -1 ↔ ¬ Aligned va ∨ ¬ Aligned pa ∨ ¬ SignExtended va ∨
        (s.pte0 noSlots va).getLsbD 0 = true) ∧
      (r = -1 → s'.mem = s.mem ∧ s'.alloc = s.alloc) := by
  by_cases hok : Acceptable va pa
  · rw [vmMapPage_of_acceptable hok]
    have hargs : ¬ (¬ Aligned va ∨ ¬ Aligned pa ∨ ¬ SignExtended va) := by
      rw [← canonical_iff_signExtended]
      have := hok
      unfold Acceptable at this
      tauto
    obtain ⟨hv, hrun⟩ | ⟨hv, s', hrun⟩ := h.run_loop pa flags
    · rw [hrun, run_refusal_log hb]
      exact ⟨-1, _, rfl, Or.inr rfl, by tauto, fun _ => ⟨rfl, rfl⟩⟩
    · refine ⟨0, s', hrun, Or.inl rfl, ?_, fun hr => absurd hr (by decide)⟩
      rw [hv]
      refine ⟨fun hr => absurd hr (by decide), fun hr => ?_⟩
      exact absurd (show ¬ Aligned va ∨ ¬ Aligned pa ∨ ¬ SignExtended va by simpa using hr) hargs
  · obtain ⟨msg, -, hrun⟩ := vmMapPage_of_not_acceptable hok physical flags s
    rw [hrun, run_refusal_log hb]
    refine ⟨-1, _, rfl, Or.inr rfl, ?_, fun _ => ⟨rfl, rfl⟩⟩
    rw [← canonical_iff_signExtended]
    unfold Acceptable at hok
    tauto

/-- The well-formed states of the early-boot regime are ready for every address. -/
theorem VmInv.mapReady (h : VmInv noSlots s) (hn : s.alloc.next + 2 ≤ allocListSize - 1)
    (va : U64) : MapReady va s where
  root_aligned := h.tree.aligned
  initialized := h.initialized
  spare := hn
  aligned n h1 h2 := h.free_aligned n h1 (by omega)
  below n h1 h2 := h.free_lt n h1 (by omega)
  fresh n h1 h2 := h.free_fresh n h1 (by omega)
  distinct heq := by
    have := h.free_inj _ _ (Nat.le_refl _) (by omega) (Nat.le_succ _) (by omega) heq
    omega
  no_superpage q t i hp ht hv := by
    have hlt : i < 512 ∧ q.length < 2 := hp.lt
    exact (h.tree.link hlt.2 ht hlt.1 (by simp) hv).isPointer

end MapReady

/-- A page is mapped, by two new tables; the second mapping of its address is refused, and changes
nothing of the first. -/
theorem map_page_refuses_exactly_remap : ∃ s₁ s₂,
    vmMapPage physical 0xabcde000 0x80000000 6 earlyBootExample = .ok 0 s₁ ∧
      s₁.alloc.next = 2 ∧ vmMapPage physical 0xabcde000 0x80001000 2 s₁ = .ok (-1) s₂ ∧
      s₂.mem = s₁.mem ∧ s₂.alloc = s₁.alloc := by
  have hbegin := earlyBootExample_earlyBoot.runInv
  have hok : Acceptable 0xabcde000 0x80000000 := by decide
  have hinvalid := hbegin.maps.invalid hok.2.2 (by simp)
  obtain ⟨r, s₁, hmap, hr, hiff, -⟩ := map_page_refuses_exactly
    (hbegin.maps.inv.mapReady (by decide) 0xabcde000) rfl 0x80000000 6
  obtain rfl : r = 0 := by
    refine hr.resolve_right fun hneg => ?_
    have hbad := hiff.mp hneg
    rw [← canonical_iff_signExtended, hinvalid] at hbad
    revert hbad
    decide
  have hnext : s₁.alloc.next = 2 := by
    have hfinal : (final (vmMapPage physical 0xabcde000 0x80000000 6 earlyBootExample)).alloc.next
        = 2 := by decide +kernel
    rwa [hmap] at hfinal
  -- the page is in the tables now
  have hsafe := vmMapPage_not_exhausted hbegin.maps.inv hok rfl 6 (by decide)
    (show Event.critical _ ∉ [] by simp)
  obtain ⟨_, _, hcall, h₁⟩ := hbegin.call (c := ⟨0xabcde000, 0x80000000, 6⟩)
    ⟨by decide, by decide, by decide⟩ hsafe
  injection hmap.symm.trans hcall with h0 hs
  subst h0 hs
  have hvalid := congrArg (·.getLsbD 0) (h₁.maps.mapped _ List.mem_cons_self)
  obtain ⟨r₂, s₂, hremap, -, hiff₂, hsame⟩ := map_page_refuses_exactly
    (h₁.maps.inv.mapReady (by rw [hnext]; decide) 0xabcde000) h₁.log 0x80001000 2
  obtain rfl : r₂ = -1 :=
    hiff₂.mpr (Or.inr (Or.inr (Or.inr (hvalid.trans (leafPte_valid _ _)))))
  exact ⟨s₁, s₂, hmap, hnext, hremap, hsame rfl⟩

/-! ## 3. No page to spare -/

/-- `alloc_get_page` has nothing to hand out. -/
def AllocFails (s : Kernel) : Prop :=
  s.alloc.initialized = false ∨ s.alloc.next = allocListSize - 1

/-- The events a call adds. -/
def newEvents {α : Type} (x : KM α) (s : Kernel) : List Event :=
  (final (x s)).events.drop s.events.length

/-- What `alloc.h` says of a failed `alloc_zero_page`: it returns 0 and touches nothing. -/
def ZeroPageRefuses (mmu : Mmu) (s : Kernel) : Prop :=
  ∃ s', allocZeroPage mmu s = .ok 0 s' ∧ ∀ a v, .store a v ∉ newEvents (allocZeroPage mmu) s

/-- What `mm.h` says of a failed `vm_map_page`: it returns -1, and no word it stores is a valid
entry. -/
def MapRefuses (mmu : Mmu) (s : Kernel) (va pa flags : U64) : Prop :=
  ∃ s', vmMapPage mmu va pa flags s = .ok (-1) s' ∧
    ∀ a v, .store a v ∈ newEvents (vmMapPage mmu va pa flags) s → pteValid v = false

/-- Some entry above level 0 on the walk for `va` is invalid, all those before it being valid: a
table is missing. -/
def needsTable (mmu : Mmu) (m : Mem) (va : U64) : ℕ → U64 → Bool
  | 0, _ => false
  | level + 1, ptb =>
    match mmu m (slot ptb (vpn va (level + 1))) with
    | none => false
    | some a => if pteValid (m a) then needsTable mmu m va level (pteNextPtb (m a)) else true

section Fails

variable {mmu : Mmu} {s : Kernel}

theorem run_allocGetPage_fails (hb : s.bugBehavior = .bugLog) (h : AllocFails s) :
    ∃ msg, allocGetPage s = .ok 0 (s.refuse msg .allocGetPage) := by
  cases hi : s.alloc.initialized with
  | false =>
    refine ⟨.allocUninitialized, ?_⟩
    simp only [allocGetPage, Effect.run_bind, Effect.run_get, hi]
    exact run_critical_BUG hb _ _ _
  | true =>
    have hn : s.alloc.next = allocListSize - 1 := h.resolve_left (by simp [hi])
    exact ⟨_, run_allocGetPage_exhausted hb hi hn⟩

/-- An event logged early is still there at the end. -/
theorem mem_newEvents {α : Type} {x : KM α} (es : List Event) {e : Event}
    (h : s.events ++ es <+: (final (x s)).events) (he : e ∈ es) : e ∈ newEvents x s := by
  obtain ⟨rest, hrest⟩ := h
  rw [newEvents, ← hrest, List.append_assoc, List.drop_left]
  exact List.mem_append_left _ he

/-- A computation that stops, or else logs the event `e` somewhere. -/
def StopsOrLogs {α : Type} (x : KM α) (s : Kernel) (e : U64 → Event) : Prop :=
  (∃ err s', x s = .error err s') ∨ ∃ a, e a ∈ newEvents x s

/-- What the first part of a computation logs, the whole of it has logged. -/
theorem StopsOrLogs.bind {α β : Type} {x : KM α} {f : α → KM β} {e : U64 → Event} (hx : Logs x)
    (hf : ∀ r, Logs (f r)) (h : StopsOrLogs x s e) : StopsOrLogs (x >>= f) s e := by
  rcases h with ⟨err, s', hrun⟩ | ⟨a, ha⟩
  · exact Or.inl ⟨err, s', Effect.bind_of_error hrun _⟩
  · refine Or.inr ⟨a, ?_⟩
    obtain ⟨es, hes⟩ := hx.le s
    rw [newEvents, ← hes, List.drop_left] at ha
    refine mem_newEvents es ?_ ha
    rw [hes, Effect.run_bind]
    cases hr : x s with
    | ok r s' => exact (hf r).le s'
    | error err s' => exact List.prefix_rfl

/-- What the second part logs, the whole of it has logged. -/
theorem StopsOrLogs.of_ok {α β : Type} {x : KM α} {f : α → KM β} {e : U64 → Event} {r : α}
    {s' : Kernel} (hx : Logs x) (hrun : x s = .ok r s') (h : StopsOrLogs (f r) s' e) :
    StopsOrLogs (x >>= f) s e := by
  have hbind : (x >>= f) s = f r s' := Effect.bind_of_ok hrun _
  have hle := hx.le s
  rw [hrun] at hle
  rcases h with ⟨err, s'', herr⟩ | ⟨a, ha⟩
  · exact Or.inl ⟨err, s'', hbind.trans herr⟩
  · refine Or.inr ⟨a, ?_⟩
    rw [newEvents, hbind]
    exact (List.drop_sublist_drop_left _ hle.length_le).subset ha

theorem StopsOrLogs.store (ptr val : U64) :
    StopsOrLogs (Mm.store mmu ptr val) s (.store · val) := by
  cases h : mmu s.mem ptr with
  | none =>
    refine Or.inl ⟨.fault ptr, s, ?_⟩
    simp only [Mm.store, Effect.run_bind, Effect.run_get, h, Effect.run_throw]
  | some a =>
    refine Or.inr ⟨a, mem_newEvents [.store a val] ?_ (List.mem_singleton.mpr rfl)⟩
    rw [run_store h]
    exact List.prefix_rfl

/-- A failed `alloc_zero_page` writes to the page at 0, or faults there. -/
theorem allocZeroPage_writes (hb : s.bugBehavior = .bugLog) (h : AllocFails s) :
    StopsOrLogs (allocZeroPage mmu) s (.store · 0) := by
  obtain ⟨msg, hget⟩ := run_allocGetPage_fails hb h
  refine StopsOrLogs.of_ok Logs.allocGetPage hget ?_
  refine StopsOrLogs.bind (Logs.memset _ _ _ _)
    (fun _ => (Logs.emit _).bind fun _ => Logs.pure _) ?_
  exact (StopsOrLogs.store 0 (fillWord 0)).bind (Logs.store _ _ _) fun _ => Logs.memset _ _ _ _

/-- The entry that stands for a table at physical address 0. -/
theorem linkPte_zero : pteFromPpn (physToPpn 0) &&& ~~~PTE.leaf ||| PTE.valid = 1 := by decide

/-- A step of the walk that needs a page installs a pointer to the page at 0, or faults. -/
theorem descend_links_zero (hb : s.bugBehavior = .bugLog) (h : AllocFails s) {ptep a : U64}
    (ha : mmu s.mem ptep = some a) (hv : pteValid (s.mem a) = false) :
    StopsOrLogs (descend mmu ptep) s (.store · 1) := by
  refine StopsOrLogs.of_ok (Logs.load _ _) (run_load ha) ?_
  simp only [hv, Bool.not_false, if_true]
  cases hz : allocZeroPage mmu s with
  | error err s' => exact Or.inl ⟨err, s', Effect.bind_of_error hz _⟩
  | ok c s' =>
    -- the page `alloc_zero_page` returns is the 0 it was given
    obtain rfl : c = 0 := by
      obtain ⟨msg, hget⟩ := run_allocGetPage_fails hb h
      obtain ⟨p, s₁, hp, hrest⟩ := Effect.bind_eq_ok.mp hz
      rw [hget] at hp
      injection hp with hp _
      obtain ⟨_, _, -, hrest⟩ := Effect.bind_eq_ok.mp hrest
      obtain ⟨_, _, -, hrest⟩ := Effect.bind_eq_ok.mp hrest
      injection hrest with hc _
      exact hc.symm.trans hp.symm
    refine StopsOrLogs.of_ok (Logs.allocZeroPage _) hz ?_
    simp only [linkPte_zero]
    exact (StopsOrLogs.store ptep 1).bind (Logs.store _ _ _) fun _ => Logs.pure _

/-- The walk follows valid entries, changing nothing, until it needs a page. -/
theorem vmMapLoop_links_zero (hb : s.bugBehavior = .bugLog) (h : AllocFails s)
    (va pa flags : U64) : ∀ (level : ℕ) (ptb : U64), level ≤ 2 →
      needsTable mmu s.mem va level ptb = true →
      StopsOrLogs (vmMapLoop mmu va pa flags level ptb) s (.store · 1)
  | 0, _, _, hneed => absurd hneed (by simp [needsTable])
  | level + 1, ptb, hl, hneed => by
    refine StopsOrLogs.of_ok (Logs.vaGetIndex _ _) (run_vaGetIndex va hl s) ?_
    rw [ptbGetPtep_eq]
    rw [needsTable] at hneed
    cases ha : mmu s.mem (slot ptb (vpn va (level + 1))) with
    | none =>
      rw [ha] at hneed
      exact absurd hneed (by simp)
    | some a =>
      rw [ha] at hneed
      simp only at hneed
      cases hv : pteValid (s.mem a) with
      | false =>
        exact (descend_links_zero hb h ha hv).bind (Logs.descend _ _) fun _ =>
          Logs.vmMapLoop _ _ _ _ _ _
      | true =>
        rw [hv, if_pos rfl] at hneed
        have hrun : descend mmu (slot ptb (vpn va (level + 1))) s
            = .ok (pteNextPtb (s.mem a)) s := by
          rw [descend, Effect.bind_of_ok (run_load ha)]
          simp [hv]
        exact StopsOrLogs.of_ok (Logs.descend _ _) hrun
          (vmMapLoop_links_zero hb h va pa flags level _ (by omega) hneed)

/-- **A failed allocation goes unnoticed**, always: `alloc_zero_page` never returns 0 without
having written to memory, and a `vm_map_page` that needs a table never returns -1 without having
installed a pointer to the page at 0. -/
theorem alloc_failure_unnoticed (hb : s.bugBehavior = .bugLog) (h : AllocFails s) :
    ¬ ZeroPageRefuses mmu s ∧ ∀ va pa flags, Acceptable va pa →
      needsTable mmu s.mem va 2 s.kernelRootPtb = true → ¬ MapRefuses mmu s va pa flags := by
  constructor
  · rintro ⟨s', hrun, hno⟩
    have hzero : StopsOrLogs (allocZeroPage mmu) s (.store · 0) := allocZeroPage_writes hb h
    rcases hzero with ⟨err, s'', herr⟩ | ⟨a, ha⟩
    · rw [hrun] at herr
      cases herr
    · exact hno a 0 ha
  · rintro va pa flags hok hneed ⟨s', hrun, hno⟩
    have hloop := vmMapPage_of_acceptable hok mmu flags s
    rcases vmMapLoop_links_zero hb h va pa flags 2 _ (Nat.le_refl _) hneed with
      ⟨err, s'', herr⟩ | ⟨a, ha⟩
    · rw [← hloop, hrun] at herr
      cases herr
    · have hbad := hno a 1 (by rw [newEvents, hloop]; exact ha)
      exact absurd hbad (by decide)

/-- In the early-boot regime nothing faults: the step returns the table at 0, cleared. -/
theorem run_descend_zero (hb : s.bugBehavior = .bugLog) (h : AllocFails s) {ptep : U64}
    (hv : (s.mem ptep).getLsbD 0 = false) :
    ∃ s', descend physical ptep s = .ok 0 s' ∧ s'.bugBehavior = .bugLog ∧ s'.alloc = s.alloc ∧
      s'.mem ptep = 1 ∧ (∀ j < 512, slot 0 j ≠ ptep → s'.mem (slot 0 j) = 0) ∧
      ∀ a, ¬ InPage 0 a → a ≠ ptep → s'.mem a = s.mem a := by
  obtain ⟨msg, hget⟩ := run_allocGetPage_fails hb h
  obtain ⟨mem', es, hset, hzero, hframe, -⟩ :=
    run_memset_physical 512 0 (s.refuse msg .allocGetPage)
  refine ⟨Kernel.write { s.refuse msg .allocGetPage with
    mem := mem', events := (s.refuse msg .allocGetPage).events ++ es ++ [.zeroPage 0] } ptep 1,
    ?_, hb, rfl, Function.update_self _ _ _, ?_, ?_⟩
  · simp only [descend, allocZeroPage, Effect.run_bind, run_load_physical, pteValid_eq, hv,
      Bool.not_false, if_true, hget, hset, run_emit, Effect.run_pure, run_store_physical,
      linkPte_zero]
    rfl
  · intro j hj hne
    exact (Function.update_of_ne hne _ _).trans (hzero j hj)
  · intro a ha hne
    have hin : ∀ j < 512, a ≠ slot 0 j := by
      rintro j hj rfl
      exact ha (inPage_slot (by decide) hj)
    exact (Function.update_of_ne hne _ _).trans (hframe a hin)

end Fails

/-- Every page is out: the allocator has reached the last entry of its list. -/
def noPages : Kernel :=
  { Kernel.boot (fun _ => 0) with
    kernelRootPtb := 0x80200000
    bugBehavior := .bugLog
    alloc := { list := fun _ => 0, next := allocListSize - 1, initialized := true } }

/-- The first call for an address of the second GiB, with every page out. -/
theorem alloc_failure_unnoticed_noPages :
    ¬ ZeroPageRefuses physical noPages ∧ ¬ MapRefuses physical noPages 0x40200000 0x80000000 2 := by
  have hfail : AllocFails noPages := Or.inr rfl
  constructor
  · exact (alloc_failure_unnoticed rfl hfail).1
  · exact (alloc_failure_unnoticed rfl hfail).2 _ _ _ (by decide) (by decide)

/-- **Success is reported with the page at 0 for a table.**  With every page out, mapping
`0x40200000` returns 0, and the root now holds a pointer to physical address 0. -/
theorem map_page_links_page_zero :
    AllocFails noPages ∧ Acceptable 0x40200000 0x80000000 ∧
      needsTable physical noPages.mem 0x40200000 2 noPages.kernelRootPtb = true ∧
      ∃ s', vmMapPage physical 0x40200000 0x80000000 2 noPages = .ok 0 s' ∧
        isPointer (s'.mem (slot noPages.kernelRootPtb 1)) = true ∧
        ppnAddr (s'.mem (slot noPages.kernelRootPtb 1)) = 0 := by
  refine ⟨Or.inr rfl, by decide, by decide, ?_⟩
  have hv2 : vpn 0x40200000 2 = 1 := by decide
  have hv1 : vpn 0x40200000 1 = 1 := by decide
  have hv0 : vpn 0x40200000 0 = 0 := by decide
  have hclear : (noPages.mem (slot noPages.kernelRootPtb 1)).getLsbD 0 = false := rfl
  obtain ⟨s₁, hrun₁, hb₁, ha₁, hl₁, hz₁, -⟩ := run_descend_zero rfl (Or.inr rfl) hclear
  have h1 : (s₁.mem (slot 0 1)).getLsbD 0 = false := by
    rw [hz₁ 1 (by norm_num) (by decide)]
    rfl
  have hfail₁ : AllocFails s₁ := by
    rw [AllocFails, ha₁]
    exact Or.inr rfl
  obtain ⟨s₂, hrun₂, -, -, -, hz₂, hf₂⟩ := run_descend_zero hb₁ hfail₁ h1
  have h0 : (s₂.mem (slot 0 (vpn 0x40200000 0))).getLsbD 0 = false := by
    rw [hv0, hz₂ 0 (by norm_num) (by decide)]
    rfl
  have hroot : (s₂.write (slot 0 (vpn 0x40200000 0)) (leafPte 0x80000000 2)).mem
      (slot noPages.kernelRootPtb 1) = 1 := by
    have hne : slot noPages.kernelRootPtb 1 ≠ slot 0 (vpn 0x40200000 0) := by
      rw [hv0]
      decide
    calc (s₂.write (slot 0 (vpn 0x40200000 0)) (leafPte 0x80000000 2)).mem
          (slot noPages.kernelRootPtb 1)
        = s₂.mem (slot noPages.kernelRootPtb 1) :=
          Function.update_of_ne hne (leafPte 0x80000000 2) s₂.mem
      _ = s₁.mem (slot noPages.kernelRootPtb 1) := hf₂ _ (by decide) (by decide)
      _ = 1 := hl₁
  refine ⟨s₂.write (slot 0 (vpn 0x40200000 0)) (leafPte 0x80000000 2), ?_, ?_, ?_⟩
  · rw [vmMapPage_of_acceptable (by decide),
      run_vmMapLoop_succ (by norm_num) (by rw [hv2]; exact hrun₁),
      run_vmMapLoop_succ (by norm_num) (by rw [hv1]; exact hrun₂)]
    exact run_vmMapLoop_zero_new h0
  · rw [hroot]
    decide
  · rw [hroot]
    decide

end RvKernel.Mm
