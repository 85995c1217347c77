/-
# What `vm_map_page` writes

A call of `vm_map_page` should write nothing but page tables: the root, and pages that
`alloc_zero_page` handed out as tables.  On its way down the walk checks the valid bit of an entry
but NOT whether the entry is a leaf, so an address inside the direct map makes it take the
physical memory behind a gigapage for a table (`map_page_follows_gigapage`).  Outside the direct
map, and over a root page whose other entries were clear to begin with, every store does hit a
table, in every state that such calls can reach (`map_page_writes_tables`).
-/
import RvKernel.Mm.Init

namespace RvKernel.Mm

open Sv39 Effect

/-! ## 1. Runs, and the property -/

/-- The window of the direct map. -/
def InDirectMap (va : U64) : Prop :=
  kernelDirectMapStart ≤ va ∧ va - kernelDirectMapStart < kernelDirectMapSize

instance (va : U64) : Decidable (InDirectMap va) := inferInstanceAs (Decidable (_ ∧ _))

/-- The states reached by `vm_init_kernel` and then any calls of `vm_map_page` with arguments it
does not reject.  `P` restricts the memory at boot, `Q` the addresses of the calls. -/
inductive FrameRun (P : Mem → Prop) (Q : U64 → Prop) (k : MemoryMap) (fuel : ℕ) : Kernel → Prop
  | init {s s' : Kernel} : s.kmap = k → s.events = [] → P s.mem → initKernel fuel s = .ok () s' →
      FrameRun P Q k fuel s'
  | call {s s' : Kernel} {va pa flags : U64} {r : Int} : FrameRun P Q k fuel s →
      Acceptable va pa → Q va → vmMapPage physical va pa flags s = .ok r s' →
      FrameRun P Q k fuel s'

/-- A valid leaf at level 2 or 1 already covers `va`. -/
def CoveredAbove (s : Kernel) (va : U64) : Prop :=
  pteValid (s.mem (slot s.kernelRootPtb (vpn va 2))) = true ∧
    (pteLeaf (s.mem (slot s.kernelRootPtb (vpn va 2))) = true ∨
      pteValid (s.mem (slot (pteNextPtb (s.mem (slot s.kernelRootPtb (vpn va 2)))) (vpn va 1)))
          = true ∧
        pteLeaf (s.mem (slot (pteNextPtb (s.mem (slot s.kernelRootPtb (vpn va 2)))) (vpn va 1)))
          = true)

/-- The events of one more call. -/
def callEvents (s : Kernel) (va pa flags : U64) : List Event :=
  (final (vmMapPage physical va pa flags s)).events.drop s.events.length

/-- **The frame property of one call**: it writes tables only, and under a superpage it is refused
and writes nothing. -/
structure FrameOk (s : Kernel) (va pa flags : U64) : Prop where
  stores : ∀ a v, .store a v ∈ callEvents s va pa flags → InPage s.kernelRootPtb a ∨
    ∃ t, .zeroPage t ∈ (final (vmMapPage physical va pa flags s)).events ∧ InPage t a
  covered : CoveredAbove s va → ∃ s', vmMapPage physical va pa flags s = .ok (-1) s' ∧
    ∀ a v, .store a v ∉ callEvents s va pa flags

/-! ## 2. The invariant -/

/-- The tables form a tree outside the direct map, over pages the allocator has zeroed. -/
structure FrameInv (k : MemoryMap) (s : Kernel) : Prop where
  vm : VmInv directSlots s
  tables : TableInv directSlots k.freeStart s

section Step

variable {k : MemoryMap} {s : Kernel} {va pa : U64}

theorem directSlots_of_not_inDirectMap (hok : Acceptable va pa) (hva : ¬ InDirectMap va) :
    directSlots (vpn va 2) = false := by
  rw [Bool.eq_false_iff]
  exact fun h => hva ((directSlots_vpn_iff hok.2.2).mp h)

/-- A refusal changes nothing but the log, where it adds no store. -/
theorem refusal_eq (msg : Msg) (s : Kernel) : ∃ es, (∀ a v, .store a v ∉ es) ∧
    final (refusal msg s) = { s with events := s.events ++ es } := by
  cases hb : s.bugBehavior with
  | bugLog =>
    refine ⟨[.critical msg, .critical (.bug .vmMapPage)], by simp, ?_⟩
    simp only [run_refusal_log hb, final, Kernel.refuse, hb]
  | bugPanic =>
    refine ⟨[.critical msg], by simp, ?_⟩
    simp [refusal, run_BUG_panic, hb, final]

/-- Nothing below the root covers an address of the tree from above level 0. -/
theorem FrameInv.not_coveredAbove (h : FrameInv k s) (hS : directSlots (vpn va 2) = false) :
    ¬ CoveredAbove s va := by
  have hS2 : ¬ (([] : List ℕ) = [] ∧ directSlots (vpn va 2) = true) := by simp [hS]
  have hnonleaf : ∀ {e : U64}, IsLink e → pteLeaf e = false := by
    intro e he
    have hptr := he.isPointer
    rw [isPointer_eq, Bool.and_eq_true, Bool.not_eq_true'] at hptr
    exact hptr.2
  rintro ⟨hv2, hleaf⟩
  rw [pteValid_eq] at hv2
  have hl2 := h.vm.tree.link (by simp) tableAt_nil (vpn_lt va 2) hS2 hv2
  rcases hleaf with hleaf | ⟨hv1, hleaf⟩
  · rw [hnonleaf hl2] at hleaf
    cases hleaf
  · rw [pteNextPtb_eq] at hv1 hleaf
    rw [pteValid_eq] at hv1
    have ht1 := tableAt_cons_of_link tableAt_nil (by simp) (vpn_lt va 2) hS2 hl2
    rw [hnonleaf (h.vm.tree.link (by simp) ht1 (vpn_lt va 1) (by simp) hv1)] at hleaf
    cases hleaf

/-- **One call outside the direct map** keeps the invariant and writes tables only. -/
theorem FrameInv.call (h : FrameInv k s) (hok : Acceptable va pa) (hva : ¬ InDirectMap va)
    (flags : U64) (hex : ¬ (final (vmMapPage physical va pa flags s)).Exhausted) :
    FrameInv k (final (vmMapPage physical va pa flags s)) ∧ FrameOk s va pa flags := by
  have hS := directSlots_of_not_inDirectMap hok hva
  have hcov := h.not_coveredAbove hS
  obtain ⟨-, hrun⟩ | ⟨-, t, s₁, hg, ht, hrun⟩ | ⟨-, hexh⟩ := vmMapPage_cases h.vm hok hS flags
  · obtain ⟨es, hes, hfin⟩ := refusal_eq (.mapRemap va (s.pte0 directSlots va)) s
    rw [← hrun] at hfin
    refine ⟨?_, ⟨?_, fun hc => absurd hc hcov⟩⟩
    · rw [hfin]
      exact ⟨⟨h.vm.tree, h.vm.initialized, h.vm.next_le, h.vm.free_aligned, h.vm.free_lt,
        h.vm.free_fresh, h.vm.free_inj⟩,
        h.tables.congr (fun _ => rfl) rfl (List.prefix_append _ _)⟩
    · intro a v hm
      rw [callEvents, hfin, List.drop_left] at hm
      exact absurd hm (hes a v)
  · have htab := fun p => table_write0 (v := leafPte pa flags) hg.inv ht (vpn_lt va 0) p
    have htables := h.tables.grows hg
    obtain ⟨es, hes, -, hst, -⟩ := hg.events
    have hin : s₁.InTable directSlots (slot t (vpn va 0)) :=
      ⟨_, t, ht, inPage_slot (aligned_of_tableAt hg.inv.tree.aligned ht) (vpn_lt _ _)⟩
    -- a table is the root or was zeroed
    have hpage : ∀ a, s₁.InTable directSlots a → InPage s.kernelRootPtb a ∨
        ∃ t, .zeroPage t ∈ (final (vmMapPage physical va pa flags s)).events ∧ InPage t a := by
      rintro a ⟨p, u, hu, hau⟩
      by_cases hp : p = []
      · subst hp
        rw [Kernel.table, tableAt_nil, Option.some.injEq, hg.root] at hu
        exact Or.inl (hu ▸ hau)
      · refine Or.inr ⟨u, ?_, hau⟩
        rw [hrun]
        exact List.mem_append_left _ (htables.zeroed p u hp hu)
    refine ⟨?_, ⟨?_, fun hc => absurd hc hcov⟩⟩
    · rw [hrun]
      exact ⟨hg.inv.write0 ht (vpn_lt _ _), htables.congr htab rfl (List.prefix_append _ _)⟩
    · intro a v hm
      refine hpage a ?_
      simp only [callEvents, hrun, final, Kernel.write, hes, List.append_assoc,
        List.drop_left, List.mem_append, List.mem_singleton, Event.store.injEq] at hm
      rcases hm with hm | ⟨rfl, -⟩
      · exact hst a v hm
      · exact hin
  · exact absurd hexh hex

end Step

/-! ## 3. Every reachable state -/

theorem Exhausted.call {s s' : Kernel} {va pa flags : U64} {r : Int}
    (hrun : vmMapPage physical va pa flags s = .ok r s') (h : s.Exhausted) : s'.Exhausted := by
  have hle := (Logs.vmMapPage physical va pa flags).le s
  rw [hrun] at hle
  exact hle.subset h

/-- The invariant holds along every run that stays outside the direct map. -/
theorem FrameRun.inv {k : MemoryMap} (L : Layout k) {fuel : ℕ} (hfuel : 262144 < fuel) {s : Kernel}
    (h : FrameRun (RootClean directSlots k) (fun va => ¬ InDirectMap va) k fuel s)
    (hex : ¬ s.Exhausted) : FrameInv k s := by
  induction h with
  | init hk hev hclean hrun =>
    obtain ⟨_, s₁, hrun₁, h₁, -, -⟩ := run_initKernel directSlots_bootSlots L hfuel hk hclean hev
    rw [hrun] at hrun₁
    injection hrun₁ with _ hs
    exact hs ▸ ⟨h₁.maps.inv, h₁.tables⟩
  | call _ hok hva hrun ih =>
    have hinv := ih fun h => hex (Exhausted.call hrun h)
    have hstep := (hinv.call hok hva _ (by rw [hrun]; exact hex)).1
    rw [hrun] at hstep
    exact hstep

/-- **Outside the direct map `vm_map_page` writes tables only**, in every state reached by
`vm_init_kernel` over a clean root page and any number of such calls. -/
theorem map_page_writes_tables {k : MemoryMap} (L : Layout k) {fuel : ℕ} (hfuel : 262144 < fuel)
    {s : Kernel} (h : FrameRun (RootClean directSlots k) (fun va => ¬ InDirectMap va) k fuel s)
    {va pa : U64} (hok : Acceptable va pa) (hva : ¬ InDirectMap va) (flags : U64)
    (hex : ¬ (final (vmMapPage physical va pa flags s)).Exhausted) : FrameOk s va pa flags := by
  have hs : ¬ s.Exhausted := fun h => hex (((Logs.vmMapPage physical va pa flags).le s).subset h)
  exact ((h.inv L hfuel hs).call hok hva flags hex).2

/-- The small image at boot, over a zeroed memory, with failures logged. -/
def smallBoot : Kernel :=
  { Kernel.boot (fun _ => 0) with kmap := smallMap, bugBehavior := .bugLog }

theorem smallBoot_clean {S : ℕ → Bool} : RootClean S smallMap smallBoot.mem := by
  intro i _ _
  exact (by decide : (0 : U64).getLsbD 0 = false)

/-- The first call after `vm_init_kernel`, for an address of the lower half. -/
theorem map_page_writes_tables_low :
    ∃ s, FrameRun (RootClean directSlots smallMap) (fun va => ¬ InDirectMap va) smallMap 262145 s ∧
      FrameOk s 0x40000000 0x80000000 2 := by
  obtain ⟨_, s, hrun, hb, -, -⟩ := run_initKernel directSlots_bootSlots smallMap_layout
    lt_smallFuel (s := smallBoot) rfl smallBoot_clean rfl
  have hfr : FrameRun (RootClean directSlots smallMap) (fun va => ¬ InDirectMap va) smallMap 262145
      s := FrameRun.init rfl rfl smallBoot_clean hrun
  have hnext := hb.next_le smallMap_layout
  have hok : Acceptable 0x40000000 0x80000000 := by decide
  have hex := vmMapPage_not_exhausted hb.maps.inv hok (by decide) 2
    (by unfold allocListSize; omega) (hb.quiet _)
  exact ⟨s, hfr, map_page_writes_tables smallMap_layout (by norm_num) hfr hok (by decide) 2
    hex⟩

/-! ## 4. Inside the direct map -/

/-- What lies below the end of the image is not touched by `vm_init_kernel`. -/
theorem mem_initKernel_of_lt {k : MemoryMap} {fuel : ℕ} {s s' : Kernel} {done : List Call}
    (hrun : initKernel fuel s = .ok () s') (h : BootInv directSlots k s' done) {a : U64}
    (ha : a.toNat < k.freeStart.toNat) : s'.mem a = s.mem a := by
  by_contra hne
  have hlog := (Logs.initKernel fuel).change s a
  rw [hrun] at hlog
  obtain ⟨v, hv⟩ := hlog hne
  have := h.stores a v hv
  omega

/-- The walk takes the gigapage that holds the image for a table, and links a fresh page at the
image's first word. -/
theorem run_vmMapPage_gigapage {s : Kernel} {done : List Call}
    (h : BootInv directSlots smallMap s done) (hd : DirectMapped s) (hm : s.mem 0x80000000 = 0) :
    ∃ s', vmMapPage physical 0xffffffc080000000 0x80000000 2 s = .ok 0 s' ∧ ¬ s'.Exhausted ∧
      ∃ v, .store 0x80000000 v ∈ s'.events.drop s.events.length := by
  have hnext := h.next_le smallMap_layout
  have hlt := h.maps.inv.next_lt
  have hc := h.maps.inv.free_aligned _ (Nat.le_refl _) hlt
  have hn : s.alloc.next ≠ allocListSize - 1 := by
    unfold allocListSize
    omega
  -- the leaf for the third GiB
  have hpte : s.mem (slot s.kernelRootPtb 258) = directMapPte 2 := hd 2 (by norm_num)
  have hdesc : descend physical (slot s.kernelRootPtb 258) s = .ok 0x80000000 s := by
    have hvalid : pteValid (directMapPte 2) = true := by decide
    have htarget : pteNextPtb (directMapPte 2) = 0x80000000 := by decide
    simp only [descend, Effect.run_bind, run_load_physical, hpte, hvalid, Bool.not_true,
      Bool.false_eq_true, if_false, Effect.run_pure, htarget]
  have hv : (s.mem 0x80000000).getLsbD 0 = false := by
    rw [hm]
    rfl
  obtain ⟨mem', es, hfresh, hzero, -, hes⟩ :=
    run_descend_fresh h.maps.inv.initialized hn hc (h.maps.inv.free_lt _ (Nat.le_refl _) hlt) hv
  -- the fresh page is no page of the image
  have hpage : ¬ InPage (s.alloc.list s.alloc.next) 0x80000000 := by
    have hstart : smallMap.freeStart.toNat = 0x80010000 := by decide
    rw [h.tables.list _ (Nat.le_refl _) hlt, InPage, toNat_pageAt (by decide) hlt, hstart]
    change ¬ (0x80000 = _)
    omega
  have hslot : slot (s.alloc.list s.alloc.next) 0 ≠ 0x80000000 := fun he =>
    hpage (he ▸ inPage_slot hc (by norm_num))
  obtain ⟨s₂, hfresh₂, hz, es₂, hes₂, hcrit, v, hv₂⟩ : ∃ s₂,
      descend physical 0x80000000 s = .ok (s.alloc.list s.alloc.next) s₂ ∧
      s₂.mem (slot (s.alloc.list s.alloc.next) 0) = 0 ∧ ∃ es₂, s₂.events = s.events ++ es₂ ∧
      (∀ msg, .critical msg ∉ es₂) ∧ ∃ v, .store 0x80000000 v ∈ es₂ := by
    refine ⟨_, hfresh, (Function.update_of_ne hslot _ _).trans (hzero 0 (by norm_num)),
      es ++ [.zeroPage (s.alloc.list s.alloc.next)] ++
        [.store 0x80000000 (mkPte ((s.alloc.list s.alloc.next).toNat / 4096) 1)],
      by simp only [Kernel.write, List.append_assoc], ?_, _,
      List.mem_append_right _ (List.mem_singleton.mpr rfl)⟩
    intro msg hmsg
    simp only [List.mem_append, List.mem_singleton, reduceCtorEq, or_false] at hmsg
    obtain ⟨a, ha, -⟩ := hes _ hmsg
    cases ha
  refine ⟨s₂.write (slot (s.alloc.list s.alloc.next) 0) (leafPte 0x80000000 2), ?_, ?_, v, ?_⟩
  · have hvpn₂ : vpn 0xffffffc080000000 2 = 258 := by decide
    have hvpn₁ : vpn 0xffffffc080000000 1 = 0 := by decide
    have hvpn₀ : vpn 0xffffffc080000000 0 = 0 := by decide
    have hfirst : slot 0x80000000 0 = 0x80000000 := by decide
    rw [vmMapPage_of_acceptable (by decide), vmMapLoop, Effect.run_bind,
      run_vaGetIndex _ (by norm_num)]
    simp only [ptbGetPtep_eq, hvpn₂]
    rw [Effect.run_bind, hdesc]
    simp only []
    rw [vmMapLoop, Effect.run_bind, run_vaGetIndex _ (by norm_num)]
    simp only [ptbGetPtep_eq, hvpn₁, hfirst]
    rw [Effect.run_bind, hfresh₂]
    simp only []
    rw [vmMapLoop, Effect.run_bind, run_vaGetIndex _ (by norm_num)]
    simp only [ptbGetPtep_eq, hvpn₀]
    exact run_mapLeaf_new (by rw [hz]; rfl)
  · simp only [Kernel.Exhausted, Kernel.write, hes₂, List.mem_append, List.mem_singleton,
      reduceCtorEq, or_false, not_or]
    exact ⟨h.quiet _, hcrit _⟩
  · simp only [Kernel.write, hes₂, List.append_assoc, List.drop_left]
    exact List.mem_append_left _ hv₂

/-- **An address inside the direct map breaks the frame.**  After `vm_init_kernel` for the small
image, mapping `0xffffffc080000000`, which a gigapage leaf already covers, is not refused: the call
returns 0, having overwritten the first word of the kernel image. -/
theorem map_page_follows_gigapage :
    ∃ s, FrameRun (fun _ => True) (fun _ => True) smallMap 262145 s ∧
      Acceptable 0xffffffc080000000 0x80000000 ∧
      ¬ (final (vmMapPage physical 0xffffffc080000000 0x80000000 2 s)).Exhausted ∧
      CoveredAbove s 0xffffffc080000000 ∧
      (∃ v, .store 0x80000000 v ∈ callEvents s 0xffffffc080000000 0x80000000 2) ∧
      ¬ FrameOk s 0xffffffc080000000 0x80000000 2 := by
  obtain ⟨_, s, hrun, hb, hroot, hd, -⟩ := run_initKernel directSlots_bootSlots smallMap_layout
    lt_smallFuel (s := smallBoot) rfl smallBoot_clean rfl
  have hm : s.mem 0x80000000 = 0 := mem_initKernel_of_lt hrun hb (by decide)
  obtain ⟨s', hcall, hex, v, hv⟩ := run_vmMapPage_gigapage hb hd hm
  have hcov : CoveredAbove s 0xffffffc080000000 := by
    have hpte : s.mem (slot s.kernelRootPtb (vpn 0xffffffc080000000 2)) = directMapPte 2 :=
      hd 2 (by norm_num)
    rw [CoveredAbove, hpte]
    exact ⟨by decide, Or.inl (by decide)⟩
  refine ⟨s, FrameRun.init rfl rfl trivial hrun, by decide, ?_, hcov, ⟨v, ?_⟩, ?_⟩
  · rw [hcall]
    exact hex
  · rw [callEvents, hcall]
    exact hv
  · intro hok
    obtain ⟨s'', hcall', -⟩ := hok.covered hcov
    rw [hcall] at hcall'
    injection hcall' with hr
    exact absurd hr (by decide)

end RvKernel.Mm
