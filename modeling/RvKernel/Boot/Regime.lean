/-
# `vm_init` under the first page table (`mm.c`, `boot/init.S`)

The model of the early boot dereferences a table at its physical address.  What really happens is
that pointers go through the first table, which `vm_init_kernel` does not write.  This module runs
the same code in both regimes: as long as the tables that it builds lie in the GiB of RAM that the
first table maps, every access goes to the same word, so the runs are the same, word by word and
event by event (`vm_init_boots`).  What is proved of the early boot is then true of the machine.
-/
import RvKernel.Boot.InitTable

namespace RvKernel.Boot

open Sv39 Mm Effect

/-! ## 1. The code -/

/-- `CSR_SATP_MODE_SV39`. -/
def satpModeSv39 : U64 := 8 <<< 60

/-- `mm_init()`, whatever pointers go through. -/
def mmInitAt (mmu : Mmu) (y : Symbols) (fuel : ℕ) : KM Unit := do
  mmInitKmap y
  let kmap := (← get).kmap
  let _ ← allocInit (kmap.kernelEnd - kmap.physOffset)
  vmInitKernel mmu fuel
  modify fun s => { s with kernelRootPtb := paToVa s.kernelRootPtb }
  let freemem ← allocGetPage
  let _ ← allocInit (paToVa freemem)
  return ()

/-- `vm_init()`, which returns what it writes to `satp`. -/
def vmInit (mmu : Mmu) (y : Symbols) (fuel : ℕ) : KM U64 := do
  mmInitAt mmu y fuel
  let ptb := vaToPa (← get).kernelRootPtb
  return satpModeSv39 ||| physToPpn ptb

theorem mmInitAt_physical (y : Symbols) (fuel : ℕ) : mmInitAt physical y fuel = mmInit y fuel := by
  simp only [mmInitAt, mmInit, initKernel, bind_assoc]

/-- **Where the first table has to be**: in the image, which ends far enough below the end of the
GiB for the 520 pages that `vm_init_kernel` may take. -/
structure Room (k : MemoryMap) (ptb : U64) : Prop where
  aligned : Aligned ptb
  image : ptb.toNat + 4096 ≤ k.freeStart.toNat
  ram : k.freeStart.toNat + 520 * 4096 ≤ 0xc0000000

/-! ## 2. Accesses -/

section Access

variable {k : MemoryMap} {ptb : U64}

/-- Words behind the image are not entries of the first table. -/
theorem Room.slot_lt (R : Room k ptb) {i : ℕ} (hi : i < 512) :
    (slot ptb i).toNat < k.freeStart.toNat := by
  have himage := R.image
  rw [toNat_slot R.aligned hi]
  omega

/-- The first table stays as it is where only words behind the image change. -/
theorem Boots.of_frame (R : Room k ptb) {m m' : Mem} (h : Boots ptb m)
    (hframe : ∀ a, m' a ≠ m a → k.freeStart.toNat ≤ a.toNat) : Boots ptb m' := by
  intro i hi
  by_contra hne
  have hlow := hframe (slot ptb i) fun heq => hne (heq.trans (h i hi))
  have := R.slot_lt hi
  omega

/-- A word of RAM behind the image. -/
def Behind (k : MemoryMap) (a : U64) : Prop :=
  k.freeStart.toNat ≤ a.toNat ∧ a.toNat < 0xc0000000

theorem Boots.hardware_eq (L : Layout k) {m : Mem} (h : Boots ptb m) {a : U64}
    (ha : Behind k a) : hardware ptb m a = some a := by
  have hfree := L.toNat_freeStart
  exact hardware_boot h (by have := ha.1; omega) ha.2

theorem Boots.write (R : Room k ptb) {s : Kernel} (h : Boots ptb s.mem) {a : U64}
    (ha : Behind k a) (v : U64) : Boots ptb (s.write a v).mem := by
  refine h.of_frame R fun b hb => ?_
  by_cases hab : b = a
  · rw [hab]
    exact ha.1
  · exact absurd (Function.update_of_ne hab _ _) hb

variable (L : Layout k) (R : Room k ptb) {s : Kernel}

include L

theorem load_agree (h : Boots ptb s.mem) {a : U64} (ha : Behind k a) :
    load (hardware ptb) a s = load physical a s := by
  rw [run_load (h.hardware_eq L ha), run_load_physical]

theorem store_agree (h : Boots ptb s.mem) {a : U64} (ha : Behind k a) (v : U64) :
    store (hardware ptb) a v s = store physical a v s := by
  rw [run_store (h.hardware_eq L ha), run_store_physical]

include R

theorem memset_agree (v : U8) : ∀ (words : ℕ) (d : U64) (s : Kernel), Boots ptb s.mem →
    (∀ j < words, Behind k (slot d j)) →
    memset (hardware ptb) d v words s = memset physical d v words s
  | 0, _, _, _, _ => rfl
  | words + 1, d, s, h, hd => by
    have h0 : Behind k d := by
      have := hd 0 (Nat.succ_pos _)
      rwa [slot, Nat.mul_zero, BitVec.add_zero] at this
    refine bind_agree (store_agree L h h0 _) fun _ s' hs => ?_
    cases hs
    refine memset_agree v words (d + 8) _ (h.write R h0 _) fun j hj => ?_
    rw [slot_succ]
    exact hd (j + 1) (Nat.succ_lt_succ hj)

end Access

/-! ## 3. The walk -/

/-- The state of the early boot: the first table is in place, and the tables are the first pages
behind the image, with room for another one. -/
structure Early (S : ℕ → Bool) (k : MemoryMap) (ptb : U64) (s : Kernel) : Prop where
  boots : Boots ptb s.mem
  inv : VmInv S s
  tables : TableInv S k.freeStart s
  small : s.alloc.next ≤ 519

section Walk

variable {S : ℕ → Bool} {k : MemoryMap} {ptb : U64} (L : Layout k) (R : Room k ptb) {s : Kernel}

include L R in
/-- The pages that can become tables are behind the image. -/
theorem behind_page {n : ℕ} (hn : n ≤ 519) {a : U64} (ha : InPage (pageAt k.freeStart n) a) :
    Behind k a := by
  obtain ⟨hpage, -⟩ := toNat_pageAt_freeStart L (m := n) (by unfold allocListSize; omega)
  have hal := L.freeStart_aligned
  have hram := R.ram
  unfold InPage at ha
  rw [hpage] at ha
  unfold Aligned at hal
  constructor
  · omega
  · omega

include L R in
theorem Early.behind_table (h : Early S k ptb s) {q : List ℕ} {t a : U64}
    (ht : s.table S q = some t) (ha : InPage t a) : Behind k a := by
  obtain ⟨n, hn, rfl⟩ := h.tables.taken q t ht
  have hsmall := h.small
  exact behind_page L R (by omega) ha

include L R in
theorem Early.behind_slot (h : Early S k ptb s) {q : List ℕ} {t : U64} {i : ℕ}
    (ht : s.table S q = some t) (hi : i < 512) : Behind k (slot t i) :=
  h.behind_table L R ht (inPage_slot (aligned_of_tableAt h.inv.tree.aligned ht) hi)

include L R in
/-- One step of the walk. -/
theorem descend_agree (h : Early S k ptb s) {q : List ℕ} {t : U64} {i : ℕ}
    (ht : s.table S q = some t) (hi : i < 512) :
    descend (hardware ptb) (slot t i) s = descend physical (slot t i) s := by
  have hslot := h.behind_slot L R ht hi
  have hsmall := h.small
  have hlt := h.inv.next_lt
  have hfree : s.alloc.list s.alloc.next = pageAt k.freeStart s.alloc.next :=
    h.tables.list _ (Nat.le_refl _) hlt
  have hal : Aligned (s.alloc.list s.alloc.next) := h.inv.free_aligned _ (Nat.le_refl _) hlt
  have hroom : s.alloc.next ≠ allocListSize - 1 := by
    unfold allocListSize
    omega
  refine bind_agree (load_agree L h.boots hslot) fun pte s' hs => ?_
  cases hs
  cases hv : pteValid (s.mem (slot t i)) with
  | true => simp only [Bool.not_true, Bool.false_eq_true, if_false]
  | false =>
    simp only [Bool.not_false, if_true]
    obtain ⟨mem', es, hrun, -, hframe, -⟩ := run_allocZeroPage_physical h.inv.initialized hroom hal
    refine bind_agree ?_ fun p s' hp => ?_
    · -- the fresh page is zeroed word by word
      refine bind_agree rfl fun p s' hp => ?_
      rw [run_allocGetPage h.inv.initialized hroom] at hp
      cases hp
      refine bind_agree (memset_agree L R 0 512 _ _ h.boots fun j hj => ?_) fun _ _ _ => rfl
      rw [hfree] at hal ⊢
      exact behind_page L R hsmall (inPage_slot hal hj)
    · -- and then linked
      rw [hrun] at hp
      cases hp
      have hboots : Boots ptb mem' := by
        refine h.boots.of_frame R fun a ha => ?_
        have hin : InPage (pageAt k.freeStart s.alloc.next) a := by
          rw [← hfree]
          exact not_not.mp fun hout => ha (hframe a hout)
        exact (behind_page L R hsmall hin).1
      exact bind_agree (store_agree L hboots hslot _) fun _ _ _ => rfl

include L R in
/-- A tree that has grown by a page or two. -/
theorem Early.grows (h : Early S k ptb s) {N : List ℕ → Prop} {s₁ : Kernel}
    (hg : Grows S N s s₁) (hsmall : s₁.alloc.next ≤ 519) : Early S k ptb s₁ := by
  have htables := h.tables.grows hg
  refine ⟨h.boots.of_frame R fun a ha => ?_, hg.inv, htables, hsmall⟩
  have hin : s₁.InTable S a := not_not.mp fun hout => ha (hg.frame a hout)
  exact htables.le_of_inTable hg.inv.next_lt L.freeStart_aligned L.freeStart_lt hin

include L R in
/-- **A whole call** of `vm_map_page`, with two pages to spare. -/
theorem vmMapPage_agree (h : Early S k ptb s) {va pa : U64} (hok : Acceptable va pa)
    (hS : S (vpn va 2) = false) (flags : U64) (hroom : s.alloc.next ≤ 517) :
    vmMapPage (hardware ptb) va pa flags s = vmMapPage physical va pa flags s := by
  have hS2 : ¬ (([] : List ℕ) = [] ∧ S (vpn va 2) = true) := by simp [hS]
  have hS1 : ¬ ([vpn va 2] = [] ∧ S (vpn va 1) = true) := by simp
  have hroot : s.table S [] = some s.kernelRootPtb := rfl
  have hsize : allocListSize - 1 = 32767 := rfl
  rw [vmMapPage_of_acceptable hok, vmMapPage_of_acceptable hok, vmMapLoop, vmMapLoop]
  -- level 2
  refine bind_agree rfl fun idx s' hs => ?_
  rw [run_vaGetIndex va (by norm_num)] at hs
  cases hs
  rw [ptbGetPtep_eq]
  refine bind_agree (descend_agree L R h hroot (vpn_lt va 2)) fun c₁ s₁ hs => ?_
  obtain ⟨c, s₂, hrun, hg, hc, hnext, -⟩ | ⟨hn, -⟩ :=
    descend_cases h.inv hroot (by simp) (vpn_lt va 2) hS2
  swap
  · omega
  rw [hrun] at hs
  cases hs
  have h₁ := h.grows L R hg (by omega)
  -- level 1
  rw [vmMapLoop, vmMapLoop]
  refine bind_agree rfl fun idx s' hs => ?_
  rw [run_vaGetIndex va (by norm_num)] at hs
  cases hs
  rw [ptbGetPtep_eq]
  refine bind_agree (descend_agree L R h₁ hc (vpn_lt va 1)) fun d₁ s₃ hs => ?_
  obtain ⟨d, s₄, hrun₁, hg₁, hd, hnext₁, -⟩ | ⟨hn, -⟩ :=
    descend_cases hg.inv hc (by simp) (vpn_lt va 1) hS1
  swap
  · omega
  rw [hrun₁] at hs
  cases hs
  have h₂ := h₁.grows L R hg₁ (by omega)
  -- level 0
  rw [vmMapLoop, vmMapLoop]
  refine bind_agree rfl fun idx s' hs => ?_
  rw [run_vaGetIndex va (by norm_num)] at hs
  cases hs
  rw [ptbGetPtep_eq]
  have hslot := h₂.behind_slot L R hd (vpn_lt va 0)
  refine bind_agree (load_agree L h₂.boots hslot) fun pte s' hs => ?_
  cases hs
  split
  · rfl
  · exact bind_agree (store_agree L h₂.boots hslot _) fun _ _ _ => rfl

end Walk

/-! ## 4. The kernel's tables -/

section Whole

variable {S : ℕ → Bool} (B : BootSlots S) {k : MemoryMap} {ptb : U64} (L : Layout k)
  (R : Room k ptb) {s : Kernel} {done : List Call}

include L in
theorem early_of_bootInv (h : BootInv S k s done) (hb : Boots ptb s.mem) : Early S k ptb s :=
  ⟨hb, h.maps.inv, h.tables, (h.next_le L).trans (by norm_num)⟩

include R in
/-- A call that returns, and has stored behind the image only, leaves the first table. -/
theorem Boots.of_run {α : Type} {x : KM α} (hx : Logs x) (hb : Boots ptb s.mem) {r : α}
    {s' : Kernel} (hrun : x s = .ok r s') (h : BootInv S k s' done) : Boots ptb s'.mem := by
  refine hb.of_frame R fun a ha => ?_
  have hchange := hx.change s a
  rw [hrun] at hchange
  obtain ⟨v, hv⟩ := hchange ha
  exact h.stores a v hv

include B L R in
/-- The section loop, as in `run_mapSection`. -/
theorem mapSection_agree {stop : U64} (hstop : stop.toNat ≤ 0xffffffffc0000000) (flags : U64) :
    ∀ (n fuel : ℕ) (addr : U64) (s : Kernel) (done : List Call), n < fuel → Aligned addr →
      0xffffffff80000000 ≤ addr.toNat → stop.toNat ≤ addr.toNat + 4096 * n →
      (n ≠ 0 → addr.toNat + 4096 * (n - 1) < stop.toNat) → BootInv S k s done →
      Boots ptb s.mem → (∀ d ∈ done, ∀ va : U64, addr.toNat ≤ va.toNat →
        va.toNat / 4096 < addr.toNat / 4096 + n → ¬ InPage d.va va) →
      mapSection (hardware ptb) stop flags fuel addr s
        = mapSection physical stop flags fuel addr s
  | _, 0, _, _, _, hf, _, _, _, _, _, _, _ => absurd hf (by omega)
  | 0, fuel + 1, addr, s, done, _, _, _, hle, _, _, _, _ => by
    have hge : ¬ addr < stop := by
      rw [BitVec.lt_def]
      omega
    rw [mapSection, mapSection, if_neg hge, if_neg hge]
  | n + 1, fuel + 1, addr, s, done, hf, ha, hlow, hle, hlt, h, hb, hout => by
    have hlt' := hlt (by omega)
    have hin : addr < stop := by
      rw [BitVec.lt_def]
      omega
    have hhigh : addr.toNat < 0xffffffffc0000000 := by omega
    have hvpn := vpn_image hlow hhigh
    have hS : S (vpn addr 2) = false := by rw [hvpn]; exact B.image
    have hok := acceptable_image L ha hlow
    have hnext := toNat_add_pageSize (a := addr) (by omega)
    rw [mapSection, mapSection, if_pos hin, if_pos hin]
    refine bind_agree rfl fun s₀ s' hs => ?_
    cases hs
    rw [h.kmap]
    refine bind_agree (vmMapPage_agree L R (early_of_bootInv L h hb) hok hS flags (h.next_le L))
      fun r s₁ hrun => ?_
    obtain ⟨_, s₂, hrun', -, h₁, -⟩ := h.map L (c := ⟨addr, addr - k.physOffset, flags⟩) hok hS
      (onPath_image hlow hhigh)
      (fun d hd => hout d hd addr (Nat.le_refl _) (Nat.lt_add_of_pos_right (Nat.succ_pos n)))
    simp only at hrun'
    rw [hrun'] at hrun
    cases hrun
    refine mapSection_agree hstop flags n fuel (addr + pageSize) s₁ _ (by omega)
      (by unfold Aligned at *; rw [hnext]; omega) (by rw [hnext]; omega) (by rw [hnext]; omega)
      (fun hn => by rw [hnext]; omega) h₁ (hb.of_run R (Logs.vmMapPage _ _ _ _) hrun' h₁) ?_
    intro d hd va hva1 hva2
    rw [hnext] at hva1 hva2
    clear hnext
    rcases List.mem_cons.mp hd with rfl | hd
    · -- the page just mapped lies below the rest
      unfold InPage Aligned at *
      simp only
      omega
    · exact hout d hd va (by omega) (by omega)

include B L R in
/-- One more section. -/
theorem segment_agree {gs : List Segment} {g : Segment} {fuel : ℕ}
    (h : BootInv S k s (segmentCalls k gs)) (hb : Boots ptb s.mem)
    (hpre : gs ++ [g] <+: k.segments) (hfuel : 262144 < fuel) :
    mapSection (hardware ptb) g.stop g.flags fuel g.start s
        = mapSection physical g.stop g.flags fuel g.start s ∧
      ∀ r s', mapSection physical g.stop g.flags fuel g.start s = .ok r s' →
        BootInv S k s' (segmentCalls k (gs ++ [g])) ∧ Boots ptb s'.mem := by
  have hg := L.segment g (hpre.subset (by simp))
  have hlow := hg.lower
  have hup := hg.upper
  have hle := hg.le
  have hal := hg.aligned
  have hpages : g.pages = (g.stop.toNat - g.start.toNat + 4095) / 4096 := rfl
  constructor
  · refine mapSection_agree B L R hup g.flags g.pages fuel g.start s _ (by omega) hal hlow
      (by omega) (fun hne => by omega) h hb ?_
    intro d hd va hva1 hva2 hin
    -- a page that is already mapped belongs to an earlier section
    obtain ⟨g', hg', i, hi, rfl⟩ := (mem_segmentCalls gs).mp hd
    have hdisj := (List.pairwise_append.mp (L.disjoint.sublist hpre.sublist)).2.2 g' hg' g
      (by simp)
    have hg'ok := L.segment g' (hpre.subset (by simp [hg']))
    refine hdisj va ⟨(hg'ok.covers_iff va).mpr ⟨i, hi, hin⟩, hva1, ?_⟩
    unfold Aligned at hal
    omega
  · intro r s' hrun
    obtain ⟨_, s₁, hrun', h₁, -⟩ := h.segment B L hpre hfuel
    rw [hrun'] at hrun
    cases hrun
    exact ⟨h₁, hb.of_run R (Logs.mapSection _ _ _ _ _) hrun' h₁⟩

include B L R in
/-- The loop of the direct map. -/
theorem directMap_agree {root : U64} : ∀ {is : List ℕ} {s : Kernel}, (∀ i ∈ is, i < 32) →
    s.kernelRootPtb = root → BootInv S k s done → Boots ptb s.mem →
    (is.forM fun i => do
      let idx ← vaGetIndex (kernelDirectMapStart + BitVec.ofNat 64 i * size1G) 2
      store (hardware ptb) (ptbGetPtep root idx) (directMapPte i)) s
    = (is.forM fun i => do
      let idx ← vaGetIndex (kernelDirectMapStart + BitVec.ofNat 64 i * size1G) 2
      store physical (ptbGetPtep root idx) (directMapPte i)) s
  | [], _, _, _, _, _ => by rw [List.forM, List.forM]
  | i :: is, s, his, hr, h, hb => by
    have hi := his i List.mem_cons_self
    have hlt : 256 + i < 512 := by omega
    have hroot : s.table S [] = some root := by rw [← hr]; rfl
    have hslot := (early_of_bootInv L h hb).behind_slot L R hroot hlt
    have hw := h.writeDirect L hlt (B.direct _ (directSlots_add hi)) (directMapPte i)
    rw [hr] at hw
    rw [List.forM, List.forM]
    have hbody : ∀ mmu : Mmu, (do
        let idx ← vaGetIndex (kernelDirectMapStart + BitVec.ofNat 64 i * size1G) 2
        store mmu (ptbGetPtep root idx) (directMapPte i) : KM Unit) s
          = store mmu (slot root (256 + i)) (directMapPte i) s := by
      intro mmu
      rw [Effect.run_bind, run_vaGetIndex _ (by norm_num)]
      simp only [ptbGetPtep_eq, vpn_direct hi]
    refine bind_agree ?_ fun _ s' hs => ?_
    · rw [hbody, hbody]
      exact store_agree L hb hslot _
    · rw [hbody, run_store_physical] at hs
      cases hs
      exact directMap_agree (fun j hj => his j (List.mem_cons_of_mem _ hj)) hr hw
        (hb.write R hslot _)

include B L R in
/-- **`vm_init_kernel` runs alike in both regimes.** -/
theorem vmInitKernel_agree {fuel : ℕ} (hfuel : 262144 < fuel) (hk : s.kmap = k)
    (hi : s.alloc.initialized = true) (hn : s.alloc.next = 0)
    (hlist : ∀ n < allocListSize, s.alloc.list n = pageAt k.freeStart n)
    (hclean : RootClean S k s.mem) (hev : s.events = []) (hb : Boots ptb s.mem) :
    vmInitKernel (hardware ptb) fuel s = vmInitKernel physical fuel s := by
  subst hk
  have hpage0 : s.alloc.list s.alloc.next = s.kmap.freeStart := by
    rw [hn, hlist 0 (by decide), pageAt_zero]
  have hget : allocGetPage s = .ok s.kmap.freeStart { s with alloc := s.alloc.pop } := by
    rw [run_allocGetPage hi (by rw [hn]; decide), hpage0]
  refine bind_agree rfl fun root s₀ hs => ?_
  rw [hget] at hs
  cases hs
  refine bind_agree rfl fun _ s₀ hs => ?_
  cases hs
  refine bind_agree rfl fun _ s₀ hs => ?_
  cases hs
  have h0 := BootInv.init L
    (s := { s with alloc := s.alloc.pop, kernelRootPtb := s.kmap.freeStart })
    rfl hi (by simp [AllocT.pop, hn]) rfl ?_ hclean hev
  swap
  · intro n h1 h2
    rw [← hlist n h2]
    exact Function.update_of_ne (by omega) _ _
  obtain ⟨hsame1, hnext1⟩ := segment_agree B L R h0 hb ⟨_, rfl⟩ hfuel
  refine bind_agree hsame1 fun _ s₁ hs => ?_
  obtain ⟨h1, hb1⟩ := hnext1 _ _ hs
  obtain ⟨hsame2, hnext2⟩ := segment_agree B L R h1 hb1 ⟨_, rfl⟩ hfuel
  refine bind_agree hsame2 fun _ s₂ hs => ?_
  obtain ⟨h2, hb2⟩ := hnext2 _ _ hs
  obtain ⟨hsame3, hnext3⟩ := segment_agree B L R h2 hb2 ⟨_, rfl⟩ hfuel
  refine bind_agree hsame3 fun _ s₃ hs => ?_
  obtain ⟨h3, hb3⟩ := hnext3 _ _ hs
  obtain ⟨hsame4, hnext4⟩ := segment_agree B L R h3 hb3 ⟨_, rfl⟩ hfuel
  refine bind_agree hsame4 fun _ s₄ hs => ?_
  obtain ⟨h4, hb4⟩ := hnext4 _ _ hs
  have hlow : ∀ {va : U64}, va.toNat < 0xffffffff80000000 →
      ∀ d ∈ segmentCalls s.kmap s.kmap.segments, ¬ InPage d.va va :=
    not_inPage_segmentCalls L.segment
  -- the serial device
  have hserial : S (vpn 0x10000000 2) = false := B.low
  refine bind_agree (vmMapPage_agree L R (early_of_bootInv L h4 hb4) (by decide) hserial _
    (h4.next_le L)) fun _ s₅ hs => ?_
  obtain ⟨_, s₅', hrun5, -, h5, -⟩ := h4.map L
    (c := ⟨0x10000000, 0x10000000, PTE.read ||| PTE.write⟩) (by decide) B.low onPath_serial
    (hlow (by decide))
  rw [hrun5] at hs
  cases hs
  have hb5 := hb4.of_run R (Logs.vmMapPage _ _ _ _) hrun5 h5
  -- the direct map
  have hrange : (kernelDirectMapSize / size1G).toNat = 32 := by decide
  refine bind_agree ?_ fun _ s₆ hs => ?_
  · refine bind_agree rfl fun _ s' hs => ?_
    cases hs
    rw [hrange]
    exact directMap_agree B L R (by simp) rfl h5 hb5
  obtain ⟨_, s₆', hrun6, h6, -⟩ := h5.directMap B L
  rw [hrun6] at hs
  cases hs
  have hb6 := hb5.of_run R (Logs.vmInitKernelDirectMap _) hrun6 h6
  -- the page 0
  have hzero : S (vpn 0 2) = false := B.low
  exact bind_agree (vmMapPage_agree L R (early_of_bootInv L h6 hb6) (by decide) hzero _
    (h6.next_le L)) fun _ _ _ => rfl

end Whole

/-! ## 5. `vm_init` -/

/-- The register that `vm_init` writes leads to the first page behind the image. -/
theorem satp_direct {k : MemoryMap} (L : Layout k) :
    (satpModeSv39 ||| physToPpn k.freeStart).toNat / 2 ^ 60 = 8 ∧
      satpRoot (satpModeSv39 ||| physToPpn k.freeStart) = k.freeStart := by
  obtain ⟨hfree, hlow⟩ := L.toNat_freeStart
  have hal := L.freeStart_aligned
  have hend := k.kernelEnd.isLt
  have hmode : satpModeSv39.toNat = 2 ^ 63 := by decide
  have hor : (satpModeSv39 ||| physToPpn k.freeStart).toNat
      = 2 ^ 63 + k.freeStart.toNat / 4096 := by
    have hlt : k.freeStart.toNat / 4096 < 2 ^ 63 := by omega
    have hdisj := Nat.two_pow_add_eq_or_of_lt hlt 1
    rw [Nat.mul_one] at hdisj
    rw [BitVec.toNat_or, hmode, toNat_physToPpn, hdisj]
  refine ⟨by omega, ?_⟩
  apply BitVec.eq_of_toNat_eq
  rw [satpRoot, BitVec.toNat_ofNat, hor]
  unfold Aligned at hal
  omega

section VmInit

variable {y : Symbols} (L : Layout y.kmap) {fuel : ℕ} (hfuel : 262144 < fuel) {s : Kernel}
  (hclean : RootClean directSlots y.kmap s.mem) (hev : s.events = [])

include L hfuel hclean hev

/-- The state that `mm_init` leaves is that of `vm_init_kernel`, with the root at its direct-map
address and a new list of pages. -/
theorem mmInit_state {s' : Kernel} (hrun : mmInit y fuel s = .ok () s') : ∃ s₁,
    initKernel fuel { s with kmap := y.kmap } = .ok () s₁ ∧
      BootInv directSlots y.kmap s₁ (bootCalls y.kmap) ∧ s₁.kernelRootPtb = y.kmap.freeStart ∧
      DirectMapped s₁ ∧ ∃ alloc, s' = { s₁ with kernelRootPtb := paToVa y.kmap.freeStart, alloc } ∧
        allocInit (paToVa (pageAt y.kmap.freeStart s₁.alloc.next)) { s₁ with
          kernelRootPtb := paToVa y.kmap.freeStart, alloc := s₁.alloc.pop } = .ok 0 s' := by
  obtain ⟨_, s₁, hinit, hb, hroot, hd, -⟩ := run_initKernel directSlots_bootSlots L hfuel
    (s := { s with kmap := y.kmap }) rfl hclean hev
  have hnext := hb.next_le L
  obtain ⟨_, _, h0, hrun⟩ := bind_eq_ok.mp hrun
  cases h0
  rw [bind_of_ok hinit] at hrun
  obtain ⟨_, _, h0, hrun⟩ := bind_eq_ok.mp hrun
  cases h0
  have hget := run_allocGetPage (s := { s₁ with kernelRootPtb := paToVa s₁.kernelRootPtb })
    hb.maps.inv.initialized
    (show s₁.alloc.next ≠ allocListSize - 1 by unfold allocListSize; omega)
  rw [bind_of_ok hget] at hrun
  obtain ⟨_, s₃, hlast, hrun⟩ := bind_eq_ok.mp hrun
  cases hrun
  have hfirst : s₁.alloc.list s₁.alloc.next = pageAt y.kmap.freeStart s₁.alloc.next :=
    hb.tables.list _ (Nat.le_refl _) hb.maps.inv.next_lt
  rw [hfirst, hroot, run_allocInit (paToVa_pageAt L hnext).1] at hlast
  cases hlast
  exact ⟨s₁, hinit, hb, hroot, hd, _, rfl, run_allocInit (paToVa_pageAt L hnext).1⟩

/-- `mm_init` leaves the image as it is. -/
theorem mem_mmInit_of_lt {s' : Kernel} (hrun : mmInit y fuel s = .ok () s') {a : U64}
    (ha : a.toNat < y.kmap.freeStart.toNat) : s'.mem a = s.mem a := by
  obtain ⟨s₁, hinit, hb, -, -, -, rfl, -⟩ := mmInit_state L hfuel hclean hev hrun
  exact mem_initKernel_of_lt hinit hb ha

/-- `mm_init` runs alike in both regimes. -/
theorem mmInitAt_agree {ptb : U64} (R : Room y.kmap ptb) (hb : Boots ptb s.mem) :
    mmInitAt (hardware ptb) y fuel s = mmInitAt physical y fuel s := by
  have hinit := run_allocInit (s := { s with kmap := y.kmap }) L.freeStart_aligned
  refine bind_agree rfl fun _ s₀ hs => ?_
  cases hs
  refine bind_agree rfl fun _ s₀ hs => ?_
  cases hs
  refine bind_agree rfl fun _ s₀ hs => ?_
  rw [MemoryMap.freeStart] at hinit
  rw [hinit] at hs
  cases hs
  refine bind_agree ?_ fun _ _ _ => rfl
  refine vmInitKernel_agree directSlots_bootSlots L R hfuel rfl rfl rfl (fun n hn => ?_) hclean hev
    hb
  simp only [if_pos hn, pageAt, MemoryMap.freeStart]

/-- `mm_init` under the first page table. -/
theorem run_mmInitAt {ptb : U64} (R : Room y.kmap ptb) (hb : Boots ptb s.mem) :
    ∃ s', mmInitAt (satpMmu (initSatp ptb)) y fuel s = .ok () s' ∧
      mmInitAt physical y fuel s = .ok () s' ∧ Boots ptb s'.mem ∧
      vaToPa s'.kernelRootPtb = y.kmap.freeStart ∧
      ∀ va, walk s'.mem y.kmap.freeStart va = kernelMapping y.kmap va := by
  have hlt : ptb.toNat < 2 ^ 56 := by
    have himage := R.image
    have hram := R.ram
    omega
  obtain ⟨_, s', hrun, ⟨n, hn, hready⟩, -⟩ :=
    run_mmInit L directSlots_bootSlots rfl hfuel hclean hev
  have hlate := hready.lateInv L hn
  have hphysical : mmInitAt physical y fuel s = .ok () s' := by rw [mmInitAt_physical, hrun]
  refine ⟨s', ?_, hphysical, ?_, hlate.vaToPa_root L, hlate.walk⟩
  · rw [satpMmu_initSatp R.aligned hlt, mmInitAt_agree L hfuel hclean hev R hb, hphysical]
  · refine hb.of_frame R fun a ha => ?_
    by_contra hlow
    exact ha (mem_mmInit_of_lt L hfuel hclean hev hrun (Nat.lt_of_not_le hlow))

omit L hfuel hclean hev in
/-- What `vm_init` does behind `mm_init`. -/
theorem run_vmInit {mmu : Mmu} {s' : Kernel} (hrun : mmInitAt mmu y fuel s = .ok () s')
    (hroot : vaToPa s'.kernelRootPtb = y.kmap.freeStart) :
    vmInit mmu y fuel s = .ok (satpModeSv39 ||| physToPpn y.kmap.freeStart) s' := by
  rw [vmInit, bind_of_ok hrun, Effect.run_bind, Effect.run_get]
  simp only [hroot, Effect.run_pure]

/-- **`vm_init` under the first page table.**  Pointers go through the table that `init` put into
`satp`, the tables built are read and written through it, and every step is the one that the model
of the early boot makes with physical addresses.  The first table is still there at the end, so the
code is still mapped when `satp` is written; and the register that is written is one of Sv39 whose
table translates every address as `kernelMapping` says.  What is asked for is a clean root, and room
for the tables in the GiB of RAM. -/
theorem vm_init_boots {ptb : U64} (R : Room y.kmap ptb) (hb : Boots ptb s.mem) :
    ∃ satp s', vmInit (satpMmu (initSatp ptb)) y fuel s = .ok satp s' ∧
      vmInit physical y fuel s = .ok satp s' ∧ Boots ptb s'.mem ∧ satp.toNat / 2 ^ 60 = 8 ∧
      ∀ va, walk s'.mem (satpRoot satp) va = kernelMapping y.kmap va := by
  obtain ⟨s', hhardware, hphysical, hboots, hroot, hwalk⟩ :=
    run_mmInitAt L hfuel hclean hev R hb
  refine ⟨_, s', run_vmInit hhardware hroot, run_vmInit hphysical hroot, hboots,
    (satp_direct L).1, fun va => ?_⟩
  rw [(satp_direct L).2]
  exact hwalk va

end VmInit

/-- The small image, with the first table in its first page and zeroes elsewhere. -/
def firstTable : Kernel :=
  { Kernel.boot (fun a => if a.toNat / 4096 = 0x80000 then initPtb.getD (a.toNat % 4096 / 8) 0
      else 0) with kmap := smallMap }

theorem firstTable_boots : Boots 0x80000000 firstTable.mem := by
  intro i hi
  have hbase : (0x80000000 : U64).toNat = 0x80000000 := by decide
  have hslot := toNat_slot (t := 0x80000000) (by decide) hi
  rw [hbase] at hslot
  change (if _ then _ else _) = _
  rw [if_pos (by omega)]
  congr 1
  omega

theorem firstTable_clean : RootClean directSlots smallMap firstTable.mem := by
  intro i hi _
  have hslot := toNat_slot smallMap_layout.freeStart_aligned hi
  have hfree : smallMap.freeStart.toNat = 0x80010000 := by decide
  rw [hfree] at hslot
  change BitVec.getLsbD (if _ then _ else _) 0 = false
  rw [if_neg (by omega)]
  rfl

theorem smallMap_room : Room smallMap 0x80000000 := ⟨by decide, by decide, by decide⟩

theorem vm_init_boots_small :
    ∃ satp s', vmInit (satpMmu (initSatp 0x80000000)) smallSymbols 262145 firstTable = .ok satp s' ∧
      walk s'.mem (satpRoot satp) 0xffffffff80001234 = some ⟨0x80001234, 10⟩ := by
  obtain ⟨satp, s', hrun, -, -, -, hwalk⟩ := vm_init_boots (y := smallSymbols) (s := firstTable)
    smallSymbols_layout lt_smallFuel firstTable_clean rfl smallMap_room firstTable_boots
  refine ⟨satp, s', hrun, ?_⟩
  rw [hwalk]
  decide

end RvKernel.Boot
