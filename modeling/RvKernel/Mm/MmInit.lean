/-
# `mm_init`: two lives of one allocator

`mm_init` builds the kernel's tables with the allocator over physical pages, takes one more page,
and re-initialises the allocator AT that page, now through the direct map.  What the second
allocator hands out is therefore disjoint from everything the first one gave away
(`mm_init_hands_out_free_pages`), provided the root page started out clean: the source takes the
root from `alloc_get_page`, so a pointer that happened to lie in that page stays in the root
table, and the page it names is handed out as free memory (`mm_init_root_garbage`).
-/
import RvKernel.Mm.Frame

namespace RvKernel.Mm

open Sv39 Effect

/-! ## 1. The code -/

/-- The symbols that `linker.ld` provides. -/
structure Symbols where
  start : U64
  stop : U64
  textStart : U64
  textEnd : U64
  bssStart : U64
  bssEnd : U64
  rodataStart : U64
  rodataEnd : U64
  dataStart : U64
  dataEnd : U64

/-- The map that `mm_init_kmap` fills in from them. -/
def Symbols.kmap (y : Symbols) : MemoryMap where
  physOffset := kernelPhysOffset
  kernelStart := y.start
  kernelEnd := y.stop
  kernelSize := y.stop - y.start
  textStart := y.textStart
  textEnd := y.textEnd
  bssStart := y.bssStart
  bssEnd := y.bssEnd
  rodataStart := y.rodataStart
  rodataEnd := y.rodataEnd
  dataStart := y.dataStart
  dataEnd := y.dataEnd

/-- `mm_init_kmap()`. -/
def mmInitKmap (y : Symbols) : KM Unit := modify fun s => { s with kmap := y.kmap }

/-- `mm_init()`. -/
def mmInit (y : Symbols) (fuel : ℕ) : KM Unit := do
  mmInitKmap y
  initKernel fuel
  modify fun s => { s with kernelRootPtb := paToVa s.kernelRootPtb }
  let freemem ← allocGetPage
  let _ ← allocInit (paToVa freemem)
  return ()

/-! ## 2. The state after `mm_init` -/

/-- The state `mm_init` leaves: the tables of `vm_init_kernel`, reached through the direct map, and
an allocator that starts at the first page the `n` tables do not use. -/
structure MmReady (S : ℕ → Bool) (k : MemoryMap) (n : ℕ) (s : Kernel) : Prop where
  boot : ∃ s₁, BootInv S k s₁ (bootCalls k) ∧ s₁.kernelRootPtb = k.freeStart ∧ DirectMapped s₁ ∧
    s₁.mem = s.mem ∧ s₁.alloc.next = n
  root : s.kernelRootPtb = paToVa k.freeStart
  alloc : ∃ s₀, allocInit (paToVa (pageAt k.freeStart n)) s₀ = .ok 0 s

section Late

variable {k : MemoryMap} (L : Layout k)

theorem toNat_directMapStart : kernelDirectMapStart.toNat = 0xffffffc000000000 := rfl

/-- In the low 32 GiB, `pa_to_va` is an offset... -/
theorem toNat_paToVa {a : U64} (h : a.toNat ≤ 32 * 2 ^ 30) :
    (paToVa a).toNat = a.toNat + 0xffffffc000000000 := by
  rw [paToVa, BitVec.toNat_add, toNat_directMapStart]
  omega

/-- ...that `va_to_pa` takes back. -/
theorem vaToPa_paToVa {a : U64} (h : a.toNat ≤ 32 * 2 ^ 30) : vaToPa (paToVa a) = a := by
  have hva := toNat_paToVa h
  have hs : kernelDirectMapStart.toNat = 0xffffffc000000000 := by decide
  have he : kernelDirectMapEnd.toNat = 0xffffffc000000000 + 32 * 2 ^ 30 := by decide
  have hin : kernelDirectMapStart ≤ paToVa a ∧ paToVa a ≤ kernelDirectMapEnd := by
    rw [BitVec.le_def, BitVec.le_def, hs, he, hva]
    omega
  rw [vaToPa, if_pos hin, paToVa]
  exact BitVec.add_sub_cancel _ _

/-- The pages of the second list are those of the first, seen through the direct map. -/
theorem pageAt_paToVa (a : U64) (i : ℕ) : pageAt (paToVa a) i = paToVa (pageAt a i) := by
  unfold pageAt paToVa
  rw [BitVec.add_assoc, BitVec.add_assoc, BitVec.add_comm kernelDirectMapStart]

theorem pageAt_add (a : U64) (i j : ℕ) : pageAt (pageAt a i) j = pageAt a (i + j) := by
  unfold pageAt
  rw [BitVec.ofNat_add, BitVec.add_mul, BitVec.add_assoc]

include L in
theorem toNat_pageAt_freeStart {m : ℕ} (hm : m < 2 * allocListSize) :
    (pageAt k.freeStart m).toNat = k.freeStart.toNat + m * 4096 ∧
      (pageAt k.freeStart m).toNat ≤ 32 * 2 ^ 30 := by
  have hfree := L.toNat_freeStart
  have hlt := k.kernelEnd.isLt
  have hnat : (pageAt k.freeStart m).toNat = k.freeStart.toNat + m * 4096 := by
    apply toNat_pageAt_of_lt
    unfold allocListSize at hm
    omega
  refine ⟨hnat, ?_⟩
  rw [hnat]
  unfold allocListSize at hm
  omega

include L in
/-- The second list: aligned direct-map addresses, clear of the end of the address space. -/
theorem paToVa_pageAt {n : ℕ} (hn : n ≤ 517) :
    Aligned (paToVa (pageAt k.freeStart n)) ∧ paToVa (pageAt k.freeStart n) ≠ 0 ∧
      (paToVa (pageAt k.freeStart n)).toNat + allocListSize * 4096 < 2 ^ 64 := by
  have hlt : n < 2 * allocListSize := by
    unfold allocListSize
    omega
  obtain ⟨hnat, hle⟩ := toNat_pageAt_freeStart L hlt
  have hva := toNat_paToVa hle
  have hal := L.freeStart_aligned
  refine ⟨?_, ?_, ?_⟩
  · unfold Aligned at *
    omega
  · intro h0
    rw [h0] at hva
    change 0 = _ at hva
    omega
  · unfold allocListSize
    omega

include L in
/-- **`mm_init` runs to its end.** -/
theorem run_mmInit {S : ℕ → Bool} (B : BootSlots S) {y : Symbols} (hk : y.kmap = k) {fuel : ℕ}
    (hfuel : 262144 < fuel) {s : Kernel} (hclean : RootClean S k s.mem) (hev : s.events = []) :
    Ends (mmInit y fuel) s fun _ s' => (∃ n ≤ 517, MmReady S k n s') ∧
      ∀ i < 512, S i = true → directSlots i = false →
        s'.mem (slot k.freeStart i) = s.mem (slot k.freeStart i) := by
  unfold mmInit mmInitKmap
  refine Ends.modify_bind ?_
  refine (run_initKernel B L hfuel (s := { s with kmap := y.kmap }) hk hclean hev).bind ?_
  rintro _ s₁ ⟨hb, hroot, hd, hkeep⟩
  have hnext := hb.next_le L
  have hlt := hb.maps.inv.next_lt
  refine Ends.modify_bind ?_
  refine Ends.bind (Q := fun f s₂ => f = pageAt k.freeStart s₁.alloc.next ∧ s₂ =
    { s₁ with kernelRootPtb := paToVa s₁.kernelRootPtb, alloc := s₁.alloc.pop }) ?_ ?_
  · refine ⟨_, _, run_allocGetPage hb.maps.inv.initialized ?_, ?_, rfl⟩
    · show s₁.alloc.next ≠ allocListSize - 1
      unfold allocListSize
      omega
    · exact hb.tables.list _ (Nat.le_refl _) hlt
  rintro f s₂ ⟨rfl, rfl⟩
  have hinit := run_allocInit (s := { s₁ with
    kernelRootPtb := paToVa s₁.kernelRootPtb, alloc := s₁.alloc.pop }) (paToVa_pageAt L hnext).1
  refine Ends.bind (Q := fun _ s₃ => MmReady S k s₁.alloc.next s₃ ∧ s₃.mem = s₁.mem)
    ⟨_, _, hinit, ?_, rfl⟩ ?_
  · exact ⟨⟨s₁, hb, hroot, hd, rfl, rfl⟩, by rw [← hroot], ⟨_, hinit⟩⟩
  · rintro _ s₃ ⟨h, hmem⟩
    refine Ends.pure ⟨⟨_, hnext, h⟩, ?_⟩
    rw [hmem]
    exact hkeep

end Late

/-! ## 3. Pages handed out later -/

/-- Calls of `alloc_get_page` and `alloc_free_page` after `s₀`, which free live pages only. -/
inductive PageRun (s₀ : Kernel) : Kernel → List U64 → Prop
  | start : PageRun s₀ s₀ []
  | get {s s' : Kernel} {live : List U64} {p : U64} :
      PageRun s₀ s live → allocGetPage s = .ok p s' → PageRun s₀ s' (handOut p live)
  | free {s s' : Kernel} {live : List U64} {p : U64} {r : Int} :
      PageRun s₀ s live → p ∈ live → allocFreePage p s = .ok r s' → PageRun s₀ s' (live.erase p)

/-- Such a run is one of the allocator alone. -/
theorem PageRun.allocRun {s₀ s s' : Kernel} {start : U64} {live : List U64}
    (hinit : allocInit start s' = .ok 0 s₀) (h : PageRun s₀ s live) :
    AllocRun physical start s live := by
  induction h with
  | start => exact AllocRun.init hinit
  | get _ hg ih => exact ih.get hg
  | free _ hp hf ih => exact ih.free hp hf

section PageRun

variable {s₀ s s' : Kernel} {start : U64} {live : List U64}
  (hinit : allocInit start s' = .ok 0 s₀) (ha : Aligned start) (h0 : start ≠ 0)
  (hlt : start.toNat + allocListSize * 4096 < 2 ^ 64)

include hinit h0 hlt in
theorem PageRun.conserved (h : PageRun s₀ s live) : Conserved start s.alloc live :=
  (h.allocRun hinit).conserved h0 hlt

include hinit ha h0 hlt in
/-- It touches neither memory nor the root. -/
theorem PageRun.frame (h : PageRun s₀ s live) :
    s.mem = s₀.mem ∧ s.kernelRootPtb = s₀.kernelRootPtb := by
  induction h with
  | start => exact ⟨rfl, rfl⟩
  | get hrun hg ih =>
    obtain ⟨-, -, rfl⟩ | ⟨-, -, rfl⟩ :=
      allocGetPage_cases (hrun.conserved hinit h0 hlt).initialized hg
    · exact ih
    · exact ih
  | @free s s' live p r hrun hp hf ih =>
    have hc := hrun.conserved hinit h0 hlt
    rw [hc.run_allocFreePage ha hp] at hf
    injection hf with _ hs
    exact hs ▸ ih

end PageRun

/-! ## 4. They are no tables, and no part of the image -/

section Disjoint

variable {k : MemoryMap} (L : Layout k) {n : ℕ} {s : Kernel}

/-- The gigapage leaves are no pointers, so the tables are those of the tree. -/
theorem tableAt_of_directMapped {m : Mem} {root : U64}
    (hd : ∀ i < 32, m (slot root (256 + i)) = directMapPte i) (p : List ℕ) :
    tableAt noSlots m root p = tableAt directSlots m root p := by
  refine tableAt_unexempt (fun i hi hS => ?_) p
  unfold directSlots at hS
  rw [decide_eq_true_eq] at hS
  obtain ⟨j, rfl⟩ : ∃ j, i = 256 + j := ⟨i - 256, by omega⟩
  have hj : j < 32 := by omega
  rw [hd j hj, isPointer_eq]
  interval_cases j <;> decide

theorem MmReady.tables (h : MmReady directSlots k n s) {p : List ℕ} {t : U64}
    (ht : tableAt noSlots s.mem k.freeStart p = some t) : ∃ m < n, t = pageAt k.freeStart m := by
  obtain ⟨s₁, hb, hroot, hd, hmem, hn⟩ := h.boot
  have hd' : ∀ i < 32, s.mem (slot k.freeStart (256 + i)) = directMapPte i := by
    rw [← hmem, ← hroot]
    exact hd
  rw [tableAt_of_directMapped hd', ← hmem, ← hroot] at ht
  rw [← hn]
  exact hb.tables.taken p t ht

include L in
/-- The physical page behind a page of the second list. -/
theorem vaToPa_of_mem (hn : n ≤ 517) {p : U64}
    (hp : p ∈ initialList (paToVa (pageAt k.freeStart n))) :
    ∃ i, n ≤ i ∧ i < 2 * allocListSize ∧ vaToPa p = pageAt k.freeStart i := by
  obtain ⟨i, hi, rfl⟩ := List.mem_map.mp hp
  rw [List.mem_range] at hi
  have hlt : n + i < 2 * allocListSize := by
    unfold allocListSize at *
    omega
  refine ⟨n + i, by omega, hlt, ?_⟩
  rw [pageAt_paToVa, pageAt_add, vaToPa_paToVa (toNat_pageAt_freeStart L hlt).2]

end Disjoint

/-- **What `mm_init` leaves to be handed out is free.**  Over a clean root page, after `mm_init` and
any allocations and frees of live pages, the physical page behind a live page is no table reachable
from the kernel's root, and lies past the image. -/
theorem mm_init_hands_out_free_pages {y : Symbols} (L : Layout y.kmap) {fuel : ℕ}
    (hfuel : 262144 < fuel) {s : Kernel} (hclean : RootClean directSlots y.kmap s.mem)
    (hev : s.events = []) :
    ∃ s₀, mmInit y fuel s = .ok () s₀ ∧ ∀ s' live, PageRun s₀ s' live → ∀ p ∈ live,
      (∀ path t, tableAt noSlots s'.mem (vaToPa s'.kernelRootPtb) path = some t → vaToPa p ≠ t) ∧
        y.kmap.freeStart ≤ vaToPa p := by
  obtain ⟨_, s₀, hrun, ⟨n, hn, h⟩, -⟩ := run_mmInit L directSlots_bootSlots rfl hfuel hclean hev
  refine ⟨s₀, hrun, fun s' live hpr p hp => ?_⟩
  obtain ⟨ha, h0, hlt⟩ := paToVa_pageAt L hn
  obtain ⟨_, hinit⟩ := h.alloc
  obtain ⟨hmem, hroot⟩ := hpr.frame hinit ha h0 hlt
  have hc := hpr.conserved hinit h0 hlt
  obtain ⟨i, hni, hi, hpa⟩ := vaToPa_of_mem L hn (hc.mem (Or.inl hp))
  have hzero := toNat_pageAt_freeStart L (m := 0) (by decide)
  rw [pageAt_zero] at hzero
  have hnat := (toNat_pageAt_freeStart L hi).1
  refine ⟨?_, ?_⟩
  · intro path t ht heq
    rw [hmem, hroot, h.root, vaToPa_paToVa hzero.2] at ht
    obtain ⟨m, hm, rfl⟩ := h.tables ht
    have hmi : m < i := lt_of_lt_of_le hm hni
    rw [hpa] at heq
    rw [heq, (toNat_pageAt_freeStart L (hmi.trans hi)).1] at hnat
    clear hlt hi
    omega
  · rw [hpa, BitVec.le_def, hnat]
    exact Nat.le_add_right _ _

/-! ## 5. The small image -/

/-- The symbols of the small image. -/
def smallSymbols : Symbols where
  start := 0xffffffff80000000
  stop := 0xffffffff80010000
  textStart := 0xffffffff80001000
  textEnd := 0xffffffff80003210
  bssStart := 0xffffffff80004000
  bssEnd := 0xffffffff8000d100
  rodataStart := 0xffffffff8000e000
  rodataEnd := 0xffffffff8000e800
  dataStart := 0xffffffff8000f000
  dataEnd := 0xffffffff8000f080

theorem smallSymbols_layout : Layout smallSymbols.kmap := smallMap_layout

/-- Allocations alone hand out the list in order. -/
theorem exists_pageRun {s₀ s' : Kernel} {start : U64} (hinit : allocInit start s' = .ok 0 s₀)
    (ha : Aligned start) (hne : ∀ q ∈ initialList start, q ≠ 0) :
    ∀ j ≤ allocListSize - 1, ∃ s live, PageRun s₀ s live ∧ s.alloc.initialized = true ∧
      s.alloc.next = j ∧ (∀ m, j ≤ m → m < allocListSize → s.alloc.list m = pageAt start m) ∧
      ∀ m < j, pageAt start m ∈ live := by
  intro j
  induction j with
  | zero =>
    intro _
    rw [run_allocInit ha] at hinit
    injection hinit with _ hs
    refine ⟨s₀, [], PageRun.start, ?_, ?_, ?_, by simp⟩
    · rw [← hs]
    · rw [← hs]
    · intro m _ hm
      rw [← hs]
      exact if_pos hm
  | succ j ih =>
    intro hj
    obtain ⟨s, live, hrun, hi, hn, hlist, hmem⟩ := ih (by omega)
    have hjlt : j < allocListSize := by
      unfold allocListSize at *
      omega
    have hpage : s.alloc.list s.alloc.next = pageAt start j := by
      rw [hn]
      exact hlist j (Nat.le_refl _) hjlt
    have hfull : s.alloc.next ≠ allocListSize - 1 := by omega
    have hget := run_allocGetPage hi hfull
    have hne0 : pageAt start j ≠ 0 := hne _ (List.mem_map.mpr ⟨j, List.mem_range.mpr hjlt, rfl⟩)
    have hlive : handOut (s.alloc.list s.alloc.next) live = pageAt start j :: live := by
      rw [hpage, handOut, if_neg hne0]
    refine ⟨_, _, hrun.get hget, hi, congrArg (· + 1) hn, ?_, ?_⟩
    · intro m hm1 hm2
      rw [← hlist m (by omega) hm2]
      exact Function.update_of_ne (by omega) _ _
    · intro m hm
      rw [hlive]
      by_cases hmj : m = j
      · exact hmj ▸ List.mem_cons_self
      · exact List.mem_cons_of_mem _ (hmem m (by omega))

/-- The first page handed out after `mm_init` of the small image lies past it. -/
theorem mm_init_hands_out_free_pages_first :
    ∃ s₀ s' live p, mmInit smallSymbols 262145 smallBoot = .ok () s₀ ∧ PageRun s₀ s' live ∧
      p ∈ live ∧ 0x80010000 ≤ vaToPa p := by
  have L := smallSymbols_layout
  obtain ⟨s₀, hrun, hfree⟩ := mm_init_hands_out_free_pages L lt_smallFuel smallBoot_clean rfl
  obtain ⟨_, s₁, hrun₁, ⟨n, hn, h⟩, -⟩ :=
    run_mmInit L directSlots_bootSlots rfl lt_smallFuel smallBoot_clean rfl
  rw [hrun] at hrun₁
  injection hrun₁ with _ hs
  subst hs
  obtain ⟨ha, h0, hlt⟩ := paToVa_pageAt L hn
  obtain ⟨_, hinit⟩ := h.alloc
  obtain ⟨s', live, hpr, -, -, -, hmem⟩ := exists_pageRun hinit ha
    (fun q hq => ne_zero_of_mem_initialList hlt h0 hq) 1 (by decide)
  have hfirst := hmem 0 (by norm_num)
  exact ⟨s₀, s', live, _, hrun, hpr, hfirst, (hfree s' live hpr _ hfirst).2⟩

/-- A memory whose first free page, the root to be, holds one valid entry at index 1: a pointer to
the page `0x80400000`. -/
def garbageMem : Mem := Function.update (fun _ => 0) (slot 0x80010000 1) (mkPte 0x80400 1)

theorem garbageMem_slot : garbageMem (slot 0x80010000 1) = mkPte 0x80400 1 :=
  Function.update_self _ _ _

def garbageBoot : Kernel := { smallBoot with mem := garbageMem }

/-- The direct map, and the slot with the leftover pointer. -/
def garbageSlots (i : ℕ) : Bool := directSlots i || i == 1

theorem garbageSlots_bootSlots : BootSlots garbageSlots := by
  refine ⟨fun i hi => ?_, by decide, by decide⟩
  rw [garbageSlots, hi, Bool.true_or]

theorem garbageBoot_clean : RootClean garbageSlots smallMap garbageBoot.mem := by
  intro i hi hS
  have hne : slot smallMap.freeStart i ≠ slot 0x80010000 1 := by
    intro heq
    obtain rfl := (slot_inj (by decide) (by decide) hi (by norm_num) heq).2
    exact absurd hS (by decide)
  have hz : garbageMem (slot smallMap.freeStart i) = 0 := Function.update_of_ne hne _ _
  show (garbageMem (slot smallMap.freeStart i)).getLsbD 0 = false
  rw [hz]
  rfl

/-- **The root page is not cleared.**  A pointer left in it becomes part of the kernel's tables: the
page it names is reachable from the root, and `alloc_get_page` hands it out. -/
theorem mm_init_root_garbage :
    Layout smallSymbols.kmap ∧ ∃ s₀ s' live p,
      mmInit smallSymbols 262145 garbageBoot = .ok () s₀ ∧ PageRun s₀ s' live ∧ p ∈ live ∧
      tableAt noSlots s'.mem (vaToPa s'.kernelRootPtb) [1] = some (vaToPa p) := by
  have L := smallSymbols_layout
  obtain ⟨_, s₀, hrun, ⟨n, hn, h⟩, hkeep⟩ :=
    run_mmInit L garbageSlots_bootSlots rfl lt_smallFuel garbageBoot_clean rfl
  obtain ⟨ha, h0, hlt⟩ := paToVa_pageAt L hn
  obtain ⟨_, hinit⟩ := h.alloc
  -- the page `0x80400000` is number 1008 past the image, so `1008 - n` pages come before it
  obtain ⟨s', live, hpr, -, -, -, hmem⟩ := exists_pageRun hinit ha
    (fun q hq => ne_zero_of_mem_initialList hlt h0 hq) (1008 - n + 1)
    (by unfold allocListSize; omega)
  obtain ⟨hmem', hroot'⟩ := hpr.frame hinit ha h0 hlt
  have hpage : pageAt (paToVa (pageAt smallSymbols.kmap.freeStart n)) (1008 - n)
      = paToVa 0x80400000 := by
    have hadd : n + (1008 - n) = 1008 := by omega
    rw [pageAt_paToVa, pageAt_add, hadd]
    decide
  refine ⟨L, s₀, s', live, paToVa 0x80400000, hrun, hpr, ?_, ?_⟩
  · rw [← hpage]
    exact hmem (1008 - n) (Nat.lt_succ_self _)
  · have hpte : s₀.mem (slot smallSymbols.kmap.freeStart 1) = mkPte 0x80400 1 := by
      rw [hkeep 1 (by norm_num) (by decide) (by decide)]
      exact garbageMem_slot
    rw [hmem', hroot', h.root, vaToPa_paToVa (by decide), vaToPa_paToVa (by decide)]
    refine tableAt_cons.mpr ⟨_, tableAt_nil, by simp, by norm_num, by simp, ?_, ?_⟩
    · rw [hpte]
      decide
    · rw [hpte]
      decide

/-! ## 6. Two boots over different free pages -/

/-- The two memories differ in free pages only. -/
def AgreeBelow (k : MemoryMap) (m₁ m₂ : Mem) : Prop := ∀ a, a < k.freeStart → m₁ a = m₂ a

/-- **The two boots cannot be told apart**: both return, with the root in the same place, and
every virtual address is translated alike. -/
def SameSpace (fuel : ℕ) (s : Kernel) (m₁ m₂ : Mem) : Prop :=
  ∃ s₁ s₂, initKernel fuel { s with mem := m₁ } = .ok () s₁ ∧
    initKernel fuel { s with mem := m₂ } = .ok () s₂ ∧ s₁.kernelRootPtb = s₂.kernelRootPtb ∧
    ∀ va, walk s₁.mem s₁.kernelRootPtb va = walk s₂.mem s₂.kernelRootPtb va

/-- A readable gigapage at `0x80000000`. -/
def strayLeaf : U64 := mkPte 0x80000 3

/-- A memory with that leaf left over in entry 1 of the first free page. -/
def strayMem (k : MemoryMap) (m : Mem) : Mem := Function.update m (slot k.freeStart 1) strayLeaf

section Stray

variable {k : MemoryMap} (L : Layout k) {fuel : ℕ} (hfuel : 262144 < fuel) {s : Kernel}
  (hk : s.kmap = k) (hev : s.events = []) {m : Mem} (hclean : RootClean directSlots k m)

include L in
theorem strayMem_agreeBelow (m : Mem) : AgreeBelow k m (strayMem k m) := by
  intro a ha
  refine (Function.update_of_ne ?_ _ _).symm
  rintro rfl
  rw [BitVec.lt_def, toNat_slot L.freeStart_aligned (by norm_num)] at ha
  omega

include L hclean in
theorem strayMem_clean : RootClean garbageSlots k (strayMem k m) := by
  intro i hi hS
  have hne : slot k.freeStart i ≠ slot k.freeStart 1 := by
    intro heq
    obtain rfl := (slot_inj L.freeStart_aligned L.freeStart_aligned hi (by norm_num) heq).2
    exact absurd hS (by decide)
  rw [strayMem, Function.update_of_ne hne]
  exact hclean i hi (Bool.or_eq_false_iff.mp hS).1

include L in
/-- No layout maps the second GiB. -/
theorem kernelMapping_second_gib : kernelMapping k 0x40000000 = none := by
  have hlt : (0x40000000 : U64).toNat < 0xffffffff80000000 := by decide
  rw [kernelMapping, L.covers_none hlt]
  rfl

include L hfuel hk hev hclean in
/-- The leftover leaf is live after the boot. -/
theorem not_sameSpace_stray : ¬ SameSpace fuel s m (strayMem k m) := by
  rintro ⟨s₁, s₂, hrun₁, hrun₂, -, hwalk⟩
  obtain ⟨_, s₁', hrun₁', h₁, -, hd₁, -⟩ := run_initKernel directSlots_bootSlots L hfuel
    (s := { s with mem := m }) hk hclean hev
  obtain ⟨_, s₂', hrun₂', -, hroot₂, -, hkeep⟩ := run_initKernel garbageSlots_bootSlots L hfuel
    (s := { s with mem := strayMem k m }) hk (strayMem_clean L hclean) hev
  rw [hrun₁] at hrun₁'
  rw [hrun₂] at hrun₂'
  injection hrun₁' with _ hs₁
  injection hrun₂' with _ hs₂
  subst hs₁ hs₂
  have hleaf : s₂.mem (slot k.freeStart 1) = strayLeaf := by
    rw [hkeep 1 (by norm_num) (by decide) (by decide)]
    exact Function.update_self _ _ _
  have hmapped : walk s₂.mem s₂.kernelRootPtb 0x40000000 = some ⟨0x80000000, 2⟩ := by
    have hvpn : vpn 0x40000000 2 = 1 := by decide
    have hkind : kind strayLeaf = .leaf := by decide
    rw [walk, if_pos (by decide), hroot₂, walkFrom, hvpn, hleaf, hkind]
    exact (by decide : leafMapping 0x40000000 2 strayLeaf = some ⟨0x80000000, 2⟩)
  have hclear := h₁.walk_eq L hd₁ 0x40000000
  rw [kernelMapping_second_gib L] at hclear
  rw [← hwalk, hclear] at hmapped
  cases hmapped

end Stray

/-- **The address space depends on the root page, and on no other free page.**  Over memories whose
first free page has no valid entry outside the direct map, all boots agree.  The condition cannot be
dropped for any layout: one word left over in that page changes the translation. -/
theorem init_kernel_ignores_free_ram {k : MemoryMap} (L : Layout k) {fuel : ℕ}
    (hfuel : 262144 < fuel) {s : Kernel} (hk : s.kmap = k) (hev : s.events = []) {m₁ m₂ : Mem}
    (h₁ : RootClean directSlots k m₁) (h₂ : RootClean directSlots k m₂) :
    (AgreeBelow k m₁ m₂ → SameSpace fuel s m₁ m₂) ∧
      ∃ m, AgreeBelow k m₁ m ∧ ¬ SameSpace fuel s m₁ m := by
  refine ⟨fun _ => ?_, strayMem k m₁, strayMem_agreeBelow L m₁,
    not_sameSpace_stray L hfuel hk hev h₁⟩
  obtain ⟨_, s₁, hrun₁, hb₁, hroot₁, hd₁, -⟩ := run_initKernel directSlots_bootSlots L hfuel
    (s := { s with mem := m₁ }) hk h₁ hev
  obtain ⟨_, s₂, hrun₂, hb₂, hroot₂, hd₂, -⟩ := run_initKernel directSlots_bootSlots L hfuel
    (s := { s with mem := m₂ }) hk h₂ hev
  refine ⟨s₁, s₂, hrun₁, hrun₂, hroot₁.trans hroot₂.symm, fun va => ?_⟩
  rw [hb₁.walk_eq L hd₁, hb₂.walk_eq L hd₂]

/-- A memory of ones past the root page boots like a zeroed one. -/
theorem init_kernel_ignores_free_ram_ones :
    SameSpace 262145 smallBoot (fun _ => 0) (fun a => if a < 0x80011000 then 0 else 1) := by
  refine (init_kernel_ignores_free_ram smallMap_layout (s := smallBoot) (by norm_num) rfl rfl
    (fun _ _ _ => rfl) ?_).1 ?_
  · intro i hi _
    have ha : (slot smallMap.freeStart i) < 0x80011000 := by
      rw [BitVec.lt_def, toNat_slot smallMap_layout.freeStart_aligned hi]
      change 0x80010000 + 8 * i < 0x80011000
      omega
    simp only [if_pos ha]
    rfl
  · intro a ha
    have hlt : a < 0x80011000 := by
      rw [BitVec.lt_def] at ha ⊢
      change a.toNat < 0x80010000 at ha
      change a.toNat < 0x80011000
      omega
    simp only [if_pos hlt]

/-- **Two boots told apart.**  The small image over a zeroed memory, and over one with a single word
left in the root page: the second GiB is mapped in one address space only. -/
theorem init_kernel_sees_free_ram :
    Layout smallMap ∧ AgreeBelow smallMap (fun _ => 0) (strayMem smallMap fun _ => 0) ∧
      ¬ SameSpace 262145 smallBoot (fun _ => 0) (strayMem smallMap fun _ => 0) :=
  ⟨smallMap_layout, strayMem_agreeBelow smallMap_layout _,
    not_sameSpace_stray smallMap_layout (by norm_num) rfl rfl fun _ _ _ => rfl⟩

end RvKernel.Mm
