/-
# The kernel's own page tables (`vm_init_kernel`)

`vm_init_kernel` maps the four sections of the kernel image page by page, the serial device, the
direct map (32 gigapage leaves stored straight into the root) and, last, the page 0.  The root
slots of the direct map, `directSlots`, stay outside the tree of tables throughout.

* §1 is the code.
* §2 is what `linker.ld` guarantees, and the translation the function is for (`kernelMapping`).
* §3 is the invariant of the page-table pages, `TableInv`: the tables are exactly the pages the
  allocator has handed out, in order, and each of them but the root was zeroed.
* §4 carries it through a section loop.  No call can fail: a page of the image is mapped once, and
  the tables all lie on one of 517 paths, so the allocator cannot run dry.
* §5 is the four sections, §6 the direct map, §7 the whole function.
-/
import RvKernel.Mm.MapRun

namespace RvKernel.Mm

open Sv39 Effect

/-! ## 1. The code -/

/-- The loop `for (addr = start; addr < end; addr += PAGE_SIZE)` over a section. -/
def mapSection (mmu : Mmu) (stop flags : U64) : ℕ → U64 → KM Unit
  | 0, _ => throw .fuel
  | fuel + 1, addr => do
    if addr < stop then
      let _ ← vmMapPage mmu addr (addr - (← get).kmap.physOffset) flags
      mapSection mmu stop flags fuel (addr + pageSize)
    else
      return ()

/-- The gigapage leaf of the direct map for its `i`-th GiB. -/
def directMapPte (i : ℕ) : U64 :=
  pteFromPpn (physToPpn (BitVec.ofNat 64 i * size1G)) |||
    (PTE.read ||| PTE.write ||| PTE.exec ||| PTE.valid)

/-- `vm_init_kernel_direct_map()`. -/
def vmInitKernelDirectMap (mmu : Mmu) : KM Unit := do
  let ptb := (← get).kernelRootPtb
  (List.range (kernelDirectMapSize / size1G).toNat).forM fun i => do
    let va := kernelDirectMapStart + BitVec.ofNat 64 i * size1G
    let idx ← vaGetIndex va 2
    store mmu (ptbGetPtep ptb idx) (directMapPte i)

/-- `vm_init_kernel()`.  The return values of `vm_map_page` are ignored, as in the source. -/
def vmInitKernel (mmu : Mmu) (fuel : ℕ) : KM Unit := do
  let root ← allocGetPage
  modify fun s => { s with kernelRootPtb := root }
  let kmap := (← get).kmap
  mapSection mmu kmap.textEnd (PTE.read ||| PTE.exec) fuel kmap.textStart
  mapSection mmu kmap.bssEnd (PTE.read ||| PTE.write) fuel kmap.bssStart
  mapSection mmu kmap.rodataEnd PTE.read fuel kmap.rodataStart
  mapSection mmu kmap.dataEnd (PTE.read ||| PTE.write) fuel kmap.dataStart
  let _ ← vmMapPage mmu 0x10000000 0x10000000 (PTE.read ||| PTE.write)
  vmInitKernelDirectMap mmu
  let _ ← vmMapPage mmu 0 0 0
  return ()

theorem Logs.mapSection (mmu : Mmu) (stop flags : U64) : ∀ (fuel : ℕ) (addr : U64),
    Logs (Mm.mapSection mmu stop flags fuel addr)
  | 0, _ => Logs.throw _
  | fuel + 1, addr => by
    refine Logs.ite ?_ (Logs.pure _)
    exact Logs.get.bind fun _ => (Logs.vmMapPage _ _ _ _).bind fun _ =>
      Logs.mapSection mmu stop flags fuel _

theorem Logs.forM {f : ℕ → KM PUnit} (hf : ∀ i, Logs (f i)) : ∀ is : List ℕ, Logs (is.forM f)
  | [] => Logs.pure _
  | i :: is => (hf i).bind fun _ => Logs.forM hf is

theorem Logs.vmInitKernelDirectMap (mmu : Mmu) : Logs (Mm.vmInitKernelDirectMap mmu) :=
  Logs.get.bind fun _ => Logs.forM (fun _ => (Logs.vaGetIndex _ _).bind fun _ =>
    Logs.store _ _ _) _

theorem Logs.vmInitKernel (mmu : Mmu) (fuel : ℕ) : Logs (Mm.vmInitKernel mmu fuel) := by
  refine Logs.allocGetPage.bind fun root => Logs.bind (Logs.of_modify (fun s => ?_) fun s => ?_)
    fun _ => Logs.get.bind fun _ => ?_
  · exact List.prefix_rfl
  · rfl
  · exact (Logs.mapSection _ _ _ _ _).bind fun _ => (Logs.mapSection _ _ _ _ _).bind fun _ =>
      (Logs.mapSection _ _ _ _ _).bind fun _ => (Logs.mapSection _ _ _ _ _).bind fun _ =>
      (Logs.vmMapPage _ _ _ _).bind fun _ => (Logs.vmInitKernelDirectMap _).bind fun _ =>
      (Logs.vmMapPage _ _ _ _).bind fun _ => Logs.pure _

/-! ## 2. The layout and the purpose -/

/-- `KERNEL_PHYS_OFFSET`. -/
def kernelPhysOffset : U64 := 0xffffffff00000000

/-- A section of the image, with the permissions its pages get. -/
structure Segment where
  start : U64
  stop : U64
  flags : U64

/-- The pages of the section cover `va`. -/
def Segment.Covers (g : Segment) (va : U64) : Prop :=
  g.start.toNat ≤ va.toNat ∧ va.toNat / 4096 * 4096 < g.stop.toNat

instance (g : Segment) (va : U64) : Decidable (g.Covers va) := inferInstanceAs (Decidable (_ ∧ _))

/-- The four sections, in the order in which they are mapped. -/
def MemoryMap.segments (k : MemoryMap) : List Segment :=
  [⟨k.textStart, k.textEnd, PTE.read ||| PTE.exec⟩, ⟨k.bssStart, k.bssEnd, PTE.read ||| PTE.write⟩,
    ⟨k.rodataStart, k.rodataEnd, PTE.read⟩, ⟨k.dataStart, k.dataEnd, PTE.read ||| PTE.write⟩]

/-- One section as `linker.ld` places it. -/
structure Segment.Ok (k : MemoryMap) (g : Segment) : Prop where
  aligned : Aligned g.start
  lower : 0xffffffff80000000 ≤ g.start.toNat
  le : g.start.toNat ≤ g.stop.toNat
  upper : g.stop.toNat ≤ 0xffffffffc0000000
  image : g.stop.toNat ≤ k.kernelEnd.toNat

/-- **What `linker.ld` guarantees.** -/
structure Layout (k : MemoryMap) : Prop where
  offset : k.physOffset = kernelPhysOffset
  end_aligned : Aligned k.kernelEnd
  segment : ∀ g ∈ k.segments, g.Ok k
  disjoint : k.segments.Pairwise fun g g' => ∀ va, ¬ (g.Covers va ∧ g'.Covers va)

/-- The first page past the image, in physical memory. -/
def MemoryMap.freeStart (k : MemoryMap) : U64 := k.kernelEnd - k.physOffset

/-- **The translation `vm_init_kernel` is for.** -/
def kernelMapping (k : MemoryMap) (va : U64) : Option Mapping :=
  match k.segments.find? (fun g => decide (g.Covers va)) with
  | some g => some ⟨va - k.physOffset, g.flags⟩
  | none =>
    if va.toNat / 4096 = 0x10000 then some ⟨va, PTE.read ||| PTE.write⟩
    else if kernelDirectMapStart ≤ va ∧ va - kernelDirectMapStart < kernelDirectMapSize then
      some ⟨va - kernelDirectMapStart, PTE.read ||| PTE.write ||| PTE.exec⟩
    else none

section Layout

variable {k : MemoryMap} (L : Layout k)

include L in
/-- An address in front of the image lies in no section. -/
theorem Layout.covers_none {va : U64} (h : va.toNat < 0xffffffff80000000) :
    k.segments.find? (fun g => decide (g.Covers va)) = none := by
  rw [List.find?_eq_none]
  intro g hg hcov
  have hlow := (L.segment g hg).lower
  rw [decide_eq_true_eq, Segment.Covers] at hcov
  omega

include L in
theorem Layout.toNat_freeStart :
    k.freeStart.toNat = k.kernelEnd.toNat - 0xffffffff00000000 ∧
      0xffffffff80000000 ≤ k.kernelEnd.toNat := by
  have hg := L.segment ⟨k.textStart, k.textEnd, PTE.read ||| PTE.exec⟩
    (by simp [MemoryMap.segments])
  have hlow := hg.lower
  have hle := hg.le
  have himg := hg.image
  have hoff : kernelPhysOffset.toNat = 0xffffffff00000000 := by decide
  have := k.kernelEnd.isLt
  simp only at hlow hle himg
  refine ⟨?_, by omega⟩
  rw [MemoryMap.freeStart, L.offset, BitVec.toNat_sub, hoff]
  omega

include L in
theorem Layout.freeStart_aligned : Aligned k.freeStart := by
  have hend := L.end_aligned
  have h := L.toNat_freeStart
  unfold Aligned at *
  omega

include L in
theorem Layout.freeStart_lt : k.freeStart.toNat + allocListSize * 4096 ≤ 2 ^ 56 := by
  have h := L.toNat_freeStart
  have := k.kernelEnd.isLt
  unfold allocListSize
  omega

end Layout

/-! ## 3. The page-table pages -/

/-- The root slots of the direct map. -/
def directSlots (i : ℕ) : Bool := decide (256 ≤ i ∧ i < 288)

/-- Root slots that `vm_init_kernel` never descends into, the direct map among them. -/
structure BootSlots (S : ℕ → Bool) : Prop where
  direct : ∀ i, directSlots i = true → S i = true
  image : S 510 = false
  low : S 0 = false

theorem directSlots_bootSlots : BootSlots directSlots := ⟨fun _ h => h, rfl, rfl⟩

/-- **The tables are the pages handed out**, in the order of the list; all but the root were
zeroed. -/
structure TableInv (S : ℕ → Bool) (start : U64) (s : Kernel) : Prop where
  list : ∀ n, s.alloc.next ≤ n → n < allocListSize → s.alloc.list n = pageAt start n
  handed : ∀ n < s.alloc.next, ∃ p, s.table S p = some (pageAt start n)
  taken : ∀ p t, s.table S p = some t → ∃ n < s.alloc.next, t = pageAt start n
  zeroed : ∀ p t, p ≠ [] → s.table S p = some t → .zeroPage t ∈ s.events

section TableInv

variable {S : ℕ → Bool} {start : U64} {s s₁ : Kernel}

theorem TableInv.grows {N : List ℕ → Prop} (h : TableInv S start s)
    (hg : Grows S N s s₁) : TableInv S start s₁ := by
  have hle := hg.next_le
  have hlt := hg.inv.next_lt
  have hold : ∀ p t, s.table S p = none → s₁.table S p = some t →
      ∃ n, s.alloc.next ≤ n ∧ n < s₁.alloc.next ∧ t = pageAt start n := by
    intro p t hp ht
    obtain ⟨-, n, h1, h2, rfl⟩ := hg.new p t hp ht
    exact ⟨n, h1, h2, h.list n h1 (by omega)⟩
  have hsame : ∀ {p t u}, s.table S p = some u → s₁.table S p = some t →
      u = t := by
    intro p t u hu ht
    have hmono := hg.mono p u hu
    rw [ht, Option.some.injEq] at hmono
    exact hmono.symm
  refine ⟨?_, ?_, ?_, ?_⟩
  · intro n h1 h2
    rw [hg.list_eq n h1]
    exact h.list n (by omega) h2
  · intro n hn
    by_cases hn' : n < s.alloc.next
    · obtain ⟨p, hp⟩ := h.handed n hn'
      exact ⟨p, hg.mono p _ hp⟩
    · obtain ⟨p, hp⟩ := hg.handed n (by omega) hn
      rw [h.list n (by omega) (by omega)] at hp
      exact ⟨p, hp⟩
  · intro p t ht
    cases hp : s.table S p with
    | none =>
      obtain ⟨n, -, h2, heq⟩ := hold p t hp ht
      exact ⟨n, h2, heq⟩
    | some u =>
      obtain ⟨n, hn, heq⟩ := h.taken p u hp
      exact ⟨n, by omega, (hsame hp ht).symm.trans heq⟩
  · intro p t hne ht
    obtain ⟨es, hes, -, -, hzero⟩ := hg.events
    rw [hes]
    cases hp : s.table S p with
    | none => exact List.mem_append_right _ (hzero p t hp ht)
    | some u =>
      refine List.mem_append_left _ (h.zeroed p t hne ?_)
      rw [hp, hsame hp ht]

/-- Anything that writes no upper entry of the tree, and forgets no event. -/
theorem TableInv.congr (h : TableInv S start s) (htab : ∀ p, s₁.table S p
      = s.table S p) (halloc : s₁.alloc = s.alloc) (hev : s.events <+: s₁.events) :
    TableInv S start s₁ := by
  refine ⟨?_, ?_, ?_, ?_⟩
  · rw [halloc]
    exact h.list
  · intro n hn
    rw [halloc] at hn
    obtain ⟨p, hp⟩ := h.handed n hn
    exact ⟨p, (htab p).trans hp⟩
  · intro p t ht
    rw [halloc]
    exact h.taken p t ((htab p).symm.trans ht)
  · intro p t hne ht
    exact hev.subset (h.zeroed p t hne ((htab p).symm.trans ht))

/-- An address inside a table lies at or above the first page of the list. -/
theorem TableInv.le_of_inTable (h : TableInv S start s) (hn : s.alloc.next < allocListSize)
    (ha : Aligned start) (hlt : start.toNat + allocListSize * 4096 ≤ 2 ^ 56) {a : U64}
    (hin : s.InTable S a) : start.toNat ≤ a.toNat := by
  obtain ⟨p, t, ht, hpage⟩ := hin
  obtain ⟨n, hn', rfl⟩ := h.taken p t ht
  have h64 : start.toNat + allocListSize * 4096 < 2 ^ 64 := lt_of_le_of_lt hlt (by norm_num)
  have hpn : start.toNat ≤ (pageAt start n).toNat := by
    rw [toNat_pageAt h64 (hn'.trans hn)]
    exact Nat.le_add_right _ _
  clear hlt h64
  unfold InPage Aligned at *
  omega

end TableInv

/-! ## 4. The boot invariant, and one section -/

/-- The paths on which `vm_init_kernel` can create a table. -/
def bootPaths : Finset (List ℕ) :=
  {[], [0], [0, 0], [128, 0], [510]} ∪ (Finset.range 512).image fun j => [j, 510]

theorem mem_bootPaths {p : List ℕ} : p ∈ bootPaths ↔
    (p = [] ∨ p = [0] ∨ p = [0, 0] ∨ p = [128, 0] ∨ p = [510]) ∨ ∃ j < 512, p = [j, 510] := by
  unfold bootPaths
  rw [Finset.mem_union, Finset.mem_image]
  simp only [Finset.mem_insert, Finset.mem_singleton, Finset.mem_range, eq_comm]

theorem card_bootPaths_le : bootPaths.card ≤ 517 := by
  refine (Finset.card_union_le _ _).trans ?_
  have h1 : ({[], [0], [0, 0], [128, 0], [510]} : Finset (List ℕ)).card ≤ 5 := Finset.card_le_five
  have h2 : ((Finset.range 512).image fun j => [j, 510]).card ≤ 512 :=
    Finset.card_image_le.trans (by simp)
  omega

/-- **The invariant of `vm_init_kernel`.** -/
structure BootInv (S : ℕ → Bool) (k : MemoryMap) (s : Kernel) (done : List Call) : Prop where
  maps : MapsTo S s done
  kmap : s.kmap = k
  tables : TableInv S k.freeStart s
  within : ∀ p t, s.table S p = some t → p ∈ bootPaths
  /-- nothing was refused, so in particular no call has failed -/
  quiet : ∀ msg, .critical msg ∉ s.events
  /-- no store hit the image -/
  stores : ∀ a v, .store a v ∈ s.events → k.freeStart.toNat ≤ a.toNat

/-- The root stays where it is, and its entries in `P` keep their values. -/
def KeepsSlots (P : ℕ → Prop) (s s' : Kernel) : Prop :=
  s'.kernelRootPtb = s.kernelRootPtb ∧
    ∀ i < 512, P i → s'.mem (slot s.kernelRootPtb i) = s.mem (slot s.kernelRootPtb i)

theorem KeepsSlots.trans {P : ℕ → Prop} {s s₁ s₂ : Kernel} (h₁ : KeepsSlots P s s₁)
    (h₂ : KeepsSlots P s₁ s₂) : KeepsSlots P s s₂ := by
  refine ⟨h₂.1.trans h₁.1, fun i hi hp => ?_⟩
  have hmem := h₂.2 i hi hp
  rw [h₁.1] at hmem
  exact hmem.trans (h₁.2 i hi hp)

theorem KeepsSlots.weaken {P P' : ℕ → Prop} {s s' : Kernel} (h : KeepsSlots P s s')
    (hp : ∀ i, P' i → P i) : KeepsSlots P' s s' :=
  ⟨h.1, fun i hi hi' => h.2 i hi (hp i hi')⟩

section BootInv

variable {S : ℕ → Bool} {k : MemoryMap} {s : Kernel} {done : List Call} (L : Layout k)

include L in
/-- The allocator cannot run dry: at most 517 pages are out. -/
theorem BootInv.next_le (h : BootInv S k s done) : s.alloc.next ≤ 517 := by
  have h64 : k.freeStart.toNat + allocListSize * 4096 < 2 ^ 64 :=
    lt_of_le_of_lt L.freeStart_lt (by norm_num)
  have hlt := h.maps.inv.next_lt
  have hinj : ∀ a < s.alloc.next, ∀ b < s.alloc.next,
      pageAt k.freeStart a = pageAt k.freeStart b → a = b := fun a ha b hb hab =>
    pageAt_inj (ha.trans hlt) (hb.trans hlt) hab
  have hpath : ∀ a < s.alloc.next, ∃ p ∈ bootPaths,
      Radix.find (format S) s.mem s.kernelRootPtb p = some (pageAt k.freeStart a) := by
    intro a ha
    obtain ⟨p, hp⟩ := h.tables.handed a ha
    exact ⟨p, h.within p _ hp, hp⟩
  exact (Radix.card_le_of_paths bootPaths hinj hpath).trans card_bootPaths_le

include L in
/-- **One call of `vm_map_page` for a page that is not mapped yet**: it returns 0, adds the page,
and leaves the direct map alone. -/
theorem BootInv.map (h : BootInv S k s done) {c : Call} (hok : Acceptable c.va c.pa)
    (hS : S (vpn c.va 2) = false) (hpath : ∀ p, OnPath c.va p → p ∈ bootPaths)
    (hout : ∀ d ∈ done, ¬ InPage d.va c.va) :
    Ends (vmMapPage physical c.va c.pa c.flags) s fun r s' =>
      r = 0 ∧ BootInv S k s' (c :: done) ∧ KeepsSlots (fun i => S i = true) s s' := by
  have hnext := h.next_le L
  have hinvalid := h.maps.invalid hok.2.2 hout
  obtain ⟨hv, -⟩ | ⟨-, t, s₁, hg, ht, hrun⟩ | ⟨hlt, -⟩ :=
    vmMapPage_cases h.maps.inv hok hS c.flags
  · rw [hv] at hinvalid
    cases hinvalid
  swap
  · unfold allocListSize at hlt
    omega
  have htab := fun p => table_write0 (v := leafPte c.pa c.flags) hg.inv ht (vpn_lt c.va 0) p
  have hin : s₁.InTable S (slot t (vpn c.va 0)) :=
    ⟨_, t, ht, inPage_slot (aligned_of_tableAt hg.inv.tree.aligned ht) (vpn_lt _ _)⟩
  have htables := h.tables.grows hg
  obtain ⟨es, hes, hcrit, hst, -⟩ := hg.events
  refine ⟨0, _, hrun, rfl, ⟨h.maps.store hok hS hinvalid hg ht, hg.kmap.trans h.kmap, ?_, ?_, ?_,
    ?_⟩, hg.root, ?_⟩
  · exact htables.congr htab rfl (List.prefix_append _ _)
  · intro p u hu
    rw [htab] at hu
    cases hp : s.table S p with
    | none => exact hpath p (hg.new p u hp hu).1
    | some u' => exact h.within p u' hp
  · intro msg hm
    simp only [Kernel.write, hes, List.mem_append, List.mem_singleton, reduceCtorEq,
      or_false] at hm
    rcases hm with hm | hm
    · exact h.quiet msg hm
    · exact hcrit msg hm
  · intro a v hm
    have hlow := fun {a} => htables.le_of_inTable (a := a) hg.inv.next_lt L.freeStart_aligned
      L.freeStart_lt
    simp only [Kernel.write, hes, List.mem_append, List.mem_singleton, Event.store.injEq] at hm
    rcases hm with (hm | hm) | ⟨rfl, -⟩
    · exact h.stores a v hm
    · exact hlow (hst a v hm)
    · exact hlow hin
  · intro i hi hSi
    rw [← hg.exempt i hi hSi]
    exact Function.update_of_ne (hg.root ▸ hg.inv.tree.upper_ne_slot0 ht (vpn_lt _ _) tableAt_nil
      (by simp) hi) _ _

end BootInv

/-- The calls of a section loop over `n` pages from `addr`, on top of earlier ones. -/
def addPages (off flags : U64) : ℕ → U64 → List Call → List Call
  | 0, _, done => done
  | n + 1, addr, done => addPages off flags n (addr + pageSize) (⟨addr, addr - off, flags⟩ :: done)

/-- The number of pages of a section. -/
def Segment.pages (g : Segment) : ℕ := (g.stop.toNat - g.start.toNat + 4095) / 4096

theorem toNat_add_pageSize {a : U64} (h : a.toNat + 4096 < 2 ^ 64) :
    (a + pageSize).toNat = a.toNat + 4096 := by
  rw [BitVec.toNat_add, toNat_pageSize]
  omega

theorem pageAt_zero (a : U64) : pageAt a 0 = a := by
  simp [pageAt]

theorem pageAt_succ (a : U64) (i : ℕ) : pageAt (a + pageSize) i = pageAt a (i + 1) := by
  unfold pageAt
  rw [BitVec.ofNat_add, BitVec.add_mul, BitVec.add_assoc, BitVec.add_comm pageSize]
  simp

theorem mem_addPages {off flags : U64} {c : Call} : ∀ {n : ℕ} {addr : U64} {done : List Call},
    c ∈ addPages off flags n addr done ↔
      c ∈ done ∨ ∃ i < n, c = ⟨pageAt addr i, pageAt addr i - off, flags⟩
  | 0, _, _ => by simp [addPages]
  | n + 1, addr, done => by
    rw [addPages, mem_addPages, List.mem_cons]
    constructor
    · rintro ((rfl | h) | ⟨i, hi, rfl⟩)
      · exact Or.inr ⟨0, by omega, by rw [pageAt_zero]⟩
      · exact Or.inl h
      · exact Or.inr ⟨i + 1, by omega, by rw [pageAt_succ]⟩
    · rintro (h | ⟨i, hi, rfl⟩)
      · exact Or.inl (Or.inr h)
      · cases i with
        | zero => exact Or.inl (Or.inl (by rw [pageAt_zero]))
        | succ i => exact Or.inr ⟨i, by omega, by rw [pageAt_succ]⟩

section Section

variable {S : ℕ → Bool} (B : BootSlots S) {k : MemoryMap} (L : Layout k)

/-- Every page of the image lies in the root slot 510. -/
theorem vpn_image {va : U64} (h1 : 0xffffffff80000000 ≤ va.toNat)
    (h2 : va.toNat < 0xffffffffc0000000) : vpn va 2 = 510 := by
  unfold vpn
  omega

include L in
theorem acceptable_image {va : U64} (ha : Aligned va) (h1 : 0xffffffff80000000 ≤ va.toNat) :
    Acceptable va (va - k.physOffset) := by
  have hoff : kernelPhysOffset.toNat = 0xffffffff00000000 := by decide
  have := va.isLt
  refine ⟨ha, ?_, Or.inr (by omega)⟩
  unfold Aligned at *
  rw [L.offset, BitVec.toNat_sub, hoff]
  omega

theorem onPath_image {va : U64} (h1 : 0xffffffff80000000 ≤ va.toNat)
    (h2 : va.toNat < 0xffffffffc0000000) (p : List ℕ) (hp : OnPath va p) : p ∈ bootPaths := by
  rw [OnPath, vpn_image h1 h2] at hp
  have hlt := vpn_lt va 1
  rcases hp with rfl | rfl
  · exact mem_bootPaths.mpr (Or.inl (by simp))
  · exact mem_bootPaths.mpr (Or.inr ⟨_, hlt, rfl⟩)

include B L in
/-- **The section loop**, with `n` pages to go from `addr`. -/
theorem run_mapSection {stop : U64} (hstop : stop.toNat ≤ 0xffffffffc0000000) (flags : U64) :
    ∀ (n fuel : ℕ) (addr : U64) (s : Kernel) (done : List Call), n < fuel → Aligned addr →
      0xffffffff80000000 ≤ addr.toNat → stop.toNat ≤ addr.toNat + 4096 * n →
      (n ≠ 0 → addr.toNat + 4096 * (n - 1) < stop.toNat) → BootInv S k s done →
      (∀ d ∈ done, ∀ va : U64, addr.toNat ≤ va.toNat →
        va.toNat / 4096 < addr.toNat / 4096 + n → ¬ InPage d.va va) →
      Ends (mapSection physical stop flags fuel addr) s fun _ s' =>
        BootInv S k s' (addPages k.physOffset flags n addr done) ∧
          KeepsSlots (fun i => S i = true) s s'
  | _, 0, _, _, _, hf, _, _, _, _, _, _ => absurd hf (by omega)
  | 0, fuel + 1, addr, s, done, _, _, _, hle, _, h, _ => by
    have hge : ¬ addr < stop := by
      rw [BitVec.lt_def]
      omega
    rw [mapSection, if_neg hge]
    exact Ends.pure ⟨h, rfl, fun _ _ _ => rfl⟩
  | n + 1, fuel + 1, addr, s, done, hf, ha, hlow, hle, hlt, h, hout => by
    have hlt' := hlt (by omega)
    have hin : addr < stop := by
      rw [BitVec.lt_def]
      omega
    have hhigh : addr.toNat < 0xffffffffc0000000 := by omega
    have hvpn := vpn_image hlow hhigh
    rw [mapSection, if_pos hin]
    have hnext := toNat_add_pageSize (a := addr) (by omega)
    refine Ends.get_bind ?_
    rw [h.kmap]
    have hmap := h.map L (c := ⟨addr, addr - k.physOffset, flags⟩) (acceptable_image L ha hlow)
      (by rw [hvpn]; exact B.image) (onPath_image hlow hhigh)
      (fun d hd => hout d hd addr (Nat.le_refl _) (Nat.lt_add_of_pos_right (Nat.succ_pos n)))
    refine hmap.bind ?_
    rintro _ s₁ ⟨-, h₁, hkeep₁⟩
    have hrest := run_mapSection hstop flags n fuel (addr + pageSize) s₁ _ (by omega)
      (by unfold Aligned at *; rw [hnext]; omega) (by rw [hnext]; omega) (by rw [hnext]; omega)
      (fun hn => by rw [hnext]; omega) h₁ ?_
    · refine hrest.mono ?_
      rintro _ s₂ ⟨h₂, hkeep₂⟩
      exact ⟨h₂, hkeep₁.trans hkeep₂⟩
    · intro d hd va hva1 hva2
      rw [hnext] at hva1 hva2
      clear hnext
      rcases List.mem_cons.mp hd with rfl | hd
      · -- the page just mapped lies below the rest
        unfold InPage Aligned at *
        simp only
        omega
      · exact hout d hd va (by omega) (by omega)

end Section

/-! ## 5. The four sections -/

section Segments

variable {S : ℕ → Bool} (B : BootSlots S) {k : MemoryMap} (L : Layout k)

/-- The calls that map the sections `gs`. -/
def segmentCalls (k : MemoryMap) (gs : List Segment) : List Call :=
  gs.foldl (fun done g => addPages k.physOffset g.flags g.pages g.start done) []

theorem segmentCalls_concat (gs : List Segment) (g : Segment) :
    segmentCalls k (gs ++ [g]) =
      addPages k.physOffset g.flags g.pages g.start (segmentCalls k gs) := by
  simp [segmentCalls]

theorem mem_segmentCalls {c : Call} (gs : List Segment) :
    c ∈ segmentCalls k gs ↔ ∃ g ∈ gs, ∃ i < g.pages,
      c = ⟨pageAt g.start i, pageAt g.start i - k.physOffset, g.flags⟩ := by
  induction gs using List.reverseRecOn with
  | nil => simp [segmentCalls]
  | append_singleton gs g ih =>
    rw [segmentCalls_concat, mem_addPages, ih]
    simp only [List.mem_append, List.mem_singleton, or_and_right, exists_or, exists_eq_left]

/-- A section's pages, by number. -/
theorem Segment.Ok.toNat_pageAt {g : Segment} (hg : g.Ok k) {i : ℕ} (hi : i < g.pages) :
    (pageAt g.start i).toNat = g.start.toNat + i * 4096 := by
  have hle := hg.le
  have hup := hg.upper
  unfold Segment.pages at hi
  apply toNat_pageAt_of_lt
  omega

/-- **The pages of a section's calls are the pages it covers.** -/
theorem Segment.Ok.covers_iff {g : Segment} (hg : g.Ok k) (va : U64) :
    g.Covers va ↔ ∃ i < g.pages, InPage (pageAt g.start i) va := by
  have hal := hg.aligned
  have hle := hg.le
  unfold Segment.Covers Aligned at *
  constructor
  · rintro ⟨h1, h2⟩
    have hi : (va.toNat - g.start.toNat) / 4096 < g.pages := by
      unfold Segment.pages
      omega
    refine ⟨_, hi, ?_⟩
    rw [InPage, hg.toNat_pageAt hi]
    omega
  · rintro ⟨i, hi, hin⟩
    rw [InPage, hg.toNat_pageAt hi] at hin
    unfold Segment.pages at hi
    omega

include B L in
/-- One more section. -/
theorem BootInv.segment {gs : List Segment} {g : Segment} {s : Kernel} {fuel : ℕ}
    (h : BootInv S k s (segmentCalls k gs)) (hpre : gs ++ [g] <+: k.segments)
    (hfuel : 262144 < fuel) :
    Ends (mapSection physical g.stop g.flags fuel g.start) s fun _ s' =>
      BootInv S k s' (segmentCalls k (gs ++ [g])) ∧ KeepsSlots (fun i => S i = true) s s' := by
  have hg := L.segment g (hpre.subset (by simp))
  have hlow := hg.lower
  have hup := hg.upper
  have hle := hg.le
  have hal := hg.aligned
  have hpages : g.pages = (g.stop.toNat - g.start.toNat + 4095) / 4096 := rfl
  rw [segmentCalls_concat]
  refine run_mapSection B L hup g.flags g.pages fuel g.start s _ (by omega) hal hlow (by omega)
    (fun hne => by omega) h ?_
  intro d hd va hva1 hva2 hin
  -- a page that is already mapped belongs to an earlier section
  obtain ⟨g', hg', i, hi, rfl⟩ := (mem_segmentCalls gs).mp hd
  have hdisj := (List.pairwise_append.mp (L.disjoint.sublist hpre.sublist)).2.2 g' hg' g (by simp)
  have hg'ok := L.segment g' (hpre.subset (by simp [hg']))
  refine hdisj va ⟨(hg'ok.covers_iff va).mpr ⟨i, hi, hin⟩, hva1, ?_⟩
  unfold Aligned at hal
  omega

end Segments

/-! ## 6. The direct map -/

section DirectMap

variable {S : ℕ → Bool} {k : MemoryMap} {s : Kernel} {done : List Call}

/-- The first 32 GiB of the upper half are the root slots 256 to 287. -/
theorem vpn_direct {i : ℕ} (hi : i < 32) :
    vpn (kernelDirectMapStart + BitVec.ofNat 64 i * size1G) 2 = 256 + i := by
  interval_cases i <;> decide

/-- A canonical address uses one of those slots exactly when it lies in the direct map. -/
theorem directSlots_vpn_iff {va : U64} (hcan : Canonical va) :
    directSlots (vpn va 2) = true ↔
      kernelDirectMapStart ≤ va ∧ va - kernelDirectMapStart < kernelDirectMapSize := by
  have hs : kernelDirectMapStart.toNat = 0xffffffc000000000 := by decide
  have hsz : kernelDirectMapSize.toNat = 32 * 2 ^ 30 := by decide
  unfold directSlots vpn Canonical at *
  have := va.isLt
  rw [decide_eq_true_eq, BitVec.le_def, BitVec.lt_def, BitVec.toNat_sub, hs, hsz]
  clear hs hsz
  constructor
  · intro h
    omega
  · intro h
    omega

theorem directSlots_add {i : ℕ} (hi : i < 32) : directSlots (256 + i) = true := by
  unfold directSlots
  rw [decide_eq_true_eq]
  omega

/-- The leaf of the `i`-th GiB. -/
theorem directMapPte_eq {i : ℕ} (hi : i < 32) :
    directMapPte i = mkPte (i * 2 ^ 18) ((14 : U64).toNat + 1) := by
  interval_cases i <;> decide

/-- A store into a root slot of the direct map is invisible to the tree. -/
theorem BootInv.writeDirect (L : Layout k) (h : BootInv S k s done) {i : ℕ} (hi : i < 512)
    (hS : S i = true) (v : U64) :
    BootInv S k (s.write (slot s.kernelRootPtb i) v) done := by
  have hframe : ∀ a, a ≠ slot s.kernelRootPtb i →
      (s.write (slot s.kernelRootPtb i) v).mem a = s.mem a :=
    fun _ ha => Function.update_of_ne ha _ _
  have htab : ∀ p, (s.write (slot s.kernelRootPtb i) v).table S p
      = s.table S p := h.maps.inv.tree.tableAt_exempt hi hS hframe
  have hpte : ∀ va, (s.write (slot s.kernelRootPtb i) v).pte0 S va
      = s.pte0 S va := fun va =>
    h.maps.inv.tree.entry0_exempt hi hS hframe (vpn_lt va 0)
  have hin : s.InTable S (slot s.kernelRootPtb i) :=
    ⟨[], _, rfl, inPage_slot h.maps.inv.tree.aligned hi⟩
  refine ⟨⟨⟨h.maps.inv.tree.store_exempt hi hS hframe, h.maps.inv.initialized, h.maps.inv.next_le,
    h.maps.inv.free_aligned, h.maps.inv.free_lt, ?_, h.maps.inv.free_inj⟩, h.maps.acceptable, ?_,
    ?_⟩, h.kmap, h.tables.congr htab rfl (List.prefix_append _ _), ?_, ?_, ?_⟩
  · intro n h1 h2 p hp
    exact h.maps.inv.free_fresh n h1 h2 p ((htab p).symm.trans hp)
  · intro c hc
    rw [hpte]
    exact h.maps.mapped c hc
  · intro va hcan hv
    rw [hpte] at hv
    exact h.maps.only va hcan hv
  · intro p t ht
    exact h.within p t ((htab p).symm.trans ht)
  · intro msg hm
    simp only [Kernel.write, List.mem_append, List.mem_singleton, reduceCtorEq, or_false] at hm
    exact h.quiet msg hm
  · intro a w hm
    simp only [Kernel.write, List.mem_append, List.mem_singleton, Event.store.injEq] at hm
    rcases hm with hm | ⟨rfl, -⟩
    · exact h.stores a w hm
    · exact h.tables.le_of_inTable h.maps.inv.next_lt L.freeStart_aligned L.freeStart_lt hin

/-- The direct map is in place. -/
def DirectMapped (s : Kernel) : Prop :=
  ∀ i < 32, s.mem (slot s.kernelRootPtb (256 + i)) = directMapPte i

/-- The loop over a list of GiB numbers: each gets its leaf, no other word changes. -/
theorem run_directMap (B : BootSlots S) (L : Layout k) {root : U64} : ∀ {is : List ℕ} {s : Kernel},
    (∀ i ∈ is, i < 32) → s.kernelRootPtb = root → BootInv S k s done →
    Ends (is.forM fun i => do
      let idx ← vaGetIndex (kernelDirectMapStart + BitVec.ofNat 64 i * size1G) 2
      store physical (ptbGetPtep root idx) (directMapPte i)) s fun _ s' =>
        BootInv S k s' done ∧ s'.kernelRootPtb = root ∧
          (∀ i ∈ is, s'.mem (slot root (256 + i)) = directMapPte i) ∧
          ∀ a, (∀ i ∈ is, a ≠ slot root (256 + i)) → s'.mem a = s.mem a
  | [], s, _, hr, h => Ends.pure ⟨h, hr, by simp, fun _ _ => rfl⟩
  | i :: is, s, his, hr, h => by
    have hi := his i List.mem_cons_self
    have hlt : 256 + i < 512 := by omega
    have hw := h.writeDirect L hlt (B.direct _ (directSlots_add hi)) (directMapPte i)
    rw [hr] at hw
    have hbody : (do
        let idx ← vaGetIndex (kernelDirectMapStart + BitVec.ofNat 64 i * size1G) 2
        store physical (ptbGetPtep root idx) (directMapPte i) : KM Unit) s
          = .ok () (s.write (slot root (256 + i)) (directMapPte i)) := by
      rw [Effect.run_bind, run_vaGetIndex _ (by norm_num)]
      simp only [ptbGetPtep_eq, vpn_direct hi, run_store_physical]
    rw [List.forM]
    refine Ends.bind (Q := fun _ s₁ => s₁ = s.write (slot root (256 + i)) (directMapPte i))
      ⟨_, _, hbody, rfl⟩ ?_
    rintro _ s₁ rfl
    have hr₁ : (s.write (slot root (256 + i)) (directMapPte i)).kernelRootPtb = root := hr
    refine (run_directMap B L (fun j hj => his j (List.mem_cons_of_mem _ hj)) hr₁ hw).mono ?_
    rintro _ s₂ ⟨h₂, hr₂, hset, hframe⟩
    refine ⟨h₂, hr₂, ?_, ?_⟩
    · intro j hj
      rcases List.mem_cons.mp hj with rfl | hj
      · by_cases hmem : ∃ l ∈ is, slot root (256 + j) = slot root (256 + l)
        · obtain ⟨l, hl, heq⟩ := hmem
          have hl32 := his l (List.mem_cons_of_mem _ hl)
          have hroot : Aligned root := hr ▸ h.maps.inv.tree.aligned
          obtain rfl : j = l := by
            have := (slot_inj hroot hroot (by omega) (by omega) heq).2
            omega
          exact hset j hl
        · rw [hframe _ fun l hl heq => hmem ⟨l, hl, heq⟩]
          exact Function.update_self _ _ _
      · exact hset j hj
    · intro a ha
      rw [hframe a fun l hl => ha l (List.mem_cons_of_mem _ hl)]
      exact Function.update_of_ne (ha i List.mem_cons_self) _ _

theorem BootInv.directMap (B : BootSlots S) (L : Layout k) (h : BootInv S k s done) :
    Ends (vmInitKernelDirectMap physical) s fun _ s' =>
      BootInv S k s' done ∧ KeepsSlots (fun i => directSlots i = false) s s' ∧
        DirectMapped s' := by
  have hrange : (kernelDirectMapSize / size1G).toNat = 32 := by decide
  unfold vmInitKernelDirectMap
  refine Ends.get_bind ?_
  rw [hrange]
  refine (run_directMap B L (by simp) rfl h).mono ?_
  rintro _ s' ⟨h', hr, hset, hframe⟩
  refine ⟨h', ⟨hr, fun i hi hd => ?_⟩, fun i hi => ?_⟩
  · refine hframe _ fun j hj heq => ?_
    rw [List.mem_range] at hj
    have hroot := h.maps.inv.tree.aligned
    rw [(slot_inj hroot hroot hi (by omega) heq).2, directSlots_add hj] at hd
    cases hd
  · rw [hr]
    exact hset i (by simpa using hi)

/-- **The translation inside the direct map.** -/
theorem walk_direct {m : Mem} {root va : U64}
    (hset : ∀ i < 32, m (slot root (256 + i)) = directMapPte i)
    (h1 : kernelDirectMapStart ≤ va) (h2 : va - kernelDirectMapStart < kernelDirectMapSize) :
    walk m root va
      = some ⟨va - kernelDirectMapStart, PTE.read ||| PTE.write ||| PTE.exec⟩ := by
  have hs : kernelDirectMapStart.toNat = 0xffffffc000000000 := by decide
  have hsz : kernelDirectMapSize.toNat = 32 * 2 ^ 30 := by decide
  rw [BitVec.le_def, hs] at h1
  have hsub : (va - kernelDirectMapStart).toNat = va.toNat - 0xffffffc000000000 := by
    rw [BitVec.toNat_sub, hs]
    have := va.isLt
    omega
  rw [BitVec.lt_def, hsz, hsub] at h2
  clear hs hsz
  -- the GiB that `va` lies in
  obtain ⟨i, hi⟩ : ∃ i, i = (va.toNat - 0xffffffc000000000) / 2 ^ 30 := ⟨_, rfl⟩
  have hi32 : i < 32 := by omega
  have hvpn : vpn va 2 = 256 + i := by
    unfold vpn
    omega
  have hn : i * 2 ^ 18 < 2 ^ 44 := by omega
  have hf : FlagsRWX 14 := by decide
  have hr : (14 : U64) &&& PTE.read ≠ 0 := by decide
  have hbits : (14 : U64).toNat + 1 < 1024 := by decide
  have hppn := ppn_mkPte hn hbits
  have hpa : BitVec.ofNat 64 (i * 2 ^ 18 * 4096 + va.toNat % (4096 * 512 ^ 2))
      = va - kernelDirectMapStart := by
    apply BitVec.eq_of_toNat_eq
    rw [hsub, BitVec.toNat_ofNat]
    omega
  have hcan : Canonical va := Or.inr (by omega)
  rw [walk, if_pos hcan, walkFrom, hvpn, hset i hi32, directMapPte_eq hi32,
    kind_mkPte hn hf hr]
  have hmod : i * 2 ^ 18 % 512 ^ 2 = 0 := by omega
  simp only [leafMapping, hppn, perm_mkPte hn hf hr, hmod, hpa, ne_eq, not_true_eq_false, if_false]
  rfl

end DirectMap

/-! ## 7. The whole function -/

/-- Every call that `vm_init_kernel` makes, the last one first. -/
def bootCalls (k : MemoryMap) : List Call :=
  ⟨0, 0, 0⟩ :: ⟨0x10000000, 0x10000000, PTE.read ||| PTE.write⟩ :: segmentCalls k k.segments

/-- **What `vm_init_kernel` needs of the page that becomes the root**: no entry outside the direct
map is valid.  The source takes that page from `alloc_get_page`, which does not clear it. -/
def RootClean (S : ℕ → Bool) (k : MemoryMap) (m : Mem) : Prop :=
  ∀ i < 512, S i = false → (m (slot k.freeStart i)).getLsbD 0 = false

section Whole

variable {S : ℕ → Bool} (B : BootSlots S) {k : MemoryMap} (L : Layout k) {s : Kernel}

include L in
/-- The invariant holds of the root alone. -/
theorem BootInv.init (hk : s.kmap = k) (hi : s.alloc.initialized = true) (hn : s.alloc.next = 1)
    (hroot : s.kernelRootPtb = k.freeStart)
    (hlist : ∀ n, 1 ≤ n → n < allocListSize → s.alloc.list n = pageAt k.freeStart n)
    (hclean : RootClean S k s.mem) (hev : s.events = []) : BootInv S k s (segmentCalls k []) := by
  have h64 : k.freeStart.toNat + allocListSize * 4096 < 2 ^ 64 :=
    lt_of_le_of_lt L.freeStart_lt (by norm_num)
  have hinvalid : ∀ i < 512, S i = false →
      (s.mem (slot s.kernelRootPtb i)).getLsbD 0 = false := by
    rw [hroot]
    exact hclean
  have hnone : ∀ p, p ≠ [] → s.table S p = none := fun p hp => tableAt_of_fresh hinvalid hp
  have hnil : ∀ p t, s.table S p = some t → p = [] ∧ t = pageAt k.freeStart 0 := by
    intro p t ht
    by_cases hp : p = []
    · subst hp
      rw [Kernel.table, tableAt_nil, Option.some.injEq] at ht
      exact ⟨rfl, by rw [pageAt_zero, ← hroot, ht]⟩
    · rw [hnone p hp] at ht
      cases ht
  have hal : Aligned s.kernelRootPtb := by
    rw [hroot]
    exact L.freeStart_aligned
  refine ⟨⟨VmInv.of_pages (Tree.of_fresh hal hinvalid) hi ?_ L.freeStart_aligned L.freeStart_lt ?_
    ?_, ?_, ?_, ?_⟩, hk, ⟨?_, ?_, ?_, ?_⟩, ?_, ?_, ?_⟩
  · rw [hn]
    decide
  · intro n h1 h2
    exact hlist n (hn ▸ h1) h2
  · intro n h1 h2 p hp
    rw [hn] at h1
    have := pageAt_inj h2 (by decide) (hnil p _ hp).2
    omega
  · simp [segmentCalls]
  · simp [segmentCalls]
  · intro va _ hv
    obtain ⟨t, ht⟩ := exists_table_of_pte0 hv
    exact absurd (hnil _ t ht).1 (by simp)
  · intro n h1 h2
    exact hlist n (hn ▸ h1) h2
  · intro n h1
    obtain rfl : n = 0 := by omega
    exact ⟨[], by rw [pageAt_zero, ← hroot]; rfl⟩
  · intro p t ht
    exact ⟨0, hn ▸ Nat.one_pos, (hnil p t ht).2⟩
  · intro p t hp ht
    exact absurd (hnil p t ht).1 hp
  · intro p t ht
    exact mem_bootPaths.mpr (Or.inl (Or.inl (hnil p t ht).1))
  · simp [hev]
  · simp [hev]

theorem onPath_serial (p : List ℕ) (hp : OnPath 0x10000000 p) : p ∈ bootPaths := by
  have hvpn₂ : vpn 0x10000000 2 = 0 := by decide
  have hvpn₁ : vpn 0x10000000 1 = 128 := by decide
  rw [OnPath, hvpn₂, hvpn₁] at hp
  rcases hp with rfl | rfl
  · exact mem_bootPaths.mpr (Or.inl (by simp))
  · exact mem_bootPaths.mpr (Or.inl (by simp))

theorem onPath_zero (p : List ℕ) (hp : OnPath 0 p) : p ∈ bootPaths := by
  have hvpn₂ : vpn 0 2 = 0 := by decide
  have hvpn₁ : vpn 0 1 = 0 := by decide
  rw [OnPath, hvpn₂, hvpn₁] at hp
  rcases hp with rfl | rfl
  · exact mem_bootPaths.mpr (Or.inl (by simp))
  · exact mem_bootPaths.mpr (Or.inl (by simp))

/-- A page of the lower half is not one of the image. -/
theorem not_inPage_segmentCalls {gs : List Segment} (hgs : ∀ g ∈ gs, g.Ok k) {va : U64}
    (hva : va.toNat < 0xffffffff80000000) :
    ∀ d ∈ segmentCalls k gs, ¬ InPage d.va va := by
  intro d hd hin
  obtain ⟨g, hg, i, hi, rfl⟩ := (mem_segmentCalls gs).mp hd
  have hcov := ((hgs g hg).covers_iff va).mpr ⟨i, hi, hin⟩
  have hlow := (hgs g hg).lower
  unfold Segment.Covers at hcov
  omega

include B L in
/-- **`vm_init_kernel` runs to its end** and leaves the invariant, with every call made and the
direct map in place. -/
theorem run_vmInitKernel {fuel : ℕ} (hfuel : 262144 < fuel) (hk : s.kmap = k)
    (hi : s.alloc.initialized = true) (hn : s.alloc.next = 0)
    (hlist : ∀ n < allocListSize, s.alloc.list n = pageAt k.freeStart n)
    (hclean : RootClean S k s.mem) (hev : s.events = []) :
    Ends (vmInitKernel physical fuel) s fun _ s' =>
      BootInv S k s' (bootCalls k) ∧ s'.kernelRootPtb = k.freeStart ∧ DirectMapped s' ∧
        ∀ i < 512, S i = true → directSlots i = false →
          s'.mem (slot k.freeStart i) = s.mem (slot k.freeStart i) := by
  subst hk
  have hpage0 : s.alloc.list s.alloc.next = s.kmap.freeStart := by
    rw [hn, hlist 0 (by decide), pageAt_zero]
  unfold vmInitKernel
  refine Ends.bind
    (Q := fun root s₁ => root = s.kmap.freeStart ∧ s₁ = { s with alloc := s.alloc.pop })
    ⟨_, _, run_allocGetPage hi (by rw [hn]; decide), hpage0, rfl⟩ ?_
  rintro root s₁ ⟨rfl, rfl⟩
  refine Ends.modify_bind (Ends.get_bind ?_)
  have h0 := BootInv.init L
    (s := { s with alloc := s.alloc.pop, kernelRootPtb := s.kmap.freeStart })
    rfl hi (by simp [AllocT.pop, hn]) rfl ?_ hclean hev
  swap
  · intro n h1 h2
    rw [← hlist n h2]
    exact Function.update_of_ne (by omega) _ _
  refine (h0.segment B L ⟨_, rfl⟩ hfuel).bind ?_
  rintro _ s₁ ⟨h1, hk1⟩
  refine (h1.segment B L ⟨_, rfl⟩ hfuel).bind ?_
  rintro _ s₂ ⟨h2, hk2⟩
  refine (h2.segment B L ⟨_, rfl⟩ hfuel).bind ?_
  rintro _ s₃ ⟨h3, hk3⟩
  refine (h3.segment B L ⟨_, rfl⟩ hfuel).bind ?_
  rintro _ s₄ ⟨h4, hk4⟩
  have hlow : ∀ {va : U64}, va.toNat < 0xffffffff80000000 →
      ∀ d ∈ segmentCalls s.kmap s.kmap.segments, ¬ InPage d.va va :=
    not_inPage_segmentCalls L.segment
  -- the serial device
  refine (h4.map L (c := ⟨0x10000000, 0x10000000, PTE.read ||| PTE.write⟩) (by decide) B.low
    onPath_serial (hlow (by decide))).bind ?_
  rintro _ s₅ ⟨-, h5, hk5⟩
  -- the direct map
  refine (h5.directMap B L).bind ?_
  rintro _ s₆ ⟨h6, hk6, hd6⟩
  -- the page 0
  refine (h6.map L (c := ⟨0, 0, 0⟩) (by decide) B.low onPath_zero ?_).bind ?_
  · intro d hd
    rcases List.mem_cons.mp hd with rfl | hd
    · decide
    · exact hlow (by decide) d hd
  rintro _ s₇ ⟨-, h7, hk7⟩
  have hkeep5 := hk1.trans (hk2.trans (hk3.trans (hk4.trans hk5)))
  have hroot6 : s₆.kernelRootPtb = s.kmap.freeStart := hk6.1.trans hkeep5.1
  refine Ends.pure ⟨h7, hk7.1.trans hroot6, fun i hi => ?_, fun i hi hS hdi => ?_⟩
  · rw [hk7.1, hk7.2 (256 + i) (by omega) (B.direct _ (directSlots_add hi))]
    exact hd6 i hi
  · have hkeep : KeepsSlots (fun i => S i = true ∧ directSlots i = false) _ s₇ :=
      (hkeep5.weaken fun i h => h.1).trans
        ((hk6.weaken fun i h => h.2).trans (hk7.weaken fun i h => h.1))
    exact hkeep.2 i hi ⟨hS, hdi⟩

/-- The section flags give readable leaves. -/
theorem flags_segments {g : Segment} (hg : g ∈ k.segments) :
    FlagsRWX g.flags ∧ g.flags &&& PTE.read ≠ 0 := by
  simp only [MemoryMap.segments, List.mem_cons, List.not_mem_nil, or_false] at hg
  have hrx : FlagsRWX (PTE.read ||| PTE.exec) ∧ (PTE.read ||| PTE.exec) &&& PTE.read ≠ 0 := by
    decide
  have hrw : FlagsRWX (PTE.read ||| PTE.write) ∧ (PTE.read ||| PTE.write) &&& PTE.read ≠ 0 := by
    decide
  have hr : FlagsRWX PTE.read ∧ PTE.read &&& PTE.read ≠ 0 := by decide
  rcases hg with rfl | rfl | rfl | rfl
  · exact hrx
  · exact hrw
  · exact hr
  · exact hrw

include L in
/-- The translation of a page of the image. -/
theorem BootInv.walk_segment (h : BootInv S k s (bootCalls k)) {g : Segment} (hg : g ∈ k.segments)
    {va : U64} (hcov : g.Covers va) :
    walk s.mem s.kernelRootPtb va = some ⟨va - k.physOffset, g.flags⟩ := by
  have hok := L.segment g hg
  obtain ⟨i, hi, hin⟩ := (hok.covers_iff va).mp hcov
  have hpage := hok.toNat_pageAt hi
  have hmem : (⟨pageAt g.start i, pageAt g.start i - k.physOffset, g.flags⟩ : Call)
      ∈ bootCalls k :=
    List.mem_cons_of_mem _ (List.mem_cons_of_mem _ ((mem_segmentCalls _).mpr ⟨g, hg, i, hi, rfl⟩))
  have hlow := hok.lower
  have hup := hok.upper
  have hal := hok.aligned
  have hoff : kernelPhysOffset.toNat = 0xffffffff00000000 := by decide
  have hpa : (pageAt g.start i - k.physOffset).toNat
      = g.start.toNat + i * 4096 - 0xffffffff00000000 := by
    rw [L.offset, BitVec.toNat_sub, hoff, hpage]
    unfold Segment.pages at hi
    omega
  obtain ⟨hf, hr⟩ := flags_segments hg
  rw [h.maps.walk_of_mem hmem ⟨?_, hf, hr⟩ hin]
  · congr 2
    apply BitVec.eq_of_toNat_eq
    rw [BitVec.toNat_add, hpa, BitVec.toNat_ofNat, L.offset, BitVec.toNat_sub, hoff]
    rw [InPage, hpage] at hin
    unfold Segment.pages at hi
    unfold Aligned at hal
    have := va.isLt
    omega
  · show (pageAt g.start i - k.physOffset).toNat < 2 ^ 56
    rw [hpa]
    unfold Segment.pages at hi
    omega

include L in
/-- **The tables of `vm_init_kernel` translate exactly as `kernelMapping` says.** -/
theorem BootInv.walk_eq (h : BootInv directSlots k s (bootCalls k)) (hd : DirectMapped s)
    (va : U64) :
    walk s.mem s.kernelRootPtb va = kernelMapping k va := by
  have hserial : (⟨0x10000000, 0x10000000, PTE.read ||| PTE.write⟩ : Call) ∈ bootCalls k :=
    List.mem_cons_of_mem _ List.mem_cons_self
  have hzero : (⟨0, 0, 0⟩ : Call) ∈ bootCalls k := List.mem_cons_self
  unfold kernelMapping
  cases hfind : k.segments.find? (fun g => decide (g.Covers va)) with
  | some g =>
    have hcov := List.find?_some hfind
    rw [decide_eq_true_eq] at hcov
    exact h.walk_segment L (List.mem_of_find?_eq_some hfind) hcov
  | none =>
    simp only
    have hnot : ∀ g ∈ k.segments, ¬ g.Covers va := by
      simpa using hfind
    by_cases hser : va.toNat / 4096 = 0x10000
    · rw [if_pos hser, h.maps.walk_of_mem hserial ⟨by decide, by decide, by decide⟩ hser]
      congr 2
      apply BitVec.eq_of_toNat_eq
      rw [BitVec.toNat_add, BitVec.toNat_ofNat]
      change (0x10000000 + _) % _ = _
      omega
    rw [if_neg hser]
    by_cases hdir : kernelDirectMapStart ≤ va ∧ va - kernelDirectMapStart < kernelDirectMapSize
    · rw [if_pos hdir]
      exact walk_direct hd hdir.1 hdir.2
    rw [if_neg hdir]
    by_cases hcan : Canonical va
    swap
    · rw [walk, if_neg hcan]
    by_cases hz : va.toNat / 4096 = 0
    · -- the entry of page 0 is valid, but no leaf: a fault at level 0
      rw [h.maps.walk_eq_leaf0 hzero hz]
      rfl
    refine h.maps.walk_of_not_mem hcan ?_ ?_
    · rw [Bool.eq_false_iff]
      exact fun hS => hdir ((directSlots_vpn_iff hcan).mp hS)
    · intro c hc hin
      simp only [bootCalls, List.mem_cons] at hc
      rcases hc with rfl | rfl | hc
      · exact hz hin
      · exact hser hin
      · obtain ⟨g, hg, i, hi, rfl⟩ := (mem_segmentCalls _).mp hc
        exact hnot g hg (((L.segment g hg).covers_iff va).mpr ⟨i, hi, hin⟩)

/-- The allocator initialised at the end of the image, then the tables built. -/
def initKernel (fuel : ℕ) : KM Unit := do
  let kmap := (← get).kmap
  let _ ← allocInit (kmap.kernelEnd - kmap.physOffset)
  vmInitKernel physical fuel

theorem Logs.initKernel (fuel : ℕ) : Logs (Mm.initKernel fuel) :=
  Logs.get.bind fun _ => (Logs.allocInit _).bind fun _ => Logs.vmInitKernel _ _

include B L in
theorem run_initKernel {fuel : ℕ} (hfuel : 262144 < fuel) (hk : s.kmap = k)
    (hclean : RootClean S k s.mem) (hev : s.events = []) :
    Ends (initKernel fuel) s fun _ s' =>
      BootInv S k s' (bootCalls k) ∧ s'.kernelRootPtb = k.freeStart ∧ DirectMapped s' ∧
        ∀ i < 512, S i = true → directSlots i = false →
          s'.mem (slot k.freeStart i) = s.mem (slot k.freeStart i) := by
  have hinit := run_allocInit (s := s) L.freeStart_aligned
  rw [MemoryMap.freeStart, ← hk] at hinit
  unfold initKernel
  refine Ends.get_bind (Ends.bind (Q := fun _ s₁ => s₁ = _) ⟨_, _, hinit, rfl⟩ ?_)
  rintro _ s₁ rfl
  refine run_vmInitKernel B L hfuel hk rfl rfl (fun n hn => ?_) hclean hev
  simp only [if_pos hn, pageAt, MemoryMap.freeStart, hk]

include L in
/-- **`vm_init_kernel` maps the kernel.**  For every layout that `linker.ld` admits it runs to its
end without a single complaint (every failing branch of `vm_map_page` and of the allocator prints
one), stores nothing inside the image, and the hardware then translates every address as
`kernelMapping` says: the sections with their permissions, the serial device, the direct map, and
nothing else. -/
theorem init_kernel_translates {fuel : ℕ} (hfuel : 262144 < fuel) (hk : s.kmap = k)
    (hzero : ∀ a, k.freeStart ≤ a → s.mem a = 0) (hev : s.events = []) :
    ∃ s', initKernel fuel s = .ok () s' ∧ (∀ msg, .critical msg ∉ s'.events) ∧
      ¬ s'.Exhausted ∧ (∀ a v, .store a v ∈ s'.events → k.freeStart ≤ a) ∧
      ∀ va, walk s'.mem s'.kernelRootPtb va = kernelMapping k va := by
  have hclean : RootClean directSlots k s.mem := by
    intro i hi _
    rw [hzero (slot k.freeStart i) ?_]
    · rfl
    · rw [BitVec.le_def, toNat_slot L.freeStart_aligned hi]
      exact Nat.le_add_right _ _
  obtain ⟨_, s', hrun, h, -, hd, -⟩ := run_initKernel directSlots_bootSlots L hfuel hk hclean hev
  refine ⟨s', hrun, h.quiet, h.quiet _, ?_, h.walk_eq L hd⟩
  intro a v hm
  rw [BitVec.le_def]
  exact h.stores a v hm

end Whole

/-- A small image: three pages of `.text`, then `.bss`, `.rodata` and `.data`. -/
def smallMap : MemoryMap where
  physOffset := 0xffffffff00000000
  kernelStart := 0xffffffff80000000
  kernelEnd := 0xffffffff80010000
  kernelSize := 0x10000
  textStart := 0xffffffff80001000
  textEnd := 0xffffffff80003210
  bssStart := 0xffffffff80004000
  bssEnd := 0xffffffff8000d100
  rodataStart := 0xffffffff8000e000
  rodataEnd := 0xffffffff8000e800
  dataStart := 0xffffffff8000f000
  dataEnd := 0xffffffff8000f080

theorem smallMap_layout : Layout smallMap where
  offset := rfl
  end_aligned := by decide
  segment := by
    intro g hg
    simp only [MemoryMap.segments, smallMap, List.mem_cons, List.not_mem_nil, or_false] at hg
    rcases hg with rfl | rfl | rfl | rfl
    · exact ⟨by decide, by decide, by decide, by decide, by decide⟩
    · exact ⟨by decide, by decide, by decide, by decide, by decide⟩
    · exact ⟨by decide, by decide, by decide, by decide, by decide⟩
    · exact ⟨by decide, by decide, by decide, by decide, by decide⟩
  disjoint := by
    simp only [MemoryMap.segments, smallMap, Segment.Covers, BitVec.ofNat_eq_ofNat,
      BitVec.toNat_ofNat, List.pairwise_cons, List.mem_cons, List.not_mem_nil, or_false,
      forall_eq_or_imp, forall_eq, IsEmpty.forall_iff, implies_true, List.Pairwise.nil, and_true]
    refine ⟨⟨?_, ?_, ?_⟩, ⟨?_, ?_⟩, ?_⟩ <;> intro va <;> omega

/-- Fuel enough for the loops over the small image. -/
theorem lt_smallFuel : 262144 < 262145 := by norm_num

/-- The small image, over a zeroed memory: `.text` is executable and page 0 faults. -/
theorem init_kernel_translates_smallMap :
    ∃ s', initKernel 262145 { Kernel.boot (fun _ => 0) with kmap := smallMap } = .ok () s' ∧
      walk s'.mem s'.kernelRootPtb 0xffffffff80001234 = some ⟨0x80001234, 10⟩ ∧
      walk s'.mem s'.kernelRootPtb 0xffffffc080001234 = some ⟨0x80001234, 14⟩ ∧
      walk s'.mem s'.kernelRootPtb 0 = none := by
  obtain ⟨s', hrun, -, -, -, hwalk⟩ := init_kernel_translates smallMap_layout
    (s := { Kernel.boot (fun _ => 0) with kmap := smallMap }) lt_smallFuel rfl (fun _ _ => rfl) rfl
  refine ⟨s', hrun, ?_, ?_, ?_⟩
  · rw [hwalk]
    decide
  · rw [hwalk]
    decide
  · rw [hwalk]
    decide

end RvKernel.Mm
