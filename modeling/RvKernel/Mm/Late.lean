/-
# `vm_map_page` after `mm_init`

Once `mm_init` has returned, the root and the allocator's pages are addresses of the direct map and
pointers go through the kernel's own tables (`hardware`).  The walk of `vm_map_page` is still the
one written for physical addresses:

* the entry for a new table is built from the direct-map ADDRESS of the page, whose high bits end
  up in the reserved bits 61:54 of the entry;
* the pointer that an entry leads to is the PHYSICAL address of the table, which the kernel's
  tables do not map.

So no call gets past the root any more: in every state that calls can reach after `mm_init`, every
call with acceptable arguments page-faults (`late_map_page_faults`), after installing a malformed
entry if the root had none.
-/
import RvKernel.Mm.MmInit

namespace RvKernel.Mm

open Sv39 Effect

/-! ## 1. The regime, and the property -/

/-- A pointer is translated by the tables at `root`, the physical address in `satp`.  The direct map
is readable and writable, so its permissions never matter here. -/
def hardware (root : U64) : Mmu := fun m p => (walk m root p).map Mapping.pa

/-- A call of `vm_map_page` through the kernel's own tables. -/
def lateMapPage (va pa flags : U64) : KM Int := do
  let root := (← get).kernelRootPtb
  vmMapPage (hardware (vaToPa root)) va pa flags

/-- The states reached after `mm_init`, over a clean root page, by calls that return. -/
inductive LateRun (y : Symbols) (fuel : ℕ) : Kernel → Prop
  | init {s₀ s : Kernel} : RootClean directSlots y.kmap s₀.mem → s₀.events = [] →
      mmInit y fuel s₀ = .ok () s → LateRun y fuel s
  | call {s s' : Kernel} {va pa flags : U64} {r : Int} : LateRun y fuel s →
      lateMapPage va pa flags s = .ok r s' → LateRun y fuel s'

/-- The state one more call leaves, and the events it adds. -/
def lateFinal (s : Kernel) (va pa flags : U64) : Kernel := final (lateMapPage va pa flags s)

def lateEvents (s : Kernel) (va pa flags : U64) : List Event :=
  (lateFinal s va pa flags).events.drop s.events.length

/-- The pointer that the code makes of a valid entry reaches, at index `i`, the table that the entry
names. -/
def Follows (root : U64) (m : Mem) (pte : U64) (i : ℕ) : Prop :=
  pteValid pte = true → hardware root m (slot (pteNextPtb pte) i) = some (slot (ppnAddr pte) i)

/-- The level-2 and level-1 entries for `va` in the tables at `root`. -/
def pte2 (m : Mem) (root va : U64) : U64 := m (slot root (vpn va 2))

def pte1 (m : Mem) (root va : U64) : U64 := m (slot (ppnAddr (pte2 m root va)) (vpn va 1))

/-- **What one call should do**: if it succeeds, `va` translates; every table it installs is named
by its physical page; and every table it dereferences is the one its entry names. -/
structure LateOk (s : Kernel) (va pa flags : U64) : Prop where
  translates : ∀ s', lateMapPage va pa flags s = .ok 0 s' →
    walk s'.mem (vaToPa s'.kernelRootPtb) va = some ⟨pa, flags⟩
  installs : ∀ a v, .store a v ∈ lateEvents s va pa flags → pteValid v = true →
    pteLeaf v = false → v >>> 54 = 0 ∧
      ∃ p, .zeroPage p ∈ lateEvents s va pa flags ∧ pteGetPpn v = physToPpn (vaToPa p)
  follows : let m := (lateFinal s va pa flags).mem
    let root := vaToPa s.kernelRootPtb
    Follows root m (pte2 m root va) (vpn va 1) ∧
      (pteValid (pte2 m root va) = true → Follows root m (pte1 m root va) (vpn va 0))

/-! ## 2. Accesses through the direct map -/

section Direct

variable {m : Mem} {root : U64}

/-- Memory below 32 GiB is reached at its direct-map address. -/
theorem hardware_paToVa (hd : ∀ i < 32, m (slot root (256 + i)) = directMapPte i) {a : U64}
    (ha : a.toNat < 32 * 2 ^ 30) : hardware root m (paToVa a) = some a := by
  have hva := toNat_paToVa (le_of_lt ha)
  have hsub : paToVa a - kernelDirectMapStart = a := BitVec.add_sub_cancel _ _
  have h1 : kernelDirectMapStart ≤ paToVa a := by
    rw [BitVec.le_def, hva, toNat_directMapStart]
    exact Nat.le_add_left _ _
  have h2 : paToVa a - kernelDirectMapStart < kernelDirectMapSize := by
    rw [hsub, BitVec.lt_def]
    exact ha
  rw [hardware, walk_direct hd h1 h2, hsub]
  rfl

theorem slot_paToVa (t : U64) (i : ℕ) : slot (paToVa t) i = paToVa (slot t i) := by
  unfold slot paToVa
  rw [BitVec.add_assoc, BitVec.add_assoc, BitVec.add_comm kernelDirectMapStart]

/-- `memset` to zero of words outside the root, at their direct-map address. -/
theorem run_memset_hardware : ∀ (words : ℕ) (d : U64) (s : Kernel),
    (∀ i < 32, s.mem (slot root (256 + i)) = directMapPte i) →
    (∀ j < words, (slot d j).toNat < 32 * 2 ^ 30 ∧ ¬ InPage root (slot d j)) → Aligned root →
    ∃ mem' es, memset (hardware root) (paToVa d) 0 words s
        = .ok () { s with mem := mem', events := s.events ++ es } ∧
      ∀ a, InPage root a → mem' a = s.mem a
  | 0, d, s, _, _, _ => ⟨s.mem, [], by simp [memset], fun _ _ => rfl⟩
  | words + 1, d, s, hd, hj, hr => by
    have hslot0 : slot d 0 = d := by simp [slot]
    have h0 := hj 0 (by omega)
    rw [hslot0] at h0
    have hkeep : ∀ a, InPage root a → (s.write d (fillWord 0)).mem a = s.mem a := by
      intro a ha
      refine Function.update_of_ne ?_ _ _
      rintro rfl
      exact h0.2 ha
    obtain ⟨mem', es, hrun, hframe⟩ := run_memset_hardware words (d + 8) (s.write d (fillWord 0))
      (fun i hi => (hkeep _ (inPage_slot hr (by omega))).trans (hd i hi))
      (fun j hjw => by rw [slot_succ]; exact hj (j + 1) (by omega)) hr
    refine ⟨mem', .store d 0 :: es, ?_, fun a ha => (hframe a ha).trans (hkeep a ha)⟩
    have hnext : paToVa d + 8 = paToVa (d + 8) := by
      unfold paToVa
      rw [BitVec.add_assoc, BitVec.add_comm kernelDirectMapStart, ← BitVec.add_assoc]
    have hstore := run_store (hardware_paToVa hd h0.1) (fillWord 0)
    rw [memset, bind_of_ok hstore, hnext, hrun]
    simp only [Kernel.write, List.append_assoc, List.singleton_append]
    rfl

end Direct

/-! ## 3. The state that calls find -/

/-- What holds after `mm_init`, and after every call that returns. -/
structure LateInv (k : MemoryMap) (n : ℕ) (s : Kernel) : Prop where
  root : s.kernelRootPtb = paToVa k.freeStart
  walk : ∀ va, walk s.mem k.freeStart va = kernelMapping k va
  direct : ∀ i < 32, s.mem (slot k.freeStart (256 + i)) = directMapPte i
  /-- the physical address of a table is not mapped as a virtual one -/
  upper : ∀ i < 512, pteValid (s.mem (slot k.freeStart i)) = true →
    ∀ j < 512, kernelMapping k (slot (ppnAddr (s.mem (slot k.freeStart i))) j) = none
  initialized : s.alloc.initialized = true
  next : s.alloc.next = 0
  first : s.alloc.list 0 = paToVa (pageAt k.freeStart n)
  pos : 0 < n
  fit : n ≤ 517

section LateInv

variable {k : MemoryMap} (L : Layout k) {n : ℕ} {s : Kernel}

include L in
/-- The low half holds nothing but the serial page. -/
theorem kernelMapping_low {a : U64} (ha : a.toNat < 0xffffffc000000000)
    (hs : a.toNat / 4096 ≠ 0x10000) : kernelMapping k a = none := by
  have hfind := L.covers_none (show a.toNat < 0xffffffff80000000 by omega)
  have hdir : ¬ (kernelDirectMapStart ≤ a ∧ a - kernelDirectMapStart < kernelDirectMapSize) := by
    rw [BitVec.le_def, toNat_directMapStart]
    omega
  simp only [kernelMapping, hfind, if_neg hs, if_neg hdir]

include L in
theorem MmReady.lateInv (h : MmReady directSlots k n s) (hn : n ≤ 517) : LateInv k n s := by
  obtain ⟨s₁, hb, hroot, hd, hmem, hnext⟩ := h.boot
  have hd' : ∀ i < 32, s.mem (slot k.freeStart (256 + i)) = directMapPte i := by
    rw [← hmem, ← hroot]
    exact hd
  obtain ⟨s₀, hinit⟩ := h.alloc
  rw [run_allocInit (paToVa_pageAt L hn).1] at hinit
  injection hinit with _ hs
  have halloc := congrArg Kernel.alloc hs
  refine ⟨h.root, ?_, hd', ?_, ?_, ?_, ?_, ?_, hn⟩
  · intro va
    rw [← hmem, ← hroot]
    exact hb.walk_eq L hd va
  · intro i hi hv j hj
    -- a superpage leaf names a whole GiB, a pointer one of the tables
    obtain ⟨hal, hlow, hser⟩ : Aligned (ppnAddr (s.mem (slot k.freeStart i))) ∧
        (ppnAddr (s.mem (slot k.freeStart i))).toNat < 2 ^ 36 ∧
        (ppnAddr (s.mem (slot k.freeStart i))).toNat / 4096 ≠ 0x10000 := by
      by_cases hS : directSlots i = true
      · unfold directSlots at hS
        rw [decide_eq_true_eq] at hS
        obtain ⟨l, rfl⟩ : ∃ l, i = 256 + l := ⟨i - 256, by omega⟩
        have hl : l < 32 := by omega
        rw [hd' l hl]
        interval_cases l <;> decide
      · rw [Bool.not_eq_true] at hS
        rw [pteValid_eq, ← hmem, ← hroot] at hv
        have hS' : ¬ (([] : List ℕ) = [] ∧ directSlots i = true) := by simp [hS]
        have hl := hb.maps.inv.tree.link (by simp) tableAt_nil hi hS' hv
        have ht := tableAt_cons_of_link tableAt_nil (by simp) hi hS' hl
        obtain ⟨m, hm, heq⟩ := hb.tables.taken [i] _ ht
        rw [hroot, hmem] at heq
        obtain ⟨hnat, -⟩ := toNat_pageAt_freeStart L (m := m) (by unfold allocListSize; omega)
        have hfree := L.toNat_freeStart
        have hend := k.kernelEnd.isLt
        have hal := L.freeStart_aligned
        unfold Aligned at *
        rw [heq, hnat]
        omega
    have hslot := toNat_slot hal hj
    refine kernelMapping_low L (by omega) ?_
    unfold Aligned at hal
    omega
  · rw [← halloc]
  · rw [← halloc]
  · have h0 : 0 < allocListSize := by decide
    rw [← halloc]
    simp only [h0, if_true]
    exact pageAt_zero _
  · obtain ⟨m, hm, -⟩ := hb.tables.taken [] _ rfl
    omega

include L in
theorem LateInv.vaToPa_root (h : LateInv k n s) : vaToPa s.kernelRootPtb = k.freeStart := by
  have hzero := toNat_pageAt_freeStart L (m := 0) (by decide)
  rw [pageAt_zero] at hzero
  rw [h.root, vaToPa_paToVa hzero.2]

include L in
/-- The root's entries are reached through the direct map. -/
theorem LateInv.hardware_slot {m : Mem} (hd : ∀ i < 32, m (slot k.freeStart (256 + i))
    = directMapPte i) {i : ℕ} (hi : i < 512) :
    hardware k.freeStart m (slot (paToVa k.freeStart) i) = some (slot k.freeStart i) := by
  have hfree := L.toNat_freeStart
  have hend := k.kernelEnd.isLt
  have hslot := toNat_slot L.freeStart_aligned hi
  rw [slot_paToVa]
  exact hardware_paToVa hd (by omega)

/-- An entry of the root is followed to a pointer that faults. -/
theorem run_vmMapLoop_fault {mmu : Mmu} {va ptb next : U64} (pa flags : U64) {s s₁ : Kernel}
    (hdesc : descend mmu (slot ptb (vpn va 2)) s = .ok next s₁)
    (hfault : mmu s₁.mem (slot next (vpn va 1)) = none) :
    vmMapLoop mmu va pa flags 2 ptb s = .error (.fault (slot next (vpn va 1))) s₁ := by
  rw [vmMapLoop, bind_of_ok (run_vaGetIndex va (by norm_num) s), ptbGetPtep_eq, bind_of_ok hdesc,
    vmMapLoop, bind_of_ok (run_vaGetIndex va (by norm_num) s₁), ptbGetPtep_eq]
  exact bind_of_error (bind_of_error (run_load_fault hfault) _) _

/-- The entry that the code builds for a new table at the address `p`. -/
def newPte (p : U64) : U64 := pteFromPpn (physToPpn p) &&& ~~~PTE.leaf ||| PTE.valid

theorem run_descend_of_valid {mmu : Mmu} {ptep a : U64} {s : Kernel} (h : mmu s.mem ptep = some a)
    (hv : pteValid (s.mem a) = true) : descend mmu ptep s = .ok (pteNextPtb (s.mem a)) s := by
  rw [descend, bind_of_ok (run_load h)]
  simp only [hv, Bool.not_true, Bool.false_eq_true, if_false, Effect.run_pure]

theorem run_descend_of_invalid {mmu : Mmu} {ptep a p : U64} {s s₁ : Kernel}
    (h : mmu s.mem ptep = some a) (hv : pteValid (s.mem a) = false)
    (halloc : allocZeroPage mmu s = .ok p s₁) (h₁ : mmu s₁.mem ptep = some a) :
    descend mmu ptep s = .ok (pteNextPtb (newPte p)) (s₁.write a (newPte p)) := by
  rw [descend, bind_of_ok (run_load h)]
  simp only [hv, Bool.not_false, if_true]
  rw [bind_of_ok halloc]
  exact bind_of_ok (run_store h₁ _) _

/-- **For a direct-map address that entry is malformed**: its reserved bits are not zero, and the
pointer it leads to is not even canonical. -/
theorem newPte_paToVa {f : U64} (hf : f.toNat ≤ 32 * 2 ^ 30) (hal : Aligned f) :
    newPte (paToVa f) >>> 54 ≠ 0 ∧ pteValid (newPte (paToVa f)) = true ∧
      pteLeaf (newPte (paToVa f)) = false ∧
      ∀ i < 512, ¬ Canonical (slot (pteNextPtb (newPte (paToVa f))) i) := by
  have hva := toNat_paToVa hf
  have hp := toNat_physToPpn (paToVa f)
  have hv : PTE.valid.toNat = 1 := by decide
  have hnat : (newPte (paToVa f)).toNat = (f.toNat + 0xffffffc000000000) / 4096 * 1024 + 1 := by
    rw [newPte, pteFromPpn, shl_and_not_leaf, Word.toNat_shl_or _ _ _ (by rw [hp]; omega)
      (by rw [hv]; omega), hp, hv, hva]
    norm_num
  have hbit : ∀ i < 10, (newPte (paToVa f)).getLsbD i = (1 : ℕ).testBit i := by
    intro i hi
    rw [Word.getLsbD_low _ hi, hnat, Nat.add_comm, Nat.add_mul_mod_self_right]
  unfold Aligned at hal
  refine ⟨?_, ?_, ?_, ?_⟩
  · intro h0
    have hge : 0xffffffc000000 ≤ (f.toNat + 0xffffffc000000000) / 4096 := by omega
    have hzero : (newPte (paToVa f)).toNat / 2 ^ 54 = 0 := by
      rw [← Word.toNat_shr, h0]
      rfl
    rw [Nat.div_eq_zero_iff_lt (by norm_num), hnat] at hzero
    omega
  · rw [pteValid_eq, hbit 0 (by norm_num)]
    decide
  · rw [pteLeaf_eq, hbit 1 (by norm_num), hbit 2 (by norm_num), hbit 3 (by norm_num)]
    decide
  · intro i hi
    have hnext : (pteNextPtb (newPte (paToVa f))).toNat = f.toNat + 0xffffc000000000 := by
      rw [pteNextPtb_eq, ppnAddr, ppn, hnat, BitVec.toNat_ofNat]
      omega
    have hslot := toNat_slot (t := pteNextPtb (newPte (paToVa f)))
      (by unfold Aligned; rw [hnext]; omega) hi
    unfold Canonical
    rw [hslot, hnext]
    omega

end LateInv

/-! ## 4. Every call faults -/

section Faults

variable {k : MemoryMap} (L : Layout k) {n : ℕ} {s : Kernel} {va pa : U64}

include L in
theorem LateInv.lateMapPage_eq (h : LateInv k n s) (hok : Acceptable va pa) (flags : U64) :
    lateMapPage va pa flags s
      = vmMapLoop (hardware k.freeStart) va pa flags 2 (paToVa k.freeStart) s := by
  rw [lateMapPage, bind_of_ok (Effect.run_get s), h.vaToPa_root L, vmMapPage_of_acceptable hok,
    h.root]

include L in
/-- Under a valid root entry the call faults at the physical address of the table. -/
theorem LateInv.valid (h : LateInv k n s) (hok : Acceptable va pa) (flags : U64)
    (hv : pteValid (pte2 s.mem k.freeStart va) = true) :
    lateMapPage va pa flags s
        = .error (.fault (slot (ppnAddr (pte2 s.mem k.freeStart va)) (vpn va 1))) s ∧
      hardware k.freeStart s.mem
        (slot (ppnAddr (pte2 s.mem k.freeStart va)) (vpn va 1)) = none := by
  have hload := LateInv.hardware_slot L h.direct (vpn_lt va 2)
  have hnone : hardware k.freeStart s.mem (slot (ppnAddr (pte2 s.mem k.freeStart va)) (vpn va 1))
      = none := by
    rw [hardware, h.walk, pte2, h.upper _ (vpn_lt va 2) hv _ (vpn_lt va 1)]
    rfl
  refine ⟨?_, hnone⟩
  rw [h.lateMapPage_eq L hok]
  have hdesc := run_descend_of_valid hload hv
  rw [pteNextPtb_eq] at hdesc
  exact run_vmMapLoop_fault pa flags hdesc hnone

include L in
/-- The new page is cleared through the direct map, which does not touch the root. -/
theorem LateInv.run_allocZeroPage (h : LateInv k n s) :
    ∃ s₁, allocZeroPage (hardware k.freeStart) s = .ok (paToVa (pageAt k.freeStart n)) s₁ ∧
      (∀ a, InPage k.freeStart a → s₁.mem a = s.mem a) ∧ ∃ es, s₁.events = s.events ++ es := by
  have hn := h.fit
  have hpos := h.pos
  have hal := L.freeStart_aligned
  have hfree := L.toNat_freeStart
  have hend := k.kernelEnd.isLt
  obtain ⟨hnat, -⟩ := toNat_pageAt_freeStart L (m := n) (by unfold allocListSize; omega)
  have hpal : Aligned (pageAt k.freeStart n) := by
    unfold Aligned at *
    omega
  have hget : allocGetPage s
      = .ok (paToVa (pageAt k.freeStart n)) { s with alloc := s.alloc.pop } := by
    rw [← h.first, ← h.next]
    exact run_allocGetPage h.initialized (by rw [h.next]; decide)
  have hpage : ∀ j < 512, (slot (pageAt k.freeStart n) j).toNat < 32 * 2 ^ 30 ∧
      ¬ InPage k.freeStart (slot (pageAt k.freeStart n) j) := by
    intro j hj
    have hslot := toNat_slot hpal hj
    unfold InPage Aligned at *
    rw [hslot, hnat]
    omega
  obtain ⟨mem', es, hmemset, hframe⟩ := run_memset_hardware 512 (pageAt k.freeStart n)
    { s with alloc := s.alloc.pop } h.direct hpage hal
  refine ⟨{ s with
    alloc := s.alloc.pop, mem := mem'
    events := s.events ++ (es ++ [.zeroPage (paToVa (pageAt k.freeStart n))]) }, ?_, hframe, _, rfl⟩
  rw [allocZeroPage, bind_of_ok hget, bind_of_ok hmemset, bind_of_ok (run_emit _ _),
    Effect.run_pure, List.append_assoc]

include L in
/-- Under an invalid one it installs a malformed entry, and faults at the pointer that entry leads
to. -/
theorem LateInv.invalid (h : LateInv k n s) (hok : Acceptable va pa) (flags : U64)
    (hv : pteValid (pte2 s.mem k.freeStart va) = false) :
    ∃ ptr s', lateMapPage va pa flags s = .error (.fault ptr) s' ∧
      ∃ a v, .store a v ∈ s'.events.drop s.events.length ∧ pteValid v = true ∧
        pteLeaf v = false ∧ v >>> 54 ≠ 0 := by
  have hn := h.fit
  have hal := L.freeStart_aligned
  obtain ⟨hnat, hle⟩ := toNat_pageAt_freeStart L (m := n) (by unfold allocListSize; omega)
  have hpal : Aligned (pageAt k.freeStart n) := by
    unfold Aligned at *
    omega
  obtain ⟨hbad, hvalid, hleaf, hcan⟩ := newPte_paToVa hle hpal
  obtain ⟨s₁, halloc, hkeep, es, hes⟩ := h.run_allocZeroPage L
  have hdirect : ∀ i < 32, s₁.mem (slot k.freeStart (256 + i)) = directMapPte i := fun i hi =>
    (hkeep _ (inPage_slot hal (by omega))).trans (h.direct i hi)
  have hdesc := run_descend_of_invalid (LateInv.hardware_slot L h.direct (vpn_lt va 2)) hv halloc
    (LateInv.hardware_slot L hdirect (vpn_lt va 2))
  have hnone : ∀ m : Mem, hardware k.freeStart m
      (slot (pteNextPtb (newPte (paToVa (pageAt k.freeStart n)))) (vpn va 1)) = none := by
    intro m
    rw [hardware, Sv39.walk, if_neg (hcan _ (vpn_lt va 1))]
    rfl
  have hrun := run_vmMapLoop_fault pa flags hdesc (hnone _)
  rw [← h.lateMapPage_eq L hok] at hrun
  refine ⟨_, _, hrun, slot k.freeStart (vpn va 2), _, ?_, hvalid, hleaf, hbad⟩
  simp only [Kernel.write, hes, List.append_assoc, List.drop_left]
  exact List.mem_append_right _ (List.mem_singleton.mpr rfl)

include L in
/-- **A call with acceptable arguments faults, and does not do what it should.** -/
theorem LateInv.faults (h : LateInv k n s) (hok : Acceptable va pa) (flags : U64) :
    (∃ ptr s', lateMapPage va pa flags s = .error (.fault ptr) s') ∧ ¬ LateOk s va pa flags := by
  cases hv : pteValid (pte2 s.mem k.freeStart va) with
  | true =>
    obtain ⟨hrun, hnone⟩ := h.valid L hok flags hv
    refine ⟨⟨_, _, hrun⟩, fun hlate => ?_⟩
    have hfollows := hlate.follows.1
    rw [lateFinal, hrun, h.vaToPa_root L] at hfollows
    have hsome := hfollows hv
    rw [pteNextPtb_eq, final, hnone] at hsome
    cases hsome
  | false =>
    obtain ⟨ptr, s', hrun, a, v, hst, hvalid, hleaf, hbad⟩ := h.invalid L hok flags hv
    refine ⟨⟨ptr, s', hrun⟩, fun hlate => ?_⟩
    refine hbad (hlate.installs a v ?_ hvalid hleaf).1
    rw [lateEvents, lateFinal, hrun]
    exact hst

include L in
/-- A call that returns was refused, and has changed nothing but the log. -/
theorem LateInv.call (h : LateInv k n s) {flags : U64} {r : Int} {s' : Kernel}
    (hrun : lateMapPage va pa flags s = .ok r s') : LateInv k n s' := by
  by_cases hok : Acceptable va pa
  · obtain ⟨⟨ptr, s₁, herr⟩, -⟩ := h.faults L hok flags
    rw [herr] at hrun
    cases hrun
  · rw [lateMapPage, bind_of_ok (Effect.run_get s)] at hrun
    obtain ⟨msg, -, href⟩ := vmMapPage_of_not_acceptable hok
      (hardware (vaToPa s.kernelRootPtb)) flags s
    rw [href] at hrun
    obtain ⟨es, -, hfin⟩ := refusal_eq msg s
    rw [hrun] at hfin
    obtain rfl : s' = { s with events := s.events ++ es } := hfin
    exact ⟨h.root, h.walk, h.direct, h.upper, h.initialized, h.next, h.first, h.pos, h.fit⟩

end Faults

/-- The invariant holds in every state that calls reach after `mm_init`. -/
theorem LateRun.lateInv {y : Symbols} (L : Layout y.kmap) {fuel : ℕ} (hfuel : 262144 < fuel)
    {s : Kernel} (h : LateRun y fuel s) : ∃ n, LateInv y.kmap n s := by
  induction h with
  | init hclean hev hrun =>
    obtain ⟨_, s₁, hrun₁, ⟨n, hn, hready⟩, -⟩ :=
      run_mmInit L directSlots_bootSlots rfl hfuel hclean hev
    rw [hrun] at hrun₁
    injection hrun₁ with _ hs
    exact ⟨n, hs ▸ hready.lateInv L hn⟩
  | call _ hrun ih =>
    obtain ⟨n, hinv⟩ := ih
    exact ⟨n, hinv.call L hrun⟩

/-- **After `mm_init` no call of `vm_map_page` does what it should.**  In every state that calls
reach, every call with arguments that are not rejected ends in a page fault, having installed a
malformed entry or dereferenced a physical address. -/
theorem late_map_page_faults {y : Symbols} (L : Layout y.kmap) {fuel : ℕ} (hfuel : 262144 < fuel)
    {s : Kernel} (h : LateRun y fuel s) {va pa : U64} (hok : Acceptable va pa) (flags : U64) :
    (∃ ptr s', lateMapPage va pa flags s = .error (.fault ptr) s') ∧ ¬ LateOk s va pa flags := by
  obtain ⟨n, hinv⟩ := h.lateInv L hfuel
  exact hinv.faults L hok flags

/-- The small image, right after `mm_init`. -/
theorem exists_lateRun_small : ∃ s, LateRun smallSymbols 262145 s := by
  obtain ⟨_, s, hrun, -⟩ :=
    run_mmInit smallSymbols_layout directSlots_bootSlots rfl lt_smallFuel smallBoot_clean rfl
  exact ⟨s, LateRun.init smallBoot_clean rfl hrun⟩

theorem late_map_page_faults_small :
    ∃ s, LateRun smallSymbols 262145 s ∧
      ∃ ptr s', lateMapPage 0xabcde000 0x80400000 6 s = .error (.fault ptr) s' := by
  obtain ⟨s, h⟩ := exists_lateRun_small
  exact ⟨s, h, (late_map_page_faults smallSymbols_layout (by norm_num) h (by decide) 6).1⟩

/-- The call of the kernel's own test, `0xabcde000`, an address that is not mapped and not in the
direct map, right after `mm_init`. -/
theorem late_map_page_counterexample :
    ∃ s, LateRun smallSymbols 262145 s ∧ Acceptable 0xabcde000 0x80400000 ∧
      ¬ InDirectMap 0xabcde000 ∧ walk s.mem (vaToPa s.kernelRootPtb) 0xabcde000 = none ∧
      FlagsRWX 6 ∧ (6 : U64) &&& PTE.read ≠ 0 ∧ ¬ LateOk s 0xabcde000 0x80400000 6 := by
  obtain ⟨s, h⟩ := exists_lateRun_small
  obtain ⟨n, hinv⟩ := h.lateInv smallSymbols_layout (by norm_num)
  refine ⟨s, h, by decide, by decide, ?_, by decide, by decide,
    (hinv.faults smallSymbols_layout (by decide) 6).2⟩
  rw [hinv.vaToPa_root smallSymbols_layout, hinv.walk]
  decide

end RvKernel.Mm
