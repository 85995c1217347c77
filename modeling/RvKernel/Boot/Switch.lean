/-
# The switch to the kernel's own tables

`vm_init` replaces the first page table by the one it has built while the code, the stack and the
console are in use.  `space_switch` compares the two spaces, address by address.  Beside the direct
map, which is new, the switch moves nothing: it narrows permissions, and it takes away what is
neither a section of the image nor the page of the console.

The direct map shows all of RAM once more, writable and executable, the image included
(`direct_alias`), and it is where the driver of the PLIC works: there, and only from the switch on
(`plic_reached`).  Below it the page of the console is all that is left (`low_cleared`).
-/
import RvKernel.Boot.Regime
import RvKernel.Mm.DirectMap
import RvKernel.Mm.Late
import RvKernel.Plic.Plic

namespace RvKernel.Boot

open Sv39 Mm

/-! ## 1. Two spaces -/

section Spaces

variable {k : MemoryMap} (L : Layout k) {va : U64} {μ : Mapping}

include L in
/-- The window of the direct map is clear of the image and of the console. -/
theorem kernelMapping_direct (h : InDirectMap va) :
    kernelMapping k va = some ⟨va - kernelDirectMapStart, directPerm⟩ := by
  obtain ⟨h1, h2, -⟩ := (inDirectMap_iff va).mp h
  rw [BitVec.le_def, toNat_directMapStart] at h1
  rw [BitVec.le_def, toNat_directMapEnd] at h2
  have hfind := L.covers_none (show va.toNat < 0xffffffff80000000 by omega)
  have hser : ¬ va.toNat / 4096 = 0x10000 := by omega
  simp only [kernelMapping, hfind, if_neg hser]
  exact if_pos h

/-- The first table does not have the window. -/
theorem bootMapping_direct (h : InDirectMap va) : bootMapping va = none := by
  obtain ⟨h1, h2, -⟩ := (inDirectMap_iff va).mp h
  rw [BitVec.le_def, toNat_directMapStart] at h1
  rw [BitVec.le_def, toNat_directMapEnd] at h2
  rw [bootMapping, if_neg (by omega), if_neg (by omega)]

/-- An address of the image. -/
theorem bootMapping_image (hlow : 0xffffffff80000000 ≤ va.toNat)
    (hhigh : va.toNat < 0xffffffffc0000000) :
    bootMapping va = some ⟨va - kernelPhysOffset, directPerm⟩ := by
  rw [bootMapping, if_neg (by omega), if_pos ⟨hlow, hhigh⟩]
  rfl

include L in
theorem Covers.bounds {g : Segment} (hg : g ∈ k.segments) (h : g.Covers va) :
    0xffffffff80000000 ≤ va.toNat ∧ va.toNat < 0xffffffffc0000000 := by
  have hlow := (L.segment g hg).lower
  have hup := (L.segment g hg).upper
  unfold Segment.Covers at h
  omega

include L in
/-- What the kernel's tables map: the window, or what was there before. -/
theorem kernelMapping_extends (h : kernelMapping k va = some μ) :
    InDirectMap va ∨ bootMapping va = some ⟨μ.pa, directPerm⟩ := by
  unfold kernelMapping at h
  cases hfind : k.segments.find? (fun g => decide (g.Covers va)) with
  | some g =>
    have hcov := List.find?_some hfind
    rw [decide_eq_true_eq] at hcov
    obtain ⟨hlow, hhigh⟩ := Covers.bounds L (List.mem_of_find?_eq_some hfind) hcov
    simp only [hfind, Option.some.injEq] at h
    obtain rfl := h
    exact Or.inr (by rw [bootMapping_image hlow hhigh, L.offset])
  | none =>
    simp only [hfind] at h
    by_cases hser : va.toNat / 4096 = 0x10000
    · rw [if_pos hser, Option.some.injEq] at h
      obtain rfl := h
      exact Or.inr (if_pos (Or.inl (by omega)))
    · rw [if_neg hser] at h
      by_cases hdir : kernelDirectMapStart ≤ va ∧ va - kernelDirectMapStart < kernelDirectMapSize
      · exact Or.inl hdir
      · rw [if_neg hdir] at h
        cases h

include L in
/-- What was there before stays where it was, or goes. -/
theorem bootMapping_narrows (h : bootMapping va = some μ) :
    kernelMapping k va = none ∨ ∃ perm, kernelMapping k va = some ⟨μ.pa, perm⟩ := by
  cases hk : kernelMapping k va with
  | none => exact Or.inl rfl
  | some ν =>
    rcases kernelMapping_extends L hk with hdir | hboot
    · rw [bootMapping_direct hdir] at h
      cases h
    · rw [hboot, Option.some.injEq] at h
      obtain rfl := h
      exact Or.inr ⟨ν.perm, rfl⟩

include L in
/-- The page of the console. -/
theorem kernelMapping_console (h : va.toNat / 4096 = 0x10000) :
    kernelMapping k va = some ⟨va, PTE.read ||| PTE.write⟩ := by
  have hfind := L.covers_none (show va.toNat < 0xffffffff80000000 by omega)
  rw [kernelMapping, hfind]
  exact if_pos h

include L in
/-- A section keeps its place, with the permissions of the section. -/
theorem kernelMapping_covers {g : Segment} (hg : g ∈ k.segments) (h : g.Covers va) :
    kernelMapping k va = some ⟨va - kernelPhysOffset, g.flags⟩ := by
  obtain ⟨g', hfind⟩ : ∃ g', k.segments.find? (fun g => decide (g.Covers va)) = some g' := by
    rw [← Option.isSome_iff_exists, List.find?_isSome]
    exact ⟨g, hg, by simpa using h⟩
  have hcov := List.find?_some hfind
  rw [decide_eq_true_eq] at hcov
  have hsymm : Std.Symm fun a b : Segment => ∀ va, ¬ (a.Covers va ∧ b.Covers va) :=
    ⟨fun a b hab va hba => hab va hba.symm⟩
  obtain rfl : g' = g := by
    by_contra hne
    exact L.disjoint.forall (List.mem_of_find?_eq_some hfind) hg hne va ⟨hcov, h⟩
  simp only [kernelMapping, hfind, L.offset]

/-- The first table maps the low 3 GiB only. -/
theorem bootMapping_lt (h : bootMapping va = some μ) : μ.pa.toNat < 0xc0000000 := by
  have hoff : kernelPhysOffset.toNat = 0xffffffff00000000 := by decide
  unfold bootMapping at h
  split at h
  · cases h
    simp only
    omega
  · split at h
    · cases h
      rw [BitVec.toNat_sub, hoff]
      omega
    · cases h

end Spaces

/-! ## 2. The registers of the PLIC -/

open Plic

/-- What the driver does for a hart and a source. -/
def plicAccesses (hart irq val : U32) : List Access :=
  [plicIrqSetPriority irq val, plicHartEnableIrq hart irq, plicHartSetThreshold hart val,
    plicHartClaimIrq hart, plicHartCompleteIrq hart irq]

theorem toNat_window {a base off : U64} (ha : a = base + off)
    (hbase : 0xffffffc00c000000 ≤ base.toNat)
    (hoff : base.toNat + off.toNat < 0xffffffc010000000) :
    InDirectMap a ∧ 0xc000000 ≤ (a - kernelDirectMapStart).toNat ∧
      (a - kernelDirectMapStart).toNat < 0x10000000 := by
  have hnat : a.toNat = base.toNat + off.toNat := by
    rw [ha, BitVec.toNat_add]
    omega
  have hsub : (a - kernelDirectMapStart).toNat = a.toNat - 0xffffffc000000000 := by
    rw [BitVec.toNat_sub, toNat_directMapStart]
    omega
  refine ⟨⟨?_, ?_⟩, ?_, ?_⟩
  · rw [BitVec.le_def, toNat_directMapStart]
    omega
  · rw [BitVec.lt_def, toNat_directMapSize, hsub]
    omega
  · omega
  · omega

/-- For the sources and the harts of the PLIC all registers are in its part of memory, which ends
where the UART begins. -/
theorem plicAccesses_window {hart irq val : U32} (hhart : hart.toNat < 0x3dff)
    (hirq : irq.toNat < 1024) : ∀ a ∈ plicAccesses hart irq val, InDirectMap a.addr ∧
      0xc000000 ≤ (a.addr - kernelDirectMapStart).toNat ∧
      (a.addr - kernelDirectMapStart).toNat < 0x10000000 := by
  have hbase : plicBase.toNat = 0xffffffc00c000000 := by decide
  have henable : plicEnableBase.toNat = 0xffffffc00c002080 := by decide
  have hthresh : plicThreshBase.toNat = 0xffffffc00c201000 := by decide
  have hclaim : (plicThreshBase + 0x4).toNat = 0xffffffc00c201004 := by decide
  have hprio : ((4 * irq : U32).setWidth 64 : U64).toNat = 4 * irq.toNat := by
    rw [BitVec.toNat_setWidth, BitVec.toNat_mul]
    change 4 * irq.toNat % 2 ^ 32 % 2 ^ 64 = _
    omega
  have hstride : ((hart * 0x1000).setWidth 64 : U64).toNat = hart.toNat * 0x1000 := by
    rw [BitVec.toNat_setWidth, BitVec.toNat_mul]
    change hart.toNat * 0x1000 % 2 ^ 32 % 2 ^ 64 = _
    omega
  have hcontext : ((hart * 0x100).setWidth 64 : U64).toNat = hart.toNat * 0x100 := by
    rw [BitVec.toNat_setWidth, BitVec.toNat_mul]
    change hart.toNat * 0x100 % 2 ^ 32 % 2 ^ 64 = _
    omega
  have hword := toNat_wordOffset irq
  intro a ha
  simp only [plicAccesses, List.mem_cons, List.not_mem_nil, or_false] at ha
  rcases ha with rfl | rfl | rfl | rfl | rfl
  · exact toNat_window rfl (by omega) (by omega)
  · have hrow : (plicHartEnable hart).toNat = 0xffffffc00c002080 + hart.toNat * 0x100 := by
      rw [plicHartEnable, BitVec.toNat_add, henable, hcontext]
      omega
    exact toNat_window rfl (by omega) (by omega)
  · exact toNat_window rfl (by omega) (by omega)
  · exact toNat_window rfl (by omega) (by omega)
  · exact toNat_window rfl (by omega) (by omega)

/-! ## 3. The switch -/

section Switch

/- As in `vm_init_boots`: a clean root, and room for the tables. -/
variable {y : Symbols} (L : Layout y.kmap) {fuel : ℕ} (hfuel : 262144 < fuel) {s : Kernel}
  (hclean : RootClean directSlots y.kmap s.mem) (hev : s.events = []) {ptb : U64}
  (R : Room y.kmap ptb) (hb : Boots ptb s.mem)

include L hfuel hclean hev R hb

/-- **The switch moves nothing.**  `vm_init` returns with both tables in memory.  What the new one
maps was mapped to the same physical address by the first, or lies in the direct map; what the first
one mapped stays where it was, or is mapped no more; and the sections, so the code that runs, its
stack and its data, stay, with their own permissions instead of all. -/
theorem space_switch :
    ∃ satp s', vmInit (satpMmu (initSatp ptb)) y fuel s = .ok satp s' ∧ ∀ va,
      (∀ μ, walk s'.mem (satpRoot satp) va = some μ →
        InDirectMap va ∨ walk s'.mem ptb va = some ⟨μ.pa, directPerm⟩) ∧
      (∀ μ, walk s'.mem ptb va = some μ → walk s'.mem (satpRoot satp) va = none ∨
        ∃ perm, walk s'.mem (satpRoot satp) va = some ⟨μ.pa, perm⟩) ∧
      ∀ g ∈ y.kmap.segments, g.Covers va →
        walk s'.mem ptb va = some ⟨va - kernelPhysOffset, directPerm⟩ ∧
          walk s'.mem (satpRoot satp) va = some ⟨va - kernelPhysOffset, g.flags⟩ := by
  obtain ⟨s', hrun, -, hboots, hroot, hwalk⟩ := run_mmInitAt L hfuel hclean hev R hb
  refine ⟨_, s', run_vmInit hrun hroot, fun va => ?_⟩
  rw [(satp_direct L).2, hwalk, boot_walk hboots]
  refine ⟨fun μ h => kernelMapping_extends L h, fun μ h => bootMapping_narrows L h, ?_⟩
  intro g hg hcov
  obtain ⟨hlow, hhigh⟩ := Covers.bounds L hg hcov
  exact ⟨bootMapping_image hlow hhigh, kernelMapping_covers L hg hcov⟩

/-- **All of memory once more.**  Whatever the kernel's tables map, with whatever permissions, they
also map in the direct map, readable, writable and executable.  So no page of `.text` is protected
against writes, and none of `.data` against execution. -/
theorem direct_alias :
    ∃ satp s', vmInit (satpMmu (initSatp ptb)) y fuel s = .ok satp s' ∧ ∀ va μ,
      walk s'.mem (satpRoot satp) va = some μ →
        walk s'.mem (satpRoot satp) (paToVa μ.pa) = some ⟨μ.pa, directPerm⟩ := by
  obtain ⟨s', hrun, -, -, hroot, hwalk⟩ := run_mmInitAt L hfuel hclean hev R hb
  refine ⟨_, s', run_vmInit hrun hroot, fun va μ h => ?_⟩
  rw [(satp_direct L).2, hwalk] at h ⊢
  have hlt : μ.pa < kernelDirectMapSize := by
    rcases kernelMapping_extends L h with hdir | hboot
    · rw [kernelMapping_direct L hdir, Option.some.injEq] at h
      obtain rfl := h
      exact hdir.2
    · have hlow := bootMapping_lt hboot
      rw [BitVec.lt_def, toNat_directMapSize]
      simp only at hlow
      omega
  obtain ⟨hdir, hsub⟩ := inDirectMap_paToVa hlt
  rw [kernelMapping_direct L hdir, hsub]

/-- **The PLIC is there from the switch on.**  Every register that its driver accesses for a source
and a hart is mapped, to the register of the PLIC itself; under the first table each of these
accesses is a page fault. -/
theorem plic_reached {hart irq : U32} (hhart : hart.toNat < 0x3dff) (hirq : irq.toNat < 1024)
    (val : U32) :
    ∃ satp s', vmInit (satpMmu (initSatp ptb)) y fuel s = .ok satp s' ∧
      ∀ a ∈ plicAccesses hart irq val, walk s'.mem ptb a.addr = none ∧ ∃ pa : U64,
        walk s'.mem (satpRoot satp) a.addr = some ⟨pa, directPerm⟩ ∧
          a.addr = paToVa pa ∧ 0xc000000 ≤ pa.toNat ∧ pa.toNat < 0x10000000 := by
  obtain ⟨s', hrun, -, hboots, hroot, hwalk⟩ := run_mmInitAt L hfuel hclean hev R hb
  refine ⟨_, s', run_vmInit hrun hroot, fun a ha => ?_⟩
  obtain ⟨hdir, hlow, hhigh⟩ := plicAccesses_window hhart hirq a ha
  rw [boot_walk hboots, (satp_direct L).2, hwalk]
  exact ⟨bootMapping_direct hdir, _, kernelMapping_direct L hdir,
    (BitVec.sub_add_cancel _ _).symm, hlow, hhigh⟩

/-- **Below the direct map only the console is left.**  The first table maps the first GiB and the
third at their own addresses, so a null pointer can be used there; after the switch the one page of
the console is all that is mapped, to be read and written. -/
theorem low_cleared :
    ∃ satp s', vmInit (satpMmu (initSatp ptb)) y fuel s = .ok satp s' ∧
      ∀ va : U64, va.toNat < 0xffffffc000000000 → ∀ μ,
        (walk s'.mem ptb va = some μ ↔ μ = ⟨va, directPerm⟩ ∧
          (va.toNat < 0x40000000 ∨ 0x80000000 ≤ va.toNat ∧ va.toNat < 0xc0000000)) ∧
        (walk s'.mem (satpRoot satp) va = some μ ↔
          μ = ⟨va, PTE.read ||| PTE.write⟩ ∧ va.toNat / 4096 = 0x10000) := by
  obtain ⟨s', hrun, -, hboots, hroot, hwalk⟩ := run_mmInitAt L hfuel hclean hev R hb
  refine ⟨_, s', run_vmInit hrun hroot, fun va hlow μ => ?_⟩
  rw [(satp_direct L).2, hwalk, boot_walk hboots]
  constructor
  · by_cases hgib : va.toNat < 0x40000000 ∨ 0x80000000 ≤ va.toNat ∧ va.toNat < 0xc0000000
    · rw [bootMapping, if_pos hgib, Option.some.injEq, and_iff_left hgib]
      exact eq_comm
    · rw [bootMapping, if_neg hgib, if_neg (by omega)]
      simp [hgib]
  · by_cases hpage : va.toNat / 4096 = 0x10000
    · rw [kernelMapping_console L hpage, Option.some.injEq, and_iff_left hpage]
      exact eq_comm
    · rw [kernelMapping_low L hlow hpage]
      simp [hpage]

end Switch

/-- The small image: `.text` stays and is read-only, the first GiB goes. -/
theorem space_switch_small :
    ∃ satp s', vmInit (satpMmu (initSatp 0x80000000)) smallSymbols 262145 firstTable = .ok satp s' ∧
      walk s'.mem (satpRoot satp) 0xffffffff80001234 = some ⟨0x80001234, 10⟩ ∧
      walk s'.mem 0x80000000 0xffffffff80001234 = some ⟨0x80001234, 14⟩ := by
  obtain ⟨satp, s', hrun, hall⟩ := space_switch (y := smallSymbols) (s := firstTable)
    smallSymbols_layout lt_smallFuel firstTable_clean rfl smallMap_room firstTable_boots
  have htext : (⟨0xffffffff80001000, 0xffffffff80003210, 10⟩ : Segment)
      ∈ smallSymbols.kmap.segments := List.mem_cons_self
  obtain ⟨hboot, hkernel⟩ := (hall 0xffffffff80001234).2.2 _ htext (by decide)
  have hpa : (0xffffffff80001234 : U64) - kernelPhysOffset = 0x80001234 := by decide
  rw [hpa] at hboot hkernel
  exact ⟨satp, s', hrun, hkernel, hboot⟩

/-- The console's page is one that can be executed elsewhere. -/
theorem direct_alias_small :
    ∃ satp s', vmInit (satpMmu (initSatp 0x80000000)) smallSymbols 262145 firstTable = .ok satp s' ∧
      walk s'.mem (satpRoot satp) (paToVa 0x10000005) = some ⟨0x10000005, directPerm⟩ := by
  obtain ⟨s₁, hrun₁, -, -, hroot₁, hwalk₁⟩ := run_mmInitAt (y := smallSymbols) (s := firstTable)
    smallSymbols_layout lt_smallFuel firstTable_clean rfl smallMap_room firstTable_boots
  have hconsole : walk s₁.mem smallMap.freeStart 0x10000005 = some ⟨0x10000005, 6⟩ := by
    rw [show smallMap = smallSymbols.kmap from rfl, hwalk₁]
    decide
  obtain ⟨satp, s', hrun, hall⟩ := direct_alias (y := smallSymbols) (s := firstTable)
    smallSymbols_layout lt_smallFuel firstTable_clean rfl smallMap_room firstTable_boots
  have hsame := hrun
  rw [run_vmInit hrun₁ hroot₁] at hsame
  cases hsame
  refine ⟨_, _, hrun, hall 0x10000005 ⟨0x10000005, 6⟩ ?_⟩
  rw [(satp_direct smallSymbols_layout).2]
  exact hconsole

/-- The null page, before the switch and after it. -/
theorem low_cleared_null :
    ∃ satp s', vmInit (satpMmu (initSatp 0x80000000)) smallSymbols 262145 firstTable = .ok satp s' ∧
      walk s'.mem 0x80000000 0 = some ⟨0, directPerm⟩ ∧ walk s'.mem (satpRoot satp) 0 = none := by
  obtain ⟨satp, s', hrun, hall⟩ := low_cleared (y := smallSymbols) (s := firstTable)
    smallSymbols_layout lt_smallFuel firstTable_clean rfl smallMap_room firstTable_boots
  refine ⟨satp, s', hrun, ((hall 0 (by decide) _).1).mpr ⟨rfl, Or.inl (by decide)⟩, ?_⟩
  refine Option.eq_none_iff_forall_ne_some.mpr fun μ h => ?_
  exact absurd (((hall 0 (by decide) μ).2).mp h).2 (by decide)

/-- Source 10, the UART, on hart 0. -/
theorem plic_reached_uart :
    ∃ satp s', vmInit (satpMmu (initSatp 0x80000000)) smallSymbols 262145 firstTable = .ok satp s' ∧
      walk s'.mem 0x80000000 (plicHartClaim 0) = none := by
  obtain ⟨satp, s', hrun, hall⟩ := plic_reached (y := smallSymbols) (s := firstTable)
    smallSymbols_layout lt_smallFuel firstTable_clean rfl smallMap_room firstTable_boots
    (by decide : (0 : U32).toNat < 0x3dff) (by decide : (10 : U32).toNat < 1024) 0
  exact ⟨satp, s', hrun, (hall (plicHartClaimIrq 0) (by simp [plicAccesses])).1⟩

end RvKernel.Boot
