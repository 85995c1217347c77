/-
# The helpers of the direct map (`va_to_pa`, `pa_to_va`)

The direct map is the window of 32 GiB from `KERNEL_DIRECT_MAP_START` on; `pa_to_va` adds its start,
and `va_to_pa` tests for the window and takes it off.  The test includes the END of the window,
which is the first address behind it: there `va_to_pa` answers 32 GiB, and the tables answer with a
fault.  At every other address the two agree (`direct_map_iff`).
-/
import RvKernel.Mm.MmInit
import RvKernel.Mm.Frame

namespace RvKernel.Mm

open Sv39

/-! ## 1. The window -/

/-- The permissions of the direct map. -/
def directPerm : U64 := PTE.read ||| PTE.write ||| PTE.exec

theorem toNat_directMapSize : kernelDirectMapSize.toNat = 32 * 2 ^ 30 := rfl

theorem toNat_directMapEnd : kernelDirectMapEnd.toNat = 0xffffffc000000000 + 32 * 2 ^ 30 := rfl

/-- The window ends in front of its end. -/
theorem inDirectMap_iff (va : U64) :
    InDirectMap va ↔
      kernelDirectMapStart ≤ va ∧ va ≤ kernelDirectMapEnd ∧ va ≠ kernelDirectMapEnd := by
  have hlt := va.isLt
  unfold InDirectMap
  rw [BitVec.le_def, BitVec.le_def, BitVec.lt_def, BitVec.toNat_sub, ne_eq, ← BitVec.toNat_inj,
    toNat_directMapStart, toNat_directMapSize, toNat_directMapEnd]
  constructor
  · intro h
    omega
  · intro h
    omega

/-- Physical memory is seen through the window. -/
theorem inDirectMap_paToVa {pa : U64} (h : pa < kernelDirectMapSize) :
    InDirectMap (paToVa pa) ∧ paToVa pa - kernelDirectMapStart = pa := by
  have hsub : paToVa pa - kernelDirectMapStart = pa := BitVec.add_sub_cancel _ _
  rw [BitVec.lt_def, toNat_directMapSize] at h
  have hva := toNat_paToVa h.le
  refine ⟨⟨?_, ?_⟩, hsub⟩
  · rw [BitVec.le_def, hva, toNat_directMapStart]
    exact Nat.le_add_left _ _
  · rw [hsub, BitVec.lt_def, toNat_directMapSize]
    exact h

/-! ## 2. The helpers and the tables -/

section Walk

variable {k : MemoryMap} (L : Layout k) {s : Kernel}

include L in
/-- Behind the window nothing is mapped. -/
theorem kernelMapping_directMapEnd : kernelMapping k kernelDirectMapEnd = none := by
  have hfind := L.covers_none (show kernelDirectMapEnd.toNat < 0xffffffff80000000 by decide)
  have hser : ¬ kernelDirectMapEnd.toNat / 4096 = 0x10000 := by
    rw [toNat_directMapEnd]
    norm_num
  have hout : ¬ InDirectMap kernelDirectMapEnd := fun h => ((inDirectMap_iff _).mp h).2.2 rfl
  simp only [kernelMapping, hfind, if_neg hser]
  exact if_neg hout

include L in
/-- **The address at which the helper and the tables differ.** -/
theorem vaToPa_walk_iff (h : BootInv directSlots k s (bootCalls k)) (hd : DirectMapped s)
    (va : U64) :
    (vaToPa va ≠ 0 → walk s.mem s.kernelRootPtb va = some ⟨vaToPa va, directPerm⟩) ↔
      va ≠ kernelDirectMapEnd := by
  constructor
  · rintro hall rfl
    have hnone := h.walk_eq L hd kernelDirectMapEnd
    rw [kernelMapping_directMapEnd L, hall (by decide)] at hnone
    cases hnone
  · intro hne hpa
    have hin : kernelDirectMapStart ≤ va ∧ va ≤ kernelDirectMapEnd := by
      by_contra hout
      exact hpa (if_neg hout)
    obtain ⟨h1, h2⟩ := (inDirectMap_iff va).mpr ⟨hin.1, hin.2, hne⟩
    rw [vaToPa, if_pos hin]
    exact walk_direct hd h1 h2

include L in
/-- **The helpers and the tables of `vm_init_kernel`**, over a clean root page.  Each physical
address below 32 GiB is mapped where `pa_to_va` says, and `va_to_pa` takes it back; and where
`va_to_pa` answers, the tables agree with it, with the exception of the end of the window. -/
theorem direct_map_iff {fuel : ℕ} (hfuel : 262144 < fuel) (hk : s.kmap = k)
    (hclean : RootClean directSlots k s.mem) (hev : s.events = []) :
    ∃ s', initKernel fuel s = .ok () s' ∧
      (∀ pa, pa < kernelDirectMapSize →
        walk s'.mem s'.kernelRootPtb (paToVa pa) = some ⟨pa, directPerm⟩ ∧
          vaToPa (paToVa pa) = pa) ∧
      ∀ va, (vaToPa va ≠ 0 → walk s'.mem s'.kernelRootPtb va = some ⟨vaToPa va, directPerm⟩) ↔
        va ≠ kernelDirectMapEnd := by
  obtain ⟨_, s', hrun, h, -, hd, -⟩ := run_initKernel directSlots_bootSlots L hfuel hk hclean hev
  refine ⟨s', hrun, ?_, vaToPa_walk_iff L h hd⟩
  intro pa hpa
  obtain ⟨⟨h1, h2⟩, hsub⟩ := inDirectMap_paToVa hpa
  have hwalk := walk_direct hd h1 h2
  rw [hsub] at hwalk
  rw [BitVec.lt_def, toNat_directMapSize] at hpa
  exact ⟨hwalk, vaToPa_paToVa hpa.le⟩

end Walk

/-- The small image: physical address 0 is mapped at the start of the window. -/
theorem direct_map_iff_smallMap :
    ∃ s', initKernel 262145 smallBoot = .ok () s' ∧
      walk s'.mem s'.kernelRootPtb kernelDirectMapStart = some ⟨0, directPerm⟩ ∧
      walk s'.mem s'.kernelRootPtb 0xffffffc080001234 = some ⟨0x80001234, directPerm⟩ := by
  obtain ⟨s', hrun, hpa, hva⟩ :=
    direct_map_iff smallMap_layout lt_smallFuel (s := smallBoot) rfl smallBoot_clean rfl
  exact ⟨s', hrun, (hpa 0 (by decide)).1, (hva _).mpr (by decide) (by decide)⟩

/-- At the end of the window, `va_to_pa` answers and the tables do not. -/
theorem direct_map_not_end :
    ∃ s', initKernel 262145 smallBoot = .ok () s' ∧
      ¬ ∀ va, vaToPa va ≠ 0 → ∃ perm, walk s'.mem s'.kernelRootPtb va = some ⟨vaToPa va, perm⟩ := by
  obtain ⟨_, s', hrun, h, -, hd, -⟩ := run_initKernel directSlots_bootSlots smallMap_layout
    lt_smallFuel (s := smallBoot) rfl smallBoot_clean rfl
  refine ⟨s', hrun, fun hall => ?_⟩
  obtain ⟨perm, hwalk⟩ := hall kernelDirectMapEnd (by decide)
  rw [h.walk_eq smallMap_layout hd, kernelMapping_directMapEnd smallMap_layout] at hwalk
  cases hwalk

end RvKernel.Mm
