/-
# The first page table (`boot/init.S`)

`init` runs without translation and switches it on with a root table of its own, `_init_ptb`: three
gigapages, all of them readable, writable and executable.  `boot_walk` is what the hardware makes of
it, for every address: the first and the third GiB are where they are, and the third is also at
`KERNEL_PHYS_OFFSET` above.
-/
import RvKernel.Mm.Late

namespace RvKernel.Boot

open Sv39 Mm

/-! ## 1. The code -/

/-- `_init_ptb`. -/
def initPtb : List U64 :=
  [0xf, 0, 0x2000000f] ++ List.replicate (512 - 5) 0 ++ [0x2000000f, 0]

/-- What `init` writes to `satp`. -/
def initSatp (ptb : U64) : U64 := ptb >>> 12 + 0x8000000000000000

/-- The table whose number is in `satp`. -/
def satpRoot (satp : U64) : U64 := BitVec.ofNat 64 (satp.toNat % 2 ^ 44 * 4096)

/-- What the hart makes of an address in S-mode: mode 0 is Bare, mode 8 is Sv39. -/
def translate (satp : U64) (m : Mem) (va : U64) : Option Mapping :=
  if satp.toNat / 2 ^ 60 = 0 then some ⟨va, PTE.read ||| PTE.write ||| PTE.exec⟩
  else if satp.toNat / 2 ^ 60 = 8 then walk m (satpRoot satp) va
  else none

/-- How `satp` lets a pointer reach memory: mode 0 is Bare, mode 8 is Sv39. -/
def satpMmu (satp : U64) : Mmu := fun m p =>
  if satp.toNat / 2 ^ 60 = 0 then some p
  else if satp.toNat / 2 ^ 60 = 8 then hardware (satpRoot satp) m p
  else none

/-- The table is in memory. -/
def Boots (ptb : U64) (m : Mem) : Prop := ∀ i < 512, m (slot ptb i) = initPtb.getD i 0

/-- **What the table is for.** -/
def bootMapping (va : U64) : Option Mapping :=
  if va.toNat < 0x40000000 ∨ 0x80000000 ≤ va.toNat ∧ va.toNat < 0xc0000000 then
    some ⟨va, PTE.read ||| PTE.write ||| PTE.exec⟩
  else if 0xffffffff80000000 ≤ va.toNat ∧ va.toNat < 0xffffffffc0000000 then
    some ⟨va - kernelPhysOffset, PTE.read ||| PTE.write ||| PTE.exec⟩
  else none

/-! ## 2. The walk -/

/-- A list that is padded in the middle. -/
theorem getD_padded {α : Type} (d : α) (head tail : List α) (n i : ℕ) :
    (head ++ List.replicate n d ++ tail).getD i d =
      if i < head.length then head.getD i d
      else if i < head.length + n then d else tail.getD (i - (head.length + n)) d := by
  have hlen : (head ++ List.replicate n d).length = head.length + n := by simp
  split
  · rename_i hi
    rw [List.append_assoc, List.getD_append _ _ _ _ hi]
  · rename_i hi
    split
    · rename_i hn
      rw [List.getD_append _ _ _ _ (by omega), List.getD_append_right _ _ _ _ (by omega),
        List.getD_replicate d (by omega)]
    · rw [List.getD_append_right _ _ _ _ (by omega), hlen]

/-- The entries of the table. -/
theorem getD_initPtb {i : ℕ} (hi : i < 512) :
    initPtb.getD i 0 = if i = 0 then 0xf else if i = 2 ∨ i = 510 then 0x2000000f else 0 := by
  have hlen : ([0xf, 0, 0x2000000f] : List U64).length = 3 := rfl
  rw [initPtb, getD_padded, hlen]
  by_cases hhead : i < 3
  · rw [if_pos hhead]
    interval_cases i <;> rfl
  by_cases hmid : i < 3 + (512 - 5)
  · rw [if_neg hhead, if_pos hmid, if_neg (by omega), if_neg (by omega)]
  · rw [if_neg hhead, if_neg hmid]
    obtain rfl | rfl : i = 510 ∨ i = 511 := by omega
    · rfl
    · rfl

/-- A gigapage leaf of the table. -/
theorem walkFrom_gigapage {m : Mem} {ptb va pte : U64} {n : ℕ}
    (hpte : m (slot ptb (vpn va 2)) = pte) (hkind : kind pte = .leaf)
    (hppn : ppn pte = n * 2 ^ 18) (hperm : pte &&& 0x3e = PTE.read ||| PTE.write ||| PTE.exec) :
    walkFrom m va 2 ptb = some ⟨BitVec.ofNat 64 (n * 2 ^ 30 + va.toNat % 2 ^ 30),
      PTE.read ||| PTE.write ||| PTE.exec⟩ := by
  have hsuper : n * 2 ^ 18 % 512 ^ 2 = 0 := by omega
  have hbase : n * 2 ^ 18 * 4096 + va.toNat % (4096 * 512 ^ 2)
      = n * 2 ^ 30 + va.toNat % 2 ^ 30 := by omega
  rw [walkFrom, hpte, hkind]
  simp only [leafMapping, hppn, hperm, hsuper, hbase, ne_eq, not_true_eq_false, if_false]

/-- **The translation by the first table**, of every address. -/
theorem boot_walk {ptb : U64} {m : Mem} (h : Boots ptb m) (va : U64) :
    walk m ptb va = bootMapping va := by
  have hlt := va.isLt
  have hslot := h _ (vpn_lt va 2)
  have hvpn : vpn va 2 = va.toNat / 2 ^ 30 % 512 := rfl
  rw [getD_initPtb (vpn_lt va 2)] at hslot
  unfold bootMapping walk
  by_cases hcan : Canonical va
  swap
  · rw [if_neg hcan]
    unfold Canonical at hcan
    rw [if_neg (by omega), if_neg (by omega)]
  rw [if_pos hcan]
  unfold Canonical at hcan
  by_cases h0 : vpn va 2 = 0
  · rw [if_pos h0] at hslot
    have hpa : BitVec.ofNat 64 (0 * 2 ^ 30 + va.toNat % 2 ^ 30) = va := by
      apply BitVec.eq_of_toNat_eq
      rw [BitVec.toNat_ofNat]
      omega
    rw [walkFrom_gigapage hslot (by decide) (n := 0) (by decide) (by decide), hpa,
      if_pos (by omega)]
  by_cases h2 : vpn va 2 = 2
  · rw [if_neg h0, if_pos (Or.inl h2)] at hslot
    have hpa : BitVec.ofNat 64 (2 * 2 ^ 30 + va.toNat % 2 ^ 30) = va := by
      apply BitVec.eq_of_toNat_eq
      rw [BitVec.toNat_ofNat]
      omega
    rw [walkFrom_gigapage hslot (by decide) (n := 2) (by decide) (by decide), hpa,
      if_pos (by omega)]
  by_cases h510 : vpn va 2 = 510
  · have hoff : kernelPhysOffset.toNat = 0xffffffff00000000 := by decide
    rw [if_neg h0, if_pos (Or.inr h510)] at hslot
    have hpa : BitVec.ofNat 64 (2 * 2 ^ 30 + va.toNat % 2 ^ 30) = va - kernelPhysOffset := by
      apply BitVec.eq_of_toNat_eq
      rw [BitVec.toNat_ofNat, BitVec.toNat_sub, hoff]
      omega
    rw [walkFrom_gigapage hslot (by decide) (n := 2) (by decide) (by decide), hpa,
      if_neg (by omega), if_pos (by omega)]
  · rw [if_neg h0, if_neg (not_or.mpr ⟨h2, h510⟩)] at hslot
    rw [walkFrom, hslot, kind_of_invalid (by decide), if_neg (by omega), if_neg (by omega)]

/-! ## 3. The register -/

/-- The register has the mode and the table. -/
theorem toNat_initSatp {ptb : U64} (hlt : ptb.toNat < 2 ^ 56) :
    (initSatp ptb).toNat = ptb.toNat / 4096 + 2 ^ 63 := by
  have hmode : (0x8000000000000000 : U64).toNat = 2 ^ 63 := by decide
  rw [initSatp, BitVec.toNat_add, hmode, Word.toNat_shr]
  omega

theorem satpRoot_initSatp {ptb : U64} (ha : Aligned ptb) (hlt : ptb.toNat < 2 ^ 56) :
    satpRoot (initSatp ptb) = ptb := by
  apply BitVec.eq_of_toNat_eq
  rw [satpRoot, BitVec.toNat_ofNat, toNat_initSatp hlt]
  unfold Aligned at ha
  omega

/-- It leads to the table. -/
theorem translate_initSatp {ptb : U64} (ha : Aligned ptb) (hlt : ptb.toNat < 2 ^ 56) (m : Mem)
    (va : U64) : translate (initSatp ptb) m va = walk m ptb va := by
  rw [translate, toNat_initSatp hlt, satpRoot_initSatp ha hlt, if_neg (by omega),
    if_pos (by omega)]

theorem satpMmu_initSatp {ptb : U64} (ha : Aligned ptb) (hlt : ptb.toNat < 2 ^ 56) :
    satpMmu (initSatp ptb) = hardware ptb := by
  funext m p
  rw [satpMmu, toNat_initSatp hlt, satpRoot_initSatp ha hlt, if_neg (by omega),
    if_pos (by omega)]

/-- In the regime of the first table, RAM is where it is. -/
theorem hardware_boot {ptb : U64} {m : Mem} (h : Boots ptb m) {p : U64}
    (hlow : 0x80000000 ≤ p.toNat) (hhigh : p.toNat < 0xc0000000) :
    hardware ptb m p = some p := by
  rw [hardware, boot_walk h, bootMapping, if_pos (Or.inr ⟨hlow, hhigh⟩)]
  rfl

end RvKernel.Boot
