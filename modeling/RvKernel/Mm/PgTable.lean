/-
# Page-table helpers (`pgtable.h`, `mm.h`)

The macros and inline functions that take virtual addresses and page-table entries apart and put
them together, each with the arithmetic it performs: an index is a `VPN` of the Sv39 walk, the
pointer an entry leads to is the page its PPN names, and the two entries `vm_map_page` stores are
`mkPte` of a page number and flags.  The last two hold for physical addresses below `2 ^ 56` ONLY:
`pte_from_ppn` keeps the bits of the page number that `pte_get_ppn` drops.
-/
import RvKernel.Mm.Alloc

namespace RvKernel.Mm

open Sv39

/-! ## 1. Definitions -/

/-- `BITMASK64(high, low)`. -/
def bitmask64 (high low : ℕ) : U64 :=
  (BitVec.allOnes 64 <<< low) &&& (BitVec.allOnes 64 >>> (64 - 1 - high))

/-- `va_get_index(va, level)`. -/
def vaGetIndex (va : U64) (level : ℕ) : KM U64 :=
  match level with
  | 2 => return (va &&& bitmask64 38 30) >>> 30
  | 1 => return (va &&& bitmask64 29 21) >>> 21
  | 0 => return (va &&& bitmask64 20 12) >>> 12
  | _ => throw .panic

/-- `PTB_LEVELS`. -/
def ptbLevels : ℕ := 3

def physToPpn (phys : U64) : U64 := phys >>> 12

def ppnToPhys (ppn : U64) : U64 := ppn <<< 12

def pteGetPpn (pte : U64) : U64 := (pte &&& bitmask64 53 10) >>> 10

def pteFromPpn (ppn : U64) : U64 := ppn <<< 10

def pteNextPtb (pte : U64) : U64 := ppnToPhys (pteGetPpn pte)

/-- `ptb_get_ptep(ptb, index)`: entries are 8 bytes wide. -/
def ptbGetPtep (ptb index : U64) : U64 := ptb + 8 * index

namespace PTE

def valid : U64 := 1 <<< 0
def read : U64 := 1 <<< 1
def write : U64 := 1 <<< 2
def exec : U64 := 1 <<< 3
def leaf : U64 := read ||| write ||| exec

end PTE

def pteValid (pte : U64) : Bool := pte &&& PTE.valid != 0

def pteLeaf (pte : U64) : Bool := pte &&& PTE.leaf != 0

/-- `KERNEL_DIRECT_MAP_START`. -/
def kernelDirectMapStart : U64 := 0xffffffc000000000

/-- `SIZE_1G`. -/
def size1G : U64 := 0x40000000

/-- `KERNEL_DIRECT_MAP_SIZE`. -/
def kernelDirectMapSize : U64 := 32 * size1G

/-- `KERNEL_DIRECT_MAP_END`. -/
def kernelDirectMapEnd : U64 := kernelDirectMapStart + kernelDirectMapSize

/-- `va_to_pa(va)`. -/
def vaToPa (va : U64) : U64 :=
  if kernelDirectMapStart ≤ va ∧ va ≤ kernelDirectMapEnd then va - kernelDirectMapStart else 0

/-- `pa_to_va(pa)`. -/
def paToVa (pa : U64) : U64 := pa + kernelDirectMapStart

/-! ## 2. Indices and pointers -/

theorem ofNat_vpn (va : U64) (level : ℕ) {x : U64}
    (h : x.toNat = va.toNat / 2 ^ (12 + 9 * level) % 2 ^ 9) :
    x = BitVec.ofNat 64 (vpn va level) := by
  apply BitVec.eq_of_toNat_eq
  have hpow : 4096 * 512 ^ level = 2 ^ (12 + 9 * level) := by
    rw [pow_add, pow_mul]
    norm_num
  have hlt := vpn_lt va level
  rw [h, BitVec.toNat_ofNat, vpn, hpow]
  omega

/-- **The code's index at a level is the page number the hardware uses there.** -/
theorem run_vaGetIndex (va : U64) {level : ℕ} (h : level ≤ 2) (s : Kernel) :
    vaGetIndex va level s = .ok (BitVec.ofNat 64 (vpn va level)) s := by
  obtain rfl | rfl | rfl : level = 0 ∨ level = 1 ∨ level = 2 := by omega
  · have hx := ofNat_vpn va 0 (Word.toNat_and_mask_shr va 20 12 (by norm_num) (by norm_num))
    exact congrArg (EStateM.Result.ok · s) hx
  · have hx := ofNat_vpn va 1 (Word.toNat_and_mask_shr va 29 21 (by norm_num) (by norm_num))
    exact congrArg (EStateM.Result.ok · s) hx
  · have hx := ofNat_vpn va 2 (Word.toNat_and_mask_shr va 38 30 (by norm_num) (by norm_num))
    exact congrArg (EStateM.Result.ok · s) hx

theorem ptbGetPtep_eq (ptb : U64) (i : ℕ) : ptbGetPtep ptb (BitVec.ofNat 64 i) = slot ptb i := by
  unfold ptbGetPtep slot
  rw [BitVec.ofNat_mul]
  rfl

/-- The pointer an entry leads to is the page it names. -/
theorem pteNextPtb_eq (pte : U64) : pteNextPtb pte = ppnAddr pte := by
  have hp : (pteGetPpn pte).toNat = ppn pte :=
    Word.toNat_and_mask_shr pte 53 10 (by norm_num) (by norm_num)
  have hlt : ppn pte < 2 ^ 44 := Nat.mod_lt _ (by norm_num)
  apply BitVec.eq_of_toNat_eq
  rw [pteNextPtb, ppnToPhys, Word.toNat_shl _ _ (by rw [hp]; omega), hp, ppnAddr,
    BitVec.toNat_ofNat]
  omega

/-! ## 3. Entries -/

theorem pteValid_eq (pte : U64) : pteValid pte = pte.getLsbD 0 := by
  have h := Word.and_bit_ne_zero pte (i := 0) (by norm_num)
  unfold pteValid
  rw [Bool.eq_iff_iff, bne_iff_ne]
  exact h

theorem pteLeaf_eq (pte : U64) :
    pteLeaf pte = (pte.getLsbD 1 || pte.getLsbD 2 || pte.getLsbD 3) := by
  have h1 := Word.and_bit_ne_zero pte (i := 1) (by norm_num)
  have h2 := Word.and_bit_ne_zero pte (i := 2) (by norm_num)
  have h3 := Word.and_bit_ne_zero pte (i := 3) (by norm_num)
  have hsplit : pte &&& PTE.leaf
      = pte &&& BitVec.ofNat 64 (2 ^ 1) ||| pte &&& BitVec.ofNat 64 (2 ^ 2)
      ||| pte &&& BitVec.ofNat 64 (2 ^ 3) := by
    rw [← BitVec.and_or_distrib_left, ← BitVec.and_or_distrib_left]
    rfl
  have hz : ∀ x y : U64, x ||| y = 0 ↔ x = 0 ∧ y = 0 := fun _ _ => BitVec.or_eq_zero_iff
  unfold pteLeaf
  rw [Bool.eq_iff_iff, bne_iff_ne, hsplit, Bool.or_eq_true, Bool.or_eq_true, ← h1, ← h2, ← h3,
    ne_eq, hz, hz, not_and_or, not_and_or]

/-- A valid entry with `R`, `W` and `X` clear is a pointer of the tree. -/
theorem isPointer_eq (pte : U64) : isPointer pte = (pteValid pte && !pteLeaf pte) := by
  rw [isPointer, pteValid_eq, pteLeaf_eq]

theorem toNat_physToPpn (phys : U64) : (physToPpn phys).toNat = phys.toNat / 4096 :=
  Word.toNat_shr phys 12

/-- Clearing the leaf bits of a shifted page number clears nothing. -/
theorem shl_and_not_leaf (x : U64) : x <<< 10 &&& ~~~PTE.leaf = x <<< 10 := by
  apply BitVec.eq_of_getLsbD_eq
  intro i hi
  rw [BitVec.getLsbD_and, BitVec.getLsbD_shiftLeft, BitVec.getLsbD_not]
  by_cases h10 : i < 10
  · simp [h10]
  · have hbit : PTE.leaf.getLsbD i = false := by
      rw [BitVec.getLsbD, show PTE.leaf.toNat = 14 from by decide]
      refine Nat.testBit_lt_two_pow (lt_of_lt_of_le (by norm_num : 14 < 2 ^ 10) ?_)
      exact Nat.pow_le_pow_right (by norm_num) (by omega)
    rw [hbit, Bool.not_false, Bool.and_true, decide_eq_true hi, Bool.and_true]

/-- **The pointer that `vm_map_page` installs**, for a table below `2 ^ 56`. -/
theorem linkPte_eq {c : U64} (hc : c.toNat < 2 ^ 56) :
    pteFromPpn (physToPpn c) &&& ~~~PTE.leaf ||| PTE.valid = mkPte (c.toNat / 4096) 1 := by
  have hp := toNat_physToPpn c
  have hv : PTE.valid.toNat = 1 := by decide
  apply BitVec.eq_of_toNat_eq
  rw [pteFromPpn, shl_and_not_leaf, Word.toNat_shl_or _ _ _ (by rw [hp]; omega) (by rw [hv]; omega),
    hp, hv, toNat_mkPte (by omega) (by norm_num)]
  norm_num

/-- `flags` within `{R, W, X}`. -/
def FlagsRWX (flags : U64) : Prop := flags &&& ~~~PTE.leaf = 0

instance (flags : U64) : Decidable (FlagsRWX flags) := inferInstanceAs (Decidable (_ = _))

/-- There are eight such words. -/
theorem FlagsRWX.cases {flags : U64} (h : FlagsRWX flags) :
    ∃ n < 8, flags = BitVec.ofNat 64 (2 * n) := by
  have hand : flags &&& PTE.leaf = flags := by
    have hall : flags &&& (PTE.leaf ||| ~~~PTE.leaf) = flags := by
      rw [show PTE.leaf ||| ~~~PTE.leaf = BitVec.allOnes 64 from by decide, BitVec.and_allOnes]
    rw [BitVec.and_or_distrib_left, h] at hall
    simpa using hall
  have hle : flags.toNat ≤ 14 := by
    rw [← hand, BitVec.toNat_and]
    exact Nat.and_le_right
  have heven : flags.toNat % 2 = 0 := by
    have h0 : flags.getLsbD 0 = false := by
      have hbit : PTE.leaf.getLsbD 0 = false := by decide
      rw [← hand, BitVec.getLsbD_and, hbit, Bool.and_false]
    rw [Word.getLsbD_eq] at h0
    simpa using h0
  refine ⟨flags.toNat / 2, by omega, ?_⟩
  apply BitVec.eq_of_toNat_eq
  rw [BitVec.toNat_ofNat]
  omega

/-- **The leaf that `vm_map_page` installs**, for a physical page below `2 ^ 56`. -/
theorem leafPte_eq {pa flags : U64} (hpa : pa.toNat < 2 ^ 56) (hf : FlagsRWX flags) :
    pteFromPpn (physToPpn pa) ||| flags ||| PTE.valid
      = mkPte (pa.toNat / 4096) (flags.toNat + 1) := by
  have hp := toNat_physToPpn pa
  obtain ⟨n, hn, rfl⟩ := hf.cases
  have hor : (BitVec.ofNat 64 (2 * n) ||| PTE.valid).toNat = 2 * n + 1 := by
    interval_cases n <;> decide
  have hfn : (BitVec.ofNat 64 (2 * n)).toNat = 2 * n := by
    rw [BitVec.toNat_ofNat]
    omega
  apply BitVec.eq_of_toNat_eq
  rw [pteFromPpn, BitVec.or_assoc, Word.toNat_shl_or _ _ _ (by rw [hp]; omega) (by rw [hor]; omega),
    hp, hor, hfn, toNat_mkPte (by omega) (by omega)]
  norm_num

section Leaf

variable {n : ℕ} {flags : U64} (hn : n < 2 ^ 44) (hf : FlagsRWX flags)
  (hr : flags &&& PTE.read ≠ 0)

include hf hr in
/-- With `R` set, four of the eight are left. -/
theorem FlagsRWX.read_cases : flags = 2 ∨ flags = 6 ∨ flags = 10 ∨ flags = 14 := by
  obtain ⟨j, hj, rfl⟩ := hf.cases
  interval_cases j <;> first | decide | exact absurd rfl hr

include hn hf hr in
/-- Such an entry is a leaf for the walk... -/
theorem kind_mkPte : kind (mkPte n (flags.toNat + 1)) = .leaf := by
  have hlt : flags.toNat + 1 < 1024 := by
    rcases hf.read_cases hr with rfl | rfl | rfl | rfl <;> decide
  have hbit : ∀ i < 10, (mkPte n (flags.toNat + 1)).getLsbD i = (flags.toNat + 1).testBit i :=
    fun i hi => getLsbD_mkPte hn hlt hi
  simp only [kind, mkPte_shr hn hlt, hbit 0 (by norm_num), hbit 1 (by norm_num),
    hbit 2 (by norm_num), hbit 3 (by norm_num), hbit 4 (by norm_num), hbit 6 (by norm_num),
    hbit 7 (by norm_num)]
  rcases hf.read_cases hr with rfl | rfl | rfl | rfl <;> decide

include hn hf hr in
/-- ...and its permissions are the flags. -/
theorem perm_mkPte : mkPte n (flags.toNat + 1) &&& 0x3e = flags := by
  apply BitVec.eq_of_toNat_eq
  rcases hf.read_cases hr with rfl | rfl | rfl | rfl <;>
    exact (toNat_mkPte_perm hn (by decide)).trans (by decide)

end Leaf

/-- What the walk makes of that leaf at level 0, when `R` is set: the page offset is kept, and the
permissions are the flags. -/
theorem leaf0_mkPte {pa flags va : U64} (ha : Aligned pa) (hpa : pa.toNat < 2 ^ 56)
    (hf : FlagsRWX flags) (hr : flags &&& PTE.read ≠ 0) :
    leaf0 va (mkPte (pa.toNat / 4096) (flags.toNat + 1))
      = some ⟨pa + BitVec.ofNat 64 (va.toNat % 4096), flags⟩ := by
  have hlt : pa.toNat / 4096 < 2 ^ 44 := by omega
  have hflags : flags.toNat + 1 < 1024 := by
    rcases hf.read_cases hr with rfl | rfl | rfl | rfl <;> decide
  have hpn := ppn_mkPte hlt hflags
  have hadd : BitVec.ofNat 64 (pa.toNat / 4096 * 4096 + va.toNat % (4096 * 1))
      = pa + BitVec.ofNat 64 (va.toNat % 4096) := by
    unfold Aligned at ha
    apply BitVec.eq_of_toNat_eq
    rw [BitVec.toNat_add, BitVec.toNat_ofNat, BitVec.toNat_ofNat]
    omega
  rw [leaf0, kind_mkPte hlt hf hr]
  simp only [leafMapping, hpn, perm_mkPte hlt hf hr, hadd, pow_zero, Nat.mod_one, ne_eq,
    not_true_eq_false, if_false]

end RvKernel.Mm
