/-
# The interrupt controller (`drivers/plic.c`)

Each function of the driver makes one access to a register of the PLIC.  The products with the hart
number are products of `u32`s and wrap at `2 ^ 32`; the sums with the base are of 64 bits.

* `enable_irqs_iff`: `plic_hart_enable_irq` stores a whole word with a single bit in it, so of the
  sources that share a word only the last one enabled stays so.
* `contexts_iff`: the stride of the thresholds is that of ONE context, where a hart has two.  The
  addresses are right for hart 0 and for no other.
-/
import RvKernel.Mm.PgTable

namespace RvKernel.Plic

/-! ## 1. The code -/

/-- `PLIC_BASE`. -/
def plicBase : U64 := 0xc000000 + Mm.kernelDirectMapStart

/-- `PLIC_ENABLE_BASE`. -/
def plicEnableBase : U64 := plicBase + 0x2000 + 0x80

/-- `PLIC_THRESH_BASE`. -/
def plicThreshBase : U64 := plicBase + 0x200000 + 0x1000

/-- `PLIC_IRQ_PRIORITY(irq)`. -/
def plicIrqPriority (irq : U32) : U64 := plicBase + (4 * irq).setWidth 64

/-- `PLIC_HART_ENABLE(hart)`. -/
def plicHartEnable (hart : U32) : U64 := plicEnableBase + (hart * 0x100).setWidth 64

/-- `PLIC_HART_THRESHOLD(hart)`. -/
def plicHartThreshold (hart : U32) : U64 := plicThreshBase + (hart * 0x1000).setWidth 64

/-- `PLIC_HART_CLAIM(hart)`. -/
def plicHartClaim (hart : U32) : U64 := plicThreshBase + 0x4 + (hart * 0x1000).setWidth 64

/-- An access to a register. -/
inductive Access where
  | iowrite32 (val : U32) (addr : U64)
  | ioread32 (addr : U64)
  deriving DecidableEq

def Access.addr : Access → U64
  | .iowrite32 _ addr => addr
  | .ioread32 addr => addr

/-- `plic_irq_set_priority(irq, prio)`. -/
def plicIrqSetPriority (irq prio : U32) : Access := .iowrite32 prio (plicIrqPriority irq)

/-- `plic_hart_enable_irq(hart, irq)`; the `offset` counts words. -/
def plicHartEnableIrq (hart irq : U32) : Access :=
  let offset := irq / 32
  let val := (1 : U32) <<< (irq % 32)
  .iowrite32 val (plicHartEnable hart + 4 * offset.setWidth 64)

/-- `plic_hart_set_threshold(hart, threshold)`. -/
def plicHartSetThreshold (hart threshold : U32) : Access :=
  .iowrite32 threshold (plicHartThreshold hart)

/-- `plic_hart_claim_irq(hart)`, which returns what it reads. -/
def plicHartClaimIrq (hart : U32) : Access := .ioread32 (plicHartClaim hart)

/-- `plic_hart_complete_irq(hart, irq)`. -/
def plicHartCompleteIrq (hart irq : U32) : Access := .iowrite32 irq (plicHartClaim hart)

/-! ## 2. Enabling sources -/

/-- The registers, each of which reads back what was written to it. -/
abbrev Regs := U64 → U32

def Access.apply (r : Regs) : Access → Regs
  | .iowrite32 val addr => fun a => if a = addr then val else r a
  | .ioread32 _ => r

/-- The registers after a sequence of `plic_hart_enable_irq(hart, irq)`. -/
def enableIrqs (hart : U32) (irqs : List U32) (r : Regs) : Regs :=
  irqs.foldl (fun r irq => (plicHartEnableIrq hart irq).apply r) r

/-- A source is enabled: bit `b` of the hart's word `w` stands for source `32 * w + b`. -/
def Enabled (r : Regs) (hart irq : U32) : Prop :=
  (r (plicHartEnable hart + 4 * (irq / 32).setWidth 64)).getLsbD (irq % 32).toNat = true

instance (r : Regs) (hart irq : U32) : Decidable (Enabled r hart irq) :=
  inferInstanceAs (Decidable (_ = true))

theorem toNat_word (a : U32) : (a / 32).toNat = a.toNat / 32 := BitVec.toNat_udiv

theorem toNat_bit (a : U32) : (a % 32).toNat = a.toNat % 32 := BitVec.toNat_umod

theorem toNat_wordOffset (a : U32) :
    (4 * (a / 32).setWidth 64 : U64).toNat = 4 * (a.toNat / 32) := by
  have ha := a.isLt
  rw [BitVec.toNat_mul, BitVec.toNat_setWidth, toNat_word]
  have hfour : (4 : U64).toNat = 4 := rfl
  rw [hfour]
  omega

/-- The words of a hart lie at distinct addresses. -/
theorem word_addr_inj (base : U64) (a b : U32) :
    base + 4 * (a / 32).setWidth 64 = base + 4 * (b / 32).setWidth 64 ↔ a / 32 = b / 32 := by
  constructor
  · intro h
    have hoff := congrArg BitVec.toNat ((BitVec.add_right_inj base).mp h)
    rw [toNat_wordOffset, toNat_wordOffset] at hoff
    apply BitVec.eq_of_toNat_eq
    rw [toNat_word, toNat_word]
    omega
  · intro h
    rw [h]

/-- The word that is stored has one bit. -/
theorem getLsbD_one_shiftLeft (a b : U32) :
    ((1 : U32) <<< (b % 32)).getLsbD (a % 32).toNat = true ↔ a % 32 = b % 32 := by
  have hone : ∀ i j : Fin 32, ((1 : U32) <<< (i : ℕ)).getLsbD j = true ↔ j = i := by decide
  have ha : a.toNat % 32 < 32 := Nat.mod_lt _ (by decide)
  have hb : b.toNat % 32 < 32 := Nat.mod_lt _ (by decide)
  have hkey := hone ⟨_, hb⟩ ⟨_, ha⟩
  rw [BitVec.shiftLeft_eq', ← BitVec.toNat_inj, toNat_bit, toNat_bit]
  simpa only [Fin.mk.injEq] using hkey

theorem eq_of_word_of_bit {a b : U32} (hw : a / 32 = b / 32) (hb : a % 32 = b % 32) : a = b := by
  rw [← BitVec.toNat_inj, toNat_word, toNat_word] at hw
  rw [← BitVec.toNat_inj, toNat_bit, toNat_bit] at hb
  apply BitVec.eq_of_toNat_eq
  omega

/-- **One call**: the sources of its word are all disabled but the one it is for; the others stay as
they were. -/
theorem enabled_apply (r : Regs) (hart b s : U32) :
    Enabled ((plicHartEnableIrq hart b).apply r) hart s ↔
      if s / 32 = b / 32 then s = b else Enabled r hart s := by
  unfold Enabled plicHartEnableIrq Access.apply
  by_cases hw : s / 32 = b / 32
  · have haddr := (word_addr_inj (plicHartEnable hart) s b).mpr hw
    simp only [if_pos haddr, if_pos hw, getLsbD_one_shiftLeft]
    constructor
    · exact eq_of_word_of_bit hw
    · rintro rfl
      rfl
  · have haddr := mt (word_addr_inj (plicHartEnable hart) s b).mp hw
    simp only [if_neg haddr, if_neg hw]

/-- **A sequence of calls**: a source is enabled just if it is the last one of its word. -/
theorem enabled_enableIrqs (hart : U32) (irqs : List U32) (s : U32) :
    Enabled (enableIrqs hart irqs fun _ => 0) hart s ↔
      irqs.reverse.find? (· / 32 = s / 32) = some s := by
  induction irqs using List.reverseRecOn with
  | nil => simp [Enabled, enableIrqs]
  | append_singleton irqs b ih =>
    have happend : enableIrqs hart (irqs ++ [b]) (fun _ => 0)
        = (plicHartEnableIrq hart b).apply (enableIrqs hart irqs fun _ => 0) := by
      rw [enableIrqs, List.foldl_append]
      rfl
    have hfind : (irqs ++ [b]).reverse.find? (· / 32 = s / 32)
        = if b / 32 = s / 32 then some b else irqs.reverse.find? (· / 32 = s / 32) := by
      rw [List.reverse_append, List.reverse_singleton, List.singleton_append, List.find?_cons]
      by_cases hw : b / 32 = s / 32
      · rw [if_pos hw, decide_eq_true hw]
      · rw [if_neg hw, decide_eq_false hw]
    rw [happend, enabled_apply, ih, hfind]
    by_cases hw : s / 32 = b / 32
    · rw [if_pos hw, if_pos hw.symm, Option.some.injEq, eq_comm]
    · rw [if_neg hw, if_neg (Ne.symm hw)]

/-- **The sources enabled are those that were passed** just if no two of them share a word. -/
theorem enable_irqs_iff (hart : U32) (irqs : List U32) :
    (∀ s, Enabled (enableIrqs hart irqs fun _ => 0) hart s ↔ s ∈ irqs) ↔
      ∀ a ∈ irqs, ∀ b ∈ irqs, a / 32 = b / 32 → a = b := by
  simp only [enabled_enableIrqs]
  constructor
  · intro h a ha b hb hw
    have hlast := (h a).mpr ha
    rw [hw, (h b).mpr hb, Option.some.injEq] at hlast
    exact hlast.symm
  · intro h s
    constructor
    · intro hlast
      exact List.mem_reverse.mp (List.mem_of_find?_eq_some hlast)
    · intro hs
      have hsome : (irqs.reverse.find? (· / 32 = s / 32)).isSome :=
        List.find?_isSome.mpr ⟨s, List.mem_reverse.mpr hs, decide_eq_true rfl⟩
      obtain ⟨x, hx⟩ := Option.isSome_iff_exists.mp hsome
      have hmem := List.mem_reverse.mp (List.mem_of_find?_eq_some hx)
      have hw : x / 32 = s / 32 := by simpa using List.find?_some hx
      rw [hx, h x hmem s hs hw]

/-- Enabling source 2 disables source 1. -/
theorem enable_irqs_not :
    ¬ ∀ (hart : U32) (irqs : List U32) (s : U32),
      Enabled (enableIrqs hart irqs fun _ => 0) hart s ↔ s ∈ irqs := by
  intro h
  have hone := (h 0 [1, 2] 1).mpr (by decide)
  exact absurd hone (by decide)

/-! ## 3. Contexts -/

/-- The source numbers of the PLIC. -/
def sources : ℕ := 1024

/-- The enable word of a source in a context, as the PLIC has it. -/
def contextEnable (c irq : ℕ) : ℕ := plicBase.toNat + 0x2000 + 0x80 * c + 4 * (irq / 32)

/-- The threshold of a context. -/
def contextThreshold (c : ℕ) : ℕ := plicBase.toNat + 0x200000 + 0x1000 * c

/-- The claim/complete register of a context. -/
def contextClaim (c : ℕ) : ℕ := contextThreshold c + 4

/-- The contexts of the PLIC: as many as have their enable words in front of the thresholds. -/
def contexts : ℕ := (0x200000 - 0x2000) / 0x80

/-- A register of a context. -/
def ContextReg (c a : ℕ) : Prop :=
  (∃ irq < sources, a = contextEnable c irq) ∨ a = contextThreshold c ∨ a = contextClaim c

/-- The S-mode context of a hart; the one in front of it is its M-mode context. -/
def sContext (hart : ℕ) : ℕ := 2 * hart + 1

/-- The accesses the driver makes for a hart. -/
inductive HartAccess (hart : U32) : Access → Prop
  | enable {irq : U32} : irq.toNat < sources → HartAccess hart (plicHartEnableIrq hart irq)
  | threshold (threshold : U32) : HartAccess hart (plicHartSetThreshold hart threshold)
  | claim : HartAccess hart (plicHartClaimIrq hart)
  | complete (irq : U32) : HartAccess hart (plicHartCompleteIrq hart irq)

/-- **What is expected of the addresses of a hart**: they are those of its S-mode context. -/
structure InContext (hart : U32) : Prop where
  enable : ∀ irq : U32, irq.toNat < sources →
    (plicHartEnableIrq hart irq).addr.toNat = contextEnable (sContext hart.toNat) irq.toNat
  threshold : ∀ t, (plicHartSetThreshold hart t).addr.toNat
    = contextThreshold (sContext hart.toNat)
  claim : (plicHartClaimIrq hart).addr.toNat = contextClaim (sContext hart.toNat)
  complete : ∀ irq, (plicHartCompleteIrq hart irq).addr.toNat
    = contextClaim (sContext hart.toNat)

/-- **What is expected of a machine** with the harts of a set: each uses its own S-mode context, no
two of them the same register, and none a register of an M-mode context. -/
structure ContextsOk (harts : Set U32) : Prop where
  own : ∀ h ∈ harts, InContext h
  apart : ∀ h ∈ harts, ∀ h' ∈ harts, h ≠ h' → ∀ x x', HartAccess h x → HartAccess h' x' →
    x.addr ≠ x'.addr
  mmode : ∀ h ∈ harts, ∀ c, 2 * c < contexts → ∀ x, HartAccess h x →
    ¬ ContextReg (2 * c) x.addr.toNat

theorem toNat_plicBase : plicBase.toNat = 0xffffffc00c000000 := rfl

/-- The stride of the thresholds, in the arithmetic of `u32`. -/
theorem toNat_plicHartThreshold (hart : U32) :
    (plicHartThreshold hart).toNat
      = plicBase.toNat + 0x201000 + hart.toNat * 0x1000 % 2 ^ 32 := by
  have hbase : plicThreshBase.toNat = 0xffffffc00c201000 := rfl
  have hstride : (0x1000 : U32).toNat = 0x1000 := rfl
  rw [plicHartThreshold, BitVec.toNat_add, BitVec.toNat_setWidth, BitVec.toNat_mul, hbase, hstride,
    toNat_plicBase]
  omega

theorem toNat_enable_zero (irq : U32) :
    (plicHartEnableIrq 0 irq).addr.toNat = plicBase.toNat + 0x2080 + 4 * (irq.toNat / 32) := by
  have hbase : (plicHartEnable 0).toNat = 0xffffffc00c002080 := rfl
  have hirq := irq.isLt
  rw [plicHartEnableIrq, Access.addr, BitVec.toNat_add, toNat_wordOffset, hbase, toNat_plicBase]
  omega

theorem inContext_zero : InContext 0 := by
  have hthreshold : (plicHartThreshold 0).toNat = contextThreshold (sContext 0) := rfl
  have hclaim : (plicHartClaim 0).toNat = contextClaim (sContext 0) := rfl
  constructor
  · intro irq _
    rw [toNat_enable_zero, contextEnable]
    rfl
  · exact fun _ => hthreshold
  · exact hclaim
  · exact fun _ => hclaim

/-- **A hart uses its own context just if it is hart 0**: the threshold of another is not where it
is looked for. -/
theorem inContext_iff (hart : U32) : InContext hart ↔ hart = 0 := by
  constructor
  · intro h
    have hthr : (plicHartThreshold hart).toNat = contextThreshold (sContext hart.toNat) :=
      h.threshold 0
    rw [toNat_plicHartThreshold, contextThreshold, sContext] at hthr
    apply BitVec.eq_of_toNat_eq
    have hzero : (0 : U32).toNat = 0 := rfl
    rw [hzero]
    omega
  · rintro rfl
    exact inContext_zero

/-- Hart 0 keeps clear of the M-mode contexts. -/
theorem mmode_zero {c : ℕ} (hc : 2 * c < contexts) {x : Access} (hx : HartAccess 0 x) :
    ¬ ContextReg (2 * c) x.addr.toNat := by
  have hmax : contexts = 16320 := rfl
  have hown : (∃ i < 32, x.addr.toNat = plicBase.toNat + 0x2080 + 4 * i) ∨
      x.addr.toNat = plicBase.toNat + 0x201000 ∨ x.addr.toNat = plicBase.toNat + 0x201004 := by
    cases hx with
    | @enable irq hirq =>
      have hlt : irq.toNat < 1024 := hirq
      exact Or.inl ⟨irq.toNat / 32, by omega, toNat_enable_zero irq⟩
    | threshold t => exact Or.inr (Or.inl rfl)
    | claim => exact Or.inr (Or.inr rfl)
    | complete irq => exact Or.inr (Or.inr rfl)
  rintro (⟨irq, hirq, h⟩ | h | h)
  · have hlt : irq < 1024 := hirq
    rw [contextEnable] at h
    rcases hown with ⟨i, hi, ho⟩ | ho | ho <;> omega
  · rw [contextThreshold] at h
    rcases hown with ⟨i, hi, ho⟩ | ho | ho <;> omega
  · rw [contextClaim, contextThreshold] at h
    rcases hown with ⟨i, hi, ho⟩ | ho | ho <;> omega

/-- **The addresses are right just on a machine without a second hart**: hart 0 alone uses its own
context, and it meets no other. -/
theorem contexts_iff (hart : U32) (harts : Set U32) :
    (InContext hart ↔ hart = 0) ∧ (ContextsOk harts ↔ ∀ h ∈ harts, h = 0) := by
  refine ⟨inContext_iff hart, ?_⟩
  constructor
  · exact fun h hart hmem => (inContext_iff hart).mp (h.own hart hmem)
  · intro hzero
    constructor
    · exact fun h hmem => (inContext_iff h).mpr (hzero h hmem)
    · intro h hmem h' hmem' hne
      exact absurd ((hzero h hmem).trans (hzero h' hmem').symm) hne
    · intro h hmem c hc x hx
      rw [hzero h hmem] at hx
      exact mmode_zero hc hx

/-- The threshold the driver writes for hart 1 is that of the hart's M-mode context. -/
theorem threshold_one :
    (plicHartSetThreshold 1 0).addr.toNat = contextThreshold (2 * 1) := rfl

/-- Hart 1 does not use its own context, but its M-mode context's registers. -/
theorem contexts_not :
    ¬ ContextsOk Set.univ ∧ ContextReg (2 * 1) (plicHartSetThreshold 1 0).addr.toNat := by
  have hreg : ContextReg (2 * 1) (plicHartSetThreshold 1 0).addr.toNat :=
    Or.inr (Or.inl threshold_one)
  constructor
  · intro h
    exact h.mmode 1 trivial 1 (by decide) _ (.threshold 0) hreg
  · exact hreg

end RvKernel.Plic
