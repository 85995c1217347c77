/-
# From reset to `kmain` (`boot/init.S`, `entry.S`)

`init` runs in M-mode, where addresses are physical.  It sets up the control registers, prints a
message, puts the first page table into `satp` and returns to `kstart`, in S-mode and at an address
of the higher half.  `kstart` clears `.bss` through that table, saves the registers that it was
started with, and jumps to `kmain`.

Every instruction is fetched, and every access made, through the translation and the protection of
physical memory that the instructions before have set up.  None of them faults, and `kmain` starts
in the state that `vm_init` relies on (`boot_reaches_kmain`, `reset_to_paging`).  One thing is lost:
`linker.ld` has `_kernel_dtb` and `_hartid` at the same address, so the address of the device tree
is overwritten by the number of the hart.

Blocks of code are at addresses, and the instructions in them have numbers.  No interrupt comes:
none is enabled.
-/
import RvKernel.Boot.Switch
import RvKernel.Text.Memory
import RvKernel.Text.Str

namespace RvKernel.Entry

open Rv64 Boot

/-! ## 1. The code -/

def gp : Reg := 3
def sp : Reg := 2
def t0 : Reg := 5
def t1 : Reg := 6
def t2 : Reg := 7
def a0 : Reg := 10
def a1 : Reg := 11
def t5 : Reg := 30
def t6 : Reg := 31

def satp : Csr := 0x180
def mstatus : Csr := 0x300
def medeleg : Csr := 0x302
def mideleg : Csr := 0x303
def mcounteren : Csr := 0x306
def menvcfg : Csr := 0x30a
def mepc : Csr := 0x341
def pmpcfg0 : Csr := 0x3a0
def pmpaddr0 : Csr := 0x3b0
def mhartid : Csr := 0xf14

/-- The symbols: those of `.init` are physical addresses, the others virtual ones. -/
structure Image where
  init : U64
  initPtb : U64
  initMsg : U64
  kstart : U64
  kmain : U64
  globalPointer : U64
  stackTop : U64
  bssStart : U64
  bssEnd : U64
  kernelDtb : U64
  hartid : U64

/-- The instructions; all the offsets are 0. -/
inductive Instr where
  /-- `li`, and `la` with the address of the symbol -/
  | li (rd : Reg) (v : U64)
  | lui (rd : Reg) (imm : BitVec 20)
  | addi (rd rs : Reg) (imm : BitVec 12)
  | add (rd rs1 rs2 : Reg)
  | srli (rd rs : Reg) (n : ℕ)
  | csrr (rd : Reg) (csr : Csr)
  | csrw (csr : Csr) (rs : Reg)
  | csrs (csr : Csr) (rs : Reg)
  | csrc (csr : Csr) (rs : Reg)
  | sfence
  /-- `lb rd, 0(rs)` -/
  | lb (rd rs : Reg)
  /-- `sb rs2, 0(rs1)` -/
  | sb (rs2 rs1 : Reg)
  | sw (rs2 rs1 : Reg)
  | sd (rs2 rs1 : Reg)
  | bnez (rs : Reg) (label : ℕ)
  | bltu (rs1 rs2 : Reg) (label : ℕ)
  | j (addr : U64)
  | mret

/-- `%hi(x)`. -/
def hi (x : U64) : BitVec 20 := ((x + 0x800) >>> 12).setWidth 20

/-- `%lo(x)`. -/
def lo (x : U64) : BitVec 12 := x.setWidth 12

/-- `_init_msg`, without the 0. -/
def initMsg : List U8 :=
  Text.ascii "init: relocating to 0xffffffff80000000 and jumping to S-mode\n"

/-- `init`, up to the loop. -/
def initSetup (g : Image) : List Instr := [
  .csrw satp 0,
  .li t0 0x1800, .csrc mstatus t0, .li t0 0x800, .csrs mstatus t0,
  .li t0 (-1), .csrw medeleg t0, .csrw mideleg t0,
  .li t0 (1 <<< 63), .csrs menvcfg t0, .li t0 0x2, .csrs mcounteren t0,
  .li t0 0x3fffffffffffffff, .csrw pmpaddr0 t0, .li t0 0xf, .csrw pmpcfg0 t0,
  .lui t0 (hi g.kstart), .addi t0 t0 (lo g.kstart), .csrw mepc t0,
  .li t0 0x10000000, .li t1 g.initMsg]

/-- `init_print_msg_loop`. -/
def initPrintMsgLoop : List Instr := [.lb t2 t1, .sb t2 t0, .addi t1 t1 1, .bnez t2 21]

/-- `init`, behind the loop. -/
def initPgtable (g : Image) : List Instr := [
  .li t0 g.initPtb, .srli t0 t0 12, .li t1 0x8000000000000000, .add t0 t0 t1,
  .csrw satp t0, .sfence, .csrr a0 mhartid]

/-- `init`. -/
def initCode (g : Image) : List Instr :=
  initSetup g ++ (initPrintMsgLoop ++ (initPgtable g ++ [.mret]))

/-- `kstart`, with the loop `bss_clear`. -/
def kstartCode (g : Image) : List Instr := [
  .li gp g.globalPointer, .li sp g.stackTop, .li t5 g.bssStart, .li t6 g.bssEnd,
  .sd 0 t5, .addi t5 t5 8, .bltu t5 t6 4,
  .li t0 g.kernelDtb, .sw a1 t0, .li t0 g.hartid, .sw a0 t0, .j g.kmain]

/-! ## 2. The machine -/

inductive Priv where
  | user
  | supervisor
  | machine
  deriving DecidableEq

def Priv.level : Priv → ℕ
  | .user => 0
  | .supervisor => 1
  | .machine => 3

structure State where
  cpu : Cpu
  priv : Priv
  /-- the address of the block of code -/
  block : U64
  /-- the number of the instruction -/
  index : ℕ
  /-- what was written to the console -/
  uart : List U8

/-- Physical memory protection: what its first entry allows, if it is one of the kind TOR.  Without
one nothing is allowed. -/
def pmpAllows (c : Cpu) (perm pa : U64) : Bool :=
  c.csr pmpcfg0 &&& 0x18 == 0x8 && decide (pa.toNat < (c.csr pmpaddr0).toNat * 4) &&
    (c.csr pmpcfg0 <<< 1) &&& perm == perm

/-- Where an access that needs a permission goes.  The pages are not for U-mode. -/
def State.translate (s : State) (perm va : U64) : Option U64 :=
  match s.priv with
  | .machine => some va
  | .supervisor =>
    match Boot.translate (s.cpu.csr satp) (load s.cpu.mem) va with
    | some μ =>
      if μ.perm &&& perm = perm ∧ pmpAllows s.cpu perm μ.pa = true then some μ.pa else none
    | none => none
  | .user => none

/-- The page of the console.  It does not answer but to bytes that are to be sent. -/
def isSerial (pa : U64) : Bool := decide (pa.toNat / 4096 = 0x10000)

/-- The memory after a word of four bytes was stored. -/
def store32 (m : Mem) (a v : U64) : Mem :=
  fun x => if (x - a).toNat < 4 then byteOf v (x - a).toNat else m x

/-- On to the next instruction. -/
def State.next (s : State) (c : Cpu) : State := { s with cpu := c, index := s.index + 1 }

/-- A register that the mode may use. -/
def State.mayUse (s : State) (csr : Csr) : Bool :=
  decide (csr.toNat / 256 % 4 ≤ s.priv.level)

/-- An instruction that makes no access and goes on to the next one. -/
def alu : Instr → Cpu → Cpu
  | .li rd v, c => c.set rd v
  | .lui rd imm, c => c.set rd ((imm.setWidth 32 <<< 12).signExtend 64)
  | .addi rd rs imm, c => c.set rd (c.get rs + imm.signExtend 64)
  | .add rd rs1 rs2, c => c.set rd (c.get rs1 + c.get rs2)
  | .srli rd rs n, c => c.set rd (c.get rs >>> n)
  | .csrr rd csr, c => c.set rd (c.csr csr)
  | .csrw csr rs, c => c.setCsr csr (c.get rs)
  | .csrs csr rs, c => c.setCsr csr (c.csr csr ||| c.get rs)
  | .csrc csr rs, c => c.setCsr csr (c.csr csr &&& ~~~c.get rs)
  | _, c => c

/-- The mode that `mret` returns to. -/
def mpp (v : U64) : Option Priv :=
  match (v.extractLsb' 11 2).toNat with
  | 0 => some .user
  | 1 => some .supervisor
  | 3 => some .machine
  | _ => none

/-- `mstatus` after `mret` to a mode below: `MIE` is what `MPIE` was, `MPIE` is set, `MPP` is
U-mode, and `MPRV` is clear. -/
def mretStatus (v : U64) : U64 :=
  (v &&& ~~~(0x21888 : U64)) ||| 0x80 ||| (v >>> 4) &&& 0x8

/-- An instruction; `none` is a fault. -/
def exec (s : State) : Instr → Option State
  | .csrr rd csr => if s.mayUse csr then some (s.next (alu (.csrr rd csr) s.cpu)) else none
  | .csrw csr rs => if s.mayUse csr then some (s.next (alu (.csrw csr rs) s.cpu)) else none
  | .csrs csr rs => if s.mayUse csr then some (s.next (alu (.csrs csr rs) s.cpu)) else none
  | .csrc csr rs => if s.mayUse csr then some (s.next (alu (.csrc csr rs) s.cpu)) else none
  | .lb rd rs =>
    match s.translate Mm.PTE.read (s.cpu.get rs) with
    | some pa =>
      if isSerial pa then none else some (s.next (s.cpu.set rd ((s.cpu.mem pa).signExtend 64)))
    | none => none
  | .sb rs2 rs1 =>
    match s.translate Mm.PTE.write (s.cpu.get rs1) with
    | some pa =>
      let v := (s.cpu.get rs2).setWidth 8
      if pa = 0x10000000 then some { s.next s.cpu with uart := s.uart ++ [v] }
      else if isSerial pa then none
      else some (s.next { s.cpu with mem := Function.update s.cpu.mem pa v })
    | none => none
  | .sw rs2 rs1 =>
    match s.translate Mm.PTE.write (s.cpu.get rs1) with
    | some pa =>
      if isSerial pa then none
      else some (s.next { s.cpu with mem := store32 s.cpu.mem pa (s.cpu.get rs2) })
    | none => none
  | .sd rs2 rs1 =>
    match s.translate Mm.PTE.write (s.cpu.get rs1) with
    | some pa =>
      if isSerial pa then none
      else some (s.next { s.cpu with mem := store s.cpu.mem pa (s.cpu.get rs2) })
    | none => none
  | .bnez rs label => some { s with index := if s.cpu.get rs = 0 then s.index + 1 else label }
  | .bltu rs1 rs2 label =>
    some { s with index := if s.cpu.get rs1 < s.cpu.get rs2 then label else s.index + 1 }
  | .j addr => some { s with block := addr, index := 0 }
  | .mret =>
    match s.priv, mpp (s.cpu.csr mstatus) with
    | .machine, some priv => some { s with
        cpu := s.cpu.setCsr mstatus (mretStatus (s.cpu.csr mstatus))
        priv, block := s.cpu.csr mepc, index := 0 }
    | _, _ => none
  | i => some (s.next (alu i s.cpu))

/-- The code in memory, at physical addresses. -/
def Image.code (g : Image) (pa : U64) : List Instr :=
  if pa = g.init then initCode g
  else if pa = g.kstart - Mm.kernelPhysOffset then kstartCode g
  else []

def step (g : Image) (s : State) : Option State :=
  match s.translate Mm.PTE.exec s.block with
  | some pa =>
    match (g.code pa)[s.index]? with
    | some i => exec s i
    | none => none
  | none => none

/-- The machine comes from the first state to the second. -/
abbrev Reaches (g : Image) : State → State → Prop :=
  Relation.ReflTransGen fun s t => step g s = some t

/-- The state at the entry point. -/
def reset (g : Image) (c : Cpu) : State := ⟨c, .machine, g.init, 0, []⟩

/-! ## 3. `init` -/

/-- `lui` and `addi` make the address, as it is in the last 2 GiB. -/
theorem lui_addi {x : U64} (hlow : 0xffffffff80000000 ≤ x.toNat)
    (hhigh : x.toNat < 0xffffffffc0000000) :
    ((hi x).setWidth 32 <<< 12).signExtend 64 + (lo x).signExtend 64 = x := by
  have hlt := x.isLt
  have h800 : (0x800 : U64).toNat = 2048 := rfl
  have hhi : (hi x).toNat = (x.toNat + 2048) / 4096 % 2 ^ 20 := by
    rw [hi, BitVec.toNat_setWidth, BitVec.toNat_ushiftRight, BitVec.toNat_add, h800,
      Nat.shiftRight_eq_div_pow]
    omega
  have hlo : (lo x).toNat = x.toNat % 4096 := by rw [lo, BitVec.toNat_setWidth]
  have hup : ((hi x).setWidth 32 <<< 12).toNat = (x.toNat + 2048) / 4096 % 2 ^ 20 * 4096 := by
    rw [BitVec.toNat_shiftLeft, BitVec.toNat_setWidth, hhi, Nat.shiftLeft_eq]
    omega
  apply BitVec.eq_of_toNat_eq
  rw [BitVec.toNat_add, BitVec.toNat_signExtend, BitVec.toNat_signExtend, BitVec.toNat_setWidth,
    BitVec.toNat_setWidth, BitVec.msb_eq_decide, BitVec.msb_eq_decide, hup, hlo]
  simp only [decide_eq_true_eq]
  split <;> split <;> omega

/-- What `init` does to `mstatus` makes S-mode the mode to return to. -/
theorem mpp_supervisor (v : U64) : mpp (v &&& ~~~0x1800 ||| 0x800) = some .supervisor := by
  have hbits : (v &&& ~~~0x1800 ||| 0x800).extractLsb' 11 2 = 1 := by
    apply BitVec.eq_of_getLsbD_eq
    intro i hi
    interval_cases i
    · simp
    · simp
  rw [mpp, hbits]
  rfl

/-- Instructions that make no access and go on to the next one. -/
def Instr.line : Instr → Bool
  | .lb _ _ | .sb _ _ | .sw _ _ | .sd _ _ | .bnez _ _ | .bltu _ _ _ | .j _ | .mret => false
  | _ => true

/-- A straight line of them. -/
def runLine (is : List Instr) (c : Cpu) : Cpu := is.foldl (fun c i => alu i c) c

section Machine

variable {g : Image} {s : State} (hpriv : s.priv = .machine) (hblock : s.block = g.init)

include hpriv in
/-- In M-mode every control register may be used. -/
theorem exec_line {i : Instr} (h : i.line = true) : exec s i = some (s.next (alu i s.cpu)) := by
  have huse : ∀ csr, s.mayUse csr = true := by
    intro csr
    rw [State.mayUse, hpriv, decide_eq_true_eq]
    exact Nat.le_of_lt_succ (Nat.mod_lt _ (by decide))
  cases i with
  | csrr rd csr => exact if_pos (huse csr)
  | csrw csr rs => exact if_pos (huse csr)
  | csrs csr rs => exact if_pos (huse csr)
  | csrc csr rs => exact if_pos (huse csr)
  | li rd v => rfl
  | lui rd imm => rfl
  | addi rd rs imm => rfl
  | add rd rs1 rs2 => rfl
  | srli rd rs n => rfl
  | sfence => rfl
  | _ => cases h

include hpriv in
theorem translate_machine (perm va : U64) : s.translate perm va = some va := by
  rw [State.translate, hpriv]

include hpriv hblock in
theorem step_init {i : Instr} (hi : (initCode g)[s.index]? = some i) : step g s = exec s i := by
  have hcode : g.code g.init = initCode g := if_pos rfl
  rw [step, translate_machine hpriv, hblock]
  simp only [hcode, hi]

include hpriv hblock in
/-- **A straight line, run.** -/
theorem run_line {is l : List Instr} (hcode : (initCode g).drop s.index = is ++ l)
    (hline : is.all Instr.line = true) :
    Reaches g s { s with cpu := runLine is s.cpu, index := s.index + is.length } := by
  induction is generalizing s with
  | nil => exact .refl
  | cons i is ih =>
    obtain ⟨hi, his⟩ := Bool.and_eq_true_iff.mp (List.all_cons.symm.trans hline)
    have hget : (initCode g)[s.index]? = some i := by
      rw [← Nat.add_zero s.index, ← List.getElem?_drop, hcode]
      rfl
    have hnext : (initCode g).drop (s.index + 1) = is ++ l := by
      rw [← List.drop_drop, hcode]
      rfl
    have hstep : step g s = some (s.next (alu i s.cpu)) :=
      (step_init hpriv hblock hget).trans (exec_line hpriv hi)
    have hrun := ih (s := s.next (alu i s.cpu)) hpriv hblock hnext his
    have hlen : s.index + 1 + is.length = s.index + (i :: is).length := by
      rw [List.length_cons]
      omega
    refine .head hstep ?_
    rw [← hlen]
    exact hrun

theorem signExtend_byte : ∀ v : U8,
    (v.signExtend 64).setWidth 8 = v ∧ (v.signExtend 64 = (0 : U64) ↔ v = 0) := by
  decide +kernel

include hpriv hblock in
/-- One turn of the loop sends a byte, and is the last one if that is 0. -/
theorem run_turn (hindex : s.index = 21) (ht0 : s.cpu.get t0 = 0x10000000) {v : U8}
    (hv : s.cpu.mem (s.cpu.get t1) = v) (hmem : isSerial (s.cpu.get t1) = false) :
    Reaches g s { s with
      cpu := (s.cpu.set t2 (v.signExtend 64)).set t1 (s.cpu.get t1 + 1)
      index := if v = 0 then 25 else 21
      uart := s.uart ++ [v] } := by
  obtain ⟨cpu, _, _, _, uart⟩ := s
  obtain rfl := hpriv
  obtain rfl := hblock
  obtain rfl := hindex
  obtain ⟨hbyte, hzero⟩ := signExtend_byte v
  have hread : cpu.mem (cpu.get t1) = v := hv
  have hlb : step g ⟨cpu, .machine, g.init, 21, uart⟩
      = some ⟨cpu.set t2 (v.signExtend 64), .machine, g.init, 22, uart⟩ := by
    rw [step_init (i := .lb t2 t1) rfl rfl rfl]
    simp only [exec, State.translate, hmem, hread, Bool.false_eq_true, if_false]
    rfl
  have hsb : step g ⟨cpu.set t2 (v.signExtend 64), .machine, g.init, 22, uart⟩
      = some ⟨cpu.set t2 (v.signExtend 64), .machine, g.init, 23, uart ++ [v]⟩ := by
    have hget : (cpu.set t2 (v.signExtend 64)).get t0 = 0x10000000 := ht0
    have hval : (cpu.set t2 (v.signExtend 64)).get t2 = v.signExtend 64 := rfl
    rw [step_init (i := .sb t2 t0) rfl rfl rfl]
    simp only [exec, State.translate, hget, hval, hbyte, if_true]
    rfl
  have haddi : step g ⟨cpu.set t2 (v.signExtend 64), .machine, g.init, 23, uart ++ [v]⟩
      = some ⟨(cpu.set t2 (v.signExtend 64)).set t1 (cpu.get t1 + 1), .machine, g.init, 24,
        uart ++ [v]⟩ :=
    step_init (i := .addi t1 t1 1) rfl rfl rfl
  have hbnez : step g ⟨(cpu.set t2 (v.signExtend 64)).set t1 (cpu.get t1 + 1), .machine, g.init, 24,
      uart ++ [v]⟩ = some ⟨(cpu.set t2 (v.signExtend 64)).set t1 (cpu.get t1 + 1), .machine, g.init,
        if v = 0 then 25 else 21, uart ++ [v]⟩ := by
    have hval : ((cpu.set t2 (v.signExtend 64)).set t1 (cpu.get t1 + 1)).get t2
        = v.signExtend 64 := rfl
    rw [step_init (i := .bnez t2 21) rfl rfl rfl]
    simp only [exec, hval, hzero]
  exact .head hlb (.head hsb (.head haddi (.single hbnez)))

end Machine

/-- **The message is sent**, with the 0 behind it. -/
theorem run_print {g : Image} {m : List U8} (hmsg : ∀ v ∈ m, v ≠ 0) {s : State}
    (hpriv : s.priv = .machine) (hblock : s.block = g.init) (hindex : s.index = 21)
    (ht0 : s.cpu.get t0 = 0x10000000)
    (hmem : ∀ i ≤ m.length, s.cpu.mem (s.cpu.get t1 + BitVec.ofNat 64 i) = (m ++ [0]).getD i 0)
    (hram : ∀ i ≤ m.length, isSerial (s.cpu.get t1 + BitVec.ofNat 64 i) = false) :
    ∃ c, Reaches g s { s with cpu := c, index := 25, uart := s.uart ++ (m ++ [0]) } ∧
      c.csr = s.cpu.csr ∧ c.mem = s.cpu.mem := by
  induction m generalizing s with
  | nil =>
    have h0 : s.cpu.get t1 + BitVec.ofNat 64 0 = s.cpu.get t1 := BitVec.add_zero _
    have hv := hmem 0 le_rfl
    have hr := hram 0 le_rfl
    rw [h0] at hv hr
    exact ⟨_, run_turn hpriv hblock hindex ht0 hv hr, rfl, rfl⟩
  | cons v m ih =>
    have h0 : s.cpu.get t1 + BitVec.ofNat 64 0 = s.cpu.get t1 := BitVec.add_zero _
    have hv := hmem 0 (Nat.zero_le _)
    have hr := hram 0 (Nat.zero_le _)
    rw [h0] at hv hr
    have hturn := run_turn hpriv hblock hindex ht0 hv hr
    have hne : v ≠ 0 := hmsg v List.mem_cons_self
    have hnext : ∀ i, s.cpu.get t1 + 1 + BitVec.ofNat 64 i
        = s.cpu.get t1 + BitVec.ofNat 64 (i + 1) := Memory.succ_offset _
    obtain ⟨c, hrun, hcsr, hcmem⟩ := ih (fun u hu => hmsg u (List.mem_cons_of_mem v hu)) (s := {
        s with
        cpu := (s.cpu.set t2 (v.signExtend 64)).set t1 (s.cpu.get t1 + 1)
        index := 21
        uart := s.uart ++ [v] }) hpriv hblock rfl ht0
      (fun i hi => by
        have hval := hmem (i + 1) (Nat.succ_le_succ hi)
        rw [← hnext] at hval
        exact hval)
      (fun i hi => by
        have hval := hram (i + 1) (Nat.succ_le_succ hi)
        rw [← hnext] at hval
        exact hval)
    refine ⟨c, ?_, hcsr, hcmem⟩
    have hhead : (v :: m ++ [0]).getD 0 0 = v := rfl
    rw [hhead, if_neg hne] at hturn
    have htrans := hturn.trans hrun
    simp only [List.append_assoc, List.singleton_append] at htrans
    exact htrans

/-- **Where `linker.ld` puts things.**  `.init` is in RAM and in front of `.bss`, at its end `.bss`
has the stack and a page, and the variables of `entry.S` are all where the stack begins. -/
structure Placed (g : Image) : Prop where
  ptb_aligned : Sv39.Aligned g.initPtb
  ptb_bss : g.initPtb.toNat + 4096 ≤ (g.bssStart - Mm.kernelPhysOffset).toNat
  msg_low : 0x80000000 ≤ g.initMsg.toNat
  msg_high : g.initMsg.toNat + 64 ≤ 0xc0000000
  kstart_low : 0xffffffff80000000 ≤ g.kstart.toNat
  kstart_high : g.kstart.toNat < 0xffffffffc0000000
  kstart_init : g.kstart - Mm.kernelPhysOffset ≠ g.init
  bss_aligned : Sv39.Aligned g.bssStart
  bss_low : 0xffffffff80000000 ≤ g.bssStart.toNat
  bss_hartid : g.bssStart.toNat ≤ g.hartid.toNat
  stack : g.stackTop.toNat = g.hartid.toNat + 0x8000
  bss_end : g.bssEnd.toNat = g.stackTop.toNat + 0x1000
  bss_high : g.bssEnd.toNat + 8 ≤ 0xffffffffc0000000
  pointer : g.globalPointer = g.hartid
  dtb : g.kernelDtb = g.hartid

/-- What `init` leaves to `kstart`. -/
structure Prepared (g : Image) (c c' : Cpu) : Prop where
  mem : c'.mem = c.mem
  satp : c'.csr satp = initSatp g.initPtb
  pmpcfg0 : c'.csr pmpcfg0 = 0xf
  pmpaddr0 : c'.csr pmpaddr0 = 0x3fffffffffffffff
  /-- traps go to S-mode -/
  medeleg : c'.csr medeleg = -1
  mideleg : c'.csr mideleg = -1
  /-- S-mode may use `stimecmp` and `time` -/
  menvcfg : c'.csr menvcfg &&& 1 <<< 63 = 1 <<< 63
  mcounteren : c'.csr mcounteren &&& 0x2 = 0x2
  hartid : c'.get a0 = c.csr mhartid

theorem or_and_mask (v mask : U64) : (v ||| mask) &&& mask = mask := by
  apply BitVec.eq_of_getLsbD_eq
  intro i _
  rw [BitVec.getLsbD_and, BitVec.getLsbD_or]
  cases v.getLsbD i <;> simp

/-- `init`, from the reset to the first instruction of `kstart`. -/
theorem run_init {g : Image} (P : Placed g) {c : Cpu}
    (hmsg : ∀ i ≤ initMsg.length, c.mem (g.initMsg + BitVec.ofNat 64 i)
      = (initMsg ++ [0]).getD i 0) :
    ∃ c', Reaches g (reset g c) ⟨c', .supervisor, g.kstart, 0, initMsg ++ [0]⟩ ∧
      Prepared g c c' := by
  have hlen : initMsg.length = 61 := by decide
  have hsetup : Reaches g (reset g c) ⟨runLine (initSetup g) c, .machine, g.init, 21, []⟩ :=
    run_line (s := reset g c) (l := initPrintMsgLoop ++ (initPgtable g ++ [.mret])) rfl rfl rfl
      rfl
  have hram : ∀ i ≤ initMsg.length, isSerial (g.initMsg + BitVec.ofNat 64 i) = false := by
    intro i hi
    have hlow := P.msg_low
    have hhigh := P.msg_high
    rw [isSerial, decide_eq_false_iff_not, BitVec.toNat_add, BitVec.toNat_ofNat]
    omega
  obtain ⟨c₁, hprint, hcsr, hmem⟩ := run_print (g := g) (m := initMsg) (by decide)
    (s := ⟨runLine (initSetup g) c, .machine, g.init, 21, []⟩) rfl rfl rfl rfl hmsg hram
  have hpgtable : Reaches g ⟨c₁, .machine, g.init, 25, initMsg ++ [0]⟩
      ⟨runLine (initPgtable g) c₁, .machine, g.init, 32, initMsg ++ [0]⟩ :=
    run_line (s := ⟨c₁, .machine, g.init, 25, initMsg ++ [0]⟩) (l := [.mret]) rfl rfl rfl rfl
  -- the control registers that `mret` looks at
  have hkeep : ∀ csr, c₁.csr csr = (runLine (initSetup g) c).csr csr := fun csr =>
    congrFun hcsr csr
  have hmpp : mpp ((runLine (initPgtable g) c₁).csr mstatus) = some .supervisor := by
    have hstatus : (runLine (initPgtable g) c₁).csr mstatus
        = c.csr mstatus &&& ~~~0x1800 ||| 0x800 := hkeep mstatus
    rw [hstatus]
    exact mpp_supervisor _
  have hmepc : (runLine (initPgtable g) c₁).csr mepc = g.kstart :=
    (hkeep mepc).trans (lui_addi P.kstart_low P.kstart_high)
  have hmret : step g ⟨runLine (initPgtable g) c₁, .machine, g.init, 32, initMsg ++ [0]⟩
      = some ⟨(runLine (initPgtable g) c₁).setCsr mstatus
          (mretStatus ((runLine (initPgtable g) c₁).csr mstatus)),
        .supervisor, g.kstart, 0, initMsg ++ [0]⟩ := by
    rw [step_init (i := .mret) rfl rfl rfl]
    simp only [exec, hmpp, hmepc]
  refine ⟨_, ((hsetup.trans hprint).trans hpgtable).tail hmret, ?_⟩
  exact {
    mem := hmem
    satp := rfl
    pmpcfg0 := hkeep pmpcfg0
    pmpaddr0 := hkeep pmpaddr0
    medeleg := hkeep medeleg
    mideleg := hkeep mideleg
    menvcfg := (congrArg (· &&& _) (hkeep menvcfg)).trans (or_and_mask _ _)
    mcounteren := (congrArg (· &&& _) (hkeep mcounteren)).trans (or_and_mask _ _)
    hartid := hkeep mhartid }

/-! ## 4. `kstart` -/

/-- The state of `kstart`: the translation and the protection are on, and the first table is in
memory. -/
structure Running (g : Image) (s : State) : Prop where
  priv : s.priv = .supervisor
  block : s.block = g.kstart
  satp : s.cpu.csr satp = initSatp g.initPtb
  pmpcfg0 : s.cpu.csr pmpcfg0 = 0xf
  pmpaddr0 : s.cpu.csr pmpaddr0 = 0x3fffffffffffffff
  boots : Boots g.initPtb (load s.cpu.mem)

section Kstart

variable {g : Image} (P : Placed g) {s : State}

/-- The physical address of an address of the image. -/
theorem toNat_physical {a : U64} (hlow : 0xffffffff80000000 ≤ a.toNat)
    (hhigh : a.toNat < 0xffffffffc0000000) :
    (a - Mm.kernelPhysOffset).toNat = a.toNat - 0xffffffff00000000 := by
  have hoff : Mm.kernelPhysOffset.toNat = 0xffffffff00000000 := by decide
  rw [BitVec.toNat_sub, hoff]
  omega

include P

theorem toNat_initPtb_lt : g.initPtb.toNat < 2 ^ 56 := by
  have hptb := P.ptb_bss
  have hlow := P.bss_low
  have hhart := P.bss_hartid
  have hstack := P.stack
  have hend := P.bss_end
  have hhigh := P.bss_high
  rw [toNat_physical hlow (by omega)] at hptb
  omega

/-- **The image is there**, at its addresses in the higher half. -/
theorem Running.translate (h : Running g s) {a : U64} (hlow : 0xffffffff80000000 ≤ a.toNat)
    (hhigh : a.toNat < 0xffffffffc0000000) {perm : U64}
    (hperm : perm = Mm.PTE.write ∨ perm = Mm.PTE.exec) :
    s.translate perm a = some (a - Mm.kernelPhysOffset) := by
  have hwalk : Boot.translate (initSatp g.initPtb) (load s.cpu.mem) a
      = some ⟨a - Mm.kernelPhysOffset, Mm.directPerm⟩ := by
    rw [translate_initSatp P.ptb_aligned (toNat_initPtb_lt P), boot_walk h.boots,
      bootMapping_image hlow hhigh]
  have hpage : Mm.directPerm &&& perm = perm := by
    rcases hperm with rfl | rfl <;> decide
  have hpmp : pmpAllows s.cpu perm (a - Mm.kernelPhysOffset) = true := by
    have htop : (0x3fffffffffffffff : U64).toNat = 0x3fffffffffffffff := by decide
    have hpa := toNat_physical hlow hhigh
    rw [pmpAllows, h.pmpcfg0, h.pmpaddr0, htop, decide_eq_true (by omega)]
    rcases hperm with rfl | rfl <;> decide
  rw [State.translate, h.priv, h.satp, hwalk]
  exact if_pos ⟨hpage, hpmp⟩

theorem step_kstart (h : Running g s) {i : Instr} (hi : (kstartCode g)[s.index]? = some i) :
    step g s = exec s i := by
  have hcode : g.code (g.kstart - Mm.kernelPhysOffset) = kstartCode g := by
    rw [Image.code, if_neg P.kstart_init, if_pos rfl]
  rw [step, h.block, h.translate P P.kstart_low P.kstart_high (Or.inr rfl)]
  simp only [hcode, hi]

/-- Code that leaves the control registers and the memory in front of `.bss` alone. -/
theorem Running.frame (h : Running g s) {c : Cpu} (hcsr : c.csr = s.cpu.csr)
    (hmem : ∀ x : U64, x.toNat < (g.bssStart - Mm.kernelPhysOffset).toNat → c.mem x = s.cpu.mem x)
    (index : ℕ) : Running g { s with cpu := c, index := index } := by
  refine ⟨h.priv, h.block, ?_, ?_, ?_, fun i hi => ?_⟩
  · exact (congrFun hcsr _).trans h.satp
  · exact (congrFun hcsr _).trans h.pmpcfg0
  · exact (congrFun hcsr _).trans h.pmpaddr0
  · rw [← h.boots i hi]
    apply joinBytes_congr
    intro j hj
    refine hmem _ ?_
    have hslot := Sv39.toNat_slot P.ptb_aligned hi
    have hptb := toNat_initPtb_lt P
    have hbss := P.ptb_bss
    rw [BitVec.toNat_add, BitVec.toNat_ofNat, hslot]
    omega

/-- The address of a symbol. -/
theorem run_li (h : Running g s) {r : Reg} {v : U64}
    (hi : (kstartCode g)[s.index]? = some (.li r v)) :
    step g s = some (s.next (s.cpu.set r v)) ∧ Running g (s.next (s.cpu.set r v)) :=
  ⟨step_kstart P h hi, h.frame P (c := s.cpu.set r v) rfl (fun _ _ => rfl) (s.index + 1)⟩

/-- One turn of `bss_clear` clears a word, and is the last one if there are no more. -/
theorem run_clearWord (h : Running g s) (hindex : s.index = 4) (ht6 : s.cpu.get t6 = g.bssEnd)
    (hstart : g.bssStart.toNat ≤ (s.cpu.get t5).toNat)
    (hend : (s.cpu.get t5).toNat < g.bssEnd.toNat) :
    ∃ c, Reaches g s { s with
        cpu := c, index := if (s.cpu.get t5).toNat + 8 < g.bssEnd.toNat then 4 else 7 } ∧
      (∀ index, Running g { s with cpu := c, index := index }) ∧ c.csr = s.cpu.csr ∧
      c.mem = store s.cpu.mem (s.cpu.get t5 - Mm.kernelPhysOffset) 0 ∧
      c.get t5 = s.cpu.get t5 + 8 ∧ ∀ r, r ≠ t5 → c.get r = s.cpu.get r := by
  obtain ⟨cpu, priv, block, _, uart⟩ := s
  obtain rfl := hindex
  have hlow := P.bss_low
  have hhigh := P.bss_high
  have hstart : g.bssStart.toNat ≤ (cpu.get t5).toNat := hstart
  have hend : (cpu.get t5).toNat < g.bssEnd.toNat := hend
  have hpa := toNat_physical (a := cpu.get t5) (hlow.trans hstart) (by omega)
  have hbss := toNat_physical (a := g.bssStart) hlow (by omega)
  have hserial : isSerial (cpu.get t5 - Mm.kernelPhysOffset) = false := by
    rw [isSerial, hpa, decide_eq_false_iff_not]
    omega
  have htr := h.translate P (a := cpu.get t5) (hlow.trans hstart) (by omega) (Or.inl rfl)
  have hsd : step g ⟨cpu, priv, block, 4, uart⟩ = some ⟨{ cpu with
      mem := store cpu.mem (cpu.get t5 - Mm.kernelPhysOffset) 0 }, priv, block, 5, uart⟩ := by
    rw [step_kstart P h (i := .sd 0 t5) rfl]
    simp only [exec, htr, hserial, Bool.false_eq_true, if_false]
    rfl
  have h₁ := h.frame P (c := { cpu with
      mem := store cpu.mem (cpu.get t5 - Mm.kernelPhysOffset) 0 }) rfl (fun x hx =>
    store_outside cpu.mem 0 (by rw [BitVec.toNat_sub]; omega)) 5
  have haddi := step_kstart P h₁ (i := .addi t5 t5 8) rfl
  have h₂ := h₁.frame P (c := alu (.addi t5 t5 8) { cpu with
      mem := store cpu.mem (cpu.get t5 - Mm.kernelPhysOffset) 0 }) rfl (fun _ _ => rfl)
  have hbltu := step_kstart P (h₂ 6) (i := .bltu t5 t6 4) rfl
  refine ⟨_, .head hsd (.head haddi (.single (hbltu.trans ?_))), h₂, rfl, rfl, rfl, fun r hr =>
    get_set_ne _ hr _⟩
  have hnext : (cpu.get t5 + 8).toNat = (cpu.get t5).toNat + 8 := by
    have height : (8 : U64).toNat = 8 := rfl
    rw [BitVec.toNat_add, height]
    omega
  have ht5 : (alu (.addi t5 t5 8) { cpu with
      mem := store cpu.mem (cpu.get t5 - Mm.kernelPhysOffset) 0 }).get t5 = cpu.get t5 + 8 := rfl
  have ht6' : (alu (.addi t5 t5 8) { cpu with
      mem := store cpu.mem (cpu.get t5 - Mm.kernelPhysOffset) 0 }).get t6 = g.bssEnd := ht6
  simp only [exec, ht5, ht6', BitVec.lt_def, hnext]

/-- **`bss_clear`**, from a word that is not behind the end of `.bss`. -/
theorem run_bssClear {n : ℕ} : ∀ {s : State}, Running g s → s.index = 4 →
    s.cpu.get t6 = g.bssEnd → g.bssStart.toNat ≤ (s.cpu.get t5).toNat →
    (s.cpu.get t5).toNat + 8 * n < g.bssEnd.toNat →
    g.bssEnd.toNat ≤ (s.cpu.get t5).toNat + 8 * (n + 1) →
    ∃ c, Reaches g s { s with cpu := c, index := 7 } ∧ Running g { s with cpu := c, index := 7 } ∧
      c.csr = s.cpu.csr ∧
      c.mem = Memory.memset64Loop 0 (n + 1) (s.cpu.get t5 - Mm.kernelPhysOffset) s.cpu.mem ∧
      ∀ r, r ≠ t5 → c.get r = s.cpu.get r := by
  have hhigh := P.bss_high
  induction n with
  | zero =>
    intro s h hindex ht6 hstart hlt hle
    obtain ⟨c, hrun, hrunning, hcsr, hmem, -, hregs⟩ :=
      run_clearWord P h hindex ht6 hstart (by omega)
    rw [if_neg (by omega)] at hrun
    exact ⟨c, hrun, hrunning 7, hcsr, hmem, hregs⟩
  | succ n ih =>
    intro s h hindex ht6 hstart hlt hle
    obtain ⟨c₁, hrun₁, h₁, hcsr₁, hmem₁, ht5₁, hregs₁⟩ :=
      run_clearWord P h hindex ht6 hstart (by omega)
    rw [if_pos (by omega)] at hrun₁
    have hnext : (c₁.get t5).toNat = (s.cpu.get t5).toNat + 8 := by
      have height : (8 : U64).toNat = 8 := rfl
      rw [ht5₁, BitVec.toNat_add, height]
      omega
    obtain ⟨c, hrun, hrunning, hcsr, hmem, hregs⟩ :=
      ih (s := { s with cpu := c₁, index := 4 }) (h₁ 4) rfl
      ((hregs₁ t6 (by decide)).trans ht6) (by simp only [hnext]; omega)
      (by simp only [hnext]; omega) (by simp only [hnext]; omega)
    refine ⟨c, hrun₁.trans hrun, hrunning, hcsr.trans hcsr₁, ?_, fun r hr =>
      (hregs r hr).trans (hregs₁ r hr)⟩
    have hsub : s.cpu.get t5 + 8 - Mm.kernelPhysOffset
        = s.cpu.get t5 - Mm.kernelPhysOffset + 8 := by
      abel
    simp only [hmem, ht5₁, hmem₁, hsub]
    rfl

/-- A store to the variable at the beginning of the stack. -/
theorem run_sw (h : Running g s) {r : Reg} (hi : (kstartCode g)[s.index]? = some (.sw r t0))
    (ht0 : s.cpu.get t0 = g.hartid) :
    step g s = some (s.next { s.cpu with
      mem := store32 s.cpu.mem (g.hartid - Mm.kernelPhysOffset) (s.cpu.get r) }) ∧
    Running g (s.next { s.cpu with
      mem := store32 s.cpu.mem (g.hartid - Mm.kernelPhysOffset) (s.cpu.get r) }) := by
  have hlow := P.bss_low
  have hhigh := P.bss_high
  have hhart := P.bss_hartid
  have hstack := P.stack
  have hend := P.bss_end
  have hbss := toNat_physical (a := g.bssStart) hlow (by omega)
  have hpa := toNat_physical (a := g.hartid) (hlow.trans hhart) (by omega)
  have hserial : isSerial (g.hartid - Mm.kernelPhysOffset) = false := by
    rw [isSerial, hpa, decide_eq_false_iff_not]
    omega
  have htr := h.translate P (a := g.hartid) (hlow.trans hhart) (by omega) (Or.inl rfl)
  constructor
  · rw [step_kstart P h hi]
    simp only [exec, ht0, htr, hserial, Bool.false_eq_true, if_false]
  · refine h.frame P (c := { s.cpu with
      mem := store32 s.cpu.mem (g.hartid - Mm.kernelPhysOffset) (s.cpu.get r) }) rfl
      (fun x hx => if_neg ?_) (s.index + 1)
    rw [BitVec.toNat_sub]
    omega

end Kstart

/-- The words of `.bss`. -/
def Image.bssWords (g : Image) : ℕ := (g.bssEnd.toNat - g.bssStart.toNat + 7) / 8

/-- **The memory that `kmain` starts with**: `.bss` is clear, up to the end of its last word, but
for the number of the hart. -/
def booted (g : Image) (c : Cpu) : Mem := fun x =>
  if (x - (g.hartid - Mm.kernelPhysOffset)).toNat < 4 then
    byteOf (c.csr mhartid) (x - (g.hartid - Mm.kernelPhysOffset)).toNat
  else if (x - (g.bssStart - Mm.kernelPhysOffset)).toNat < 8 * g.bssWords then 0
  else c.mem x

/-- `kstart`, up to the jump. -/
theorem run_kstart {g : Image} (P : Placed g) {c c' : Cpu} (h : Prepared g c c')
    (hboots : Boots g.initPtb (load c.mem)) (uart : List U8) :
    ∃ d, Reaches g ⟨c', .supervisor, g.kstart, 0, uart⟩ ⟨d, .supervisor, g.kmain, 0, uart⟩ ∧
      Running g ⟨d, .supervisor, g.kstart, 0, uart⟩ ∧ d.csr = c'.csr ∧ d.mem = booted g c ∧
      d.get sp = g.stackTop ∧ d.get gp = g.globalPointer := by
  have hlow := P.bss_low
  have hhigh := P.bss_high
  have hhart := P.bss_hartid
  have hstack := P.stack
  have hend := P.bss_end
  have hbss := toNat_physical (a := g.bssStart) hlow (by omega)
  have hpa := toNat_physical (a := g.hartid) (hlow.trans hhart) (by omega)
  have h₀ : Running g ⟨c', .supervisor, g.kstart, 0, uart⟩ :=
    ⟨rfl, rfl, h.satp, h.pmpcfg0, h.pmpaddr0, h.mem ▸ hboots⟩
  -- the registers
  obtain ⟨hgp, h₁⟩ := run_li P h₀ (r := gp) (v := g.globalPointer) rfl
  obtain ⟨hsp, h₂⟩ := run_li P h₁ (r := sp) (v := g.stackTop) rfl
  obtain ⟨ht5, h₃⟩ := run_li P h₂ (r := t5) (v := g.bssStart) rfl
  obtain ⟨ht6, h₄⟩ := run_li P h₃ (r := t6) (v := g.bssEnd) rfl
  -- the loop
  obtain ⟨n, hn⟩ : ∃ n, g.bssWords = n + 1 := ⟨g.bssWords - 1, by unfold Image.bssWords; omega⟩
  have hwords : g.bssStart.toNat + 8 * n < g.bssEnd.toNat ∧
      g.bssEnd.toNat ≤ g.bssStart.toNat + 8 * (n + 1) := by
    unfold Image.bssWords at hn
    omega
  obtain ⟨c₇, hloop, h₇, hcsr, hmem, hkeep⟩ := run_bssClear P h₄ rfl rfl le_rfl hwords.1 hwords.2
  -- the two stores, at the same address
  obtain ⟨hdtb, h₈⟩ := run_li P h₇ (r := t0) (v := g.kernelDtb) rfl
  obtain ⟨hsw, h₉⟩ := run_sw P h₈ (r := a1) rfl P.dtb
  obtain ⟨hhartid, h₁₀⟩ := run_li P h₉ (r := t0) (v := g.hartid) rfl
  obtain ⟨hsw', h₁₁⟩ := run_sw P h₁₀ (r := a0) rfl rfl
  have hj := step_kstart P h₁₁ (i := .j g.kmain) rfl
  refine ⟨_, .head hgp (.head hsp (.head ht5 (.head ht6 (hloop.trans (.head hdtb (.head hsw
    (.head hhartid (.head hsw' (.single hj))))))))), ?_, ?_, ?_, ?_, ?_⟩
  · exact h₁₁.frame P rfl (fun _ _ => rfl) 0
  · exact hcsr
  · have ha0 : c₇.get a0 = c.csr mhartid := (hkeep a0 (by decide)).trans h.hartid
    have hzero : (0 : U64) = Mm.fillWord 0 := by decide
    have hlt : 8 * g.bssWords ≤ 2 ^ 64 := by
      unfold Image.bssWords
      omega
    funext x
    show store32 (store32 c₇.mem _ _) _ (c₇.get a0) x = _
    rw [booted, store32, ha0]
    by_cases hx : (x - (g.hartid - Mm.kernelPhysOffset)).toNat < 4
    · rw [if_pos hx, if_pos hx]
    · rw [if_neg hx, if_neg hx, store32, if_neg hx, hmem, ← hn, hzero,
        ← Memory.memsetLoop_words, Memory.memsetLoop_apply hlt]
      show (if _ then _ else c'.mem x) = _
      rw [h.mem]
      rfl
  · exact hkeep sp (by decide)
  · exact hkeep gp (by decide)

/-! ## 5. The boot -/

section Boot

variable {g : Image} (P : Placed g) {c : Cpu} (hboots : Boots g.initPtb (load c.mem))
  (hmsg : ∀ i ≤ initMsg.length, c.mem (g.initMsg + BitVec.ofNat 64 i)
    = (initMsg ++ [0]).getD i 0)

include P hboots hmsg

theorem run_boot : ∃ d, Reaches g (reset g c) ⟨d, .supervisor, g.kmain, 0, initMsg ++ [0]⟩ ∧
    Running g ⟨d, .supervisor, g.kstart, 0, initMsg ++ [0]⟩ ∧ d.mem = booted g c ∧
    d.get sp = g.stackTop ∧ d.get gp = g.globalPointer ∧ d.csr medeleg = -1 ∧
    d.csr mideleg = -1 ∧ d.csr menvcfg &&& 1 <<< 63 = 1 <<< 63 ∧
    d.csr mcounteren &&& 0x2 = 0x2 := by
  obtain ⟨c', hinit, h⟩ := run_init P hmsg
  obtain ⟨d, hkstart, hrunning, hcsr, hmem, hsp, hgp⟩ :=
    run_kstart P h hboots (initMsg ++ [0])
  refine ⟨d, hinit.trans hkstart, hrunning, hmem, hsp, hgp, ?_, ?_, ?_, ?_⟩
  · rw [hcsr, h.medeleg]
  · rw [hcsr, h.mideleg]
  · rw [hcsr, h.menvcfg]
  · rw [hcsr, h.mcounteren]

/-- **From reset to `kmain`.**  Whatever the registers hold at reset, `kmain` is reached, in S-mode,
under the first table, on its stack, with the timer in reach and with -1 written to both registers
of delegation, of which a hart keeps the bits that it has.  The message was sent, and the 0 behind
it.  Of memory, `.bss` is clear and nothing else has changed; the four bytes of `_hartid` hold the
number of the hart, and nothing holds the address of the device tree that was saved there first. -/
theorem boot_reaches_kmain :
    ∃ d, Reaches g (reset g c) ⟨d, .supervisor, g.kmain, 0, initMsg ++ [0]⟩ ∧
      d.mem = booted g c ∧ d.get sp = g.stackTop ∧ d.get gp = g.globalPointer ∧
      d.csr satp = initSatp g.initPtb ∧ Boots g.initPtb (load d.mem) ∧ d.csr medeleg = -1 ∧
      d.csr mideleg = -1 ∧ d.csr menvcfg &&& 1 <<< 63 = 1 <<< 63 ∧
      d.csr mcounteren &&& 0x2 = 0x2 := by
  obtain ⟨d, hrun, h, hmem, hsp, hgp, hrest⟩ := run_boot P hboots hmsg
  exact ⟨d, hrun, hmem, hsp, hgp, h.satp, h.boots, hrest⟩

omit hboots hmsg in
/-- What is behind `.bss` is as it was at reset. -/
theorem booted_behind {x : U64}
    (hx : (g.bssStart - Mm.kernelPhysOffset).toNat + 8 * g.bssWords ≤ x.toNat) :
    booted g c x = c.mem x := by
  have hlow := P.bss_low
  have hhigh := P.bss_high
  have hhart := P.bss_hartid
  have hstack := P.stack
  have hend := P.bss_end
  have hbss := toNat_physical (a := g.bssStart) hlow (by omega)
  have hpa := toNat_physical (a := g.hartid) (hlow.trans hhart) (by omega)
  have hwords : g.hartid.toNat + 4 ≤ g.bssStart.toNat + 8 * g.bssWords := by
    unfold Image.bssWords
    omega
  have hlt := x.isLt
  have hout : ¬ (x - (g.hartid - Mm.kernelPhysOffset)).toNat < 4 := by
    rw [BitVec.toNat_sub, hpa]
    omega
  have hout' : ¬ (x - (g.bssStart - Mm.kernelPhysOffset)).toNat < 8 * g.bssWords := by
    rw [BitVec.toNat_sub]
    omega
  rw [booted, if_neg hout, if_neg hout']

omit hboots hmsg in
/-- So is the page behind the image. -/
theorem rootClean_booted {k : Mm.MemoryMap} (L : Mm.Layout k)
    (hend : k.bssEnd = g.bssEnd) (h : Mm.RootClean Mm.directSlots k (load c.mem)) :
    Mm.RootClean Mm.directSlots k (load (booted g c)) := by
  have hseg : ⟨k.bssStart, k.bssEnd, Mm.PTE.read ||| Mm.PTE.write⟩ ∈ k.segments := by
    simp [Mm.MemoryMap.segments]
  have himage : g.bssEnd.toNat ≤ k.kernelEnd.toNat := hend ▸ (L.segment _ hseg).image
  have hlow := P.bss_low
  have hhigh := P.bss_high
  have hal := P.bss_aligned
  have hkal := L.end_aligned
  have hfree := L.toNat_freeStart
  have hfreeal := L.freeStart_aligned
  have hle : (g.bssStart - Mm.kernelPhysOffset).toNat + 8 * g.bssWords ≤ k.freeStart.toNat := by
    have hhart := P.bss_hartid
    have hstack := P.stack
    have hbssEnd := P.bss_end
    rw [toNat_physical hlow (by omega)]
    unfold Image.bssWords Sv39.Aligned at *
    omega
  intro i hi hS
  have hslot := Sv39.toNat_slot hfreeal hi
  have hword : load (booted g c) (Sv39.slot k.freeStart i)
      = load c.mem (Sv39.slot k.freeStart i) := by
    apply joinBytes_congr
    intro j hj
    refine booted_behind P (hle.trans ?_)
    rw [BitVec.toNat_add, BitVec.toNat_ofNat, hslot]
    omega
  rw [hword]
  exact h i hi hS

/-- **From reset to paging.**  `kmain` finds the globals clear and the first table in `satp`, and so
`vm_init` comes to its end: with the memory as the machine has it, it makes tables that translate
every address as `kernelMapping` says.  The page that becomes their root is nobody's to clear: it
has to be clean at reset. -/
theorem reset_to_paging {y : Mm.Symbols} (L : Mm.Layout y.kmap)
    (hend : y.bssEnd = g.bssEnd) (R : Room y.kmap g.initPtb) {fuel : ℕ} (hfuel : 262144 < fuel)
    (hclean : Mm.RootClean Mm.directSlots y.kmap (load c.mem)) :
    ∃ d root s', Reaches g (reset g c) ⟨d, .supervisor, g.kmain, 0, initMsg ++ [0]⟩ ∧
      vmInit (satpMmu (d.csr satp)) y fuel (Mm.Kernel.boot (load d.mem)) = .ok root s' ∧
      Boots g.initPtb s'.mem ∧
      ∀ va, Sv39.walk s'.mem (satpRoot root) va = Mm.kernelMapping y.kmap va := by
  obtain ⟨d, hrun, h, hmem, -⟩ := run_boot P hboots hmsg
  have hsatp : d.csr satp = initSatp g.initPtb := h.satp
  have hfirst : Boots g.initPtb (load d.mem) := h.boots
  have hbooted : Mm.RootClean Mm.directSlots y.kmap (load d.mem) := by
    rw [hmem]
    exact rootClean_booted P L hend hclean
  obtain ⟨s', hinit, -, hkeep, hroot, hwalk⟩ :=
    run_mmInitAt L hfuel (s := Mm.Kernel.boot (load d.mem)) hbooted rfl R hfirst
  refine ⟨d, satpModeSv39 ||| Mm.physToPpn y.kmap.freeStart, s', hrun, ?_, hkeep, fun va => ?_⟩
  · rw [hsatp]
    exact run_vmInit hinit hroot
  · rw [(satp_direct L).2]
    exact hwalk va

end Boot

/-! ## 6. A small image -/

/-- Three pages of `.init`: the code, the table and the message. -/
def smallImage : Image where
  init := 0x80000000
  initPtb := 0x80001000
  initMsg := 0x80002000
  kstart := 0xffffffff80003000
  kmain := 0xffffffff80003100
  globalPointer := 0xffffffff80004100
  stackTop := 0xffffffff8000c100
  bssStart := 0xffffffff80004000
  bssEnd := 0xffffffff8000d100
  kernelDtb := 0xffffffff80004100
  hartid := 0xffffffff80004100

theorem smallImage_placed : Placed smallImage where
  ptb_aligned := by decide
  ptb_bss := by decide
  msg_low := by decide
  msg_high := by decide
  kstart_low := by decide
  kstart_high := by decide
  kstart_init := by decide
  bss_aligned := by decide
  bss_low := by decide
  bss_hartid := by decide
  stack := by decide
  bss_end := by decide
  bss_high := by decide
  pointer := rfl
  dtb := rfl

/-- It in memory, on hart 3, with zeroes in the rest. -/
def smallReset : Cpu where
  reg := fun _ => 0
  csr := fun n => if n = mhartid then 3 else 0
  mem := fun a =>
    if a.toNat / 4096 = 0x80001 then
      byteOf (initPtb.getD (a.toNat % 4096 / 8) 0) (a.toNat % 4096 % 8)
    else if a.toNat / 4096 = 0x80002 then (initMsg ++ [0]).getD (a.toNat % 4096) 0
    else 0

theorem smallReset_boots : Boots smallImage.initPtb (load smallReset.mem) := by
  intro i hi
  have hbase : (0x80001000 : U64).toNat = 0x80001000 := by decide
  have hslot := Sv39.toNat_slot (t := 0x80001000) (by decide) hi
  rw [hbase] at hslot
  rw [← joinBytes_byteOf (initPtb.getD i 0)]
  apply joinBytes_congr
  intro j hj
  have haddr : (Sv39.slot 0x80001000 i + BitVec.ofNat 64 j).toNat = 0x80001000 + 8 * i + j := by
    rw [BitVec.toNat_add, BitVec.toNat_ofNat, hslot]
    omega
  show (if _ then _ else _) = _
  have hindex : (0x80001000 + 8 * i + j) % 4096 / 8 = i := by omega
  have hbyte : (0x80001000 + 8 * i + j) % 4096 % 8 = j := by omega
  rw [show smallImage.initPtb = 0x80001000 from rfl, haddr, if_pos (by omega), hindex, hbyte]

theorem smallReset_msg : ∀ i ≤ initMsg.length,
    smallReset.mem (smallImage.initMsg + BitVec.ofNat 64 i) = (initMsg ++ [0]).getD i 0 := by
  intro i hi
  have hlen : initMsg.length = 61 := by decide
  have haddr : (smallImage.initMsg + BitVec.ofNat 64 i).toNat = 0x80002000 + i := by
    have hbase : smallImage.initMsg.toNat = 0x80002000 := by decide
    rw [BitVec.toNat_add, BitVec.toNat_ofNat, hbase]
    omega
  have hindex : (0x80002000 + i) % 4096 = i := by omega
  show (if _ then _ else if _ then _ else _) = _
  rw [haddr, if_neg (by omega), if_pos (by omega), hindex]

/-- `boot_reaches_kmain` for it: the hart is number 3. -/
theorem boot_reaches_kmain_small :
    ∃ d, Reaches smallImage (reset smallImage smallReset)
        ⟨d, .supervisor, 0xffffffff80003100, 0, initMsg ++ [0]⟩ ∧
      d.mem 0x80004100 = 3 ∧ d.get sp = 0xffffffff8000c100 := by
  obtain ⟨d, hrun, hmem, hsp, -⟩ :=
    boot_reaches_kmain smallImage_placed smallReset_boots smallReset_msg
  refine ⟨d, hrun, ?_, hsp⟩
  rw [hmem]
  decide

/-- Its symbols: `.text` is the fourth page. -/
def smallImageSymbols : Mm.Symbols := { Mm.smallSymbols with textStart := 0xffffffff80003000 }

theorem smallImageSymbols_layout : Mm.Layout smallImageSymbols.kmap where
  offset := rfl
  end_aligned := by decide
  segment := by
    intro g hg
    simp only [Mm.MemoryMap.segments, List.mem_cons, List.not_mem_nil, or_false] at hg
    rcases hg with rfl | rfl | rfl | rfl
    · exact ⟨by decide, by decide, by decide, by decide, by decide⟩
    · exact ⟨by decide, by decide, by decide, by decide, by decide⟩
    · exact ⟨by decide, by decide, by decide, by decide, by decide⟩
    · exact ⟨by decide, by decide, by decide, by decide, by decide⟩
  disjoint := by
    simp only [Mm.MemoryMap.segments, smallImageSymbols, Mm.Symbols.kmap, Mm.smallSymbols,
      Mm.Segment.Covers, BitVec.ofNat_eq_ofNat, BitVec.toNat_ofNat, List.pairwise_cons,
      List.mem_cons, List.not_mem_nil, or_false, forall_eq_or_imp, forall_eq, IsEmpty.forall_iff,
      implies_true, List.Pairwise.nil, and_true]
    refine ⟨⟨?_, ?_, ?_⟩, ⟨?_, ?_⟩, ?_⟩ <;> intro va <;> omega

theorem smallReset_clean :
    Mm.RootClean Mm.directSlots smallImageSymbols.kmap (load smallReset.mem) := by
  intro i hi _
  have hfree : smallImageSymbols.kmap.freeStart.toNat = 0x80010000 := by decide
  have hslot := Sv39.toNat_slot smallImageSymbols_layout.freeStart_aligned hi
  rw [hfree] at hslot
  have hzero : load smallReset.mem (Sv39.slot smallImageSymbols.kmap.freeStart i)
      = joinBytes fun _ => 0 := by
    apply joinBytes_congr
    intro j hj
    have haddr : (Sv39.slot smallImageSymbols.kmap.freeStart i + BitVec.ofNat 64 j).toNat
        = 0x80010000 + 8 * i + j := by
      rw [BitVec.toNat_add, BitVec.toNat_ofNat, hslot]
      omega
    show (if _ then _ else if _ then _ else _) = _
    rw [haddr, if_neg (by omega), if_neg (by omega)]
  rw [hzero]
  decide

/-- The page of `kmain` is still there behind `vm_init`, and can be executed. -/
theorem reset_to_paging_small :
    ∃ d root s', Reaches smallImage (reset smallImage smallReset)
        ⟨d, .supervisor, 0xffffffff80003100, 0, initMsg ++ [0]⟩ ∧
      vmInit (satpMmu (d.csr satp)) smallImageSymbols 262145 (Mm.Kernel.boot (load d.mem))
        = .ok root s' ∧
      Sv39.walk s'.mem (satpRoot root) 0xffffffff80003100 = some ⟨0x80003100, 10⟩ := by
  obtain ⟨d, root, s', hrun, hinit, -, hwalk⟩ := reset_to_paging smallImage_placed
    smallReset_boots smallReset_msg smallImageSymbols_layout rfl
    ⟨by decide, by decide, by decide⟩ Mm.lt_smallFuel smallReset_clean
  refine ⟨d, root, s', hrun, hinit, ?_⟩
  rw [hwalk]
  decide

end RvKernel.Entry
