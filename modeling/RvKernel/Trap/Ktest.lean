/-
# The trap stub of the test kernel (`ktest/trap.S`)

This stub makes room for 18 words below the interrupted stack pointer, and saves 19 registers there:
those that a C function need not keep, and `sp`, `gp` and `tp`.  The offsets are written by hand.
The words at 24 and at 28 overlap, and so do those at 28 and at 32: `t0` is saved over the upper
half of `tp`, and `t1` over the upper half of `t0`.

Restoring reads the words as they are then.  So `tp` and `t0` come back with their own lower halves
and those of `t0` and `t1` on top; all other registers come back (`trap_entry_restores_iff`).
-/
import RvKernel.Lib.Rv64

namespace RvKernel.Ktest

open Rv64

/-! ## 1. The code -/

def sp : Reg := 2
def gp : Reg := 3
def tp : Reg := 4
def t0 : Reg := 5
def t1 : Reg := 6
def t2 : Reg := 7
def a0 : Reg := 10
def a1 : Reg := 11
def a2 : Reg := 12
def a3 : Reg := 13
def a4 : Reg := 14
def a5 : Reg := 15
def a6 : Reg := 16
def a7 : Reg := 17
def t3 : Reg := 28
def t4 : Reg := 29
def t5 : Reg := 30
def t6 : Reg := 31

/-- `s0` to `s11`, which a C function keeps. -/
def calleeSaved : List Reg := [8, 9, 18, 19, 20, 21, 22, 23, 24, 25, 26, 27]

/-- The stub up to the call. -/
def saveAll : List Instr :=
  [.addi sp sp (-144),
    .sd ra 0 sp, .sd sp 8 sp, .sd gp 16 sp, .sd tp 24 sp,
    .sd t0 28 sp, .sd t1 32 sp, .sd t2 40 sp,
    .sd a0 48 sp, .sd a1 56 sp, .sd a2 64 sp, .sd a3 72 sp,
    .sd a4 80 sp, .sd a5 88 sp, .sd a6 96 sp, .sd a7 104 sp,
    .sd t3 112 sp, .sd t4 120 sp, .sd t5 128 sp, .sd t6 136 sp]

/-- The stub behind the call, up to `sret`. -/
def restoreAll : List Instr :=
  [.ld ra 0 sp, .ld sp 8 sp, .ld gp 16 sp, .ld tp 24 sp,
    .ld t0 28 sp, .ld t1 32 sp, .ld t2 40 sp,
    .ld a0 48 sp, .ld a1 56 sp, .ld a2 64 sp, .ld a3 72 sp,
    .ld a4 80 sp, .ld a5 88 sp, .ld a6 96 sp, .ld a7 104 sp,
    .ld t3 112 sp, .ld t4 120 sp, .ld t5 128 sp, .ld t6 136 sp,
    .addi sp sp 144]

/-- `trap_entry`, up to `sret`; `link` is the address behind the call. -/
def trapEntry (link : U64) : List Instr := saveAll ++ .call link :: restoreAll

/-- The machine as `handle_trap` finds it. -/
def atCall (link : U64) (c : Cpu) : Cpu := (run id saveAll c).set ra link

/-- The handler keeps to the ABI: `sp` and the callee-saved registers are as it found them, and it
does not write to the frame of its caller. -/
structure AbiConforming (handleTrap : Cpu → Cpu) (c : Cpu) : Prop where
  stack : (handleTrap c).get sp = c.get sp
  saved : ∀ r ∈ calleeSaved, (handleTrap c).get r = c.get r
  frame : ∀ i < 144, (handleTrap c).mem (c.at sp i) = c.mem (c.at sp i)

/-! ## 2. The frame -/

/-- The slots of the registers. -/
def slots : List Slot :=
  [(ra, 0), (sp, 8), (gp, 16), (tp, 24), (t0, 28), (t1, 32), (t2, 40), (a0, 48), (a1, 56),
    (a2, 64), (a3, 72), (a4, 80), (a5, 88), (a6, 96), (a7, 104), (t3, 112), (t4, 120), (t5, 128),
    (t6, 136)]

theorem saveAll_eq : saveAll = .addi sp sp (-144) :: saves sp slots := rfl

theorem restoreAll_eq : restoreAll = restores sp slots ++ [.addi sp sp 144] := rfl

theorem slots_inside : ∀ s ∈ slots, s.2 + 8 ≤ 144 := by decide

theorem slots_nodup : (slots.map Prod.fst).Nodup := by decide

theorem zero_not_mem : 0 ∉ slots.map Prod.fst := by decide

/-- All registers have a slot, but `x0` and those that the handler keeps. -/
theorem slots_cover : ∀ r : Reg, r ≠ 0 → r ∉ calleeSaved → ∃ s ∈ slots, s.1 = r := by decide

theorem calleeSaved_not_mem : ∀ r ∈ calleeSaved, r ∉ slots.map Prod.fst := by decide

/-- The later half of the word of `tp` belongs to `t0`... -/
theorem owner_tp : ∀ i < 8, owner slots (24 + i) = some (if i < 4 then (tp, 24) else (t0, 28)) := by
  decide

/-- ...that of the word of `t0` to `t1`... -/
theorem owner_t0 : ∀ i < 8, owner slots (28 + i) = some (if i < 4 then (t0, 28) else (t1, 32)) := by
  decide

/-- ...and all other words are whole. -/
theorem owner_other : ∀ s ∈ slots, s.1 ≠ tp → s.1 ≠ t0 →
    ∀ i < 8, owner slots (s.2 + i) = some s := by
  decide +kernel

/-- The machine with the stack pointer moved. -/
def moved (c : Cpu) : Cpu := c.set sp (c.get sp - 144)

theorem run_saveAll (f : Cpu → Cpu) (c : Cpu) :
    run f saveAll c = run f (saves sp slots) (moved c) := by
  have hsub : c.get sp + BitVec.ofInt 64 (-144) = c.get sp - 144 :=
    (sub_eq_add_neg (c.get sp) 144).symm
  rw [saveAll_eq, run_cons, exec, hsub, moved]

theorem get_moved (c : Cpu) {r : Reg} (h : r ≠ sp) : (moved c).get r = c.get r := get_set_ne c h _

theorem get_moved_sp (c : Cpu) : (moved c).get sp = c.get sp - 144 :=
  get_set_same c (by decide) _

/-- What the slot of a register has when the handler is called. -/
def held (c : Cpu) (r : Reg) : U64 :=
  if r = tp then splice 4 (c.get tp) (c.get t0)
  else if r = t0 then splice 4 (c.get t0) (c.get t1)
  else (moved c).get r

/-- **The frame**, as `saveAll` leaves it. -/
structure Saved (c d : Cpu) : Prop where
  stack : d.get sp = c.get sp - 144
  kept : ∀ r ∈ calleeSaved, d.get r = c.get r
  slot : ∀ s ∈ slots, load d.mem (d.at sp s.2) = held c s.1

theorem slot_saves (f : Cpu → Cpu) (c : Cpu) : ∀ s ∈ slots,
    load (run f (saves sp slots) (moved c)).mem ((moved c).at sp s.2) = held c s.1 := by
  have hfit : ∀ s ∈ slots, s.2 + 8 ≤ 2 ^ 63 := fun s hs => (slots_inside s hs).trans (by decide)
  intro s hs
  by_cases htp : s.1 = tp
  · obtain rfl : s = (tp, 24) := by
      revert s
      decide
    rw [load_saves_cut hfit hs (t := (t0, 28)) rfl owner_tp, get_moved c (by decide),
      get_moved c (by decide)]
    rfl
  by_cases ht0 : s.1 = t0
  · obtain rfl : s = (t0, 28) := by
      revert s
      decide
    rw [load_saves_cut hfit hs (t := (t1, 32)) rfl owner_t0, get_moved c (by decide),
      get_moved c (by decide)]
    rfl
  rw [load_saves_owned hfit hs (owner_other s hs htp ht0), held, if_neg htp, if_neg ht0]

theorem saveAll_saves (f : Cpu → Cpu) (c : Cpu) : Saved c (run f saveAll c) := by
  have hkeep : ∀ r, (run f saveAll c).get r = (moved c).get r := by
    intro r
    rw [run_saveAll, get_saves]
  constructor
  · exact (hkeep sp).trans (get_moved_sp c)
  · intro r hr
    have hne : r ≠ sp := by
      rintro rfl
      exact absurd hr (by decide)
    exact (hkeep r).trans (get_moved c hne)
  · intro s hs
    rw [Cpu.at, hkeep, run_saveAll]
    exact slot_saves f c s hs

/-- The return address is in no callee-saved register, and the handler leaves the frame. -/
theorem Saved.of_conforming {c d e : Cpu} (h : Saved c d) (hsp : e.get sp = d.get sp)
    (hsaved : ∀ r ∈ calleeSaved, e.get r = d.get r)
    (hframe : ∀ i < 144, e.mem (d.at sp i) = d.mem (d.at sp i)) : Saved c e := by
  constructor
  · exact hsp.trans h.stack
  · exact fun r hr => (hsaved r hr).trans (h.kept r hr)
  · intro s hs
    rw [Cpu.at, hsp]
    exact (load_of_frame hframe (slots_inside s hs)).trans (h.slot s hs)

/-- **Restoring** brings back what the slots have, and `sp` from where the slot of `sp` says it
is. -/
theorem Saved.restored {c d : Cpu} (f : Cpu → Cpu) (h : Saved c d) (r : Reg) :
    (run f restoreAll d).get r = if r = tp ∨ r = t0 then held c r else c.get r := by
  have hsp0 : sp ≠ 0 := by decide
  -- `ld sp, 8(sp)` reads what `sp` is
  have hbase : ∀ s ∈ slots, s.1 = sp → load d.mem (d.at sp s.2) = d.get sp := by
    intro s hs hs2
    rw [h.slot s hs, hs2, h.stack, ← get_moved_sp]
    rfl
  obtain ⟨e, he⟩ : ∃ e, e = run f (restores sp slots) d := ⟨_, rfl⟩
  have hslot : ∀ s ∈ slots, e.get s.1 = held c s.1 := by
    intro s hs
    rw [he, get_restores slots_nodup hbase zero_not_mem s hs, h.slot s hs]
  have hesp : e.get sp + BitVec.ofInt 64 144 = c.get sp := by
    have hheld : e.get sp = c.get sp - 144 := (hslot (sp, 8) (by decide)).trans (get_moved_sp c)
    rw [hheld]
    exact sub_add_cancel _ _
  have hrun : run f restoreAll d = e.set sp (c.get sp) := by
    rw [restoreAll_eq, run_append, ← he, run_cons, run_nil, exec, hesp]
  rw [hrun]
  by_cases hr : r = sp
  · rw [hr, get_set_same _ hsp0, if_neg (by decide)]
  rw [get_set_ne _ hr]
  by_cases hr0 : r = 0
  · rw [hr0, if_neg (by decide)]
    rfl
  by_cases hcallee : r ∈ calleeSaved
  · have hnot : ¬ (r = tp ∨ r = t0) := by
      rintro (rfl | rfl)
      · exact absurd hcallee (by decide)
      · exact absurd hcallee (by decide)
    rw [if_neg hnot, he, get_restores_ne (calleeSaved_not_mem r hcallee), h.kept r hcallee]
  obtain ⟨s, hs, rfl⟩ := slots_cover r hr0 hcallee
  rw [hslot s hs]
  split
  · rfl
  · rename_i hnot
    obtain ⟨htp, ht0⟩ := not_or.mp hnot
    rw [held, if_neg htp, if_neg ht0, get_moved c hr]

/-! ## 3. The stub -/

/-- What the stub leaves in a register. -/
theorem get_trapEntry {link : U64} {handleTrap : Cpu → Cpu} {c : Cpu}
    (h : AbiConforming handleTrap (atCall link c)) (r : Reg) :
    (run handleTrap (trapEntry link) c).get r = if r = tp ∨ r = t0 then held c r else c.get r := by
  have hkeep : ∀ r ∈ calleeSaved, r ≠ ra := by decide
  have hcall : Saved c (atCall link c) :=
    (saveAll_saves id c).of_conforming (get_set_ne _ (by decide) _)
      (fun r hr => get_set_ne _ (hkeep r hr) _) fun _ _ => rfl
  have hreturn := hcall.of_conforming h.stack h.saved h.frame
  have hrun : run handleTrap (trapEntry link) c
      = run handleTrap restoreAll (handleTrap (atCall link c)) :=
    run_around_call rfl link restoreAll
  rw [hrun, hreturn.restored]

/-- **The stub restores the registers it saves exactly if the halves that are saved over are no
different**: the upper half of `tp` from the lower half of `t0`, and the upper half of `t0` from
the lower half of `t1`.  All registers but these two are always restored. -/
theorem trap_entry_restores_iff (link : U64) (handleTrap : Cpu → Cpu) (c : Cpu)
    (h : AbiConforming handleTrap (atCall link c)) :
    ((∀ s ∈ slots, (run handleTrap (trapEntry link) c).get s.1 = c.get s.1) ↔
      (c.get tp).toNat / 2 ^ 32 = (c.get t0).toNat % 2 ^ 32 ∧
        (c.get t0).toNat / 2 ^ 32 = (c.get t1).toNat % 2 ^ 32) ∧
    ∀ r, r ≠ tp → r ≠ t0 → (run handleTrap (trapEntry link) c).get r = c.get r := by
  have hother : ∀ r, r ≠ tp → r ≠ t0 → (run handleTrap (trapEntry link) c).get r = c.get r :=
    fun r htp ht0 => (get_trapEntry h r).trans (if_neg (not_or.mpr ⟨htp, ht0⟩))
  have htp : (run handleTrap (trapEntry link) c).get tp = splice 4 (c.get tp) (c.get t0) :=
    get_trapEntry h tp
  have ht0 : (run handleTrap (trapEntry link) c).get t0 = splice 4 (c.get t0) (c.get t1) :=
    get_trapEntry h t0
  refine ⟨?_, hother⟩
  have htp_iff := splice_eq_iff (k := 4) (c.get tp) (c.get t0)
  have ht0_iff := splice_eq_iff (k := 4) (c.get t0) (c.get t1)
  constructor
  · intro hall
    constructor
    · exact htp_iff.mp (htp.symm.trans (hall (tp, 24) (by decide)))
    · exact ht0_iff.mp (ht0.symm.trans (hall (t0, 28) (by decide)))
  · rintro ⟨hupper, hupper'⟩ s -
    by_cases hs : s.1 = tp
    · rw [hs, htp, htp_iff.mpr hupper]
    by_cases hs' : s.1 = t0
    · rw [hs', ht0, ht0_iff.mpr hupper']
    exact hother s.1 hs hs'

/-- A handler that leaves 7 in every register it need not keep. -/
def handler (c : Cpu) : Cpu :=
  { c with reg := fun r => if r = sp ∨ r ∈ calleeSaved then c.reg r else 7 }

theorem handler_conforming (c : Cpu) : AbiConforming handler c where
  stack := rfl
  saved r hr := by
    have hkept : (handler c).reg r = c.reg r := if_pos (Or.inr hr)
    rw [Cpu.get, Cpu.get, hkept]
  frame _ _ := rfl

/-- A trapped machine with these values in `tp`, `t0` and `t1`. -/
def trapped (v w u : U64) : Cpu where
  reg r := if r = tp then v else if r = t0 then w else if r = t1 then u else
    BitVec.ofNat 64 (0x80100000 + 64 * r)
  csr _ := 0x80201234
  mem _ := 0

/-- Halves that happen to agree. -/
theorem trap_entry_restores_zero :
    (∀ s ∈ slots, (run handler (trapEntry 0x80200100) (trapped 0 0 0)).get s.1
      = (trapped 0 0 0).get s.1) ∧
    (trapped 0 0 0).get a0 = 0x80100280 := by
  have h := trap_entry_restores_iff 0x80200100 handler (trapped 0 0 0) (handler_conforming _)
  exact ⟨h.1.mpr (by decide), by decide⟩

/-- A 1 in `t0` comes back in `tp` as well. -/
theorem trap_entry_corrupts :
    AbiConforming handler (atCall 0x80200100 (trapped 0 1 0)) ∧
      (run handler (trapEntry 0x80200100) (trapped 0 1 0)).get tp = 0x100000000 ∧
      ¬ ∀ s ∈ slots, (run handler (trapEntry 0x80200100) (trapped 0 1 0)).get s.1
        = (trapped 0 1 0).get s.1 := by
  have htp : (run handler (trapEntry 0x80200100) (trapped 0 1 0)).get tp = 0x100000000 := by
    rw [get_trapEntry (handler_conforming _)]
    decide
  refine ⟨handler_conforming _, htp, fun hall => ?_⟩
  have hback := hall (tp, 24) (by decide)
  rw [htp] at hback
  exact absurd hback (by decide)

end RvKernel.Ktest
