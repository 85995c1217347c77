/-
# The trap stub (`trap_entry.S`)

The stub makes room for 32 words below the interrupted stack pointer, saves all registers there
except `sp`, saves `sepc` in the first word with `s0` as a scratch register, calls `handle_trap`,
and undoes all of it in the same order.  `s0` itself is in its slot before it is used, and loaded
from there after.

The handler is any function that leaves `sp` and the 256 bytes of the frame as it finds them.
`trap_entry_restores` is what the interrupted code may rely on.
-/
import RvKernel.Lib.Rv64

namespace RvKernel.Trap

open Rv64

/-! ## 1. The code -/

/-- The registers the stub gives a name to. -/
def sp : Reg := 2
def s0 : Reg := 8

/-- The number of `sepc`. -/
def sepc : Csr := 0x141

/-- The stub up to the call. -/
def saveAll : List Instr :=
  [.addi sp sp (-256),
    .sd 1 8 sp,
    .sd 3 24 sp, .sd 4 32 sp, .sd 5 40 sp, .sd 6 48 sp, .sd 7 56 sp, .sd 8 64 sp, .sd 9 72 sp,
    .sd 10 80 sp, .sd 11 88 sp, .sd 12 96 sp, .sd 13 104 sp, .sd 14 112 sp, .sd 15 120 sp,
    .sd 16 128 sp, .sd 17 136 sp, .sd 18 144 sp, .sd 19 152 sp, .sd 20 160 sp, .sd 21 168 sp,
    .sd 22 176 sp, .sd 23 184 sp, .sd 24 192 sp, .sd 25 200 sp, .sd 26 208 sp, .sd 27 216 sp,
    .sd 28 224 sp, .sd 29 232 sp, .sd 30 240 sp, .sd 31 248 sp,
    .csrr s0 sepc,
    .sd s0 0 sp]

/-- The stub behind the call, up to `sret`. -/
def restoreAll : List Instr :=
  [.ld s0 0 sp,
    .csrw sepc s0,
    .ld 1 8 sp,
    .ld 3 24 sp, .ld 4 32 sp, .ld 5 40 sp, .ld 6 48 sp, .ld 7 56 sp, .ld 8 64 sp, .ld 9 72 sp,
    .ld 10 80 sp, .ld 11 88 sp, .ld 12 96 sp, .ld 13 104 sp, .ld 14 112 sp, .ld 15 120 sp,
    .ld 16 128 sp, .ld 17 136 sp, .ld 18 144 sp, .ld 19 152 sp, .ld 20 160 sp, .ld 21 168 sp,
    .ld 22 176 sp, .ld 23 184 sp, .ld 24 192 sp, .ld 25 200 sp, .ld 26 208 sp, .ld 27 216 sp,
    .ld 28 224 sp, .ld 29 232 sp, .ld 30 240 sp, .ld 31 248 sp,
    .addi sp sp 256]

/-- `trap_entry`, up to `sret`; `link` is the address behind the call. -/
def trapEntry (link : U64) : List Instr := saveAll ++ .call link :: restoreAll

/-- The machine as `handle_trap` finds it. -/
def atCall (link : U64) (c : Cpu) : Cpu := (run id saveAll c).set ra link

/-- The handler returns with `sp` as it was, and the frame at `sp` too. -/
structure KeepsFrame (handleTrap : Cpu → Cpu) (c : Cpu) : Prop where
  stack : (handleTrap c).get sp = c.get sp
  frame : ∀ i < 256, (handleTrap c).mem (c.at sp i) = c.mem (c.at sp i)

/-! ## 2. The frame -/

/-- The slots of the registers. -/
def slots : List Slot :=
  [(1, 8), (3, 24), (4, 32), (5, 40), (6, 48), (7, 56), (8, 64), (9, 72), (10, 80), (11, 88),
    (12, 96), (13, 104), (14, 112), (15, 120), (16, 128), (17, 136), (18, 144), (19, 152),
    (20, 160), (21, 168), (22, 176), (23, 184), (24, 192), (25, 200), (26, 208), (27, 216),
    (28, 224), (29, 232), (30, 240), (31, 248)]

theorem saveAll_eq :
    saveAll = .addi sp sp (-256) :: saves sp slots ++ [.csrr s0 sepc, .sd s0 0 sp] :=
  rfl

theorem restoreAll_eq :
    restoreAll = .ld s0 0 sp :: .csrw sepc s0 :: restores sp slots ++ [.addi sp sp 256] := rfl

/-- Each slot is in the frame, behind the word of `sepc`. -/
theorem slots_inside : ∀ s ∈ slots, 8 ≤ s.2 ∧ s.2 + 8 ≤ 256 := by decide

theorem slots_apart : slots.Pairwise fun s t => Apart s.2 t.2 := by decide

theorem slots_nodup : (slots.map Prod.fst).Nodup := by decide

/-- All registers have a slot, but `x0` and `sp`. -/
theorem slots_cover : ∀ r : Reg, r ≠ 0 → r ≠ sp → ∃ s ∈ slots, s.1 = r := by decide

theorem sp_not_mem : sp ∉ slots.map Prod.fst := by decide

theorem zero_not_mem : 0 ∉ slots.map Prod.fst := by decide

/-- **The frame holds what the machine `c` had**: `sepc` in its first word, and the registers in
their slots. -/
structure Saved (c d : Cpu) : Prop where
  stack : d.get sp = c.get sp - 256
  first : load d.mem (d.at sp 0) = c.csr sepc
  slot : ∀ s ∈ slots, load d.mem (d.at sp s.2) = c.get s.1

theorem sub_256 (a : U64) : a + BitVec.ofInt 64 (-256) = a - 256 := (sub_eq_add_neg a 256).symm

/-- The registers as they are saved: only `sp` has moved, and it is none of them. -/
theorem get_moved {s : Slot} (hs : s ∈ slots) (c : Cpu) (v : U64) :
    (c.set sp v).get s.1 = c.get s.1 := by
  apply get_set_ne
  intro h
  exact sp_not_mem (h ▸ List.mem_map_of_mem hs)

/-- **Saving** writes the frame, and nothing outside it. -/
theorem saveAll_saves (f : Cpu → Cpu) (c : Cpu) :
    Saved c (run f saveAll c) ∧
      ∀ x, 256 ≤ (x - (c.get sp - 256)).toNat → (run f saveAll c).mem x = c.mem x := by
  have hsp : sp ≠ 0 := by decide
  have hs0 : sp ≠ s0 := by decide
  -- the registers are saved first, with `sp` moved...
  obtain ⟨d, hd⟩ : ∃ d, d = run f (saves sp slots) (c.set sp (c.get sp - 256)) := ⟨_, rfl⟩
  have hdsp : d.get sp = c.get sp - 256 := by rw [hd, get_saves, get_set_same _ hsp]
  have hdcsr : d.csr = c.csr := by rw [hd, csr_saves, csr_set]
  have hslot : ∀ s ∈ slots, load d.mem (d.at sp s.2) = c.get s.1 := by
    intro s hs
    have hload := load_saves (f := f) (c := c.set sp (c.get sp - 256)) (b := sp) slots_apart
      (fun s hs => (slots_inside s hs).2.trans (by decide)) s hs
    rw [get_moved hs, Cpu.at, get_set_same _ hsp, ← hd] at hload
    rw [Cpu.at, hdsp, hload]
  have hout : ∀ x, 256 ≤ (x - (c.get sp - 256)).toNat → d.mem x = c.mem x := by
    intro x hx
    rw [hd]
    refine mem_saves (n := 256) (fun s hs => (slots_inside s hs).2) (by decide) ?_
    rwa [get_set_same _ hsp]
  -- ...and then `sepc`, in the first word
  have hrun : run f saveAll c
      = { d.set s0 (c.csr sepc) with mem := store d.mem (d.at sp 0) (c.csr sepc) } := by
    have hmoved : run f (.addi sp sp (-256) :: saves sp slots) c = d := by
      rw [run_cons, exec, sub_256, hd]
    have hread : exec f (.csrr s0 sepc) d = d.set s0 (c.csr sepc) := by rw [exec, hdcsr]
    have hstore := exec_save (f := f) (c := d.set s0 (c.csr sepc)) (b := sp) (s0, 0)
    rw [get_set_same _ (by decide), Cpu.at, get_set_ne _ hs0, ← Cpu.at] at hstore
    rw [saveAll_eq, run_append, hmoved, run_cons, hread, run_cons, run_nil]
    exact hstore
  rw [hrun]
  have hstack := get_set_ne d hs0 (c.csr sepc)
  have hat : ∀ i, ({ d.set s0 (c.csr sepc) with
      mem := store d.mem (d.at sp 0) (c.csr sepc) } : Cpu).at sp i = d.at sp i :=
    fun i => congrArg (· + BitVec.ofNat 64 i) hstack
  refine ⟨⟨?_, ?_, ?_⟩, ?_⟩
  · exact hstack.trans hdsp
  · rw [hat]
    exact load_store_same _ _ _
  · intro s hs
    obtain ⟨hlow, hhigh⟩ := slots_inside s hs
    rw [hat, ← hslot s hs]
    exact load_store_apart _ _ _ (Or.inl (by omega)) (by omega) (by omega)
  · intro x hx
    refine (store_outside d.mem _ ?_).trans (hout x hx)
    rw [Cpu.at, hdsp]
    simpa using le_trans (by decide) hx

/-- The handler and the return address leave the frame. -/
theorem Saved.of_frame {c d e : Cpu} (h : Saved c d) (hsp : e.get sp = d.get sp)
    (hframe : ∀ i < 256, e.mem (d.at sp i) = d.mem (d.at sp i)) : Saved c e := by
  have hload : ∀ i, i + 8 ≤ 256 → load e.mem (e.at sp i) = load d.mem (d.at sp i) := by
    intro i hi
    rw [Cpu.at, hsp]
    exact load_of_frame hframe hi
  constructor
  · exact hsp.trans h.stack
  · exact (hload 0 (by decide)).trans h.first
  · intro s hs
    exact (hload s.2 (slots_inside s hs).2).trans (h.slot s hs)

/-- **Restoring** a frame brings back the machine, and writes no memory. -/
theorem Saved.restored {c d : Cpu} (f : Cpu → Cpu) (h : Saved c d) :
    (∀ r, (run f restoreAll d).get r = c.get r) ∧
      (run f restoreAll d).csr sepc = c.csr sepc ∧ (run f restoreAll d).mem = d.mem := by
  have hsp : sp ≠ 0 := by decide
  have hs0 : sp ≠ s0 := by decide
  -- `sepc` comes back first, through `s0`
  obtain ⟨e, he⟩ : ∃ e, e = (d.set s0 (c.csr sepc)).setCsr sepc (c.csr sepc) := ⟨_, rfl⟩
  have hesp : e.get sp = d.get sp := by rw [he, get_setCsr, get_set_ne _ hs0]
  have hemem : e.mem = d.mem := by rw [he, mem_setCsr, mem_set]
  have hfirst : exec f (.csrw sepc s0) (exec f (.ld s0 0 sp) d) = e := by
    have hld : exec f (.ld s0 0 sp) d = d.set s0 (c.csr sepc) := by
      rw [← h.first]
      exact exec_restore (s0, 0)
    have hget : (d.set s0 (c.csr sepc)).get s0 = c.csr sepc := get_set_same _ (by decide) _
    rw [hld, exec, hget, he]
  -- then the registers, and last `sp`
  obtain ⟨g, hg⟩ : ∃ g, g = run f (restores sp slots) e := ⟨_, rfl⟩
  have hgsp : g.get sp = d.get sp := by rw [hg, get_restores_ne sp_not_mem, hesp]
  have hrun : run f restoreAll d = g.set sp (c.get sp) := by
    have hback : g.get sp + BitVec.ofInt 64 256 = c.get sp := by
      rw [hgsp, h.stack]
      exact sub_add_cancel _ _
    have hregs : run f (.ld s0 0 sp :: .csrw sepc s0 :: restores sp slots) d = g := by
      rw [run_cons, run_cons, hfirst, hg]
    rw [restoreAll_eq, run_append, hregs, run_cons, run_nil, exec, hback]
  rw [hrun]
  refine ⟨?_, ?_, ?_⟩
  · intro r
    by_cases hr : r = sp
    · rw [hr, get_set_same _ hsp]
    rw [get_set_ne _ hr]
    by_cases hr0 : r = 0
    · rw [hr0]
      rfl
    obtain ⟨s, hs, rfl⟩ := slots_cover r hr0 hr
    have hbase : ∀ s ∈ slots, s.1 = sp → load e.mem (e.at sp s.2) = e.get sp :=
      fun s hs hsp => absurd (hsp ▸ List.mem_map_of_mem hs) sp_not_mem
    rw [hg, get_restores slots_nodup hbase zero_not_mem s hs, hemem, Cpu.at, hesp]
    exact h.slot s hs
  · rw [csr_set, hg, csr_restores, he, csr_setCsr]
  · rw [mem_set, hg, mem_restores, hemem]

/-! ## 3. The stub -/

/-- **The stub is transparent** to the interrupted code, whatever the handler does to the rest of
the machine: all registers and `sepc` are back, and the stub has written the 256 bytes below the
interrupted `sp` in front of the call, and nothing behind it. -/
theorem trap_entry_restores (link : U64) (handleTrap : Cpu → Cpu) (c : Cpu)
    (h : KeepsFrame handleTrap (atCall link c)) :
    (∀ r, (run handleTrap (trapEntry link) c).get r = c.get r) ∧
      (run handleTrap (trapEntry link) c).csr sepc = c.csr sepc ∧
      (∀ x, 256 ≤ (x - (c.get sp - 256)).toNat → (atCall link c).mem x = c.mem x) ∧
      (run handleTrap (trapEntry link) c).mem = (handleTrap (atCall link c)).mem := by
  obtain ⟨hsaved, hout⟩ := saveAll_saves id c
  have hra : sp ≠ ra := by decide
  have hcall : Saved c (atCall link c) := hsaved.of_frame (get_set_ne _ hra _) fun _ _ => rfl
  have hreturn : Saved c (handleTrap (atCall link c)) := hcall.of_frame h.stack h.frame
  have hrun : run handleTrap (trapEntry link) c
      = run handleTrap restoreAll (handleTrap (atCall link c)) :=
    run_around_call rfl link restoreAll
  obtain ⟨hregs, hsepc, hmem⟩ := hreturn.restored handleTrap
  rw [hrun]
  exact ⟨hregs, hsepc, hout, hmem⟩

/-- A handler that leaves 7 in all other registers, and moves `sepc`. -/
def clobber (c : Cpu) : Cpu :=
  { c with reg := fun r => if r = sp then c.reg sp else 7, csr := fun _ => 0x80200000 }

/-- An interrupted machine. -/
def interrupted : Cpu where
  reg r := BitVec.ofNat 64 (0x80100000 + 64 * r)
  csr _ := 0x80201234
  mem _ := 0

theorem trap_entry_restores_clobber :
    (run clobber (trapEntry 0x80200100) interrupted).csr sepc = 0x80201234 ∧
      ∀ r, (run clobber (trapEntry 0x80200100) interrupted).get r = interrupted.get r := by
  have h := trap_entry_restores 0x80200100 clobber interrupted ⟨rfl, fun _ _ => rfl⟩
  exact ⟨h.2.1, h.1⟩

end RvKernel.Trap
