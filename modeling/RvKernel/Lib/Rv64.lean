/-
# Straight-line RV64 code

The instructions that a stub is made of which saves registers, calls a function and restores them:
`addi`, `sd`, `ld`, the moves from and to the control registers, and `call`.  The memory is one of
bytes, so stores at overlapping addresses overwrite parts of each other; addresses wrap at `2 ^ 64`.
The function called is a parameter, any transformation of the machine.

A save area is a list of slots, each a register and an offset from a base register.

* `mem_saves`: nothing outside the area is written;
* `byte_saves`: each byte of the area is one of the last register saved over it;
* `load_saves`, `load_saves_cut`: so slots that lie apart hold the registers that were saved in
  them, and one that is cut off holds parts of two;
* `get_restores`: restoring distinct registers loads each from its slot.
-/
import RvKernel.Lib.Word

namespace RvKernel.Rv64

/-! ## 1. Memory -/

/-- A memory of bytes. -/
abbrev Mem := U64 → U8

/-- The `i`-th byte of a word, from the low end. -/
def byteOf (v : U64) (i : ℕ) : U8 := v.extractLsb' (8 * i) 8

/-- The word of eight bytes, the first one at the low end. -/
def joinBytes (b : ℕ → U8) : U64 := b 7 ++ b 6 ++ b 5 ++ b 4 ++ b 3 ++ b 2 ++ b 1 ++ b 0

theorem joinBytes_congr {b b' : ℕ → U8} (h : ∀ i < 8, b i = b' i) : joinBytes b = joinBytes b' := by
  unfold joinBytes
  rw [h 0 (by decide), h 1 (by decide), h 2 (by decide), h 3 (by decide), h 4 (by decide),
    h 5 (by decide), h 6 (by decide), h 7 (by decide)]

theorem getLsbD_joinBytes (b : ℕ → U8) {i j : ℕ} (hi : i < 8) (hj : j < 8) :
    (joinBytes b).getLsbD (8 * i + j) = (b i).getLsbD j := by
  simp only [joinBytes, BitVec.getLsbD_append]
  grind

theorem getLsbD_byteOf (v : U64) (i : ℕ) {j : ℕ} (hj : j < 8) :
    (byteOf v i).getLsbD j = v.getLsbD (8 * i + j) := by
  rw [byteOf, BitVec.getLsbD_extractLsb', decide_eq_true hj, Bool.true_and]

/-- A bit of a word is one of its bytes. -/
theorem exists_byte {i : ℕ} (hi : i < 64) : ∃ q r, q < 8 ∧ r < 8 ∧ i = 8 * q + r :=
  ⟨i / 8, i % 8, by omega, by omega, by omega⟩

theorem joinBytes_byteOf (v : U64) : joinBytes (byteOf v) = v := by
  apply BitVec.eq_of_getLsbD_eq
  intro i hi
  obtain ⟨q, r, hq, hr, rfl⟩ := exists_byte hi
  rw [getLsbD_joinBytes _ hq hr, getLsbD_byteOf v q hr]

/-- The word with the first `k` bytes of `v`, and then the first ones of `w`. -/
def splice (k : ℕ) (v w : U64) : U64 :=
  joinBytes fun i => if i < k then byteOf v i else byteOf w (i - k)

theorem getLsbD_splice {k i : ℕ} (v w : U64) (hi : i < 64) :
    (splice k v w).getLsbD i = if i < 8 * k then v.getLsbD i else w.getLsbD (i - 8 * k) := by
  obtain ⟨q, r, hq, hr, rfl⟩ := exists_byte hi
  rw [splice, getLsbD_joinBytes _ hq hr]
  by_cases hqk : q < k
  · rw [if_pos hqk, if_pos (by omega), getLsbD_byteOf v q hr]
  · have hsub : 8 * (q - k) + r = 8 * q + r - 8 * k := by omega
    rw [if_neg hqk, if_neg (by omega), getLsbD_byteOf w _ hr, hsub]

/-- **A word that was cut off is whole just if what replaces the rest of it is the same.** -/
theorem splice_eq_iff {k : ℕ} (v w : U64) :
    splice k v w = v ↔ v.toNat / 2 ^ (8 * k) = w.toNat % 2 ^ (64 - 8 * k) := by
  constructor
  · intro h
    apply Nat.eq_of_testBit_eq
    intro i
    rw [Nat.testBit_div_two_pow, Nat.testBit_mod_two_pow, BitVec.testBit_toNat,
      BitVec.testBit_toNat]
    by_cases hi : i < 64 - 8 * k
    · have hbit := getLsbD_splice (k := k) v w (i := i + 8 * k) (by omega)
      rw [h, if_neg (by omega), Nat.add_sub_cancel] at hbit
      rw [decide_eq_true hi, Bool.true_and]
      exact hbit
    · rw [decide_eq_false hi, Bool.false_and, BitVec.getLsbD_of_ge _ _ (by omega)]
  · intro h
    apply BitVec.eq_of_getLsbD_eq
    intro i hi
    rw [getLsbD_splice v w hi]
    split
    · rfl
    · have hbit := congrArg (·.testBit (i - 8 * k)) h
      simp only [Nat.testBit_div_two_pow, Nat.testBit_mod_two_pow, BitVec.testBit_toNat] at hbit
      rw [decide_eq_true (by omega), Bool.true_and, Nat.sub_add_cancel (by omega)] at hbit
      exact hbit.symm

/-- The memory after a word was stored, little-endian. -/
def store (m : Mem) (a v : U64) : Mem :=
  fun x => if (x - a).toNat < 8 then byteOf v (x - a).toNat else m x

/-- The word at an address. -/
def load (m : Mem) (a : U64) : U64 := joinBytes fun i => m (a + BitVec.ofNat 64 i)

/-- A word at an offset, from the bytes at the offsets behind. -/
theorem load_offset (m : Mem) (b : U64) (j : ℕ) :
    load m (b + BitVec.ofNat 64 j) = joinBytes fun i => m (b + BitVec.ofNat 64 (j + i)) := by
  apply joinBytes_congr
  intro i hi
  rw [add_assoc, BitVec.ofNat_add]

/-- A stretch of memory that is left alone has the same words. -/
theorem load_of_frame {m m' : Mem} {b : U64} {n : ℕ}
    (h : ∀ i < n, m (b + BitVec.ofNat 64 i) = m' (b + BitVec.ofNat 64 i)) {j : ℕ}
    (hj : j + 8 ≤ n) : load m (b + BitVec.ofNat 64 j) = load m' (b + BitVec.ofNat 64 j) := by
  rw [load_offset, load_offset]
  apply joinBytes_congr
  intro i hi
  exact h (j + i) (by omega)

theorem store_outside (m : Mem) {a x : U64} (v : U64) (h : 8 ≤ (x - a).toNat) :
    store m a v x = m x := if_neg (not_lt.mpr h)

theorem load_store_same (m : Mem) (a v : U64) : load (store m a v) a = v := by
  have hbytes : ∀ i < 8, store m a v (a + BitVec.ofNat 64 i) = byteOf v i := by
    intro i hi
    have hsub : (a + BitVec.ofNat 64 i - a).toNat = i := by
      rw [add_sub_cancel_left, BitVec.toNat_ofNat]
      omega
    rw [store, hsub, if_pos hi]
  rw [load, joinBytes_congr hbytes, joinBytes_byteOf]

/-- The word at the offset `j` covers the byte at `i`. -/
def Covers (j i : ℕ) : Prop := j ≤ i ∧ i < j + 8

instance (j i : ℕ) : Decidable (Covers j i) := inferInstanceAs (Decidable (_ ∧ _))

/-- A byte after a store: it is one of the word, or as it was. -/
theorem store_offset (m : Mem) (b v : U64) {i j : ℕ} (hj : j + 8 ≤ 2 ^ 63) (hi : i < 2 ^ 63) :
    store m (b + BitVec.ofNat 64 j) v (b + BitVec.ofNat 64 i)
      = if Covers j i then byteOf v (i - j) else m (b + BitVec.ofNat 64 i) := by
  have hdiff : b + BitVec.ofNat 64 i - (b + BitVec.ofNat 64 j)
      = BitVec.ofNat 64 i - BitVec.ofNat 64 j := by abel
  have hnat : (BitVec.ofNat 64 i - BitVec.ofNat 64 j).toNat = (2 ^ 64 - j + i) % 2 ^ 64 := by
    rw [BitVec.toNat_sub, BitVec.toNat_ofNat, BitVec.toNat_ofNat]
    omega
  rw [store, hdiff, hnat]
  by_cases hcover : Covers j i
  · obtain ⟨hle, hlt⟩ := hcover
    have hmod : (2 ^ 64 - j + i) % 2 ^ 64 = i - j := by omega
    rw [hmod, if_pos (by omega), if_pos ⟨hle, hlt⟩]
  · rw [if_neg hcover, if_neg]
    unfold Covers at hcover
    omega

/-- Two offsets of words that do not overlap. -/
def Apart (i j : ℕ) : Prop := i + 8 ≤ j ∨ j + 8 ≤ i

instance (i j : ℕ) : Decidable (Apart i j) := inferInstanceAs (Decidable (_ ∨ _))

theorem Apart.symm {i j : ℕ} (h : Apart i j) : Apart j i := Or.symm h

theorem Apart.not_covers {i j k : ℕ} (h : Apart i j) (hk : k < 8) : ¬ Covers i (j + k) := by
  unfold Apart at h
  unfold Covers
  omega

/-- A store to one of them leaves the other. -/
theorem load_store_apart (m : Mem) (b v : U64) {i j : ℕ} (h : Apart i j) (hi : i + 8 ≤ 2 ^ 63)
    (hj : j + 8 ≤ 2 ^ 63) :
    load (store m (b + BitVec.ofNat 64 i) v) (b + BitVec.ofNat 64 j)
      = load m (b + BitVec.ofNat 64 j) := by
  rw [load_offset, load_offset]
  apply joinBytes_congr
  intro k hk
  rw [store_offset m b v hi (by omega), if_neg (h.not_covers hk)]

/-! ## 2. The machine -/

abbrev Reg := Fin 32

instance neZeroRegs : NeZero 32 := ⟨by decide⟩

/-- A control register, by its number. -/
abbrev Csr := BitVec 12

/-- The registers and the memory.  What `reg` has for `x0` is never read. -/
structure Cpu where
  reg : Reg → U64
  csr : Csr → U64
  mem : Mem

/-- The value of a register; `x0` is zero. -/
def Cpu.get (c : Cpu) (r : Reg) : U64 := if r = 0 then 0 else c.reg r

/-- A write to a register; one to `x0` is none. -/
def Cpu.set (c : Cpu) (r : Reg) (v : U64) : Cpu :=
  { c with reg := fun i => if i = r then v else c.reg i }

def Cpu.setCsr (c : Cpu) (n : Csr) (v : U64) : Cpu :=
  { c with csr := fun i => if i = n then v else c.csr i }

@[simp] theorem get_set_same (c : Cpu) {r : Reg} (h : r ≠ 0) (v : U64) : (c.set r v).get r = v := by
  rw [Cpu.get, if_neg h]
  exact if_pos rfl

@[simp] theorem get_set_ne (c : Cpu) {r i : Reg} (h : i ≠ r) (v : U64) :
    (c.set r v).get i = c.get i := by
  unfold Cpu.get Cpu.set
  simp only [if_neg h]

@[simp] theorem csr_set (c : Cpu) (r : Reg) (v : U64) : (c.set r v).csr = c.csr := rfl

@[simp] theorem mem_set (c : Cpu) (r : Reg) (v : U64) : (c.set r v).mem = c.mem := rfl

@[simp] theorem get_setCsr (c : Cpu) (n : Csr) (v : U64) (r : Reg) :
    (c.setCsr n v).get r = c.get r := rfl

@[simp] theorem csr_setCsr (c : Cpu) (n : Csr) (v : U64) : (c.setCsr n v).csr n = v := if_pos rfl

@[simp] theorem mem_setCsr (c : Cpu) (n : Csr) (v : U64) : (c.setCsr n v).mem = c.mem := rfl

/-! ## 3. Instructions -/

/-- The instructions; an immediate is the integer that the assembler is given. -/
inductive Instr where
  | addi (rd rs : Reg) (imm : ℤ)
  /-- `sd rs2, off(rs1)` -/
  | sd (rs2 : Reg) (off : ℤ) (rs1 : Reg)
  /-- `ld rd, off(rs1)` -/
  | ld (rd : Reg) (off : ℤ) (rs1 : Reg)
  | csrr (rd : Reg) (csr : Csr)
  | csrw (csr : Csr) (rs : Reg)
  /-- the call of the one function, which is to return to `link` -/
  | call (link : U64)

/-- The return address register. -/
def ra : Reg := 1

/-- One instruction, `f` being the function that is called. -/
def exec (f : Cpu → Cpu) : Instr → Cpu → Cpu
  | .addi rd rs imm, c => c.set rd (c.get rs + BitVec.ofInt 64 imm)
  | .sd rs2 off rs1, c =>
    { c with mem := store c.mem (c.get rs1 + BitVec.ofInt 64 off) (c.get rs2) }
  | .ld rd off rs1, c => c.set rd (load c.mem (c.get rs1 + BitVec.ofInt 64 off))
  | .csrr rd csr, c => c.set rd (c.csr csr)
  | .csrw csr rs, c => c.setCsr csr (c.get rs)
  | .call link, c => f (c.set ra link)

/-- The instructions one after the other. -/
def run (f : Cpu → Cpu) (is : List Instr) (c : Cpu) : Cpu := is.foldl (fun c i => exec f i c) c

variable {f : Cpu → Cpu} {c : Cpu}

@[simp] theorem run_nil : run f [] c = c := rfl

@[simp] theorem run_cons (i : Instr) (is : List Instr) :
    run f (i :: is) c = run f is (exec f i c) :=
  rfl

theorem run_append (is js : List Instr) : run f (is ++ js) c = run f js (run f is c) :=
  List.foldl_append

def Instr.isCall : Instr → Bool
  | .call _ => true
  | _ => false

/-- Code that calls nothing does not depend on the function. -/
theorem run_eq_of_no_call {g : Cpu → Cpu} {is : List Instr} (h : is.all (!·.isCall)) :
    run f is c = run g is c := by
  induction is generalizing c with
  | nil => rfl
  | cons i is ih =>
    obtain ⟨hi, his⟩ := Bool.and_eq_true_iff.mp (List.all_cons.symm.trans h)
    have hexec : exec f i c = exec g i c := by
      cases i with
      | call link => exact absurd hi Bool.false_ne_true
      | _ => rfl
    rw [run_cons, run_cons, hexec]
    exact ih his

/-- **Code around a call**: the function gets the machine that the code in front leaves, with the
return address, and the code behind gets what it returns. -/
theorem run_around_call {is : List Instr} (h : is.all (!·.isCall)) (link : U64)
    (js : List Instr) :
    run f (is ++ .call link :: js) c = run f js (f ((run id is c).set ra link)) := by
  rw [run_append, run_cons, run_eq_of_no_call (g := id) h, exec]

/-! ## 4. Save areas -/

/-- A register and the offset it is saved at. -/
abbrev Slot := Reg × ℕ

/-- The address of an offset from a base register. -/
def Cpu.at (c : Cpu) (base : Reg) (off : ℕ) : U64 := c.get base + BitVec.ofNat 64 off

def saves (base : Reg) (slots : List Slot) : List Instr := slots.map fun s => .sd s.1 s.2 base

def restores (base : Reg) (slots : List Slot) : List Instr := slots.map fun s => .ld s.1 s.2 base

variable {b : Reg}

theorem exec_save (s : Slot) : exec f (.sd s.1 s.2 b) c
    = { c with mem := store c.mem (c.at b s.2) (c.get s.1) } := by
  rw [exec, BitVec.ofInt_natCast]
  rfl

theorem exec_restore (s : Slot) : exec f (.ld s.1 s.2 b) c
    = c.set s.1 (load c.mem (c.at b s.2)) := by
  rw [exec, BitVec.ofInt_natCast]
  rfl

/-- Saving registers changes the memory only... -/
theorem run_saves (slots : List Slot) :
    ∃ m, run f (saves b slots) c = { c with mem := m } := by
  induction slots generalizing c with
  | nil => exact ⟨c.mem, rfl⟩
  | cons s slots ih =>
    obtain ⟨m, hm⟩ := ih (c := { c with mem := store c.mem (c.at b s.2) (c.get s.1) })
    refine ⟨m, ?_⟩
    rw [saves, List.map_cons, run_cons, exec_save]
    exact hm

theorem get_saves (slots : List Slot) (r : Reg) :
    (run f (saves b slots) c).get r = c.get r := by
  obtain ⟨m, hm⟩ := run_saves (f := f) (c := c) (b := b) slots
  rw [hm]
  rfl

theorem csr_saves (slots : List Slot) : (run f (saves b slots) c).csr = c.csr := by
  obtain ⟨m, hm⟩ := run_saves (f := f) (c := c) (b := b) slots
  rw [hm]

/-- ...and there only what lies in the area... -/
theorem mem_saves {slots : List Slot} {n : ℕ} (hslots : ∀ s ∈ slots, s.2 + 8 ≤ n) (hn : n ≤ 2 ^ 63)
    {x : U64} (hx : n ≤ (x - c.get b).toNat) :
    (run f (saves b slots) c).mem x = c.mem x := by
  induction slots generalizing c with
  | nil => rfl
  | cons s slots ih =>
    obtain ⟨hs, hrest⟩ := List.forall_mem_cons.mp hslots
    rw [saves, List.map_cons, run_cons, exec_save]
    have hsplit : x - c.at b s.2 = x - c.get b - BitVec.ofNat 64 s.2 :=
      sub_add_eq_sub_sub _ _ _
    have hfar : 8 ≤ (x - c.at b s.2).toNat := by
      have := (x - c.get b).isLt
      rw [hsplit, BitVec.toNat_sub, BitVec.toNat_ofNat]
      omega
    have hstore : store c.mem (c.at b s.2) (c.get s.1) x = c.mem x := store_outside _ _ hfar
    have hlater := ih (c := { c with mem := store c.mem (c.at b s.2) (c.get s.1) }) hrest hx
    exact hlater.trans hstore

/-- The slot that a byte of the area belongs to: the last one saved that covers it. -/
def owner : List Slot → ℕ → Option Slot
  | [], _ => none
  | s :: slots, i => (owner slots i).or (if Covers s.2 i then some s else none)

/-- **...where each byte is one of the register whose slot it belongs to.** -/
theorem byte_saves {slots : List Slot} (hslots : ∀ s ∈ slots, s.2 + 8 ≤ 2 ^ 63) {i : ℕ}
    (hi : i < 2 ^ 63) : (run f (saves b slots) c).mem (c.at b i)
      = (owner slots i).elim (c.mem (c.at b i)) fun s => byteOf (c.get s.1) (i - s.2) := by
  induction slots generalizing c with
  | nil => rfl
  | cons s slots ih =>
    obtain ⟨hs, hrest⟩ := List.forall_mem_cons.mp hslots
    rw [saves, List.map_cons, run_cons, exec_save]
    refine (ih (c := { c with mem := store c.mem (c.at b s.2) (c.get s.1) }) hrest).trans ?_
    rw [owner]
    cases owner slots i with
    | some t => rfl
    | none =>
      -- its own store, which the later ones leave alone
      simp only [Option.elim_none, Option.none_or]
      refine (store_offset c.mem (c.get b) _ hs hi).trans ?_
      split
      · rfl
      · rfl

section Load

variable {slots : List Slot} {s : Slot}

/-- A slot that is cut off by another one, `k` bytes behind it... -/
theorem load_saves_cut (hslots : ∀ s ∈ slots, s.2 + 8 ≤ 2 ^ 63) (hs : s ∈ slots) {t : Slot} {k : ℕ}
    (ht : t.2 = s.2 + k) (howner : ∀ i < 8, owner slots (s.2 + i) = some (if i < k then s else t)) :
    load (run f (saves b slots) c).mem (c.at b s.2) = splice k (c.get s.1) (c.get t.1) := by
  refine (load_offset _ (c.get b) s.2).trans ?_
  apply joinBytes_congr
  intro i hi
  have hin := hslots s hs
  refine (byte_saves hslots (by omega)).trans ?_
  rw [howner i hi, Option.elim_some]
  split
  · rw [Nat.add_sub_cancel_left]
  · rw [ht, Nat.add_sub_add_left]

/-- ...and one that is not. -/
theorem load_saves_owned (hslots : ∀ s ∈ slots, s.2 + 8 ≤ 2 ^ 63) (hs : s ∈ slots)
    (howner : ∀ i < 8, owner slots (s.2 + i) = some s) :
    load (run f (saves b slots) c).mem (c.at b s.2) = c.get s.1 := by
  refine (load_offset _ (c.get b) s.2).trans ?_
  rw [← joinBytes_byteOf (c.get s.1)]
  apply joinBytes_congr
  intro i hi
  have hin := hslots s hs
  refine (byte_saves hslots (by omega)).trans ?_
  rw [howner i hi, Option.elim_some, Nat.add_sub_cancel_left]

theorem owner_eq_none {i : ℕ} (h : ∀ s ∈ slots, ¬ Covers s.2 i) : owner slots i = none := by
  induction slots with
  | nil => rfl
  | cons s slots ih =>
    obtain ⟨hs, hrest⟩ := List.forall_mem_cons.mp h
    rw [owner, ih hrest, if_neg hs, Option.none_or]

/-- Where all slots lie apart, none is cut off. -/
theorem owner_of_apart (hapart : slots.Pairwise fun s t => Apart s.2 t.2) :
    ∀ s ∈ slots, ∀ i < 8, owner slots (s.2 + i) = some s := by
  induction slots with
  | nil => exact fun s hs => absurd hs List.not_mem_nil
  | cons t slots ih =>
    obtain ⟨ht, hrest⟩ := List.pairwise_cons.mp hapart
    intro s hs i hi
    rw [owner]
    rcases List.mem_cons.mp hs with rfl | hs
    · have hcover : Covers s.2 (s.2 + i) := ⟨Nat.le_add_right _ _, Nat.add_lt_add_left hi _⟩
      rw [owner_eq_none fun u hu => (ht u hu).symm.not_covers hi, Option.none_or, if_pos hcover]
    · rw [ih hrest s hs i hi, Option.some_or]

/-- **Slots that lie apart hold what was saved in them.** -/
theorem load_saves (hapart : slots.Pairwise fun s t => Apart s.2 t.2)
    (hslots : ∀ s ∈ slots, s.2 + 8 ≤ 2 ^ 63) :
    ∀ s ∈ slots, load (run f (saves b slots) c).mem (c.at b s.2) = c.get s.1 :=
  fun s hs => load_saves_owned hslots hs (owner_of_apart hapart s hs)

end Load

/-- Restoring registers changes these registers only... -/
theorem get_restores_ne {slots : List Slot} {r : Reg} (h : r ∉ slots.map Prod.fst) :
    (run f (restores b slots) c).get r = c.get r := by
  induction slots generalizing c with
  | nil => rfl
  | cons s slots ih =>
    obtain ⟨hs, hrest⟩ := not_or.mp (mt List.mem_cons.mpr h)
    rw [restores, List.map_cons, run_cons, exec_restore]
    exact (ih hrest).trans (get_set_ne _ hs _)

theorem run_restores (slots : List Slot) :
    ∃ reg, run f (restores b slots) c = { c with reg := reg } := by
  induction slots generalizing c with
  | nil => exact ⟨c.reg, rfl⟩
  | cons s slots ih =>
    obtain ⟨reg, hreg⟩ := ih (c := c.set s.1 (load c.mem (c.at b s.2)))
    refine ⟨reg, ?_⟩
    rw [restores, List.map_cons, run_cons, exec_restore]
    exact hreg

theorem csr_restores (slots : List Slot) : (run f (restores b slots) c).csr = c.csr := by
  obtain ⟨reg, hreg⟩ := run_restores (f := f) (c := c) (b := b) slots
  rw [hreg]

theorem mem_restores (slots : List Slot) : (run f (restores b slots) c).mem = c.mem := by
  obtain ⟨reg, hreg⟩ := run_restores (f := f) (c := c) (b := b) slots
  rw [hreg]

/-- **...and loads each from its slot**, the base register too if its slot holds it. -/
theorem get_restores {slots : List Slot} (hnodup : (slots.map Prod.fst).Nodup)
    (hbase : ∀ s ∈ slots, s.1 = b → load c.mem (c.at b s.2) = c.get b)
    (hzero : 0 ∉ slots.map Prod.fst) :
    ∀ s ∈ slots, (run f (restores b slots) c).get s.1 = load c.mem (c.at b s.2) := by
  induction slots generalizing c with
  | nil => exact fun s hs => absurd hs List.not_mem_nil
  | cons t slots ih =>
    obtain ⟨ht, hrest⟩ := List.nodup_cons.mp hnodup
    obtain ⟨hb, hbase⟩ := List.forall_mem_cons.mp hbase
    obtain ⟨hz, hzero⟩ := not_or.mp (mt List.mem_cons.mpr hzero)
    intro s hs
    rw [restores, List.map_cons, run_cons, exec_restore]
    rcases List.mem_cons.mp hs with rfl | hs
    · exact (get_restores_ne ht).trans (get_set_same _ (Ne.symm hz) _)
    · have hkeep : (c.set t.1 (load c.mem (c.at b t.2))).get b = c.get b := by
        by_cases htb : t.1 = b
        · rw [hb htb, htb, get_set_same _ (htb ▸ Ne.symm hz)]
        · exact get_set_ne _ (Ne.symm htb) _
      have hat : ∀ i, (c.set t.1 (load c.mem (c.at b t.2))).at b i = c.at b i :=
        fun i => congrArg (· + BitVec.ofNat 64 i) hkeep
      refine (ih hrest (fun u hu hub => ?_) hzero s hs).trans ?_
      · rw [hat, hkeep]
        exact hbase u hu hub
      · rw [hat]
        rfl

end RvKernel.Rv64
