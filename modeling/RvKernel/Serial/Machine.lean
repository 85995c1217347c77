/-
# The serial driver against its interrupt (`serial.c`, `spinlock.h`, `trap.c`)

`serial_read` runs in the shell, `serial_irq` in the interrupt handler, on one hart.  Between any
two instructions of the shell an interrupt can be taken if `sstatus.SIE` is set; it clears that bit,
and `sret` restores it.  So the machine has two places in the code, `call` for the shell and `irq`
for the handler, if it runs, and the shell only moves while it does not.

Every access to `dev`, to `sstatus` and to a device register is an instruction of its own.  Fields
at the end of the state record what happened: the bytes read from the receiver, the bytes handed
out, the indices used on `dev.buf`, and `SIE` before and after each call.
-/
import RvKernel.Lib.Word
import RvKernel.Lib.Lts

namespace RvKernel.Serial

/-! ## 1. The state -/

/-- The interrupt bits of `sstatus`. -/
structure Sstatus where
  sie : Bool
  spie : Bool
  spp : Bool
  deriving DecidableEq

/-- A trap saves `SIE` in `SPIE` and clears it... -/
def Sstatus.trap (st : Sstatus) : Sstatus := ⟨false, st.sie, true⟩

/-- ...and `sret` brings it back. -/
def Sstatus.sret (st : Sstatus) : Sstatus := ⟨st.spie, true, false⟩

/-- `SERIAL_BUF_SIZE`. -/
abbrev SERIAL_BUF_SIZE : ℕ := 256

/-- `struct serialdev`. -/
structure Dev where
  buf : Vector U8 SERIAL_BUF_SIZE
  len : ℕ
  lock : U32

/-- Where the shell is in `serial_read`; `flags` is what `hart_irq_save` returned. -/
inductive Call where
  | outside
  /-- at the `csr_read` of `hart_irq_save` -/
  | save
  /-- at its `hart_irq_disable` -/
  | disable (flags : Sstatus)
  /-- at the `amoswap` of `spin_lock` -/
  | lock (flags : Sstatus)
  /-- at `i < dev.len` -/
  | test (flags : Sstatus) (i : ℕ)
  /-- at the load of `dev.buf[i]` -/
  | load (flags : Sstatus) (i : ℕ)
  /-- at the store to `buf[i]` -/
  | store (flags : Sstatus) (i : ℕ) (c : U8)
  /-- at `ret = dev.len` -/
  | count (flags : Sstatus)
  /-- at `dev.len = 0` -/
  | clear (flags : Sstatus) (ret : ℕ)
  /-- at the `amoswap` of `spin_unlock` -/
  | unlock (flags : Sstatus) (ret : ℕ)
  /-- at the `csr_write` of `hart_irq_restore` -/
  | restore (flags : Sstatus) (ret : ℕ)
  | ret (ret : ℕ)
  deriving DecidableEq

/-- Where the handler is in `handle_irq`. -/
inductive Irq where
  /-- at `plic_hart_claim_irq` -/
  | claim
  /-- at the `amoswap` of `spin_lock`, in `serial_irq` -/
  | lock
  /-- at `dev.len < SERIAL_BUF_SIZE` -/
  | test
  /-- at the load of `SERIAL_RBR` -/
  | rbr
  /-- at the load of `dev.len` -/
  | len (c : U8)
  /-- at the store to `dev.buf[n]` -/
  | store (c : U8) (n : ℕ)
  /-- at the store of `n + 1` to `dev.len` -/
  | inc (n : ℕ)
  /-- at the `amoswap` of `spin_unlock` -/
  | unlock
  /-- at `plic_hart_complete_irq` -/
  | complete
  /-- at `sret` -/
  | leave
  deriving DecidableEq

structure State where
  sstatus : Sstatus
  dev : Dev
  /-- the bytes that wait in the receiver -/
  rx : List U8
  /-- the PLIC has handed the interrupt out, and waits for its completion -/
  inService : Bool
  /-- the caller's buffer -/
  input : Vector U8 256
  call : Call
  irq : Option Irq
  /-- `SIE` when `serial_read` was called -/
  before : Bool
  /-- the bytes read from `SERIAL_RBR` -/
  rbr : List U8
  /-- the bytes handed out by the calls that have released the lock -/
  delivered : List U8
  /-- the indices used on `dev.buf` -/
  touched : List ℕ
  /-- `SIE` before and after each call -/
  calls : List (Bool × Bool)

/-- The interrupt is pending: a byte waits, and the PLIC does not hold the source back. -/
def State.pending (s : State) : Prop := s.rx ≠ [] ∧ s.inService = false

instance (s : State) : Decidable s.pending := inferInstanceAs (Decidable (_ ∧ _))

/-! ## 2. The code -/

/-- One instruction of the shell in `serial_read`. -/
def shellStep (s : State) : Option State :=
  match s.call with
  | .outside => none
  | .save => some { s with call := .disable s.sstatus }
  | .disable flags => some { s with
      sstatus := { s.sstatus with sie := false }
      call := .lock flags }
  | .lock flags => some { s with
      dev := { s.dev with lock := 1 }
      call := if s.dev.lock = 0 then .test flags 0 else .lock flags }
  | .test flags i => some { s with
      call := if i < s.dev.len then .load flags i else .count flags }
  | .load flags i => some { s with
      call := .store flags i (s.dev.buf.toList.getD i 0)
      touched := i :: s.touched }
  | .store flags i c => some { s with
      input := s.input.setIfInBounds i c
      call := .test flags (i + 1) }
  | .count flags => some { s with call := .clear flags s.dev.len }
  | .clear flags ret => some { s with
      dev := { s.dev with len := 0 }
      call := .unlock flags ret }
  | .unlock flags ret => some { s with
      dev := { s.dev with lock := 0 }
      call := .restore flags ret
      delivered := s.delivered ++ s.input.toList.take ret }
  | .restore flags ret => some { s with sstatus := flags, call := .ret ret }
  | .ret _ => some { s with call := .outside, calls := (s.before, s.sstatus.sie) :: s.calls }

/-- One instruction of the handler. -/
def irqStep (pc : Irq) (s : State) : State :=
  match pc with
  | .claim =>
    if s.pending then { s with inService := true, irq := some .lock }
    else { s with irq := some .leave }
  | .lock => { s with
      dev := { s.dev with lock := 1 }
      irq := some (if s.dev.lock = 0 then .test else .lock) }
  | .test => { s with irq := some (if s.dev.len < SERIAL_BUF_SIZE then .rbr else .unlock) }
  | .rbr => { s with
      rx := s.rx.tail
      rbr := s.rbr ++ [s.rx.headD 0]
      irq := some (.len (s.rx.headD 0)) }
  | .len c => { s with irq := some (.store c s.dev.len) }
  | .store c n => { s with
      dev := { s.dev with buf := s.dev.buf.setIfInBounds n c }
      touched := n :: s.touched
      irq := some (.inc n) }
  | .inc n => { s with dev := { s.dev with len := n + 1 }, irq := some .unlock }
  | .unlock => { s with dev := { s.dev with lock := 0 }, irq := some .complete }
  | .complete => { s with inService := false, irq := some .leave }
  | .leave => { s with sstatus := s.sstatus.sret, irq := none }

inductive Event where
  /-- a byte arrives -/
  | receive (c : U8)
  /-- an interrupt is taken -/
  | interrupt
  /-- an instruction of the handler -/
  | handler
  /-- the shell calls `serial_read` -/
  | enter
  /-- the shell calls `hart_irq_enable` -/
  | enable
  /-- an instruction of the shell in `serial_read` -/
  | shell

def step : Event → State → Option State
  | .receive c, s => some { s with rx := s.rx ++ [c] }
  | .interrupt, s =>
    if s.irq = none ∧ s.sstatus.sie = true ∧ s.pending then
      some { s with sstatus := s.sstatus.trap, irq := some .claim }
    else none
  | .handler, s => s.irq.map (irqStep · s)
  | .enter, s =>
    if s.irq = none ∧ s.call = .outside then
      some { s with call := .save, before := s.sstatus.sie }
    else none
  | .enable, s =>
    if s.irq = none ∧ s.call = .outside then
      some { s with sstatus := { s.sstatus with sie := true } }
    else none
  | .shell, s => if s.irq = none then shellStep s else none

/-- The state after `serial_init`, with the interrupt enabled in the UART, the PLIC and `sie`.  The
buffers hold what they held. -/
def start (sstatus : Sstatus) (buf : Vector U8 SERIAL_BUF_SIZE) (input : Vector U8 256)
    (rx : List U8) : State :=
  ⟨sstatus, ⟨buf, 0, 0⟩, rx, false, input, .outside, none, false, [], [], [], []⟩

end RvKernel.Serial
