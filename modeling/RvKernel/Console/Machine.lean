/-
# The console: one hart with the shell and both interrupts

The receiving side (`Serial`), the sending side (`Transmit`) and the loop of `kmain` (`Shell`) have
machines of their own.  Here they are one machine.  The loop runs on the instructions of
`serial_read` and `serial_putc`; each interrupt can come between any two of them, if `sstatus.SIE`
is set; and `sstatus` is one register, that both sides work on.

What the code of a character does is what `Shell.step` says; it is done one event after the other
(`todo`).  The timer interrupt is pending whenever it likes: `stimecmp` is left out.

The invariant has two parts.  `Sides` says that each side has its own invariant, as if the interrupt
of the other one were over (`State.home`); `Loop` says what the shell has in its hands.
-/
import RvKernel.Serial.Interleave
import RvKernel.Serial.Transmit
import RvKernel.Shell.Transcript

namespace RvKernel.Console

open Lts Text
open Serial (Sstatus)

/-! ## 1. The machine -/

structure State where
  rx : Serial.State
  tx : Transmit.State
  /-- the variables of the loop -/
  shell : Shell.State
  /-- what the code of the current character has still to do -/
  todo : List Shell.Event
  /-- the bytes of `input_buf` that the loop has still to look at -/
  chunk : List U8
  /-- the bytes that the loop has looked at -/
  consumed : List U8

inductive Event where
  /-- a byte arrives -/
  | receive (c : U8)
  /-- a byte leaves the transmit FIFO -/
  | drain
  /-- the interrupt of the UART is taken -/
  | serialInterrupt
  /-- an instruction of its handler -/
  | serialHandler
  /-- the interrupt of the timer is taken -/
  | timerInterrupt
  /-- an instruction of its handler -/
  | timerHandler
  /-- an instruction of the shell -/
  | shell

/-- A step of the receiving side; the sending side sees what it does to `sstatus`. -/
def State.rxStep (e : Serial.Event) (s : State) : Option State :=
  (Serial.step e s.rx).map fun rx =>
    { s with rx := rx, tx := { s.tx with sstatus := rx.sstatus } }

/-- A step of the sending side. -/
def State.txStep (e : Transmit.Event) (s : State) : Option State :=
  (Transmit.step e s.tx).map fun tx =>
    { s with tx := tx, rx := { s.rx with sstatus := tx.sstatus } }

/-- The next thing to do of the code of a character.  There is no step past the end of an array. -/
def State.doNext (s : State) : Shell.Event → List Shell.Event → Option State
  | .write b i, evs => if i < b.size then some { s with todo := evs } else none
  | .putc c, evs => (s.txStep (.putc c)).map fun t => { t with todo := evs }
  | .timerIrqEnable, evs => (s.txStep (.stie true)).map fun t => { t with todo := evs }
  | _, evs => some { s with todo := evs }

/-- The code of a character, which is then to be done. -/
def State.look (clock : ℕ → U64) (s : State) (c : U8) (cs : List U8) : Option State :=
  match Shell.step clock s.shell c with
  | .ok t => some { s with
      shell := { t with events := [] }
      todo := t.events
      chunk := cs
      consumed := s.consumed ++ [c] }
  | .error _ => none

/-- `kmain`, outside of the functions it calls. -/
def State.loop (clock : ℕ → U64) (s : State) : Option State :=
  match s.todo, s.chunk with
  | e :: evs, _ => s.doNext e evs
  | [], c :: cs => s.look clock c cs
  | [], [] => s.rxStep .enter

/-- One instruction of the shell: of `serial_putc`, of `serial_read`, or of `kmain`. -/
def State.shellStep (clock : ℕ → U64) (s : State) : Option State :=
  if s.tx.shell ≠ none then s.txStep .shell
  else
    match s.rx.call with
    | .outside => s.loop clock
    | .ret n => (s.rxStep .shell).map fun t => { t with chunk := s.rx.input.toList.take n }
    | _ => s.rxStep .shell

def step (clock : ℕ → U64) : Event → State → Option State
  | .receive c, s => s.rxStep (.receive c)
  | .drain, s => s.txStep .drain
  | .serialInterrupt, s => s.rxStep .interrupt
  | .serialHandler, s => s.rxStep .handler
  | .timerInterrupt, s => s.txStep .timer
  | .timerHandler, s => s.txStep .handler
  | .shell, s => if s.rx.irq = none ∧ s.tx.irq = none then s.shellStep clock else none

/-- What is sent before the first byte is read. -/
def greeting : List U8 := ascii "Shell initialized!\r\n" ++ ascii "> "

/-- The state after `hart_irq_enable`.  The buffers hold what they held. -/
def start (sstatus : Sstatus) (stie : Bool) (buf : Vector U8 Serial.SERIAL_BUF_SIZE)
    (input commandBuf : Vector U8 256) (rx : List U8) : State :=
  ⟨Serial.start sstatus buf input rx, Transmit.start sstatus stie, ⟨commandBuf, 0, 0, []⟩,
    greeting.map .putc, [], []⟩

/-! ## 2. The two sides -/

/-- The receiving side as it will be when `timer_irq` is over. -/
def State.home (s : State) : Serial.State :=
  if s.tx.irq = none then s.rx else { s.rx with sstatus := s.rx.sstatus.sret }

structure Sides (s : State) : Prop where
  same : s.tx.sstatus = s.rx.sstatus
  /-- the handlers do not interrupt each other -/
  timer : s.tx.irq ≠ none → s.rx.irq = none ∧ s.rx.sstatus.sie = false
  rx : Serial.Inv s.home
  tx : Transmit.Inv s.tx

/-- Outside of its handler the receiving side knows nothing of `sstatus` but `SIE`. -/
theorem serial_sstatus {r : Serial.State} (h : Serial.Inv r) (hirq : r.irq = none)
    {st : Sstatus} (hst : st.sie = r.sstatus.sie) : Serial.Inv { r with sstatus := st } := by
  have hhome : r.home = r.sstatus.sie := if_pos hirq
  refine ⟨⟨fun hne => absurd hirq hne, fun hm => ?_, h.masking.flags, fun ho => ?_,
    h.masking.calls⟩, h.locking, ⟨h.data.len_le, h.data.touched, h.data.bytes, h.data.irq,
    h.data.call⟩⟩
  · obtain ⟨-, hsie⟩ := h.masking.masked hm
    exact ⟨hirq, hst.trans hsie⟩
  · have hbefore := h.masking.home ho
    rw [hhome] at hbefore
    rw [Serial.State.home, if_pos hirq]
    exact hst.trans hbefore

/-- The sending side knows nothing of `sstatus`. -/
theorem transmit_sstatus {t : Transmit.State} (h : Transmit.Inv t) (st : Sstatus) :
    Transmit.Inv { t with sstatus := st } :=
  ⟨⟨h.room.room, h.room.shell, h.room.irq⟩, ⟨h.sent.dropped, h.sent.stream⟩⟩

/-- While `timer_irq` does not run, the receiving side moves on its own. -/
theorem Sides.rx_step {s s' : State} (h : Sides s) (htimer : s.tx.irq = none) {e : Serial.Event}
    (hs : s.rxStep e = some s') : Sides s' := by
  obtain ⟨rx, hrx, rfl⟩ := Option.map_eq_some_iff.mp hs
  have hinv : Serial.Inv s.rx := by
    have hhome := h.rx
    rwa [State.home, if_pos htimer] at hhome
  refine ⟨rfl, fun hne => absurd htimer hne, ?_, transmit_sstatus h.tx _⟩
  rw [State.home, if_pos htimer]
  exact hinv.step hrx

/-- A byte can arrive at any time. -/
theorem Sides.receive {s s' : State} (h : Sides s) {c : U8} (hs : s.rxStep (.receive c) = some s') :
    Sides s' := by
  cases hs
  refine ⟨rfl, h.timer, ?_, transmit_sstatus h.tx _⟩
  have hhome := h.rx.step (e := .receive c) rfl
  unfold State.home at hhome ⊢
  split
  · rename_i hnone
    rwa [if_pos hnone] at hhome
  · rename_i hsome
    rwa [if_neg hsome] at hhome

/-- What a step of the sending side does to the one register, apart from the interrupt. -/
theorem transmit_frame {t t' : Transmit.State} {e : Transmit.Event}
    (hs : Transmit.step e t = some t') (htimer : e ≠ .timer) (hsie : ∀ on, e ≠ .sie on) :
    (t'.irq = none ↔ t.irq = none) ∧ t'.sstatus = t.sstatus ∨
      t.irq ≠ none ∧ t'.irq = none ∧ t'.sstatus = t.sstatus.sret := by
  cases e with
  | drain =>
    obtain ⟨u, -, rfl⟩ := Option.map_eq_some_iff.mp hs
    exact Or.inl ⟨Iff.rfl, rfl⟩
  | timer => exact absurd rfl htimer
  | handler =>
    obtain ⟨pc, hpc, hstep⟩ := Option.bind_eq_some_iff.mp hs
    have hne : t.irq ≠ none := by
      rw [hpc]
      exact Option.some_ne_none pc
    cases pc with
    | disable =>
      cases hstep
      exact Or.inl ⟨⟨nofun, fun hnone => absurd hnone hne⟩, rfl⟩
    | alarm o | prompt o =>
      obtain ⟨r, -, rfl⟩ := Option.map_eq_some_iff.mp hstep
      exact Or.inl ⟨⟨nofun, fun hnone => absurd hnone hne⟩, rfl⟩
    | leave =>
      cases hstep
      exact Or.inr ⟨hne, rfl, rfl⟩
  | shell =>
    rw [Transmit.step] at hs
    split at hs
    · obtain ⟨o, -, hs⟩ := Option.bind_eq_some_iff.mp hs
      obtain ⟨r, -, rfl⟩ := Option.map_eq_some_iff.mp hs
      exact Or.inl ⟨Iff.rfl, rfl⟩
    · cases hs
  | puts | putc | stie =>
    rw [Transmit.step] at hs
    split at hs
    · cases hs
      exact Or.inl ⟨Iff.rfl, rfl⟩
    · cases hs
  | sie on => exact absurd rfl (hsie on)

/-- The sending side moves without the receiving side noticing it. -/
theorem Sides.tx_step {s s' : State} (h : Sides s) {e : Transmit.Event}
    (hs : s.txStep e = some s') (htimer : e ≠ .timer) (hsie : ∀ on, e ≠ .sie on) : Sides s' := by
  obtain ⟨tx, htx, rfl⟩ := Option.map_eq_some_iff.mp hs
  have hhome := h.rx
  unfold State.home at hhome
  rcases transmit_frame htx htimer hsie with ⟨hiff, hst⟩ | ⟨hne, hnone, hst⟩
  · rw [h.same] at hst
    refine ⟨rfl, fun hne => ?_, ?_, h.tx.step htx⟩
    · obtain ⟨hirq, hoff⟩ := h.timer (mt hiff.mpr hne)
      exact ⟨hirq, (congrArg Sstatus.sie hst).trans hoff⟩
    · unfold State.home
      simp only [hiff, hst]
      exact hhome
  · rw [h.same] at hst
    rw [if_neg hne] at hhome
    refine ⟨rfl, fun hsome => absurd hnone hsome, ?_, h.tx.step htx⟩
    rw [State.home, if_pos hnone, hst]
    exact hhome

/-- The timer interrupt is taken with the handler of the UART not running, and is undone by the
`sret` to come. -/
theorem Sides.timer_step {s s' : State} (h : Sides s) (hs : s.txStep .timer = some s') :
    Sides s' := by
  obtain ⟨tx, htx, rfl⟩ := Option.map_eq_some_iff.mp hs
  have hinv := h.tx.step htx
  rw [Transmit.step] at htx
  split at htx
  · rename_i hcond
    obtain ⟨hnone, hon, -⟩ := hcond
    cases htx
    have hrx := h.rx
    rw [State.home, if_pos hnone] at hrx
    have hsie : s.rx.sstatus.sie = true := by
      rw [← h.same]
      exact hon
    have hirq : s.rx.irq = none := by
      by_contra hne
      rw [hrx.masking.handler hne] at hsie
      cases hsie
    refine ⟨rfl, fun _ => ⟨hirq, rfl⟩, ?_, hinv⟩
    rw [State.home, if_neg (Option.some_ne_none _)]
    have hst : s.tx.sstatus.sie = s.rx.sstatus.sie := congrArg Sstatus.sie h.same
    exact serial_sstatus hrx hirq hst
  · cases htx

/-- No handler of the sending side runs where the one of the receiving side does, or could. -/
theorem Sides.timer_none {s : State} (h : Sides s)
    (hrx : s.rx.irq ≠ none ∨ s.rx.sstatus.sie = true) : s.tx.irq = none := by
  by_contra hne
  obtain ⟨hirq, hoff⟩ := h.timer hne
  rcases hrx with hsome | hon
  · exact hsome hirq
  · rw [hoff] at hon
    cases hon

end RvKernel.Console
