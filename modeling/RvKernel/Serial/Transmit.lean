/-
# The transmitter (`serial_puts`, `serial_putc`, `timer_irq`)

`serial_putc` looks at `LSR.THRE`, and then writes to the transmit FIFO.  The shell does so, and so
does `timer_irq`, which can run between any two instructions of the shell while `SIE` and `STIE` are
set: between the look and the write, too.  Then the shell writes to a FIFO that is not empty any
more.

It holds one byte at most: each byte of the handler waits for the one before it to leave.  So the
FIFO never holds more than two of its sixteen bytes (`Inv`), none is dropped, and the stream is that
of the shell with each message of the handler in one piece (`transmit_merges`).

The UART is in FIFO mode (`serial_init`), which clears the FIFO: `THRE` is set just if it is empty,
and its bytes leave in order, whenever they like.
-/
import RvKernel.Serial.Machine
import RvKernel.Text.Str

namespace RvKernel.Transmit

open Lts Text
open Serial (Sstatus)

/-! ## 1. The UART -/

/-- The transmitter: its FIFO, the bytes that have left it, and those that were written while it was
full. -/
structure Uart where
  fifo : List U8
  sent : List U8
  dropped : List U8
  deriving DecidableEq

/-- The bytes the FIFO has room for. -/
abbrev fifoSize : ℕ := 16

/-- `LSR.THRE`. -/
def Uart.thre (u : Uart) : Bool := u.fifo.isEmpty

/-- A write to `THR`. -/
def Uart.write (u : Uart) (c : U8) : Uart :=
  if u.fifo.length < fifoSize then { u with fifo := u.fifo ++ [c] }
  else { u with dropped := u.dropped ++ [c] }

/-- The oldest byte leaves. -/
def Uart.drain (u : Uart) : Option Uart :=
  match u.fifo with
  | [] => none
  | c :: rest => some { u with fifo := rest, sent := u.sent ++ [c] }

/-- All bytes that were taken, in the order they leave. -/
def Uart.stream (u : Uart) : List U8 := u.sent ++ u.fifo

/-! ## 2. The code -/

/-- Where a context is in `serial_puts` and `serial_putc`; `k` is the string that is left behind the
byte, if `serial_puts` made the call. -/
inductive Out where
  /-- at `str[0] != '\0'` -/
  | str (p : Ptr)
  /-- at the load of `LSR` -/
  | poll (c : U8) (k : Option Ptr)
  /-- at the test of what was loaded -/
  | test (thre : Bool) (c : U8) (k : Option Ptr)
  /-- at the store to `THR` -/
  | write (c : U8) (k : Option Ptr)
  deriving DecidableEq

/-- One instruction: where it leads, `none` being the return to the caller. -/
def outStep : Out → Uart → Option (Option Out × Uart)
  | .str [], _ => none
  | .str (c :: p), u => some (if c = 0 then none else some (.poll c (some p)), u)
  | .poll c k, u => some (some (.test u.thre c k), u)
  | .test thre c k, u => some (some (if thre then .write c k else .poll c k), u)
  | .write c k, u => some (k.map .str, u.write c)

/-- Where the handler is in `timer_irq`. -/
inductive Irq where
  /-- at `timer_irq_disable` -/
  | disable
  /-- in `serial_puts("alarm\r\n")` -/
  | alarm (o : Out)
  /-- in `serial_puts("> ")` -/
  | prompt (o : Out)
  /-- at `sret` -/
  | leave
  deriving DecidableEq

structure State where
  uart : Uart
  sstatus : Sstatus
  /-- `sie.STIE` -/
  stie : Bool
  /-- where the shell is, if it is in one of the functions -/
  shell : Option Out
  irq : Option Irq
  /-- the bytes that the shell has asked to be sent, in program order -/
  asked : List U8
  /-- the number of times `timer_irq` has returned -/
  alarms : ℕ

/-- One instruction of the handler. -/
def irqStep : Irq → State → Option State
  | .disable, s => some { s with
      stie := false
      irq := some (.alarm (.str (literal "alarm\r\n"))) }
  | .alarm o, s => (outStep o s.uart).map fun r => { s with
      uart := r.2
      irq := some (match r.1 with
        | none => .prompt (.str (literal "> "))
        | some o' => .alarm o') }
  | .prompt o, s => (outStep o s.uart).map fun r => { s with
      uart := r.2
      irq := some (match r.1 with
        | none => .leave
        | some o' => .prompt o') }
  | .leave, s => some { s with
      sstatus := s.sstatus.sret
      irq := none
      alarms := s.alarms + 1 }

inductive Event where
  /-- a byte leaves the FIFO -/
  | drain
  /-- the timer interrupt is taken -/
  | timer
  /-- an instruction of the handler -/
  | handler
  /-- an instruction of the shell in one of the functions -/
  | shell
  /-- the shell calls `serial_puts` -/
  | puts (p : Ptr)
  /-- the shell calls `serial_putc` -/
  | putc (c : U8)
  /-- the shell writes `sstatus.SIE`, as `hart_irq_enable`, `_save` and `_restore` do -/
  | sie (on : Bool)
  /-- the shell writes `sie.STIE`, as `timer_irq_enable` does -/
  | stie (on : Bool)

/-- The bytes of the string a pointer points to. -/
def text (p : Ptr) : List U8 := p.takeWhile (· ≠ 0)

def step : Event → State → Option State
  | .drain, s => s.uart.drain.map fun u => { s with uart := u }
  | .timer, s =>
    if s.irq = none ∧ s.sstatus.sie = true ∧ s.stie = true then
      some { s with sstatus := s.sstatus.trap, irq := some .disable }
    else none
  | .handler, s => s.irq.bind (irqStep · s)
  | .shell, s =>
    if s.irq = none then
      s.shell.bind fun o => (outStep o s.uart).map fun r => { s with uart := r.2, shell := r.1 }
    else none
  | .puts p, s =>
    if s.irq = none ∧ s.shell = none then
      some { s with shell := some (.str p), asked := s.asked ++ text p }
    else none
  | .putc c, s =>
    if s.irq = none ∧ s.shell = none then
      some { s with shell := some (.poll c none), asked := s.asked ++ [c] }
    else none
  | .sie on, s =>
    if s.irq = none ∧ s.shell = none then
      some { s with sstatus := { s.sstatus with sie := on } }
    else none
  | .stie on, s =>
    if s.irq = none ∧ s.shell = none then some { s with stie := on } else none

/-- The state after `serial_init`. -/
def start (sstatus : Sstatus) (stie : Bool) : State :=
  ⟨⟨[], [], []⟩, sstatus, stie, none, none, [], 0⟩

/-! ## 3. One instruction -/

/-- The bytes that a context still has to write. -/
def Out.rest : Out → List U8
  | .str p => text p
  | .poll c k => c :: (k.map text).getD []
  | .test _ c k => c :: (k.map text).getD []
  | .write c k => c :: (k.map text).getD []

/-- It has seen the FIFO empty, and not written yet. -/
def Out.ready : Out → Bool
  | .test thre _ _ => thre
  | .write _ _ => true
  | _ => false

/-- The same for a context that may have returned. -/
def restOf (o : Option Out) : List U8 := (o.map Out.rest).getD []
def readyOf (o : Option Out) : Bool := o.any Out.ready

theorem rest_str_cons {c : U8} {p : Ptr} (hc : c ≠ 0) : (Out.str (c :: p)).rest = c :: text p := by
  rw [Out.rest, text, List.takeWhile_cons_of_pos (by simpa using hc), text]

/-- **What an instruction of the output functions does**: it writes the byte that is due, having
seen the FIFO empty, or it writes nothing. -/
theorem outStep_cases {o : Out} {o' : Option Out} {u u' : Uart} (h : outStep o u = some (o', u')) :
    (u' = u ∧ restOf o' = o.rest ∧ (readyOf o' = true → o.ready = true ∨ u.fifo = [])) ∨
      ∃ c, o.ready = true ∧ u' = u.write c ∧ o.rest = c :: restOf o' ∧ readyOf o' = false := by
  cases o with
  | str p =>
    left
    cases p with
    | nil => cases h
    | cons c p =>
      simp only [outStep, Option.some.injEq, Prod.mk.injEq] at h
      obtain ⟨rfl, rfl⟩ := h
      by_cases hc : c = 0
      · subst hc
        exact ⟨rfl, rfl, fun hready => absurd hready Bool.false_ne_true⟩
      · rw [if_neg hc, rest_str_cons hc]
        exact ⟨rfl, rfl, fun hready => absurd hready Bool.false_ne_true⟩
  | poll c k =>
    left
    cases h
    exact ⟨rfl, rfl, fun hready => Or.inr (List.isEmpty_iff.mp hready)⟩
  | test thre c k =>
    left
    cases h
    cases thre with
    | true => exact ⟨rfl, rfl, fun _ => Or.inl rfl⟩
    | false => exact ⟨rfl, rfl, fun hready => absurd hready Bool.false_ne_true⟩
  | write c k =>
    right
    cases h
    refine ⟨c, rfl, rfl, ?_, ?_⟩
    · cases k with
      | none => rfl
      | some p => rfl
    · cases k with
      | none => rfl
      | some p => rfl

/-- What the handler sends. -/
def message : List U8 := ascii "alarm\r\n> "

/-- The bytes that the handler still has to write. -/
def Irq.todo : Irq → List U8
  | .disable => message
  | .alarm o => o.rest ++ ascii "> "
  | .prompt o => o.rest
  | .leave => []

def Irq.ready : Irq → Bool
  | .alarm o => o.ready
  | .prompt o => o.ready
  | _ => false

/-- **What an instruction of the handler does**: likewise, or it returns. -/
theorem irqStep_cases {pc : Irq} {s s' : State} (h : irqStep pc s = some s') :
    s'.shell = s.shell ∧ s'.asked = s.asked ∧
      ((∃ pc', s'.irq = some pc' ∧ s'.uart = s.uart ∧ s'.alarms = s.alarms ∧ pc'.todo = pc.todo ∧
          (pc'.ready = true → pc.ready = true ∨ s.uart.fifo = [])) ∨
        (∃ pc' c, s'.irq = some pc' ∧ pc.ready = true ∧ s'.uart = s.uart.write c ∧
          s'.alarms = s.alarms ∧ pc.todo = c :: pc'.todo ∧ pc'.ready = false) ∨
        (s'.irq = none ∧ s'.uart = s.uart ∧ s'.alarms = s.alarms + 1 ∧ pc.todo = [])) := by
  cases pc with
  | disable =>
    cases h
    exact ⟨rfl, rfl, Or.inl ⟨_, rfl, rfl, rfl, rfl, fun hready => absurd hready Bool.false_ne_true⟩⟩
  | alarm o =>
    obtain ⟨⟨o', u'⟩, hout, rfl⟩ := Option.map_eq_some_iff.mp h
    refine ⟨rfl, rfl, ?_⟩
    rcases outStep_cases hout with ⟨rfl, hrest, hready⟩ | ⟨c, hready, rfl, hrest, hready'⟩
    · left
      cases o' with
      | none =>
        refine ⟨_, rfl, rfl, rfl, ?_, fun hr => absurd hr Bool.false_ne_true⟩
        rw [Irq.todo, Irq.todo, ← hrest]
        rfl
      | some o' => exact ⟨_, rfl, rfl, rfl, congrArg (· ++ ascii "> ") hrest, hready⟩
    · right; left
      cases o' with
      | none =>
        refine ⟨_, c, rfl, hready, rfl, rfl, ?_, rfl⟩
        rw [Irq.todo, Irq.todo, hrest]
        rfl
      | some o' => exact ⟨_, c, rfl, hready, rfl, rfl, congrArg (· ++ ascii "> ") hrest, hready'⟩
  | prompt o =>
    obtain ⟨⟨o', u'⟩, hout, rfl⟩ := Option.map_eq_some_iff.mp h
    refine ⟨rfl, rfl, ?_⟩
    rcases outStep_cases hout with ⟨rfl, hrest, hready⟩ | ⟨c, hready, rfl, hrest, hready'⟩
    · left
      cases o' with
      | none => exact ⟨_, rfl, rfl, rfl, hrest, fun hr => absurd hr Bool.false_ne_true⟩
      | some o' => exact ⟨_, rfl, rfl, rfl, hrest, hready⟩
    · right; left
      cases o' with
      | none => exact ⟨_, c, rfl, hready, rfl, rfl, hrest, rfl⟩
      | some o' => exact ⟨_, c, rfl, hready, rfl, rfl, hrest, hready'⟩
  | leave =>
    cases h
    exact ⟨rfl, rfl, Or.inr (Or.inr ⟨rfl, rfl, rfl, rfl⟩)⟩

/-! ## 4. Every interleaving -/

/-- **The stream that is expected**: the bytes of the shell in order, and `n` messages of the
handler in between, each in one piece. -/
inductive Merged : List U8 → ℕ → List U8 → Prop
  | nil : Merged [] 0 []
  | byte {w : List U8} {n : ℕ} {t : List U8} (c : U8) :
      Merged w n t → Merged (w ++ [c]) n (t ++ [c])
  | message {w : List U8} {n : ℕ} {t : List U8} : Merged w n t → Merged w (n + 1) (t ++ message)

/-- The bytes of the message that are still to come; without a handler, all of them are. -/
def State.todo (s : State) : List U8 := (s.irq.map Irq.todo).getD message

/-- What the FIFO holds, at each place in the code: nothing where the handler is about to write, and
a byte at most where the shell is. -/
structure Room (s : State) : Prop where
  room : s.uart.fifo.length ≤ 2
  shell : readyOf s.shell = true → s.uart.fifo.length ≤ 1
  irq : s.irq.any Irq.ready = true → s.uart.fifo = []

/-- What has been sent: a stream as expected, and behind it what the handler that runs has sent of
its message. -/
structure Sent (s : State) : Prop where
  dropped : s.uart.dropped = []
  stream : ∃ w t q, s.uart.stream = t ++ q ∧ Merged w s.alarms t ∧ s.asked = w ++ restOf s.shell ∧
    q ++ s.todo = message

/-- A write to a FIFO with room. -/
theorem Uart.write_of_room {u : Uart} (h : u.fifo.length ≤ 1) (c : U8) :
    (u.write c).fifo = u.fifo ++ [c] ∧ (u.write c).dropped = u.dropped ∧
      (u.write c).stream = u.stream ++ [c] := by
  have hlt : u.fifo.length < fifoSize := lt_of_le_of_lt h (by decide)
  have hwrite : u.write c = { u with fifo := u.fifo ++ [c] } := if_pos hlt
  rw [hwrite]
  exact ⟨rfl, rfl, (List.append_assoc _ _ _).symm⟩

/-- A byte that leaves changes no stream, and makes room. -/
theorem Uart.drain_cases {u u' : Uart} (h : u.drain = some u') :
    ∃ c, u.fifo = c :: u'.fifo ∧ u'.dropped = u.dropped ∧ u'.stream = u.stream := by
  unfold Uart.drain at h
  split at h
  · cases h
  · rename_i c rest hfifo
    cases h
    refine ⟨c, hfifo, rfl, ?_⟩
    rw [Uart.stream, Uart.stream, hfifo, List.append_assoc]
    rfl

theorem Room.drain {s : State} (h : Room s) {u : Uart} (hu : s.uart.drain = some u) :
    Room { s with uart := u } := by
  obtain ⟨c, hfifo, -, -⟩ := Uart.drain_cases hu
  have hle : u.fifo.length ≤ s.uart.fifo.length := by
    rw [hfifo]
    exact Nat.le_succ _
  constructor
  · exact hle.trans h.room
  · exact fun hready => hle.trans (h.shell hready)
  · intro hready
    rw [h.irq hready] at hfifo
    cases hfifo

theorem Sent.drain {s : State} (h : Sent s) {u : Uart} (hu : s.uart.drain = some u) :
    Sent { s with uart := u } := by
  obtain ⟨c, -, hdropped, hstream⟩ := Uart.drain_cases hu
  constructor
  · exact hdropped.trans h.dropped
  · obtain ⟨w, t, q, hs, hrest⟩ := h.stream
    exact ⟨w, t, q, hstream.trans hs, hrest⟩

/-- An instruction of the shell. -/
theorem Room.shell_step {s : State} (h : Room s) (hirq : s.irq = none) {o : Out}
    (ho : s.shell = some o) {o' : Option Out} {u : Uart} (hout : outStep o s.uart = some (o', u)) :
    Room { s with uart := u, shell := o' } := by
  have hnone : s.irq.any Irq.ready = true → u.fifo = [] := by
    rw [hirq]
    exact fun hready => absurd hready Bool.false_ne_true
  rcases outStep_cases hout with ⟨rfl, -, hready⟩ | ⟨c, hready, rfl, -, hready'⟩
  · refine ⟨h.room, ?_, hnone⟩
    intro hr
    rcases hready hr with hbefore | hempty
    · exact h.shell (by rw [ho]; exact hbefore)
    · exact (congrArg List.length hempty).le.trans (Nat.zero_le 1)
  · have hone := h.shell (by rw [ho]; exact hready)
    obtain ⟨hfifo, -, -⟩ := Uart.write_of_room hone c
    refine ⟨?_, fun hr => absurd (hready'.symm.trans hr) Bool.false_ne_true, hnone⟩
    rw [hfifo, List.length_append]
    exact Nat.succ_le_succ hone

theorem Sent.shell_step {s : State} (h : Sent s) (hr : Room s) (hirq : s.irq = none) {o : Out}
    (ho : s.shell = some o) {o' : Option Out} {u : Uart} (hout : outStep o s.uart = some (o', u)) :
    Sent { s with uart := u, shell := o' } := by
  obtain ⟨w, t, q, hstream, hmerged, hasked, hq⟩ := h.stream
  rw [ho] at hasked
  rcases outStep_cases hout with ⟨rfl, hrest, -⟩ | ⟨c, hready, rfl, hrest, -⟩
  · exact ⟨h.dropped, w, t, q, hstream, hmerged, hasked.trans (congrArg (w ++ ·) hrest.symm), hq⟩
  · -- the byte is one of the shell's: no message is under way
    have hempty : q = [] := by
      rw [State.todo, hirq] at hq
      exact List.append_left_eq_self.mp hq
    subst hempty
    obtain ⟨-, hdropped, hwrite⟩ := Uart.write_of_room (hr.shell (by rw [ho]; exact hready)) c
    refine ⟨hdropped.trans h.dropped, w ++ [c], t ++ [c], [], ?_, hmerged.byte c, ?_, hq⟩
    · rw [hwrite, hstream, List.append_nil, List.append_nil]
    · rw [hasked, List.append_assoc]
      exact congrArg (w ++ ·) hrest

/-- An instruction of the handler. -/
theorem Room.irq_step {s s' : State} (h : Room s) {pc : Irq} (hpc : s.irq = some pc)
    (hs : irqStep pc s = some s') : Room s' := by
  obtain ⟨hshell, -, hcases⟩ := irqStep_cases hs
  have hirq : pc.ready = true → s.uart.fifo = [] := fun hr => h.irq (by rw [hpc]; exact hr)
  rcases hcases with ⟨pc', hpc', huart, -, -, hready⟩ |
    ⟨pc', c, hpc', hready, huart, -, -, hready'⟩ |
    ⟨hpc', huart, -, -⟩
  · constructor
    · rw [huart]
      exact h.room
    · rw [huart, hshell]
      exact h.shell
    · rw [huart, hpc']
      exact fun hr => (hready hr).elim hirq id
  · have hempty := hirq hready
    obtain ⟨hfifo, -, -⟩ := Uart.write_of_room (by rw [hempty]; exact Nat.zero_le 1) c
    have hone : s'.uart.fifo.length ≤ 1 := by rw [huart, hfifo, hempty]; rfl
    refine ⟨hone.trans (by decide), fun _ => hone, ?_⟩
    rw [hpc']
    exact fun hr => absurd (hready'.symm.trans hr) Bool.false_ne_true
  · constructor
    · rw [huart]
      exact h.room
    · rw [huart, hshell]
      exact h.shell
    · rw [hpc']
      exact fun hr => absurd hr Bool.false_ne_true

theorem Sent.irq_step {s s' : State} (h : Sent s) (hr : Room s) {pc : Irq} (hpc : s.irq = some pc)
    (hs : irqStep pc s = some s') : Sent s' := by
  obtain ⟨w, t, q, hstream, hmerged, hasked, hq⟩ := h.stream
  obtain ⟨hshell, hasked', hcases⟩ := irqStep_cases hs
  have hshell' : s'.asked = w ++ restOf s'.shell := by rw [hasked', hshell, hasked]
  rw [State.todo, hpc] at hq
  rcases hcases with ⟨pc', hpc', huart, halarms, htodo, -⟩ |
    ⟨pc', c, hpc', hready, huart, halarms, htodo, -⟩ | ⟨hpc', huart, halarms, htodo⟩
  · refine ⟨huart ▸ h.dropped, w, t, q, huart ▸ hstream, halarms ▸ hmerged, hshell', ?_⟩
    rw [State.todo, hpc']
    exact (congrArg (q ++ ·) htodo).trans hq
  · have hempty := hr.irq (by rw [hpc]; exact hready)
    obtain ⟨-, hdropped, hwrite⟩ := Uart.write_of_room (by rw [hempty]; exact Nat.zero_le 1) c
    refine ⟨?_, w, t, q ++ [c], ?_, halarms ▸ hmerged, hshell', ?_⟩
    · rw [huart]
      exact hdropped.trans h.dropped
    · rw [huart, hwrite, hstream, List.append_assoc]
    · rw [State.todo, hpc', List.append_assoc]
      exact (congrArg (q ++ ·) htodo.symm).trans hq
  · -- the message is complete
    have hwhole : q = message := by
      rw [← hq]
      exact ((congrArg (q ++ ·) htodo).trans (List.append_nil q)).symm
    refine ⟨huart ▸ h.dropped, w, t ++ message, [], ?_, halarms ▸ hmerged.message, hshell', ?_⟩
    · rw [huart, hstream, hwhole, List.append_nil]
    · rw [State.todo, hpc']
      rfl

structure Inv (s : State) : Prop where
  room : Room s
  sent : Sent s

theorem Inv.start (sstatus : Sstatus) (stie : Bool) : Inv (start sstatus stie) := by
  constructor
  · exact ⟨Nat.zero_le 2, fun _ => Nat.zero_le 1, fun _ => rfl⟩
  · exact ⟨rfl, [], [], [], rfl, .nil, rfl, rfl⟩

/-- A call of the shell, at which nothing has been written yet. -/
theorem Inv.call {s : State} (h : Inv s) (hshell : s.shell = none) {o : Out} (ho : o.ready = false)
    : Inv { s with shell := some o, asked := s.asked ++ o.rest } := by
  obtain ⟨w, t, q, hstream, hmerged, hasked, hq⟩ := h.sent.stream
  rw [hshell] at hasked
  constructor
  · exact ⟨h.room.room, fun hr => absurd (ho.symm.trans hr) Bool.false_ne_true, h.room.irq⟩
  · refine ⟨h.sent.dropped, w, t, q, hstream, hmerged, ?_, hq⟩
    rw [hasked]
    exact congrArg (· ++ o.rest) (List.append_nil w)

/-- The interrupt writes nothing. -/
theorem Inv.interrupt {s : State} (h : Inv s) (hirq : s.irq = none) :
    Inv { s with sstatus := s.sstatus.trap, irq := some .disable } := by
  obtain ⟨w, t, q, hstream, hmerged, hasked, hq⟩ := h.sent.stream
  rw [State.todo, hirq] at hq
  constructor
  · exact ⟨h.room.room, h.room.shell, fun hr => absurd hr Bool.false_ne_true⟩
  · exact ⟨h.sent.dropped, w, t, q, hstream, hmerged, hasked, hq⟩

theorem Inv.step {s s' : State} {e : Event} (h : Inv s) (hs : step e s = some s') : Inv s' := by
  cases e with
  | drain =>
    obtain ⟨u, hu, rfl⟩ := Option.map_eq_some_iff.mp hs
    exact ⟨h.room.drain hu, h.sent.drain hu⟩
  | timer =>
    rw [Transmit.step] at hs
    split at hs
    · rename_i hcond
      cases hs
      exact h.interrupt hcond.1
    · cases hs
  | handler =>
    obtain ⟨pc, hpc, hstep⟩ := Option.bind_eq_some_iff.mp hs
    exact ⟨h.room.irq_step hpc hstep, h.sent.irq_step h.room hpc hstep⟩
  | shell =>
    rw [Transmit.step] at hs
    split at hs
    · rename_i hirq
      obtain ⟨o, ho, hs⟩ := Option.bind_eq_some_iff.mp hs
      obtain ⟨⟨o', u⟩, hout, rfl⟩ := Option.map_eq_some_iff.mp hs
      exact ⟨h.room.shell_step hirq ho hout, h.sent.shell_step h.room hirq ho hout⟩
    · cases hs
  | puts p =>
    rw [Transmit.step] at hs
    split at hs
    · rename_i hcond
      cases hs
      exact h.call hcond.2 (o := .str p) rfl
    · cases hs
  | putc c =>
    rw [Transmit.step] at hs
    split at hs
    · rename_i hcond
      cases hs
      exact h.call hcond.2 (o := .poll c none) rfl
    · cases hs
  | sie | stie =>
    rw [Transmit.step] at hs
    split at hs
    · cases hs
      exact ⟨⟨h.room.room, h.room.shell, h.room.irq⟩, ⟨h.sent.dropped, h.sent.stream⟩⟩
    · cases hs

/-- **In every interleaving of the shell with the timer interrupt** the FIFO never overflows, and no
byte is dropped.  What has been taken by the UART is the bytes that the shell has sent, which are
those it has asked for but the rest of its current call, with the messages of the handler in
between, each in one piece; and behind them, while the handler runs, what it has sent of its
message.
-/
theorem transmit_merges (sstatus : Sstatus) (stie : Bool) {s : State}
    (hr : Run step (fun _ _ => True) (start sstatus stie) s) :
    s.uart.fifo.length ≤ fifoSize ∧ s.uart.dropped = [] ∧
      ∃ w t q, s.uart.sent ++ s.uart.fifo = t ++ q ∧ Merged w s.alarms t ∧
        s.asked = w ++ restOf s.shell ∧ q <+: message ∧ (s.irq = none → q = []) := by
  have h : Inv s := hr.invariant (Inv.start sstatus stie) fun hi _ hs => hi.step hs
  obtain ⟨w, t, q, hstream, hmerged, hasked, hq⟩ := h.sent.stream
  refine ⟨h.room.room.trans (by decide), h.sent.dropped, w, t, q, hstream, hmerged, hasked,
    ⟨s.todo, hq⟩, ?_⟩
  intro hirq
  rw [State.todo, hirq] at hq
  exact List.append_left_eq_self.mp hq

/-- The handler sends a byte, once the one before has left. -/
def nextByte : List Event := .drain :: List.replicate 4 .handler

/-- The interrupt comes between the look of the shell and its write. -/
def lateWrite : List Event :=
  ([.sie true, .stie true, .putc 65, .shell, .timer, .handler] : List Event) ++ nextByte.tail ++
    (List.replicate 6 nextByte).flatten ++ ([.handler] : List Event) ++
      (List.replicate 2 nextByte).flatten ++ ([.handler, .handler, .shell, .shell] : List Event)

theorem transmit_merges_late : ∃ s,
    exec step lateWrite (start ⟨false, false, false⟩ false) = some s ∧
      s.uart.stream = ascii "alarm\r\n> A" ∧ s.uart.fifo.length ≤ fifoSize ∧ s.uart.dropped = [] ∧
        ∃ w t q, s.uart.sent ++ s.uart.fifo = t ++ q ∧ Merged w s.alarms t ∧
          s.asked = w ++ restOf s.shell ∧ q <+: message ∧ (s.irq = none → q = []) := by
  have hsee : (exec step lateWrite (start ⟨false, false, false⟩ false)).map (·.uart.stream)
      = some (ascii "alarm\r\n> A") := rfl
  obtain ⟨s, hs, heq⟩ := Option.map_eq_some_iff.mp hsee
  exact ⟨s, hs, heq, transmit_merges _ _ (.of_exec hs)⟩

end RvKernel.Transmit
