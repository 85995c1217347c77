/-
# An interrupt that nobody takes back

`serial_irq` reads the receiver only if there is room in `dev.buf`.  With `dev.buf` full it returns
without having read a byte; the line stays asserted, and as soon as the PLIC is told that the
interrupt is complete it is pending again.  So the hart takes the same interrupt over and over, and
the shell, which would empty `dev.buf`, never runs.

`service` is one interrupt from the trap to `sret`, and `run_service` says what it does.  The bytes
that wait get fewer just if there is room (`service_progress_iff`), and `dev.buf` does fill up
(`exists_idle`, `serial_irq_livelock`).
-/
import RvKernel.Serial.Interleave

namespace RvKernel.Serial

open Lts

/-! ## 1. One interrupt -/

/-- The handler runs to its end. -/
def handle : ℕ → State → Option State
  | 0, _ => none
  | n + 1, s =>
    match s.irq with
    | none => some s
    | some pc => handle n (irqStep pc s)

/-- One interrupt: `handle_trap`, with the claim, `serial_irq` and the completion. -/
def service (s : State) : Option State := do handle 11 (← step .interrupt s)

/-- Interrupts in a row, with nothing between them. -/
def services : ℕ → State → Option State
  | 0, s => some s
  | n + 1, s => do services n (← service s)

/-- The hart takes an interrupt here. -/
def Due (s : State) : Prop := s.irq = none ∧ s.sstatus.sie = true ∧ s.pending

theorem step_interrupt {s : State} (h : Due s) :
    step .interrupt s = some { s with sstatus := s.sstatus.trap, irq := some .claim } :=
  if_pos h

theorem Due.of_service {s s' : State} (h : service s = some s') : Due s := by
  obtain ⟨t, ht, -⟩ := Option.bind_eq_some_iff.mp h
  rw [step] at ht
  split at ht
  · assumption
  · cases ht

theorem handle_run {n : ℕ} {s s' : State} (h : handle n s = some s') :
    Run step (fun _ _ => True) s s' := by
  induction n generalizing s with
  | zero => cases h
  | succ n ih =>
    rw [handle] at h
    cases hirq : s.irq with
    | none =>
      rw [hirq] at h
      cases h
      exact .refl
    | some pc =>
      rw [hirq] at h
      have hstep : step .handler s = some (irqStep pc s) := by
        rw [step, hirq]
        rfl
      exact (Run.refl.step trivial hstep).trans (ih h)

/-- An interrupt is a part of a run. -/
theorem service_run {s s' : State} (h : service s = some s') :
    Run step (fun _ _ => True) s s' := by
  obtain ⟨t, ht, h⟩ := Option.bind_eq_some_iff.mp h
  exact (Run.refl.step trivial ht).trans (handle_run h)

theorem handle_of_irq {n : ℕ} {s : State} {pc : Irq} (h : s.irq = some pc) :
    handle (n + 1) s = handle n (irqStep pc s) := by
  rw [handle, h]

theorem irqStep_claim {s : State} (h : s.pending) :
    irqStep .claim s = { s with inService := true, irq := some .lock } :=
  if_pos h

theorem irqStep_lock {s : State} (h : s.dev.lock = 0) :
    irqStep .lock s = { s with dev := { s.dev with lock := 1 }, irq := some .test } := by
  rw [irqStep, if_pos h]

theorem irqStep_test_room {s : State} (h : s.dev.len < SERIAL_BUF_SIZE) :
    irqStep .test s = { s with irq := some .rbr } := by
  rw [irqStep, if_pos h]

theorem irqStep_test_full {s : State} (h : ¬s.dev.len < SERIAL_BUF_SIZE) :
    irqStep .test s = { s with irq := some .unlock } := by
  rw [irqStep, if_neg h]

/-- The handler up to the test in `serial_irq`: it claims the interrupt and takes the lock. -/
theorem service_to_test {s : State} (h : Due s) (hlock : s.dev.lock = 0) :
    service s = handle 9 { s with
      sstatus := s.sstatus.trap
      dev := { s.dev with lock := 1 }
      inService := true
      irq := some .test } := by
  rw [service, step_interrupt h, Option.bind_eq_bind, Option.bind_some, handle_of_irq rfl,
    irqStep_claim, handle_of_irq rfl, irqStep_lock]
  · exact hlock
  · exact h.2.2

/-- The state after an interrupt, with `dev.buf` full... -/
def State.returned (s : State) : State :=
  { s with
    sstatus := s.sstatus.trap.sret
    dev := { s.dev with lock := 0 }
    inService := false
    irq := none }

/-- ...and with room in it. -/
def State.received (s : State) : State :=
  { s with
    sstatus := s.sstatus.trap.sret
    dev := ⟨s.dev.buf.setIfInBounds s.dev.len (s.rx.headD 0), s.dev.len + 1, 0⟩
    rx := s.rx.tail
    inService := false
    irq := none
    rbr := s.rbr ++ [s.rx.headD 0]
    touched := s.dev.len :: s.touched }

theorem State.received_len (s : State) : s.received.dev.len = s.dev.len + 1 := rfl

theorem State.received_rx (s : State) : s.received.rx = s.rx.tail := rfl

/-- **What an interrupt does**: it takes a byte from the receiver, if there is room for it. -/
theorem run_service {s : State} (h : Due s) (hlock : s.dev.lock = 0) :
    service s = some (if s.dev.len < SERIAL_BUF_SIZE then s.received else s.returned) := by
  rw [service_to_test h hlock, handle_of_irq rfl]
  by_cases hlt : s.dev.len < SERIAL_BUF_SIZE
  · rw [irqStep_test_room, if_pos hlt]
    · rfl
    · exact hlt
  · rw [irqStep_test_full, if_neg hlt]
    · rfl
    · exact hlt

theorem Inv.run_service {s : State} (hinv : Inv s) (h : Due s) :
    service s = some (if s.dev.len < SERIAL_BUF_SIZE then s.received else s.returned) :=
  Serial.run_service h (hinv.lock_of_sie h.1 h.2.1)

theorem Inv.service {s s' : State} (h : Inv s) (hs : service s = some s') : Inv s' :=
  (service_run hs).invariant h fun h _ hs => h.step hs

/-! ## 2. Interrupts in a row -/

/-- After an interrupt the next one is due if a byte still waits. -/
theorem Due.received {s : State} (h : Due s) (hrx : s.rx.tail ≠ []) : Due s.received :=
  ⟨rfl, h.2.1, hrx, rfl⟩

theorem Due.returned {s : State} (h : Due s) : Due s.returned := ⟨rfl, h.2.1, h.2.2.1, rfl⟩

theorem Due.length_pos {s : State} (h : Due s) : 0 < s.rx.length :=
  List.length_pos_of_ne_nil h.2.2.1

/-- With room for every byte that waits, each interrupt takes one. -/
theorem Inv.services_le {n : ℕ} {s : State} (hinv : Inv s)
    (hroom : s.dev.len + s.rx.length ≤ SERIAL_BUF_SIZE) (h : (services n s).isSome) :
    n ≤ s.rx.length := by
  induction n generalizing s with
  | zero => exact Nat.zero_le _
  | succ n ih =>
    obtain ⟨s', hs'⟩ := Option.isSome_iff_exists.mp h
    obtain ⟨t, ht, hs'⟩ := Option.bind_eq_some_iff.mp hs'
    have hdue := Due.of_service ht
    have hpos := hdue.length_pos
    have heq := hinv.run_service hdue
    rw [if_pos (by omega), ht] at heq
    cases heq
    have hroom' : s.received.dev.len + s.received.rx.length ≤ SERIAL_BUF_SIZE := by
      rw [State.received_len, State.received_rx, List.length_tail]
      omega
    have hle := ih (hinv.service ht) hroom' (by rw [hs']; rfl)
    rw [State.received_rx, List.length_tail] at hle
    omega

/-- With more bytes than there is room for, the interrupts never end. -/
theorem Inv.services_isSome {s : State} (hinv : Inv s) (hdue : Due s)
    (hfull : SERIAL_BUF_SIZE < s.dev.len + s.rx.length) (n : ℕ) : (services n s).isSome := by
  induction n generalizing s with
  | zero => rfl
  | succ n ih =>
    have hrun := hinv.run_service hdue
    rw [services, hrun]
    by_cases hlt : s.dev.len < SERIAL_BUF_SIZE
    · rw [if_pos hlt] at hrun ⊢
      have hlen : s.rx.tail.length = s.rx.length - 1 := List.length_tail
      refine ih (hinv.service hrun) (hdue.received ?_) ?_
      · intro hnil
        rw [hnil] at hlen
        simp at hlen
        omega
      · rw [State.received_len, State.received_rx, hlen]
        omega
    · rw [if_neg hlt] at hrun ⊢
      exact ih (hinv.service hrun) hdue.returned hfull

/-- **An interrupt makes progress just if `dev.buf` has room**, and `k` bytes cause at most `k`
interrupts in a row just if it has room for all of them. -/
theorem service_progress_iff (sstatus : Sstatus) (buf : Vector U8 SERIAL_BUF_SIZE)
    (input : Vector U8 256) (rx : List U8) {s : State}
    (hr : Run step (fun _ _ => True) (start sstatus buf input rx) s) (hdue : Due s) :
    (∃ s', service s = some s' ∧
      (s'.rx.length < s.rx.length ↔ s.dev.len < SERIAL_BUF_SIZE)) ∧
    ((∀ n, (services n s).isSome → n ≤ s.rx.length) ↔
      s.dev.len + s.rx.length ≤ SERIAL_BUF_SIZE) := by
  have hinv := Inv.run hr
  have hpos := hdue.length_pos
  refine ⟨⟨_, hinv.run_service hdue, ?_⟩, ?_, ?_⟩
  · by_cases hlt : s.dev.len < SERIAL_BUF_SIZE
    · rw [if_pos hlt]
      rw [State.received_rx, List.length_tail]
      exact ⟨fun _ => hlt, fun _ => by omega⟩
    · rw [if_neg hlt]
      exact ⟨fun h => absurd h (lt_irrefl _), fun h => absurd h hlt⟩
  · intro hbound
    by_contra hfull
    have hle := hbound (s.rx.length + 1) (hinv.services_isSome hdue (not_le.mp hfull) _)
    omega
  · intro hroom n hn
    exact hinv.services_le hroom hn

/-- A byte waits after `serial_init`, and interrupts are on. -/
theorem service_progress_one : ∃ s',
    service (start ⟨true, false, false⟩ (Vector.replicate 256 0) (Vector.replicate 256 0) [65])
      = some s' ∧ s'.rx.length < 1 := by
  obtain ⟨⟨s', hs', hiff⟩, -⟩ := service_progress_iff ⟨true, false, false⟩ (Vector.replicate 256 0)
    (Vector.replicate 256 0) [65] .refl ⟨rfl, rfl, nofun, rfl⟩
  exact ⟨s', hs', hiff.mpr (by decide)⟩

/-! ## 3. A full buffer -/

/-- The shell does something else, with interrupts on, and no byte waits. -/
structure Idle (s : State) : Prop where
  call : s.call = .outside
  irq : s.irq = none
  sie : s.sstatus.sie = true
  inService : s.inService = false
  rx : s.rx = []

/-- The state when a byte has arrived. -/
def State.arrive (s : State) (c : U8) : State := { s with rx := s.rx ++ [c] }

theorem Idle.arrive_rx {s : State} (h : Idle s) (c : U8) : (s.arrive c).rx = [c] := by
  rw [State.arrive, h.rx]
  rfl

/-- The byte causes an interrupt. -/
theorem Idle.due {s : State} (h : Idle s) (c : U8) : Due (s.arrive c) := by
  refine ⟨h.irq, h.sie, ?_, h.inService⟩
  rw [h.arrive_rx]
  exact List.cons_ne_nil c []

/-- A byte arrives and is taken by the handler. -/
theorem Idle.receive {s : State} (h : Idle s) (hlock : s.dev.lock = 0)
    (hlt : s.dev.len < SERIAL_BUF_SIZE) (c : U8) :
    ∃ s', Run step (fun _ _ => True) s s' ∧ Idle s' ∧ s'.dev.len = s.dev.len + 1 ∧
      s'.dev.lock = 0 := by
  have hrun := (run_service (h.due c) hlock).trans (congrArg some (if_pos hlt))
  have harrive : Run step (fun _ _ => True) s (s.arrive c) :=
    Run.refl.step (e := .receive c) trivial rfl
  refine ⟨_, harrive.trans (service_run hrun), ⟨h.call, rfl, h.sie, rfl, ?_⟩, rfl, rfl⟩
  rw [State.received_rx, h.arrive_rx, List.tail_cons]

/-- `dev.buf` fills up while the shell does not read. -/
theorem exists_idle {s : State} (h : Idle s) (hlock : s.dev.lock = 0) (hlen : s.dev.len = 0)
    {n : ℕ} (hn : n ≤ SERIAL_BUF_SIZE) :
    ∃ s', Run step (fun _ _ => True) s s' ∧ Idle s' ∧ s'.dev.len = n ∧ s'.dev.lock = 0 := by
  induction n with
  | zero => exact ⟨s, .refl, h, hlen, hlock⟩
  | succ n ih =>
    obtain ⟨t, hrt, hidle, rfl, hfree⟩ := ih (by omega)
    obtain ⟨t', hrt', hidle', hlen', hfree'⟩ := hidle.receive hfree (by omega) 65
    exact ⟨t', hrt.trans hrt', hidle', hlen', hfree'⟩

/-- With `dev.buf` full the interrupt takes no byte, and the next one is due at once, for ever. -/
theorem serial_irq_livelock : ∃ s,
    Run step (fun _ _ => True)
      (start ⟨true, false, false⟩ (Vector.replicate 256 0) (Vector.replicate 256 0) []) s ∧
    Due s ∧ s.rx.length = 1 ∧
    (∃ s', service s = some s' ∧ ¬s'.rx.length < s.rx.length) ∧
    ∀ n, (services n s).isSome := by
  obtain ⟨t, hrt, hidle, hlen, hlock⟩ := exists_idle
    (s := start ⟨true, false, false⟩ (Vector.replicate 256 0) (Vector.replicate 256 0) [])
    ⟨rfl, rfl, rfl, rfl, rfl⟩ rfl rfl (n := SERIAL_BUF_SIZE) le_rfl
  have hr : Run step (fun _ _ => True) _ (t.arrive 65) :=
    hrt.step (e := .receive 65) trivial rfl
  have hfull : ¬t.dev.len < SERIAL_BUF_SIZE := by omega
  have hrun := (run_service (hidle.due 65) hlock).trans (congrArg some (if_neg hfull))
  have hone : (t.arrive 65).rx.length = 1 := by
    rw [hidle.arrive_rx, List.length_singleton]
  refine ⟨_, hr, hidle.due 65, hone, ⟨_, hrun, lt_irrefl _⟩, ?_⟩
  refine (Inv.run hr).services_isSome (hidle.due 65) ?_
  have hlen' : (t.arrive 65).dev.len = SERIAL_BUF_SIZE := hlen
  omega

end RvKernel.Serial
