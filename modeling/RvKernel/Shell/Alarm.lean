/-
# Alarms over time

The shell sets an alarm in two calls, `timer_set_alarm` and `timer_irq_enable`, and the interrupt
handler clears the enable bit and prints `alarm`.  Here these run against the clock and against each
other: an interrupt is taken between any two instructions where it is enabled and due.

There is one comparator and one enable bit for all the alarms.  So an alarm that is set while
another one is waiting discards it (`alarm_discarded`), and only if no alarm is set while another
waits does each one stay scheduled until its message (`alarms_scheduled`).  The bit is set from the
boot on, and it is set a second time if the interrupt comes between the two calls: then there are
more messages than alarms (`alarm_rings_twice`).  Otherwise there are not (`messages_le_reached`).
-/
import RvKernel.Lib.Lts
import RvKernel.Shell.Commands

namespace RvKernel.Shell.Alarm

open Text Timer Lts

/-! ## 1. The machine -/

/-- `CSR_SIE_SEIE`. -/
def SIE_SEIE : U64 := 1 <<< 9

/-- The bit `STIE` of `sie`. -/
def stie (sie : U64) : Bool := sie.getLsbD 5

/-- Where the boot CPU is in `kmain`. -/
inductive Pc where
  /-- at `timer_irq_enable()` of the boot -/
  | timerEnable
  /-- at the `csr_set(CSR_SIE, CSR_SIE_SEIE)` of `serial_irq_enable()` -/
  | serialEnable
  /-- at `hart_irq_enable()` -/
  | hartEnable
  /-- in the shell, at any place that leaves the timer and the interrupts alone -/
  | run
  /-- between `hart_irq_save()` and `hart_irq_restore(flags)` of `serial_read` -/
  | masked (flags : Bool)
  /-- a line `alarm` with the argument `arg`, at `timer_set_alarm(strtou64(arg, 10))` -/
  | alarm (arg : List U8)
  /-- in `timer_set_alarm(secs)`, with the `time` CSR read at the tick `t` -/
  | compare (numeral : Option ℕ) (secs : U64) (t : ℕ)
  /-- at `timer_irq_enable()` -/
  | enable
  deriving DecidableEq

/-- An `alarm` line that has set the comparator. -/
structure Command where
  /-- the argument, if it is a decimal numeral -/
  numeral : Option ℕ
  /-- the tick at which the line read the `time` CSR -/
  tick : ℕ
  /-- its message has been printed -/
  served : Bool
  deriving DecidableEq

structure State where
  /-- the ticks since reset; the `time` CSR counts them modulo `2 ^ 64` -/
  time : ℕ
  stimecmp : U64
  sie : U64
  /-- `sstatus.SIE` -/
  irqs : Bool
  pc : Pc
  /-- the `alarm` lines so far, the latest first -/
  commands : List Command
  /-- the `alarm` messages printed so far -/
  messages : ℕ
  deriving DecidableEq

/-- The `time` CSR. -/
def csrTime (tick : ℕ) : U64 := BitVec.ofNat 64 tick

/-- The number that an argument of `alarm` stands for. -/
def numeralOf (arg : List U8) : Option ℕ :=
  if IsNumeral arg then some (digitsValue 10 arg) else none

/-- The message that an interrupt prints is that of the alarm in the comparator. -/
def serve : List Command → List Command
  | [] => []
  | c :: cs => { c with served := true } :: cs

inductive Event where
  /-- time passes -/
  | wait (n : ℕ)
  /-- a timer interrupt is taken and `timer_irq()` runs -/
  | timerIrq
  /-- the shell comes to a line `alarm` -/
  | line (arg : List U8)
  /-- the shell masks interrupts in `serial_read` -/
  | irqSave
  /-- the next instruction -/
  | next

/-- An interrupt is taken with interrupts enabled, `STIE` set, and the comparator reached. -/
def State.due (s : State) : Prop :=
  s.irqs = true ∧ stie s.sie = true ∧ s.stimecmp ≤ csrTime s.time

instance (s : State) : Decidable s.due := inferInstanceAs (Decidable (_ ∧ _ ∧ _))

def step : Event → State → Option State
  | .wait n, s => some { s with time := s.time + n }
  | .timerIrq, s =>
    if s.due then
      some { s with
        sie := timerIrqDisable s.sie
        commands := serve s.commands
        messages := s.messages + 1 }
    else none
  | .line arg, s =>
    if s.pc = .run ∧ ∀ c ∈ arg, c ≠ 0 then some { s with pc := .alarm arg } else none
  | .irqSave, s =>
    if s.pc = .run then some { s with pc := .masked s.irqs, irqs := false } else none
  | .next, s =>
    match s.pc with
    | .timerEnable => some { s with pc := .serialEnable, sie := timerIrqEnable s.sie }
    | .serialEnable => some { s with pc := .hartEnable, sie := s.sie ||| SIE_SEIE }
    | .hartEnable => some { s with pc := .run, irqs := true }
    | .run => none
    | .masked flags => some { s with pc := .run, irqs := flags }
    | .alarm arg =>
      match strtou64 (arg ++ [0]) 10 with
      | .ok secs => some { s with pc := .compare (numeralOf arg) secs s.time }
      | .error _ => none
    | .compare numeral secs t =>
      some { s with
        pc := .enable
        stimecmp := timerSetAlarm (csrTime t) secs
        commands := ⟨numeral, t, false⟩ :: s.commands }
    | .enable => some { s with pc := .run, sie := timerIrqEnable s.sie }

/-- `kmain` starts with interrupts off.  The clock, `stimecmp` and `sie` are as the reset left
them. -/
def boot (time : ℕ) (stimecmp sie : U64) : State :=
  ⟨time, stimecmp, sie, false, .timerEnable, [], 0⟩

/-- **What a step can do.** -/
inductive Step (s : State) : Event → State → Prop
  | wait (n : ℕ) : Step s (.wait n) { s with time := s.time + n }
  | timerIrq : s.due → Step s .timerIrq { s with
      sie := timerIrqDisable s.sie, commands := serve s.commands, messages := s.messages + 1 }
  | line {arg : List U8} : s.pc = .run → (∀ c ∈ arg, c ≠ 0) →
      Step s (.line arg) { s with pc := .alarm arg }
  | irqSave : s.pc = .run → Step s .irqSave { s with pc := .masked s.irqs, irqs := false }
  | timerEnable : s.pc = .timerEnable →
      Step s .next { s with pc := .serialEnable, sie := timerIrqEnable s.sie }
  | serialEnable : s.pc = .serialEnable →
      Step s .next { s with pc := .hartEnable, sie := s.sie ||| SIE_SEIE }
  | hartEnable : s.pc = .hartEnable → Step s .next { s with pc := .run, irqs := true }
  | irqRestore {flags : Bool} : s.pc = .masked flags →
      Step s .next { s with pc := .run, irqs := flags }
  | readTime {arg : List U8} {secs : U64} : s.pc = .alarm arg →
      strtou64 (arg ++ [0]) 10 = .ok secs →
      Step s .next { s with pc := .compare (numeralOf arg) secs s.time }
  | setAlarm {numeral : Option ℕ} {secs : U64} {t : ℕ} : s.pc = .compare numeral secs t →
      Step s .next { s with
        pc := .enable
        stimecmp := timerSetAlarm (csrTime t) secs
        commands := ⟨numeral, t, false⟩ :: s.commands }
  | enable : s.pc = .enable → Step s .next { s with pc := .run, sie := timerIrqEnable s.sie }

theorem step_cases {e : Event} {s s' : State} (h : step e s = some s') : Step s e s' := by
  cases e with
  | wait n =>
    cases h
    exact .wait n
  | timerIrq =>
    rw [step] at h
    split at h
    · rename_i hdue
      cases h
      exact .timerIrq hdue
    · cases h
  | line arg =>
    rw [step] at h
    split at h
    · rename_i hpc
      cases h
      exact .line hpc.1 hpc.2
    · cases h
  | irqSave =>
    rw [step] at h
    split at h
    · rename_i hpc
      cases h
      exact .irqSave hpc
    · cases h
  | next =>
    rw [step] at h
    cases hpc : s.pc with
    | timerEnable =>
      rw [hpc] at h
      cases h
      exact .timerEnable hpc
    | serialEnable =>
      rw [hpc] at h
      cases h
      exact .serialEnable hpc
    | hartEnable =>
      rw [hpc] at h
      cases h
      exact .hartEnable hpc
    | run =>
      rw [hpc] at h
      cases h
    | masked flags =>
      rw [hpc] at h
      cases h
      exact .irqRestore hpc
    | alarm arg =>
      rw [hpc] at h
      cases hsecs : strtou64 (arg ++ [0]) 10 with
      | error err => simp only [hsecs, reduceCtorEq] at h
      | ok secs =>
        simp only [hsecs, Option.some.injEq] at h
        subst h
        exact .readTime hpc hsecs
    | compare numeral secs t =>
      rw [hpc] at h
      cases h
      exact .setAlarm hpc
    | enable =>
      rw [hpc] at h
      cases h
      exact .enable hpc

@[simp] theorem stie_timerIrqEnable (sie : U64) : stie (timerIrqEnable sie) = true := by
  rw [stie, timerIrqEnable, BitVec.getLsbD_or, show SIE_STIE.getLsbD 5 = true by decide,
    Bool.or_true]

@[simp] theorem stie_timerIrqDisable (sie : U64) : stie (timerIrqDisable sie) = false := by
  rw [stie, timerIrqDisable, BitVec.getLsbD_and, show (~~~SIE_STIE).getLsbD 5 = false by decide,
    Bool.and_false]

@[simp] theorem stie_or_seie (sie : U64) : stie (sie ||| SIE_SEIE) = stie sie := by
  rw [stie, BitVec.getLsbD_or, show SIE_SEIE.getLsbD 5 = false by decide, Bool.or_false]
  rfl

/-! ## 2. The comparator -/

/-- When an alarm should go off, by the `time` CSR: `t + N * TIMER_FREQ`, if that is a time. -/
def Command.deadline (c : Command) : Option ℕ :=
  c.numeral.bind fun N =>
    if (csrTime c.tick).toNat + N * TIMER_FREQ.toNat < 2 ^ 64 then
      some ((csrTime c.tick).toNat + N * TIMER_FREQ.toNat)
    else none

/-- Its time has come. -/
def Command.reached (now : ℕ) (c : Command) : Bool :=
  match c.numeral with
  | some N => c.tick + N * TIMER_FREQ.toNat ≤ now
  | none => false

/-- The comparator holds the deadline of the latest alarm, and the alarm that is being set was
asked for in the past. -/
structure Inv (s : State) : Prop where
  arg : ∀ {a}, s.pc = .alarm a → ∀ c ∈ a, c ≠ 0
  compare : ∀ {numeral secs t}, s.pc = .compare numeral secs t →
    t ≤ s.time ∧ ∀ N, numeral = some N → secs = BitVec.ofNat 64 N
  latest : ∀ {c cs}, s.commands = c :: cs →
    c.tick ≤ s.time ∧ ∀ d, c.deadline = some d → s.stimecmp.toNat = d

theorem Inv.boot (time : ℕ) (stimecmp sie : U64) : Inv (boot time stimecmp sie) :=
  ⟨nofun, nofun, nofun⟩

/-- What is written to the comparator is the deadline. -/
theorem toNat_setAlarm {N t d : ℕ} {served : Bool}
    (h : Command.deadline ⟨some N, t, served⟩ = some d) :
    (timerSetAlarm (csrTime t) (BitVec.ofNat 64 N)).toNat = d := by
  have hfreq : TIMER_FREQ.toNat = 10000000 := rfl
  rw [Command.deadline, Option.bind_some, hfreq, Option.ite_none_right_eq_some] at h
  rw [toNat_timerSetAlarm, BitVec.toNat_ofNat]
  obtain ⟨hlt, heq⟩ := h
  have heq := Option.some.inj heq
  simp only at hlt heq
  omega

theorem Inv.step {s s' : State} {e : Event} (hi : Inv s) (h : step e s = some s') : Inv s' := by
  cases step_cases h with
  | wait n =>
    refine ⟨hi.arg, fun hpc => ?_, fun hc => ?_⟩
    · obtain ⟨ht, hsecs⟩ := hi.compare hpc
      exact ⟨Nat.le_add_right_of_le ht, hsecs⟩
    · obtain ⟨ht, hd⟩ := hi.latest hc
      exact ⟨Nat.le_add_right_of_le ht, hd⟩
  | timerIrq hdue =>
    refine ⟨hi.arg, hi.compare, fun {c cs} hc => ?_⟩
    cases hcs : s.commands with
    | nil => simp [serve, hcs] at hc
    | cons c₀ cs₀ =>
      simp only [serve, hcs, List.cons.injEq] at hc
      obtain ⟨rfl, rfl⟩ := hc
      obtain ⟨ht, hd⟩ := hi.latest hcs
      exact ⟨ht, hd⟩
  | line hpc hnul => exact ⟨fun ha => by cases ha; exact hnul, nofun, hi.latest⟩
  | irqSave hpc => exact ⟨nofun, nofun, hi.latest⟩
  | timerEnable hpc => exact ⟨nofun, nofun, hi.latest⟩
  | serialEnable hpc => exact ⟨nofun, nofun, hi.latest⟩
  | hartEnable hpc => exact ⟨nofun, nofun, hi.latest⟩
  | irqRestore hpc => exact ⟨nofun, nofun, hi.latest⟩
  | @readTime arg secs hpc hsecs =>
    refine ⟨nofun, fun hc => ?_, hi.latest⟩
    cases hc
    refine ⟨le_rfl, fun N hN => ?_⟩
    unfold numeralOf at hN
    split at hN
    · rename_i hnum
      cases hN
      have hp : PointsTo (arg ++ [0]) arg := pointsTo_append_nul (hi.arg hpc) []
      injection hsecs.symm.trans (run_strtou64 hp hnum.2)
    · cases hN
  | @setAlarm numeral secs t hpc =>
    obtain ⟨ht, hsecs⟩ := hi.compare hpc
    refine ⟨nofun, nofun, fun hc => ?_⟩
    cases hc
    refine ⟨ht, fun d hd => ?_⟩
    cases numeral with
    | none => cases hd
    | some N =>
      rw [hsecs N rfl]
      exact toNat_setAlarm hd
  | enable hpc => exact ⟨nofun, nofun, hi.latest⟩

/-! ## 3. No alarm is discarded -/

/-- The alarms that have been set to the end. -/
def State.settled (s : State) : List Command :=
  if s.pc = .enable then s.commands.tail else s.commands

/-- **Every alarm stays scheduled until its message.** -/
def Scheduled (s : State) : Prop :=
  ∀ c ∈ s.settled, ∀ d, c.deadline = some d →
    c.served = true ∨ stie s.sie = true ∧ s.stimecmp.toNat ≤ d

/-- No alarm is set while another one waits for its message. -/
def NoOverlap (s : State) (e : Event) : Prop :=
  ∀ {numeral secs t}, s.pc = .compare numeral secs t → e = .next →
    ∀ c ∈ s.commands, ∀ d, c.deadline = some d → c.served = true

/-- The older alarms have been served, and the latest one has been or will be. -/
structure Waiting (s : State) : Prop where
  inv : Inv s
  older : ∀ c ∈ s.commands.tail, ∀ d, c.deadline = some d → c.served = true
  latest : s.pc ≠ .enable → ∀ {c cs}, s.commands = c :: cs →
    c.served = true ∨ stie s.sie = true

theorem Waiting.scheduled {s : State} (h : Waiting s) : Scheduled s := by
  intro c hc d hd
  by_cases hpc : s.pc = .enable
  · rw [State.settled, if_pos hpc] at hc
    exact Or.inl (h.older c hc d hd)
  · rw [State.settled, if_neg hpc] at hc
    cases hcs : s.commands with
    | nil =>
      rw [hcs] at hc
      cases hc
    | cons c₀ cs =>
      rw [hcs] at hc
      rcases List.mem_cons.mp hc with rfl | hc
      · rcases h.latest hpc hcs with hserved | hstie
        · exact Or.inl hserved
        · exact Or.inr ⟨hstie, le_of_eq ((h.inv.latest hcs).2 d hd)⟩
      · exact Or.inl (h.older c (by rw [hcs]; exact hc) d hd)

theorem Waiting.step {s s' : State} {e : Event} (hw : Waiting s) (ha : NoOverlap s e)
    (h : step e s = some s') : Waiting s' := by
  have hinv := hw.inv.step h
  -- everywhere but at the last call of an alarm, the latest one is served or scheduled
  have hlatest : ∀ {pc}, s.pc = pc → pc ≠ .enable → ∀ {c cs}, s.commands = c :: cs →
      c.served = true ∨ stie s.sie = true := by
    rintro pc rfl hne c cs hcs
    exact hw.latest hne hcs
  cases step_cases h with
  | wait n => exact ⟨hinv, hw.older, hw.latest⟩
  | timerIrq hdue =>
    refine ⟨hinv, ?_, fun _ {c cs} hcs => ?_⟩
    · cases hcs : s.commands with
      | nil => simp [serve]
      | cons c₀ cs₀ =>
        have := hw.older
        rw [hcs] at this
        exact this
    · cases hcs₀ : s.commands with
      | nil => simp [serve, hcs₀] at hcs
      | cons c₀ cs₀ =>
        simp only [serve, hcs₀, List.cons.injEq] at hcs
        obtain ⟨rfl, rfl⟩ := hcs
        exact Or.inl rfl
  | line hpc hnul => exact ⟨hinv, hw.older, fun _ => hlatest hpc nofun⟩
  | irqSave hpc => exact ⟨hinv, hw.older, fun _ => hlatest hpc nofun⟩
  | timerEnable hpc =>
    exact ⟨hinv, hw.older, fun _ _ _ _ => Or.inr (stie_timerIrqEnable s.sie)⟩
  | serialEnable hpc =>
    refine ⟨hinv, hw.older, fun _ _ _ hcs => ?_⟩
    rw [stie_or_seie]
    exact hlatest hpc nofun hcs
  | hartEnable hpc => exact ⟨hinv, hw.older, fun _ => hlatest hpc nofun⟩
  | irqRestore hpc => exact ⟨hinv, hw.older, fun _ => hlatest hpc nofun⟩
  | readTime hpc hsecs => exact ⟨hinv, hw.older, fun _ => hlatest hpc nofun⟩
  | setAlarm hpc => exact ⟨hinv, fun c hc d hd => ha hpc rfl c hc d hd, fun hne => absurd rfl hne⟩
  | enable hpc => exact ⟨hinv, hw.older, fun _ _ _ _ => Or.inr (stie_timerIrqEnable s.sie)⟩

/-- **In every run in which no alarm is set while another one waits, every alarm stays scheduled
until its message is printed.** -/
theorem alarms_scheduled (time : ℕ) (stimecmp sie : U64) {s : State}
    (hr : Run step NoOverlap (boot time stimecmp sie) s) : Scheduled s := by
  have hboot : Waiting (boot time stimecmp sie) := ⟨.boot _ _ _, nofun, nofun⟩
  exact (hr.invariant hboot fun hw ha hs => hw.step ha hs).scheduled

theorem noOverlap_of_nil {s : State} {e : Event} (h : s.commands = []) : NoOverlap s e := by
  intro numeral secs t _ _ c hc
  rw [h] at hc
  cases hc

/-- `alarm 1` after the boot. -/
theorem alarms_scheduled_one :
    Scheduled ⟨0, 10000000, 544, true, .run, [⟨some 1, 0, false⟩], 0⟩ := by
  have h₀ : Run step NoOverlap (boot 0 0xffffffffffffffff 0) (boot 0 0xffffffffffffffff 0) := .refl
  have h₁ := h₀.step (e := .next) (noOverlap_of_nil rfl) rfl
  have h₂ := h₁.step (e := .next) (noOverlap_of_nil rfl) rfl
  have h₃ := h₂.step (e := .next) (noOverlap_of_nil rfl) rfl
  have h₄ : Run step NoOverlap (boot 0 0xffffffffffffffff 0)
      ⟨0, 0xffffffffffffffff, 544, true, .alarm (ascii "1"), [], 0⟩ :=
    h₃.step (e := .line (ascii "1")) (noOverlap_of_nil rfl) (by decide)
  have h₅ : Run step NoOverlap (boot 0 0xffffffffffffffff 0)
      ⟨0, 0xffffffffffffffff, 544, true, .compare (some 1) 1 0, [], 0⟩ :=
    h₄.step (e := .next) (noOverlap_of_nil rfl) (by decide)
  have h₆ := h₅.step (e := .next) (noOverlap_of_nil rfl) rfl
  have h₇ := h₆.step (e := .next) nofun rfl
  exact alarms_scheduled 0 0xffffffffffffffff 0 h₇

/-- `alarm 100`, followed by `alarm 200`. -/
def twoAlarms : List Event :=
  [.next, .next, .next, .line (ascii "100"), .next, .next, .next, .line (ascii "200"), .next, .next,
    .next]

/-- The second alarm moves the comparator past the deadline of the first. -/
theorem alarm_discarded : ∃ s, Run step (fun _ _ => True) (boot 0 0xffffffffffffffff 0) s ∧
    s.messages = 0 ∧ ¬ Scheduled s := by
  have hexec : exec step twoAlarms (boot 0 0xffffffffffffffff 0)
      = some ⟨0, 2000000000, 544, true, .run, [⟨some 200, 0, false⟩, ⟨some 100, 0, false⟩], 0⟩ := by
    decide
  refine ⟨_, .of_exec hexec, rfl, fun hs => ?_⟩
  have hfirst := hs ⟨some 100, 0, false⟩ (by decide) 1000000000 (by decide)
  exact absurd hfirst (by decide)

/-! ## 4. No message without an alarm -/

/-- The alarms whose time has come. -/
def reachedCount (now : ℕ) (cs : List Command) : ℕ := cs.countP (Command.reached now)

/-- An interrupt is taken for an alarm that was set to the end, and not before the boot CPU has set
any; and the alarm has a deadline, as a numeral that does not wrap has. -/
def InTurn (s : State) (e : Event) : Prop :=
  e = .timerIrq → s.pc ≠ .enable ∧ ∃ c cs d, s.commands = c :: cs ∧ c.deadline = some d

theorem reached_mono {c : Command} {t t' : ℕ} (h : t ≤ t') (hc : c.reached t = true) :
    c.reached t' = true := by
  unfold Command.reached at hc ⊢
  cases hN : c.numeral with
  | none =>
    rw [hN] at hc
    cases hc
  | some N =>
    rw [hN] at hc
    simp only [decide_eq_true_eq] at hc ⊢
    omega

theorem reachedCount_mono {t t' : ℕ} (h : t ≤ t') (cs : List Command) :
    reachedCount t cs ≤ reachedCount t' cs :=
  List.countP_mono_left fun _ _ hc => reached_mono h hc

theorem reachedCount_serve (now : ℕ) (cs : List Command) :
    reachedCount now (serve cs) = reachedCount now cs := by
  cases cs with
  | nil => rfl
  | cons c cs =>
    have hsame : Command.reached now { c with served := true } = Command.reached now c := rfl
    rw [reachedCount, serve, List.countP_cons, hsame, ← List.countP_cons]
    rfl

/-- Where the comparator is reached, so is the deadline in it. -/
theorem reached_of_due {s : State} (hi : Inv s) (hdue : s.due) {c : Command} {cs : List Command}
    {d : ℕ} (hcs : s.commands = c :: cs) (hd : c.deadline = some d) : c.reached s.time = true := by
  obtain ⟨htick, hcmp⟩ := hi.latest hcs
  have hle := hdue.2.2
  rw [BitVec.le_def, hcmp d hd, csrTime, BitVec.toNat_ofNat] at hle
  unfold Command.deadline at hd
  unfold Command.reached
  cases hN : c.numeral with
  | none =>
    rw [hN] at hd
    cases hd
  | some N =>
    rw [hN, Option.bind_some, Option.ite_none_right_eq_some] at hd
    obtain ⟨hlt, heq⟩ := hd
    have heq := Option.some.inj heq
    rw [csrTime, BitVec.toNat_ofNat] at hlt heq
    simp only [decide_eq_true_eq]
    generalize N * TIMER_FREQ.toNat = n at *
    omega

/-- There are no more messages than alarms that have come due; and not even as many while the latest
alarm waits. -/
structure Counted (s : State) : Prop where
  inv : Inv s
  start : s.pc = .timerEnable → s.messages = 0 ∧ s.commands = []
  all : s.messages ≤ reachedCount s.time s.commands
  waiting : s.pc = .enable ∨ stie s.sie = true →
    s.messages ≤ reachedCount s.time s.commands.tail

theorem Counted.step {s s' : State} {e : Event} (hc : Counted s) (ha : InTurn s e)
    (h : step e s = some s') : Counted s' := by
  have hinv := hc.inv.step h
  cases step_cases h with
  | wait n =>
    have hmono := reachedCount_mono (Nat.le_add_right s.time n)
    exact ⟨hinv, hc.start, hc.all.trans (hmono _), fun hw => (hc.waiting hw).trans (hmono _)⟩
  | timerIrq hdue =>
    obtain ⟨hpc, c, cs, d, hcs, hd⟩ := ha rfl
    have hlt := hc.waiting (Or.inr hdue.2.1)
    refine ⟨hinv, fun hstart => ?_, ?_, fun hw => ?_⟩
    · have hnil := (hc.start hstart).2
      rw [hcs] at hnil
      cases hnil
    · have hreached := reached_of_due hc.inv hdue hcs hd
      rw [hcs] at hlt
      show s.messages + 1 ≤ reachedCount s.time (serve s.commands)
      rw [reachedCount_serve, hcs, reachedCount, List.countP_cons_of_pos hreached]
      exact Nat.succ_le_succ hlt
    · rcases hw with hw | hw
      · exact absurd hw hpc
      · simp at hw
  | line hpc hnul => exact ⟨hinv, nofun, hc.all, fun hw => hc.waiting (hw.imp nofun id)⟩
  | irqSave hpc => exact ⟨hinv, nofun, hc.all, fun hw => hc.waiting (hw.imp nofun id)⟩
  | timerEnable hpc =>
    obtain ⟨hzero, hnil⟩ := hc.start hpc
    refine ⟨hinv, nofun, hc.all, fun _ => ?_⟩
    show s.messages ≤ _
    rw [hzero]
    exact Nat.zero_le _
  | serialEnable hpc =>
    refine ⟨hinv, nofun, hc.all, fun hw => hc.waiting (hw.imp nofun fun hstie => ?_)⟩
    rwa [stie_or_seie] at hstie
  | hartEnable hpc => exact ⟨hinv, nofun, hc.all, fun hw => hc.waiting (hw.imp nofun id)⟩
  | irqRestore hpc => exact ⟨hinv, nofun, hc.all, fun hw => hc.waiting (hw.imp nofun id)⟩
  | readTime hpc hsecs => exact ⟨hinv, nofun, hc.all, fun hw => hc.waiting (hw.imp nofun id)⟩
  | setAlarm hpc =>
    exact ⟨hinv, nofun, hc.all.trans (List.sublist_cons_self _ _).countP_le, fun _ => hc.all⟩
  | enable hpc => exact ⟨hinv, nofun, hc.all, fun _ => hc.waiting (Or.inl hpc)⟩

/-- **In every run whose timer interrupts come in turn, there are at most as many messages as alarms
whose time has come**, whatever the reset left in the registers. -/
theorem messages_le_reached (time : ℕ) (stimecmp sie : U64) {s : State}
    (hr : Run step InTurn (boot time stimecmp sie) s) :
    s.messages ≤ reachedCount s.time s.commands := by
  have hboot : Counted (boot time stimecmp sie) :=
    ⟨.boot _ _ _, fun _ => ⟨rfl, rfl⟩, Nat.zero_le _, fun _ => Nat.zero_le _⟩
  exact (hr.invariant hboot fun hc ha hs => hc.step ha hs).all

/-- `alarm 1` after the boot, and its message a second later. -/
theorem messages_le_reached_one : 1 ≤ reachedCount 10000000 [⟨some 1, 0, true⟩] := by
  have h₀ : Run step InTurn (boot 0 0xffffffffffffffff 0) (boot 0 0xffffffffffffffff 0) := .refl
  have h₁ := h₀.step (e := .next) nofun rfl
  have h₂ := h₁.step (e := .next) nofun rfl
  have h₃ := h₂.step (e := .next) nofun rfl
  have h₄ : Run step InTurn (boot 0 0xffffffffffffffff 0)
      ⟨0, 0xffffffffffffffff, 544, true, .alarm (ascii "1"), [], 0⟩ :=
    h₃.step (e := .line (ascii "1")) nofun (by decide)
  have h₅ : Run step InTurn (boot 0 0xffffffffffffffff 0)
      ⟨0, 0xffffffffffffffff, 544, true, .compare (some 1) 1 0, [], 0⟩ :=
    h₄.step (e := .next) nofun (by decide)
  have h₆ := h₅.step (e := .next) nofun rfl
  have h₇ := h₆.step (e := .next) nofun rfl
  have h₈ : Run step InTurn (boot 0 0xffffffffffffffff 0)
      ⟨10000000, 10000000, 544, true, .run, [⟨some 1, 0, false⟩], 0⟩ :=
    h₇.step (e := .wait 10000000) nofun rfl
  have h₉ : Run step InTurn (boot 0 0xffffffffffffffff 0)
      ⟨10000000, 10000000, 512, true, .run, [⟨some 1, 0, true⟩], 1⟩ :=
    h₈.step (e := .timerIrq) (fun _ => ⟨nofun, _, _, 10000000, rfl, by decide⟩) (by decide)
  exact messages_le_reached 0 0xffffffffffffffff 0 h₉

/-- `alarm 0`, with the interrupt between `timer_set_alarm` and `timer_irq_enable`, and again after
it. -/
def oneAlarm : List Event :=
  [.next, .next, .next, .line (ascii "0"), .next, .next, .timerIrq, .next, .timerIrq]

/-- One alarm, two messages. -/
theorem alarm_rings_twice : ∃ s, Run step (fun _ _ => True) (boot 0 0xffffffffffffffff 0) s ∧
    s.commands.length = 1 ∧ ¬ s.messages ≤ reachedCount s.time s.commands := by
  have hexec : exec step oneAlarm (boot 0 0xffffffffffffffff 0)
      = some ⟨0, 0, 512, true, .run, [⟨some 0, 0, true⟩], 2⟩ := by
    decide
  exact ⟨_, .of_exec hexec, rfl, by decide⟩

end RvKernel.Shell.Alarm
