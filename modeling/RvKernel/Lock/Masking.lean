/-
# The spinlock and the interrupts of its holder (`spinlock.h`)

The header asks for `spin_lock_irq` or `spin_lock_irqsave` where an interrupt handler may take the
lock.  Both directions of that advice:

* `masked_release`: if tasks only take the lock with interrupts off, the holder can always go on,
  and a number of its own instructions releases the lock, whatever the others do in between;
* `unmasked_deadlock`: a task that holds the lock with interrupts on is one interrupt away from a
  state out of which nobody ever takes or releases the lock again.
-/
import RvKernel.Lock.Spinlock

namespace RvKernel.Spinlock

open Lts Lock
open Serial (Sstatus)

/-! ## 1. Interrupts are off -/

section Masking

variable {ι D : Type}

/-- Where interrupts must be off. -/
def Pc.masked : Pc D → Bool
  | .lock _ _ => true
  | .inside _ _ _ => true
  | .store _ _ _ _ => true
  | _ => false

/-- Where a handler can be. -/
def Pc.plain : Pc D → Bool
  | .out => true
  | .lock .plain _ => true
  | .inside .plain _ _ => true
  | .store .plain _ _ _ => true
  | _ => false

/-- The header's advice: a task takes the lock with `spin_lock_irq` or `spin_lock_irqsave`, if
interrupts are not off anyway. -/
def Careful (s : State ι D) : Event ι D → Prop
  | .call h .lock _ => (s.sstatus h).sie = false
  | .call h .trylock _ => (s.sstatus h).sie = false
  | _ => True

theorem masked_entry {s : State ι D} {fs : List (D → D)} {api : Api} {h : ι}
    (hcare : Careful s (.call h api fs)) (hmasked : (api.entry fs).masked = true) :
    (s.sstatus h).sie = false := by
  cases api with
  | lock => exact hcare
  | trylock => exact hcare
  | lock_irq => cases hmasked
  | lock_irqsave => cases hmasked

/-- On each hart, interrupts are off in the handler and where the task has the lock. -/
structure MaskedHart (handling sie : Bool) (task handler : Pc D) : Prop where
  handler_off : handling = true → sie = false
  task_off : task.masked = true → handling = false ∧ sie = false
  code : handler.plain = true

def Masked (s : State ι D) : Prop :=
  ∀ h, MaskedHart (s.handling h) (s.sstatus h).sie (s.pc (h, .task)) (s.pc (h, .handler))

theorem start_masked (d₀ : D) (sstatus : ι → Sstatus) : Masked (start d₀ sstatus) :=
  fun _ => ⟨nofun, nofun, rfl⟩

/-- The hart that an event is about. -/
def Event.hart : Event ι D → ι
  | .call h _ _ => h
  | .mask h _ => h
  | .interrupt h _ => h
  | .instr h => h

variable [DecidableEq ι] {s s' : State ι D} {c : Ctx ι} {d₀ : D}

/-- An instruction of one hart leaves the others alone. -/
theorem instr_other (h : instr c s = some s') {g : ι} (hg : g ≠ c.1) :
    s'.handling g = s.handling g ∧ s'.sstatus g = s.sstatus g ∧
      ∀ l, s'.pc (g, l) = s.pc (g, l) := by
  have hpc : ∀ (p : Pc D) l, Function.update s.pc c p (g, l) = s.pc (g, l) := by
    intro p l
    refine Function.update_of_ne ?_ _ _
    rintro rfl
    exact hg rfl
  have hst : ∀ st, Function.update s.sstatus c.1 st g = s.sstatus g :=
    fun st => Function.update_of_ne hg _ _
  unfold instr at h
  cases hc : s.pc c with
  | out =>
    rw [hc] at h
    cases hl : c.2 with
    | task => simp [hl] at h
    | handler =>
      simp only [hl, Option.some.injEq] at h
      subst h
      exact ⟨Function.update_of_ne hg _ _, hst _, fun _ => rfl⟩
  | inside how fs k =>
    simp only [hc] at h
    split at h <;> cases h <;> exact ⟨rfl, rfl, hpc _⟩
  | disable how fs =>
    simp only [hc, Option.some.injEq] at h
    subst h
    exact ⟨rfl, hst _, hpc _⟩
  | enable =>
    simp only [hc, Option.some.injEq] at h
    subst h
    exact ⟨rfl, hst _, hpc _⟩
  | restore flags =>
    simp only [hc, Option.some.injEq] at h
    subst h
    exact ⟨rfl, hst _, hpc _⟩
  | _ =>
    simp only [hc, Option.some.injEq] at h
    subst h
    exact ⟨rfl, rfl, hpc _⟩

theorem step_other {e : Event ι D} (hs : step e s = some s') {g : ι} (hg : g ≠ e.hart) :
    s'.handling g = s.handling g ∧ s'.sstatus g = s.sstatus g ∧
      ∀ l, s'.pc (g, l) = s.pc (g, l) := by
  cases e with
  | call h api fs =>
    obtain ⟨-, -, rfl⟩ := call_eq hs
    have hne : ∀ l, (g, l) ≠ (h, Level.task) := fun l heq => hg (congrArg Prod.fst heq)
    exact ⟨rfl, rfl, fun l => Function.update_of_ne (hne l) _ _⟩
  | mask h sie =>
    obtain ⟨-, -, rfl⟩ := mask_eq hs
    exact ⟨rfl, Function.update_of_ne hg _ _, fun _ => rfl⟩
  | interrupt h fs =>
    obtain ⟨-, -, rfl⟩ := interrupt_eq hs
    have hne : ∀ l, (g, l) ≠ (h, Level.handler) := fun l heq => hg (congrArg Prod.fst heq)
    exact ⟨Function.update_of_ne hg _ _, Function.update_of_ne hg _ _,
      fun l => Function.update_of_ne (hne l) _ _⟩
  | instr h => exact instr_other hs hg

/-- A context comes to the lock through `hart_irq_disable`, and keeps interrupts off until it has
released it. -/
theorem instr_masked (h : instr c s = some s')
    (hold : (s.pc c).masked = true → (s.sstatus c.1).sie = false)
    (hnew : (s'.pc c).masked = true) : (s'.sstatus c.1).sie = false := by
  unfold instr at h
  cases hc : s.pc c with
  | out =>
    rw [hc] at h
    cases hl : c.2 with
    | task => simp [hl] at h
    | handler =>
      simp only [hl, Option.some.injEq] at h
      subst h
      change (s.pc c).masked = true at hnew
      rw [hc] at hnew
      cases hnew
  | disable how fs =>
    simp only [hc, Option.some.injEq] at h
    subst h
    simp [State.goto, State.setSstatus]
  | lock how fs =>
    simp only [hc, Option.some.injEq] at h
    subst h
    exact hold (by rw [hc]; rfl)
  | inside how fs k =>
    simp only [hc] at h
    split at h <;> cases h <;> exact hold (by rw [hc]; rfl)
  | store how fs k d =>
    simp only [hc, Option.some.injEq] at h
    subst h
    exact hold (by rw [hc]; rfl)
  | _ =>
    simp only [hc, Option.some.injEq] at h
    subst h
    simp [State.goto, State.setSstatus, Pc.masked] at hnew

/-- The handler keeps to `spin_lock` and `spin_unlock`, with interrupts off until it is left. -/
theorem instr_plain (h : instr c s = some s') (hcode : (s.pc c).plain = true) :
    (s'.pc c).plain = true ∧
      (s'.sstatus = s.sstatus ∧ s'.handling = s.handling ∨ s'.handling c.1 = false) := by
  unfold instr at h
  cases hc : s.pc c with
  | out =>
    rw [hc] at h
    cases hl : c.2 with
    | task => simp [hl] at h
    | handler =>
      simp only [hl, Option.some.injEq] at h
      subst h
      exact ⟨hcode, Or.inr (Function.update_self _ _ _)⟩
  | lock how fs =>
    simp only [hc, Option.some.injEq] at h
    subst h
    rw [hc] at hcode
    refine ⟨?_, Or.inl ⟨rfl, rfl⟩⟩
    cases how <;> try cases hcode
    simp only [State.goto, Function.update_self]
    split <;> rfl
  | inside how fs k =>
    rw [hc] at hcode
    simp only [hc] at h
    cases how <;> try cases hcode
    split at h <;> cases h <;> simp [State.goto, Pc.plain, How.after]
  | store how fs k d =>
    simp only [hc, Option.some.injEq] at h
    subst h
    rw [hc] at hcode
    cases how <;> try cases hcode
    simp [State.goto, Pc.plain]
  | _ =>
    rw [hc] at hcode
    cases hcode

theorem Masked.instr_own {h : ι} (hm : Masked s) (hs : instr (s.running h) s = some s') :
    MaskedHart (s'.handling h) (s'.sstatus h).sie (s'.pc (h, .task)) (s'.pc (h, .handler)) := by
  obtain ⟨hpc, hhandling⟩ := instr_frame hs
  cases hrun : s.handling h with
  | false =>
    have hrunning : s.running h = (h, .task) := by simp [State.running, hrun]
    rw [hrunning] at hs hpc hhandling
    have hsame : s'.handling h = false := by
      rcases hhandling with hsame | ⟨hl, -⟩
      · rw [hsame, hrun]
      · cases hl
    have hhandler : s'.pc (h, .handler) = s.pc (h, .handler) := hpc _ (by simp)
    refine ⟨?_, ?_, ?_⟩
    · rw [hsame]
      exact fun hin => absurd hin Bool.false_ne_true
    · intro hmasked
      exact ⟨hsame, instr_masked hs (fun ho => ((hm h).task_off ho).2) hmasked⟩
    · rw [hhandler]
      exact (hm h).code
  | true =>
    have hrunning : s.running h = (h, .handler) := by simp [State.running, hrun]
    rw [hrunning] at hs hpc
    obtain ⟨hcode, hst⟩ := instr_plain hs (hm h).code
    have htask : s'.pc (h, .task) = s.pc (h, .task) := hpc _ (by simp)
    -- the task is not at the lock, for its hart runs the handler
    have hout : (s.pc (h, .task)).masked ≠ true := by
      intro hmasked
      rw [((hm h).task_off hmasked).1] at hrun
      cases hrun
    refine ⟨?_, ?_, hcode⟩
    · intro hin
      rcases hst with ⟨hst, -⟩ | hleft
      · rw [hst]
        exact (hm h).handler_off hrun
      · rw [hleft] at hin
        cases hin
    · rw [htask]
      exact fun hmasked => absurd hmasked hout

theorem Masked.step {e : Event ι D} (hm : Masked s) (hcare : Careful s e)
    (hs : step e s = some s') : Masked s' := by
  intro g
  by_cases hg : g = e.hart
  · subst hg
    cases e with
    | call h api fs =>
      obtain ⟨hrun, -, rfl⟩ := call_eq hs
      refine ⟨(hm h).handler_off, ?_, ?_⟩
      · intro hmasked
        have hentry : (api.entry fs).masked = true := by
          simpa [State.goto, Event.hart] using hmasked
        exact ⟨hrun, masked_entry hcare hentry⟩
      · simpa [State.goto, Event.hart] using (hm h).code
    | mask h sie =>
      obtain ⟨hrun, hout, rfl⟩ := mask_eq hs
      refine ⟨?_, ?_, (hm h).code⟩
      · intro hin
        change s.handling h = true at hin
        rw [hrun] at hin
        cases hin
      · intro hmasked
        change (s.pc (h, .task)).masked = true at hmasked
        rw [hout] at hmasked
        cases hmasked
    | interrupt h fs =>
      obtain ⟨hrun, hsie, rfl⟩ := interrupt_eq hs
      refine ⟨?_, ?_, ?_⟩
      · intro _
        simp [State.goto, State.setSstatus, State.setHandling, Serial.Sstatus.trap, Event.hart]
      · intro hmasked
        have hold : (s.pc (h, .task)).masked = true := by
          simpa [State.goto, State.setSstatus, State.setHandling, Event.hart] using hmasked
        rw [((hm h).task_off hold).2] at hsie
        cases hsie
      · cases fs <;> simp [State.goto, handlerEntry, Pc.plain, Event.hart]
    | instr h => exact hm.instr_own hs
  · obtain ⟨hhandling, hst, hpc⟩ := step_other hs hg
    rw [hhandling, hst, hpc, hpc]
    exact hm g

end Masking

/-! ## 2. The holder goes on -/

section Release

variable {ι D : Type}

/-- The number of instructions that a context in its section is away from releasing the lock. -/
def Pc.rest : Pc D → ℕ
  | .inside _ fs k => 2 * (fs.length - k) + 1
  | .store _ fs k _ => 2 * (fs.length - k)
  | _ => 0

/-- An instruction of the hart `h`. -/
def Event.isInstr [DecidableEq ι] (h : ι) : Event ι D → Bool
  | .instr g => g = h
  | _ => false

theorem Pc.masked_of_past {p : Pc D} (hp : p.past.isSome = true) : p.masked = true := by
  cases p with
  | inside how fs k => rfl
  | store how fs k d => rfl
  | _ => cases hp

variable {s s' : State ι D} {c : Ctx ι} {d₀ : D}

theorem Exclusive.rest_pos (h : Exclusive d₀ s) (hc : (s.pc c).past.isSome = true) :
    0 < (s.pc c).rest := by
  have hknows := h.held c
  cases hpc : s.pc c with
  | inside how fs k => exact Nat.succ_pos _
  | store how fs k d =>
    rw [hpc] at hknows
    have hk := hknows.1
    rw [Pc.rest]
    omega
  | _ =>
    rw [hpc] at hc
    cases hc

/-- A context at the lock is what runs on its hart... -/
theorem Masked.runs (hm : Masked s) (hidle : Idle s) (hc : (s.pc c).masked = true) :
    s.running c.1 = c := by
  obtain ⟨h, l⟩ := c
  cases l with
  | task => simp [State.running, ((hm h).task_off hc).1]
  | handler =>
    cases hrun : s.handling h with
    | false =>
      rw [hidle h hrun] at hc
      cases hc
    | true => simp [State.running, hrun]

variable [DecidableEq ι]

/-- ...and nothing else can happen on that hart. -/
theorem Masked.only_instr (hm : Masked s) (hidle : Idle s) (hc : (s.pc c).masked = true)
    {e : Event ι D} (hs : Spinlock.step e s = some s') (he : e.hart = c.1) :
    e = .instr c.1 := by
  have hruns := hm.runs hidle hc
  have htask : s.handling c.1 = false → c = (c.1, .task) := by
    intro hrun
    rw [State.running, hrun] at hruns
    exact hruns.symm
  cases e with
  | call h api fs =>
    obtain rfl : h = c.1 := he
    obtain ⟨hrun, hout, -⟩ := call_eq hs
    rw [htask hrun, hout] at hc
    cases hc
  | mask h sie =>
    obtain rfl : h = c.1 := he
    obtain ⟨hrun, hout, -⟩ := mask_eq hs
    rw [htask hrun, hout] at hc
    cases hc
  | interrupt h fs =>
    obtain rfl : h = c.1 := he
    obtain ⟨hrun, hsie, -⟩ := interrupt_eq hs
    rw [htask hrun] at hc
    rw [((hm c.1).task_off hc).2] at hsie
    cases hsie
  | instr h =>
    obtain rfl : h = c.1 := he
    rfl

/-- The holder can take its next instruction, which releases the lock or brings it closer to it. -/
theorem Exclusive.holder_instr (h : Exclusive d₀ s) (hc : (s.pc c).past.isSome = true) :
    ∃ t, instr c s = some t ∧
      (t.lock = 0 ∨ (t.pc c).past.isSome = true ∧ (t.pc c).rest + 1 ≤ (s.pc c).rest) := by
  have hknows := h.held c
  cases hpc : s.pc c with
  | inside how fs k =>
    simp only [instr, hpc]
    by_cases hk : k < fs.length
    · refine ⟨_, if_pos hk, Or.inr ?_⟩
      simp only [State.goto, Function.update_self, Pc.past, Pc.rest]
      exact ⟨rfl, le_rfl⟩
    · exact ⟨_, if_neg hk, Or.inl rfl⟩
  | store how fs k d =>
    rw [hpc] at hknows
    simp only [instr, hpc]
    refine ⟨_, rfl, Or.inr ?_⟩
    simp only [State.goto, Function.update_self, Pc.past, Pc.rest]
    have hk := hknows.1
    exact ⟨rfl, by omega⟩
  | _ =>
    rw [hpc] at hc
    cases hc

/-- The invariant of a careful run. -/
theorem careful_run {sstatus : ι → Sstatus} (hr : Run step Careful (start d₀ sstatus) s) :
    Exclusive d₀ s ∧ Masked s :=
  ⟨hr.invariant (start_exclusive d₀ sstatus) fun hi _ hs => hi.step hs,
    hr.invariant (start_masked d₀ sstatus) fun hi ha hs => hi.step ha hs⟩

/-- **The lock is always released, and always to be had.**  Tasks take the lock with interrupts off.
Then the holder is what its hart runs and can take its next instruction, and in whatever order the
harts go on, the lock is free as soon as the holder has taken `rest` more.  A context that waits can
take its `amoswap` at any time, and has the lock if that finds it free. -/
theorem masked_release {sstatus : ι → Sstatus} (hr : Run step Careful (start d₀ sstatus) s) :
    (∀ c, (s.pc c).past.isSome = true → (step (.instr c.1) s).isSome = true ∧
      ∀ es t, Trace step Careful es s t → (s.pc c).rest ≤ es.countP (·.isInstr c.1) →
        ∃ es₁ es₂ u, es = es₁ ++ es₂ ∧ Trace step Careful es₁ s u ∧ u.lock = 0) ∧
    ∀ c how fs, s.pc c = .lock how fs → ∃ t, step (.instr c.1) s = some t ∧
      (s.lock = 0 → t.pc c = .inside how fs 0) := by
  obtain ⟨hexcl, hmasked⟩ := careful_run hr
  refine ⟨fun c hc => ⟨?_, fun es t htrace hcount => ?_⟩, fun c how fs hc => ?_⟩
  · obtain ⟨t, ht, -⟩ := hexcl.holder_instr hc
    rw [step, hmasked.runs hexcl.idle (Pc.masked_of_past hc), ht]
    rfl
  · refine htrace.reaches
      (fun t => (Exclusive d₀ t ∧ Masked t) ∧ (t.pc c).past.isSome = true) (fun t => t.lock = 0)
      (fun t => (t.pc c).rest) (·.isInstr c.1) ⟨⟨hexcl, hmasked⟩, hc⟩ ?_ ?_ hcount
    · rintro t ⟨⟨ht, -⟩, hin⟩ -
      exact ht.rest_pos hin
    · rintro t u e ⟨⟨ht, hmt⟩, hin⟩ - hcare hs
      have hlock := Pc.masked_of_past hin
      have hinv : Exclusive d₀ u ∧ Masked u := ⟨ht.step hs, hmt.step hcare hs⟩
      by_cases he : e.hart = c.1
      · obtain rfl := hmt.only_instr ht.idle hlock hs he
        obtain ⟨v, hv, hnext⟩ := ht.holder_instr hin
        rw [step, hmt.runs ht.idle hlock, hv] at hs
        obtain rfl := Option.some.inj hs
        rcases hnext with hfree | ⟨hstill, hless⟩
        · exact Or.inl hfree
        · refine Or.inr ⟨⟨hinv, hstill⟩, ?_⟩
          simpa [Event.isInstr] using hless
      · obtain ⟨-, -, hpc⟩ := step_other hs (Ne.symm he)
        have hsame : u.pc c = t.pc c := hpc c.2
        have hnot : e.isInstr c.1 = false := by
          cases e with
          | instr g => simpa [Event.isInstr, Event.hart] using he
          | _ => rfl
        refine Or.inr ⟨⟨hinv, by rwa [hsame]⟩, ?_⟩
        simp [hsame, hnot]
  · have hruns : s.running c.1 = c := hmasked.runs hexcl.idle (by rw [hc]; rfl)
    refine ⟨{ s.goto c (if s.lock = 0 then .inside how fs 0 else how.again fs) with lock := 1 },
      ?_, ?_⟩
    · simp only [step, hruns, instr, hc]
    · intro hfree
      simp [State.goto, hfree]

end Release

/-- A task has the lock with interrupts off, and the handler of the other hart spins for it. -/
def masked : List (Event Bool ℕ) :=
  [.call false .lock_irq [(· + 1)], .instr false, .instr false, .interrupt true (some [(· * 2)]),
    .instr true]

theorem masked_release_handler :
    ∃ s, exec step masked (start 5 fun _ => ⟨true, false, false⟩) = some s ∧
      (step (.instr false) s).isSome = true := by
  obtain ⟨s, hs⟩ : ∃ s, exec step masked (start 5 fun _ => ⟨true, false, false⟩) = some s :=
    ⟨_, rfl⟩
  have htrace : Trace step Careful masked (start 5 fun _ => ⟨true, false, false⟩) s := by
    obtain rfl := Option.some.inj hs
    exact .cons trivial rfl (.cons trivial rfl (.cons trivial rfl (.cons trivial rfl
      (.cons trivial rfl .nil))))
  have hin : (s.pc (false, .task)).past.isSome = true := by
    obtain rfl := Option.some.inj hs
    rfl
  exact ⟨s, hs, ((masked_release htrace.run).1 (false, .task) hin).1⟩

/-! ## 3. The holder is interrupted -/

section Deadlock

variable {ι D : Type} [DecidableEq ι] {s s' : State ι D} {d₀ : D} {c : Ctx ι}

/-- What a hart does that is not in its section leaves the data alone. -/
theorem instr_data (h : instr c s = some s') (hc : (s.pc c).past = none) :
    s'.data = s.data ∧ s'.finished = s.finished := by
  unfold instr at h
  cases hpc : s.pc c with
  | out =>
    rw [hpc] at h
    cases hl : c.2 with
    | task => simp [hl] at h
    | handler =>
      simp only [hl, Option.some.injEq] at h
      subst h
      exact ⟨rfl, rfl⟩
  | inside how fs k =>
    rw [hpc] at hc
    cases hc
  | store how fs k d =>
    rw [hpc] at hc
    cases hc
  | _ =>
    simp only [hpc, Option.some.injEq] at h
    subst h
    exact ⟨rfl, rfl⟩

theorem step_data {e : Event ι D} (hs : step e s = some s')
    (hc : (s.pc (s.running e.hart)).past = none) :
    s'.data = s.data ∧ s'.finished = s.finished := by
  cases e with
  | call h api fs =>
    obtain ⟨-, -, rfl⟩ := call_eq hs
    exact ⟨rfl, rfl⟩
  | mask h sie =>
    obtain ⟨-, -, rfl⟩ := mask_eq hs
    exact ⟨rfl, rfl⟩
  | interrupt h fs =>
    obtain ⟨-, -, rfl⟩ := interrupt_eq hs
    exact ⟨rfl, rfl⟩
  | instr h => exact instr_data hs hc

/-- The task of the hart `h` holds the lock, and its handler spins for it. -/
structure Stuck (d₀ : D) (h : ι) (gs : List (D → D)) (s₀ s : State ι D) : Prop where
  exclusive : Exclusive d₀ s
  handling : s.handling h = true
  spins : s.pc (h, .handler) = .lock .plain gs
  holds : (s₀.pc (h, .task)).past.isSome = true
  task : s.pc (h, .task) = s₀.pc (h, .task)
  same : s.data = s₀.data ∧ s.finished = s₀.finished

theorem Stuck.step {h : ι} {gs : List (D → D)} {s₀ : State ι D} {e : Event ι D}
    (hstuck : Stuck d₀ h gs s₀ s) (hs : Spinlock.step e s = some s') :
    Stuck d₀ h gs s₀ s' := by
  have hin : (s.pc (h, .task)).past.isSome = true := by rw [hstuck.task]; exact hstuck.holds
  have hlock : s.lock = 1 := hstuck.exclusive.guards.held hin
  -- whoever moves is not in the section
  have hrunning : s.running e.hart ≠ (h, .task) := by
    intro heq
    obtain ⟨rfl, hl⟩ := Prod.mk.inj heq
    rw [hstuck.handling] at hl
    cases hl
  have hdata := step_data hs (hstuck.exclusive.alone hin hrunning)
  have hsame : s'.data = s₀.data ∧ s'.finished = s₀.finished :=
    ⟨hdata.1.trans hstuck.same.1, hdata.2.trans hstuck.same.2⟩
  by_cases he : h = e.hart
  · cases e with
    | call g api fs =>
      obtain rfl : h = g := he
      obtain ⟨hrun, -⟩ := call_eq hs
      rw [hstuck.handling] at hrun
      cases hrun
    | mask g sie =>
      obtain rfl : h = g := he
      obtain ⟨hrun, -⟩ := mask_eq hs
      rw [hstuck.handling] at hrun
      cases hrun
    | interrupt g fs =>
      obtain rfl : h = g := he
      obtain ⟨hrun, -⟩ := interrupt_eq hs
      rw [hstuck.handling] at hrun
      cases hrun
    | instr g =>
      obtain rfl : h = g := he
      have hs' : s' = { s.goto (h, .handler) (.lock .plain gs) with lock := 1 } := by
        have hruns : s.running h = (h, .handler) := by simp [State.running, hstuck.handling]
        rw [Spinlock.step, hruns] at hs
        simp only [instr, hstuck.spins, hlock, How.again] at hs
        exact (Option.some.inj hs).symm
      refine ⟨hstuck.exclusive.step hs, ?_, ?_, hstuck.holds, ?_, hsame⟩
      · rw [hs']
        exact hstuck.handling
      · rw [hs']
        exact Function.update_self _ _ _
      · rw [hs']
        exact (Function.update_of_ne (by simp) _ _).trans hstuck.task
  · obtain ⟨hhandling, -, hpc⟩ := step_other hs he
    exact ⟨hstuck.exclusive.step hs, hhandling.trans hstuck.handling,
      (hpc _).trans hstuck.spins, hstuck.holds, (hpc _).trans hstuck.task, hsame⟩

/-- **The deadlock that the header warns of.**  A task that holds the lock with interrupts on can be
interrupted, and if the handler asks for the lock, then in all that follows, on all harts, the task
does not move again, the handler spins, the lock stays taken, and no section is entered, changes
anything or ends. -/
theorem unmasked_deadlock {sstatus : ι → Sstatus} {Allowed : State ι D → Event ι D → Prop}
    (hr : Run step Allowed (start d₀ sstatus) s) {h : ι}
    (hholds : (s.pc (h, .task)).past.isSome = true) (hrun : s.handling h = false)
    (hsie : (s.sstatus h).sie = true) (gs : List (D → D)) :
    ∃ t, step (.interrupt h (some gs)) s = some t ∧
      ∀ u, Run step (fun _ _ => True) t u →
        u.pc (h, .task) = s.pc (h, .task) ∧ u.pc (h, .handler) = .lock .plain gs ∧ u.lock = 1 ∧
        (∀ c, c ≠ (h, .task) → (u.pc c).past = none) ∧ u.data = s.data ∧
        u.finished = s.finished := by
  have hexcl : Exclusive d₀ s := hr.invariant (start_exclusive d₀ sstatus) fun hi _ hs => hi.step hs
  obtain ⟨t, ht⟩ : ∃ t, step (.interrupt h (some gs)) s = some t := by
    simp only [step, hrun, hsie]
    exact ⟨_, rfl⟩
  refine ⟨t, ht, fun u hu => ?_⟩
  have hstuck : Stuck d₀ h gs s t := by
    have hexcl' := hexcl.step ht
    obtain ⟨-, -, rfl⟩ := interrupt_eq ht
    exact ⟨hexcl', Function.update_self _ _ _, Function.update_self _ _ _, hholds,
      Function.update_of_ne (by simp) _ _, rfl, rfl⟩
  have hend : Stuck d₀ h gs s u := hu.invariant hstuck fun hi _ hs => hi.step hs
  have hin : (u.pc (h, .task)).past.isSome = true := by rw [hend.task]; exact hholds
  exact ⟨hend.task, hend.spins, hend.exclusive.guards.held hin,
    fun c hc => hend.exclusive.alone hin hc, hend.same⟩

end Deadlock

/-- A task has the lock through `spin_lock`. -/
def unmasked : List (Event Bool ℕ) := [.call false .lock [(· + 1)], .instr false]

theorem unmasked_deadlock_task :
    ∃ s t, exec step unmasked (start 5 fun _ => ⟨true, false, false⟩) = some s ∧
      step (.interrupt false (some [])) s = some t ∧
      ∀ u, Run step (fun _ _ => True) t u → u.lock = 1 := by
  obtain ⟨s, hs⟩ : ∃ s, exec step unmasked (start 5 fun _ => ⟨true, false, false⟩) = some s :=
    ⟨_, rfl⟩
  obtain ⟨hholds, hrun, hsie⟩ : (s.pc (false, .task)).past.isSome = true ∧
      s.handling false = false ∧ (s.sstatus false).sie = true := by
    obtain rfl := Option.some.inj hs
    exact ⟨rfl, rfl, rfl⟩
  obtain ⟨t, ht, hall⟩ := unmasked_deadlock (Run.of_exec hs) hholds hrun hsie []
  exact ⟨s, t, hs, ht, fun u hu => (hall u hu).2.2.1⟩

end RvKernel.Spinlock
