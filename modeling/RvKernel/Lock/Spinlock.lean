/-
# The spinlock (`spinlock.h`, `trap.c`)

Any number of harts share one spinlock and what it guards.  On each hart a task takes the lock with
one of the four functions of the header, and an interrupt may come between any two of its
instructions while `sstatus.SIE` is set; its handler takes the same lock with `spin_lock`, as
`serial_irq` does, or leaves it alone.  What happens in the section is a list of updates, each of
them a load and a store, so that two sections that overlap would lose some.

However all of this interleaves, at most one context is in its section, and the sections are applied
whole and one after the other (`mutual_exclusion`).
-/
import RvKernel.Lib.Lock
import RvKernel.Lib.Lts
import RvKernel.Serial.Machine

namespace RvKernel.Spinlock

open Lts Lock
open Serial (Sstatus)

/-! ## 1. The machine -/

/-- A hart runs its task, or the handler on top of it. -/
inductive Level where
  | task
  | handler
  deriving DecidableEq

/-- How the lock was asked for; `flags` is what `spin_lock_irqsave` returns. -/
inductive How where
  /-- `spin_lock`, released by `spin_unlock` -/
  | plain
  /-- `spin_trylock`, released by `spin_unlock` -/
  | once
  /-- `spin_lock_irq`, released by `spin_unlock_irq` -/
  | irq
  /-- `spin_lock_irqsave`, released by `spin_unlock_irqrestore` -/
  | irqsave (flags : Sstatus)

/-- Where a context is in the header's code; `fs` is what it will do in its section. -/
inductive Pc (D : Type) where
  | out
  /-- at the `csr_read` of `hart_irq_save` -/
  | save (fs : List (D → D))
  /-- at `hart_irq_disable` -/
  | disable (how : How) (fs : List (D → D))
  /-- at the `amoswap` of `spin_trylock` -/
  | lock (how : How) (fs : List (D → D))
  /-- in the section, behind `k` updates: at a load, or at the `amoswap` of `spin_unlock` -/
  | inside (how : How) (fs : List (D → D)) (k : ℕ)
  /-- in the section, at the store of the update -/
  | store (how : How) (fs : List (D → D)) (k : ℕ) (d : D)
  /-- at `hart_irq_enable` -/
  | enable
  /-- at `hart_irq_restore` -/
  | restore (flags : Sstatus)

/-- A context: a hart, and what runs on it. -/
abbrev Ctx (ι : Type) := ι × Level

structure State (ι D : Type) where
  /-- `s->lock` -/
  lock : U32
  /-- what the lock guards -/
  data : D
  sstatus : ι → Sstatus
  /-- the hart is in its handler -/
  handling : ι → Bool
  pc : Ctx ι → Pc D
  /-- the sections that were left, in order -/
  finished : List (List (D → D))

/-- The functions a task takes the lock with. -/
inductive Api where
  | lock
  | trylock
  | lock_irq
  | lock_irqsave

/-- The first instruction of each. -/
def Api.entry {D : Type} (fs : List (D → D)) : Api → Pc D
  | .lock => .lock .plain fs
  | .trylock => .lock .once fs
  | .lock_irq => .disable .irq fs
  | .lock_irqsave => .save fs

/-- Behind the `amoswap` of `spin_unlock`. -/
def How.after {D : Type} : How → Pc D
  | .plain => .out
  | .once => .out
  | .irq => .enable
  | .irqsave flags => .restore flags

/-- Behind an `amoswap` that found the lock taken: `spin_lock` tries again. -/
def How.again {D : Type} (fs : List (D → D)) : How → Pc D
  | .once => .out
  | how => .lock how fs

section Machine

variable {ι D : Type} [DecidableEq ι]

/-- The context that runs on the hart `h`. -/
def State.running (s : State ι D) (h : ι) : Ctx ι :=
  (h, if s.handling h then .handler else .task)

def State.goto (s : State ι D) (c : Ctx ι) (p : Pc D) : State ι D :=
  { s with pc := Function.update s.pc c p }

def State.setSstatus (s : State ι D) (h : ι) (st : Sstatus) : State ι D :=
  { s with sstatus := Function.update s.sstatus h st }

def State.setHandling (s : State ι D) (h : ι) (b : Bool) : State ι D :=
  { s with handling := Function.update s.handling h b }

/-- One instruction of the context `c`; the handler ends in `sret`. -/
def instr (c : Ctx ι) (s : State ι D) : Option (State ι D) :=
  match s.pc c with
  | .out =>
    match c.2 with
    | .task => none
    | .handler => some ((s.setSstatus c.1 (s.sstatus c.1).sret).setHandling c.1 false)
  | .save fs => some (s.goto c (.disable (.irqsave (s.sstatus c.1)) fs))
  | .disable how fs =>
    some ((s.setSstatus c.1 { s.sstatus c.1 with sie := false }).goto c (.lock how fs))
  | .lock how fs =>
    some { s.goto c (if s.lock = 0 then .inside how fs 0 else how.again fs) with lock := 1 }
  | .inside how fs k =>
    if k < fs.length then some (s.goto c (.store how fs k s.data))
    else some { s.goto c how.after with lock := 0, finished := s.finished ++ [fs] }
  | .store how fs k d =>
    some { s.goto c (.inside how fs (k + 1)) with data := fs.getD k id d }
  | .enable => some ((s.setSstatus c.1 { s.sstatus c.1 with sie := true }).goto c .out)
  | .restore flags => some ((s.setSstatus c.1 flags).goto c .out)

inductive Event (ι D : Type) where
  /-- the task of the hart asks for the lock -/
  | call (h : ι) (api : Api) (fs : List (D → D))
  /-- the task calls `hart_irq_enable` or `hart_irq_disable` -/
  | mask (h : ι) (sie : Bool)
  /-- an interrupt is taken, whose handler takes the lock or not -/
  | interrupt (h : ι) (fs : Option (List (D → D)))
  /-- an instruction of what runs on the hart -/
  | instr (h : ι)

def step : Event ι D → State ι D → Option (State ι D)
  | .call h api fs, s =>
    match s.handling h, s.pc (h, .task) with
    | false, .out => some (s.goto (h, .task) (api.entry fs))
    | _, _ => none
  | .mask h sie, s =>
    match s.handling h, s.pc (h, .task) with
    | false, .out => some (s.setSstatus h { s.sstatus h with sie := sie })
    | _, _ => none
  | .interrupt h fs, s =>
    if s.handling h = false ∧ (s.sstatus h).sie = true then
      some (((s.setSstatus h (s.sstatus h).trap).setHandling h true).goto (h, .handler)
        (match fs with
          | none => .out
          | some fs => .lock .plain fs))
    else none
  | .instr h, s => instr (s.running h) s

end Machine

/-- After `spin_init`, with nobody in the header's code. -/
def start {ι D : Type} (data : D) (sstatus : ι → Sstatus) : State ι D where
  lock := 0
  data := data
  sstatus := sstatus
  handling _ := false
  pc _ := .out
  finished := []

/-! ## 2. What a step does to the lock -/

section Effect

variable {ι D : Type} [DecidableEq ι] {s s' : State ι D} {c c' : Ctx ι} {p : Pc D}

/-- The updates that a context in its section has done. -/
def Pc.past : Pc D → Option (List (D → D))
  | .inside _ fs k => some (fs.take k)
  | .store _ fs k _ => some (fs.take k)
  | _ => none

/-- Those in their section. -/
def insiders (pc : Ctx ι → Pc D) : Set (Ctx ι) := {c | (pc c).past.isSome = true}

theorem past_entry (fs : List (D → D)) (api : Api) : (api.entry fs).past = none := by
  cases api <;> rfl

theorem past_after (how : How) : (how.after : Pc D).past = none := by
  cases how <;> rfl

theorem past_again (fs : List (D → D)) (how : How) : (how.again fs).past = none := by
  cases how <;> rfl

theorem insiders_enter {pc : Ctx ι → Pc D} (hp : p.past.isSome = true) :
    insiders (Function.update pc c p) = insert c (insiders pc) := by
  ext d
  by_cases hd : d = c
  · simp [insiders, hd, hp]
  · simp [insiders, hd]

theorem insiders_out {pc : Ctx ι → Pc D} (hp : p.past = none) :
    insiders (Function.update pc c p) = insiders pc \ {c} := by
  ext d
  by_cases hd : d = c
  · simp [insiders, hd, hp]
  · simp [insiders, hd]

/-- What a step can do to the lock and to what it guards. -/
inductive Effect (s s' : State ι D) : Prop
  /-- nothing: somebody moves outside of the section -/
  | quiet (c : Ctx ι) (p : Pc D) (hout : (s.pc c).past = none) (hp : p.past = none)
      (hpc : s'.pc = Function.update s.pc c p) (hlock : s'.lock = s.lock)
      (hdata : s'.data = s.data) (hfinished : s'.finished = s.finished)
  /-- an `amoswap` that got the lock -/
  | enter (c : Ctx ι) (how : How) (fs : List (D → D)) (hout : s.pc c = .lock how fs)
      (hfree : s.lock = 0) (hpc : s'.pc = Function.update s.pc c (.inside how fs 0))
      (hlock : s'.lock = 1) (hdata : s'.data = s.data) (hfinished : s'.finished = s.finished)
  /-- an `amoswap` that did not -/
  | spin (c : Ctx ι) (how : How) (fs : List (D → D)) (hout : s.pc c = .lock how fs)
      (htaken : s.lock ≠ 0) (hpc : s'.pc = Function.update s.pc c (how.again fs))
      (hlock : s'.lock = 1) (hdata : s'.data = s.data) (hfinished : s'.finished = s.finished)
  | load (c : Ctx ι) (how : How) (fs : List (D → D)) (k : ℕ) (hin : s.pc c = .inside how fs k)
      (hk : k < fs.length) (hpc : s'.pc = Function.update s.pc c (.store how fs k s.data))
      (hlock : s'.lock = s.lock) (hdata : s'.data = s.data) (hfinished : s'.finished = s.finished)
  | store (c : Ctx ι) (how : How) (fs : List (D → D)) (k : ℕ) (d : D)
      (hin : s.pc c = .store how fs k d)
      (hpc : s'.pc = Function.update s.pc c (.inside how fs (k + 1)))
      (hlock : s'.lock = s.lock) (hdata : s'.data = fs.getD k id d)
      (hfinished : s'.finished = s.finished)
  | leave (c : Ctx ι) (how : How) (fs : List (D → D)) (k : ℕ) (hin : s.pc c = .inside how fs k)
      (hk : ¬ k < fs.length) (hpc : s'.pc = Function.update s.pc c how.after)
      (hlock : s'.lock = 0) (hdata : s'.data = s.data)
      (hfinished : s'.finished = s.finished ++ [fs])

/-- Nobody is in a handler that was left. -/
def Idle (s : State ι D) : Prop := ∀ h, s.handling h = false → s.pc (h, .handler) = .out

theorem instr_effect (h : instr c s = some s') : Effect s s' := by
  unfold instr at h
  cases hc : s.pc c with
  | out =>
    rw [hc] at h
    cases hl : c.2 with
    | task => simp [hl] at h
    | handler =>
      simp only [hl, Option.some.injEq] at h
      subst h
      have hsame : s.pc = Function.update s.pc c .out := by
        rw [← hc, Function.update_eq_self]
      exact .quiet c .out (by rw [hc]; rfl) rfl hsame rfl rfl rfl
  | save fs =>
    simp only [hc, Option.some.injEq] at h
    subst h
    exact .quiet c _ (by rw [hc]; rfl) rfl rfl rfl rfl rfl
  | disable how fs =>
    simp only [hc, Option.some.injEq] at h
    subst h
    exact .quiet c _ (by rw [hc]; rfl) rfl rfl rfl rfl rfl
  | lock how fs =>
    simp only [hc, Option.some.injEq] at h
    subst h
    by_cases hw : s.lock = 0
    · rw [if_pos hw]
      exact .enter c how fs hc hw rfl rfl rfl rfl
    · rw [if_neg hw]
      exact .spin c how fs hc hw rfl rfl rfl rfl
  | inside how fs k =>
    simp only [hc] at h
    by_cases hk : k < fs.length
    · rw [if_pos hk, Option.some.injEq] at h
      subst h
      exact .load c how fs k hc hk rfl rfl rfl rfl
    · rw [if_neg hk, Option.some.injEq] at h
      subst h
      exact .leave c how fs k hc hk rfl rfl rfl rfl
  | store how fs k d =>
    simp only [hc, Option.some.injEq] at h
    subst h
    exact .store c how fs k d hc rfl rfl rfl rfl
  | enable =>
    simp only [hc, Option.some.injEq] at h
    subst h
    exact .quiet c _ (by rw [hc]; rfl) rfl rfl rfl rfl rfl
  | restore flags =>
    simp only [hc, Option.some.injEq] at h
    subst h
    exact .quiet c _ (by rw [hc]; rfl) rfl rfl rfl rfl rfl

theorem call_eq {h : ι} {api : Api} {fs : List (D → D)}
    (hs : step (.call h api fs) s = some s') :
    s.handling h = false ∧ s.pc (h, .task) = .out ∧ s' = s.goto (h, .task) (api.entry fs) := by
  simp only [step] at hs
  split at hs
  · rename_i hrun hout
    exact ⟨hrun, hout, (Option.some.inj hs).symm⟩
  · cases hs

theorem mask_eq {h : ι} {sie : Bool} (hs : step (.mask h sie) s = some s') :
    s.handling h = false ∧ s.pc (h, .task) = .out ∧
      s' = s.setSstatus h { s.sstatus h with sie := sie } := by
  simp only [step] at hs
  split at hs
  · rename_i hrun hout
    exact ⟨hrun, hout, (Option.some.inj hs).symm⟩
  · cases hs

/-- What the handler of an interrupt starts with. -/
def handlerEntry : Option (List (D → D)) → Pc D
  | none => .out
  | some fs => .lock .plain fs

theorem past_handlerEntry (fs : Option (List (D → D))) : (handlerEntry fs).past = none := by
  cases fs <;> rfl

theorem interrupt_eq {h : ι} {fs : Option (List (D → D))}
    (hs : step (.interrupt h fs) s = some s') :
    s.handling h = false ∧ (s.sstatus h).sie = true ∧
      s' = ((s.setSstatus h (s.sstatus h).trap).setHandling h true).goto (h, .handler)
        (handlerEntry fs) := by
  simp only [step] at hs
  split at hs
  · rename_i hready
    refine ⟨hready.1, hready.2, (Option.some.inj hs).symm.trans ?_⟩
    cases fs <;> rfl
  · cases hs

theorem step_effect {e : Event ι D} (hidle : Idle s) (hs : step e s = some s') :
    Effect s s' := by
  cases e with
  | call h api fs =>
    obtain ⟨-, hout, rfl⟩ := call_eq hs
    exact .quiet (h, .task) _ (by rw [hout]; rfl) (past_entry fs api) rfl rfl rfl rfl
  | mask h sie =>
    obtain ⟨-, hout, rfl⟩ := mask_eq hs
    have hsame : s.pc = Function.update s.pc (h, .task) .out := by
      rw [← hout, Function.update_eq_self]
    exact .quiet (h, .task) .out (by rw [hout]; rfl) rfl hsame rfl rfl rfl
  | interrupt h fs =>
    obtain ⟨hrun, -, rfl⟩ := interrupt_eq hs
    exact .quiet (h, .handler) _ (by rw [hidle h hrun]; rfl) (past_handlerEntry fs) rfl rfl rfl rfl
  | instr h => exact instr_effect hs

/-- An instruction moves its own context, and leaves the handler only in `sret`. -/
theorem instr_frame (h : instr c s = some s') :
    (∀ d, d ≠ c → s'.pc d = s.pc d) ∧
      (s'.handling = s.handling ∨ c.2 = .handler ∧ s.pc c = .out ∧ s'.pc = s.pc ∧
        s'.handling = Function.update s.handling c.1 false) := by
  unfold instr at h
  have hother : ∀ (q : Pc D) d, d ≠ c → Function.update s.pc c q d = s.pc d :=
    fun q d hd => Function.update_of_ne hd q s.pc
  cases hc : s.pc c with
  | out =>
    rw [hc] at h
    cases hl : c.2 with
    | task => simp [hl] at h
    | handler =>
      simp only [hl, Option.some.injEq] at h
      subst h
      exact ⟨fun _ _ => rfl, Or.inr ⟨rfl, rfl, rfl, rfl⟩⟩
  | inside how fs k =>
    simp only [hc] at h
    split at h <;> cases h <;> exact ⟨hother _, Or.inl rfl⟩
  | _ =>
    simp only [hc, Option.some.injEq] at h
    subst h
    exact ⟨hother _, Or.inl rfl⟩

theorem Idle.step {e : Event ι D} (hidle : Idle s) (hs : step e s = some s') : Idle s' := by
  intro g hg
  cases e with
  | call h api fs =>
    obtain ⟨-, -, rfl⟩ := call_eq hs
    have hne : (g, Level.handler) ≠ (h, Level.task) := by simp
    exact (Function.update_of_ne hne _ _).trans (hidle g hg)
  | mask h sie =>
    obtain ⟨-, -, rfl⟩ := mask_eq hs
    exact hidle g hg
  | interrupt h fs =>
    obtain ⟨-, -, rfl⟩ := interrupt_eq hs
    by_cases hgh : g = h
    · simp [State.goto, State.setHandling, hgh] at hg
    · have hne : (g, Level.handler) ≠ (h, Level.handler) := by simp [hgh]
      have hrun : s.handling g = false := by
        simpa [State.goto, State.setHandling, State.setSstatus, hgh] using hg
      exact (Function.update_of_ne hne _ _).trans (hidle g hrun)
  | instr h =>
    obtain ⟨hpc, hsame | ⟨-, hout, hpcs, hleft⟩⟩ := instr_frame hs
    · rw [hsame] at hg
      by_cases hmoved : (g, Level.handler) = s.running h
      · -- the handler of `g` moves only while it runs
        obtain ⟨rfl, hl⟩ := Prod.mk.inj hmoved
        simp [hg] at hl
      · exact (hpc _ hmoved).trans (hidle g hg)
    · rw [hpcs]
      by_cases hgh : g = h
      · subst hgh
        by_cases hrun : s.handling g = true
        · rwa [State.running, if_pos hrun] at hout
        · exact hidle g (by simpa using hrun)
      · rw [hleft, Function.update_of_ne (by exact hgh)] at hg
        exact hidle g hg

end Effect

/-! ## 3. One context at a time -/

/-- Updates, one after the other. -/
def replay {D : Type} (d : D) (fs : List (D → D)) : D := fs.foldl (fun d f => f d) d

/-- What a context in its section knows, with `d` in `data` and the sections `done` left. -/
def Pc.Knows {D : Type} (d₀ d : D) (done : List (List (D → D))) : Pc D → Prop
  | .inside _ fs k => k ≤ fs.length ∧ d = replay d₀ (done.flatten ++ fs.take k)
  | .store _ fs k c => k < fs.length ∧ c = d ∧ d = replay d₀ (done.flatten ++ fs.take k)
  | _ => True

theorem Pc.Knows.of_out {D : Type} {d₀ d : D} {done : List (List (D → D))} {p : Pc D}
    (hp : p.past = none) : p.Knows d₀ d done := by
  cases p with
  | inside how fs k => cases hp
  | store how fs k c => cases hp
  | _ => trivial

/-- **The lock is held by the one context that is in its section**, and the data are what the
sections that were left have made of them, and the updates of the holder. -/
structure Exclusive {ι D : Type} (d₀ : D) (s : State ι D) : Prop where
  idle : Idle s
  guards : Guards 0 1 s.lock (insiders s.pc)
  free : s.lock = 0 → s.data = replay d₀ s.finished.flatten
  held : ∀ c, (s.pc c).Knows d₀ s.data s.finished

theorem start_exclusive {ι D : Type} (d₀ : D) (sstatus : ι → Sstatus) :
    Exclusive d₀ (start d₀ sstatus) where
  idle _ _ := rfl
  guards := Or.inl ⟨rfl, Set.eq_empty_of_forall_notMem fun _ h => Bool.false_ne_true h⟩
  free _ := rfl
  held _ := trivial

section Exclusion

variable {ι D : Type} {s s' : State ι D} {d₀ : D} {c c' : Ctx ι}

/-- Beside the holder nobody is in its section. -/
theorem Exclusive.alone (h : Exclusive d₀ s) (hc : (s.pc c).past.isSome = true) (hne : c' ≠ c) :
    (s.pc c').past = none := by
  by_contra hin
  exact hne (h.guards.unique (Option.isSome_iff_ne_none.mpr hin) hc)

variable [DecidableEq ι]

theorem Exclusive.of_effect (h : Exclusive d₀ s) (hidle : Idle s') (he : Effect s s') :
    Exclusive d₀ s' := by
  have hheld := h.held
  cases he with
  | quiet c p hout hp hpc hlock hdata hfinished =>
    have hsame : insiders s'.pc = insiders s.pc := by
      rw [hpc, insiders_out hp]
      exact Set.sdiff_singleton_eq_self (by simp [insiders, hout])
    refine ⟨hidle, ?_, ?_, ?_⟩
    · rw [hlock, hsame]
      exact h.guards
    · rw [hlock, hdata, hfinished]
      exact h.free
    · rw [hpc, hdata, hfinished, Function.forall_update_iff s.pc (fun _ q => q.Knows _ _ _)]
      exact ⟨.of_out hp, fun d _ => hheld d⟩
  | enter c how fs hout hfree hpc hlock hdata hfinished =>
    have hguards := h.guards
    rw [hfree] at hguards
    refine ⟨hidle, ?_, ?_, ?_⟩
    · rw [hlock, hpc, insiders_enter rfl]
      exact hguards.enter (by decide) c
    · rw [hlock]
      exact fun h10 => absurd h10 (by decide)
    · rw [hpc, hdata, hfinished, Function.forall_update_iff s.pc (fun _ q => q.Knows _ _ _)]
      refine ⟨⟨Nat.zero_le _, ?_⟩, fun d _ => hheld d⟩
      rw [List.take_zero, List.append_nil]
      exact h.free hfree
  | spin c how fs hout htaken hpc hlock hdata hfinished =>
    have hsame : insiders s'.pc = insiders s.pc := by
      rw [hpc, insiders_out (past_again fs how)]
      exact Set.sdiff_singleton_eq_self (by simp [insiders, hout, Pc.past])
    refine ⟨hidle, ?_, ?_, ?_⟩
    · rw [hlock, hsame]
      exact h.guards.spin htaken
    · rw [hlock]
      exact fun h10 => absurd h10 (by decide)
    · rw [hpc, hdata, hfinished, Function.forall_update_iff s.pc (fun _ q => q.Knows _ _ _)]
      exact ⟨.of_out (past_again fs how), fun d _ => hheld d⟩
  | load c how fs k hin hk hpc hlock hdata hfinished =>
    have hc : c ∈ insiders s.pc := by simp [insiders, hin, Pc.past]
    have hsame : insiders s'.pc = insiders s.pc := by
      rw [hpc, insiders_enter rfl]
      exact Set.insert_eq_self.mpr hc
    have hknows := hheld c
    rw [hin] at hknows
    refine ⟨hidle, ?_, ?_, ?_⟩
    · rw [hlock, hsame]
      exact h.guards
    · rw [hlock, hdata, hfinished]
      exact h.free
    · rw [hpc, hdata, hfinished, Function.forall_update_iff s.pc (fun _ q => q.Knows _ _ _)]
      exact ⟨⟨hk, rfl, hknows.2⟩, fun d _ => hheld d⟩
  | store c how fs k d hin hpc hlock hdata hfinished =>
    have hc : c ∈ insiders s.pc := by simp [insiders, hin, Pc.past]
    have hsame : insiders s'.pc = insiders s.pc := by
      rw [hpc, insiders_enter rfl]
      exact Set.insert_eq_self.mpr hc
    have hknows := hheld c
    rw [hin] at hknows
    obtain ⟨hk, rfl, hd⟩ := hknows
    refine ⟨hidle, ?_, ?_, ?_⟩
    · rw [hlock, hsame]
      exact h.guards
    · rw [hlock, h.guards.held hc]
      exact fun h10 => absurd h10 (by decide)
    · rw [hpc, hdata, hfinished, Function.forall_update_iff s.pc (fun _ q => q.Knows _ _ _)]
      refine ⟨⟨hk, ?_⟩, fun d hne => .of_out (h.alone hc hne)⟩
      -- the store is of what the holder has loaded, and nobody has written since
      have htake : fs.take (k + 1) = fs.take k ++ [fs.getD k id] := by
        rw [List.take_succ_eq_append_getElem hk, List.getD_eq_getElem _ _ hk]
      conv_lhs => rw [hd]
      rw [htake, ← List.append_assoc]
      simp [replay, List.foldl_append]
  | leave c how fs k hin hk hpc hlock hdata hfinished =>
    have hc : c ∈ insiders s.pc := by simp [insiders, hin, Pc.past]
    have hknows := hheld c
    rw [hin] at hknows
    refine ⟨hidle, ?_, ?_, ?_⟩
    · rw [hlock, hpc, insiders_out (past_after how)]
      exact h.guards.leave hc
    · intro _
      have hall : fs.take k = fs := List.take_of_length_le (Nat.le_of_not_lt hk)
      rw [hdata, hfinished, hknows.2, hall]
      simp
    · rw [hpc, hdata, hfinished, Function.forall_update_iff s.pc (fun _ q => q.Knows _ _ _)]
      exact ⟨.of_out (past_after how), fun d hne => .of_out (h.alone hc hne)⟩

theorem Exclusive.step {e : Event ι D} (h : Exclusive d₀ s) (hs : step e s = some s') :
    Exclusive d₀ s' :=
  h.of_effect (h.idle.step hs) (step_effect h.idle hs)

end Exclusion

end RvKernel.Spinlock
