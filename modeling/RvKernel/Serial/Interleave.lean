/-
# No byte is lost, and no lock is spun on

The invariant of the serial driver, in three parts that build on each other.

* `Masking`: the shell runs with interrupts off from `hart_irq_disable` to `hart_irq_restore`, and
  the handler runs with interrupts off; where they are on, they are as the caller had them.
* `Locking`: the lock is taken just where the code says so.  With `Masking` it follows that it is
  free when an interrupt is taken, so that the handler does not spin.
* `Data`: the bytes handed out, those in `dev.buf` and the one in the handler's hands are the bytes
  read from the receiver, in order.

Each part has one lemma for a step of the handler and one for a step of the shell.
-/
import RvKernel.Serial.Machine

namespace RvKernel.Serial

open Lts

/-! ## 1. Interrupts are off where they should be -/

/-- From `hart_irq_disable` to `hart_irq_restore`. -/
def Call.masked : Call → Bool
  | .outside => false
  | .save => false
  | .disable _ => false
  | .ret _ => false
  | _ => true

/-- In a call, but with interrupts as the caller had them. -/
def Call.unmasked : Call → Bool
  | .save => true
  | .disable _ => true
  | .ret _ => true
  | _ => false

/-- What `hart_irq_save` returned. -/
def Call.flags : Call → Option Sstatus
  | .disable flags => some flags
  | .lock flags => some flags
  | .test flags _ => some flags
  | .load flags _ => some flags
  | .store flags _ _ => some flags
  | .count flags => some flags
  | .clear flags _ => some flags
  | .unlock flags _ => some flags
  | .restore flags _ => some flags
  | _ => none

/-- `SIE` of the shell: the handler will restore it from `SPIE`. -/
def State.home (s : State) : Bool := if s.irq = none then s.sstatus.sie else s.sstatus.spie

structure Masking (s : State) : Prop where
  handler : s.irq ≠ none → s.sstatus.sie = false
  masked : s.call.masked = true → s.irq = none ∧ s.sstatus.sie = false
  flags : ∀ f, s.call.flags = some f → f.sie = s.before
  home : s.call.unmasked = true → s.home = s.before
  calls : ∀ p ∈ s.calls, p.1 = p.2

/-- What a step of the handler leaves alone. -/
theorem irqStep_frame (pc : Irq) (s : State) :
    (irqStep pc s).call = s.call ∧ (irqStep pc s).before = s.before ∧
      (irqStep pc s).calls = s.calls ∧ (irqStep pc s).input = s.input ∧
      (irqStep pc s).delivered = s.delivered := by
  cases pc with
  | claim =>
    rw [irqStep]
    split <;> exact ⟨rfl, rfl, rfl, rfl, rfl⟩
  | _ => exact ⟨rfl, rfl, rfl, rfl, rfl⟩

/-- The handler goes on with interrupts off, or leaves and restores them. -/
theorem irqStep_sstatus (pc : Irq) (s : State) :
    (irqStep pc s).irq ≠ none ∧ (irqStep pc s).sstatus = s.sstatus ∨
      pc = .leave ∧ (irqStep pc s).irq = none ∧ (irqStep pc s).sstatus = s.sstatus.sret := by
  cases pc with
  | claim =>
    rw [irqStep]
    split <;> exact Or.inl ⟨nofun, rfl⟩
  | leave => exact Or.inr ⟨rfl, rfl, rfl⟩
  | _ => exact Or.inl ⟨nofun, rfl⟩

theorem Masking.handler_step {s : State} {pc : Irq} (h : Masking s) (hpc : s.irq = some pc) :
    Masking (irqStep pc s) := by
  obtain ⟨hcall, hbefore, hcalls, -, -⟩ := irqStep_frame pc s
  have hne : s.irq ≠ none := by
    rw [hpc]
    exact nofun
  have hunmasked : s.call.masked ≠ true := fun hm => hne (h.masked hm).1
  have hhome : (irqStep pc s).home = s.home := by
    rw [State.home, State.home, if_neg hne]
    rcases irqStep_sstatus pc s with ⟨hirq, hst⟩ | ⟨-, hirq, hst⟩
    · rw [if_neg hirq, hst]
    · rw [if_pos hirq, hst]
      rfl
  constructor
  · intro hirq
    rcases irqStep_sstatus pc s with ⟨-, hst⟩ | ⟨-, hnone, -⟩
    · rw [hst]
      exact h.handler hne
    · exact absurd hnone hirq
  · rw [hcall]
    exact fun hm => absurd hm hunmasked
  · rw [hcall, hbefore]
    exact h.flags
  · rw [hcall, hbefore, hhome]
    exact h.home
  · rw [hcalls]
    exact h.calls

theorem Masking.shell_step {s s' : State} (h : Masking s) (hirq : s.irq = none)
    (hs : shellStep s = some s') : Masking s' := by
  have hhome : s.home = s.sstatus.sie := if_pos hirq
  have hflags := h.flags
  have hmasked := h.masked
  have hopen := h.home
  rw [hhome] at hopen
  unfold shellStep at hs
  cases hc : s.call with
  | outside =>
    rw [hc] at hs
    cases hs
  | save =>
    rw [hc] at hs hopen
    cases hs
    refine ⟨fun hne => absurd hirq hne, nofun, ?_, fun _ => hhome.trans (hopen rfl), h.calls⟩
    intro f hf
    cases hf
    exact hopen rfl
  | disable flags =>
    rw [hc] at hs hflags
    cases hs
    exact ⟨fun _ => rfl, fun _ => ⟨hirq, rfl⟩, hflags, nofun, h.calls⟩
  | lock | test =>
    rw [hc] at hs hflags hmasked
    cases hs
    have hoff := (hmasked rfl).2
    split
    · exact ⟨fun _ => hoff, fun _ => ⟨hirq, hoff⟩, hflags, nofun, h.calls⟩
    · exact ⟨fun _ => hoff, fun _ => ⟨hirq, hoff⟩, hflags, nofun, h.calls⟩
  | load | store | count | clear | unlock =>
    rw [hc] at hs hflags hmasked
    cases hs
    exact ⟨fun _ => (hmasked rfl).2, fun _ => hmasked rfl, hflags, nofun, h.calls⟩
  | restore flags ret =>
    rw [hc] at hs hflags
    cases hs
    refine ⟨fun hne => absurd hirq hne, nofun, nofun, fun _ => ?_, h.calls⟩
    rw [State.home, if_pos hirq]
    exact hflags flags rfl
  | ret ret =>
    rw [hc] at hs hopen
    cases hs
    refine ⟨fun hne => absurd hirq hne, nofun, nofun, nofun, ?_⟩
    intro p hp
    rcases List.mem_cons.mp hp with rfl | hp
    · exact (hopen rfl).symm
    · exact h.calls p hp

/-! ## 2. The lock -/

/-- The shell holds the lock. -/
def Call.holds : Call → Bool
  | .test _ _ => true
  | .load _ _ => true
  | .store _ _ _ => true
  | .count _ => true
  | .clear _ _ => true
  | .unlock _ _ => true
  | _ => false

/-- The handler holds the lock. -/
def Irq.holds : Irq → Bool
  | .test => true
  | .rbr => true
  | .len _ => true
  | .store _ _ => true
  | .inc _ => true
  | .unlock => true
  | _ => false

/-- The lock is taken just where one of them holds it. -/
def Locking (s : State) : Prop :=
  s.dev.lock = if s.call.holds || s.irq.any Irq.holds then 1 else 0

theorem Call.masked_of_holds {call : Call} (h : call.holds = true) : call.masked = true := by
  cases call <;> first | rfl | cases h

/-- The shell does not hold the lock while the handler runs. -/
theorem Masking.not_holds {s : State} (h : Masking s) (hne : s.irq ≠ none) :
    s.call.holds = false := by
  cases hc : s.call.holds with
  | false => rfl
  | true => exact absurd (h.masked (Call.masked_of_holds hc)).1 hne

theorem Locking.handler_step {s : State} {pc : Irq} (h : Locking s) (hm : Masking s)
    (hpc : s.irq = some pc) : Locking (irqStep pc s) := by
  have hholds := hm.not_holds (by rw [hpc]; exact nofun)
  obtain ⟨hcall, -⟩ := irqStep_frame pc s
  unfold Locking at h ⊢
  rw [hholds, hpc] at h
  rw [hcall, hholds]
  cases pc with
  | claim =>
    rw [irqStep]
    split <;> exact h
  | lock =>
    -- the lock is free, so that the handler takes it at once
    have hfree : s.dev.lock = 0 := h
    rw [irqStep, if_pos hfree]
    rfl
  | test =>
    rw [irqStep]
    split <;> exact h
  | rbr => exact h
  | len c => exact h
  | store c n => exact h
  | inc n => exact h
  | unlock => rfl
  | complete => exact h
  | leave => exact h

theorem Locking.shell_step {s s' : State} (h : Locking s) (hirq : s.irq = none)
    (hs : shellStep s = some s') : Locking s' := by
  unfold Locking at h ⊢
  rw [hirq] at h
  unfold shellStep at hs
  cases hc : s.call with
  | outside =>
    rw [hc] at hs
    cases hs
  | lock flags =>
    rw [hc] at hs h
    cases hs
    have hfree : s.dev.lock = 0 := h
    rw [if_pos hfree, hirq]
    rfl
  | test flags i =>
    rw [hc] at hs h
    cases hs
    rw [hirq]
    split <;> exact h
  | unlock flags ret =>
    rw [hc] at hs
    cases hs
    rw [hirq]
    rfl
  | save | disable | load | store | count | clear | restore | ret =>
    rw [hc] at hs h
    cases hs
    rw [hirq]
    exact h

/-! ## 3. The bytes -/

/-- The bytes that `serial_irq` has read and not yet stored. -/
def Irq.inFlight : Irq → List U8
  | .len c => [c]
  | .store c _ => [c]
  | _ => []

/-- The bytes in `dev.buf`, which counts the last one late. -/
def Irq.content (dev : Dev) : Option Irq → List U8
  | some (.inc n) => dev.buf.toList.take (n + 1)
  | _ => dev.buf.toList.take dev.len

/-- The bytes that `serial_read` will hand out, or those of `dev.buf`. -/
def State.content (s : State) : List U8 :=
  match s.call with
  | .unlock _ ret => s.input.toList.take ret
  | _ => Irq.content s.dev s.irq

/-- What the handler knows of `dev.len`. -/
def Irq.Facts (dev : Dev) : Irq → Prop
  | .rbr => dev.len < SERIAL_BUF_SIZE
  | .len _ => dev.len < SERIAL_BUF_SIZE
  | .store _ n => n = dev.len ∧ dev.len < SERIAL_BUF_SIZE
  | .inc n => n = dev.len ∧ dev.len < SERIAL_BUF_SIZE
  | _ => True

/-- The first `n` bytes have been copied. -/
def Copied (dev : Dev) (input : Vector U8 256) (n : ℕ) : Prop :=
  input.toList.take n = dev.buf.toList.take n

/-- What `serial_read` has copied. -/
def Call.Facts (dev : Dev) (input : Vector U8 256) : Call → Prop
  | .test _ i => i ≤ dev.len ∧ Copied dev input i
  | .load _ i => i < dev.len ∧ Copied dev input i
  | .store _ i c => i < dev.len ∧ Copied dev input i ∧ c = dev.buf.toList.getD i 0
  | .count _ => Copied dev input dev.len
  | .clear _ n => n = dev.len ∧ Copied dev input dev.len
  | .unlock _ _ => dev.len = 0
  | _ => True

structure Data (s : State) : Prop where
  len_le : s.dev.len ≤ SERIAL_BUF_SIZE
  touched : ∀ i ∈ s.touched, i < SERIAL_BUF_SIZE
  bytes : s.delivered ++ s.content ++ s.irq.elim [] Irq.inFlight = s.rbr
  irq : ∀ pc, s.irq = some pc → pc.Facts s.dev
  call : s.call.Facts s.dev s.input

theorem Call.facts_of_not_masked {call : Call} (h : call.masked = false) (dev : Dev)
    (input : Vector U8 256) : call.Facts dev input := by
  cases call <;> trivial

theorem State.content_of_not_masked {s : State} (h : s.call.masked = false) :
    s.content = Irq.content s.dev s.irq := by
  unfold State.content
  cases hc : s.call with
  | unlock =>
    rw [hc] at h
    cases h
  | _ => rfl

theorem take_succ_set {l : List U8} {i : ℕ} (h : i < l.length) (c : U8) :
    (l.set i c).take (i + 1) = l.take i ++ [c] := by
  rw [List.take_succ_eq_append_getElem (by simpa using h), List.take_set_of_le le_rfl,
    List.getElem_set_self]

theorem Data.handler_step {s : State} {pc : Irq} (h : Data s) (hm : Masking s)
    (hpc : s.irq = some pc) : Data (irqStep pc s) := by
  obtain ⟨hcall, -, -, hinput, hdelivered⟩ := irqStep_frame pc s
  have hunmasked : s.call.masked = false := by
    cases hc : s.call.masked with
    | false => rfl
    | true =>
      have hnone := (hm.masked hc).1
      rw [hpc] at hnone
      cases hnone
  have hfacts : (irqStep pc s).call.Facts (irqStep pc s).dev (irqStep pc s).input := by
    rw [hcall]
    exact Call.facts_of_not_masked hunmasked _ _
  have hcontent : (irqStep pc s).content = Irq.content (irqStep pc s).dev (irqStep pc s).irq :=
    State.content_of_not_masked (by rw [hcall]; exact hunmasked)
  have hbytes := h.bytes
  have hirq := h.irq pc hpc
  rw [State.content_of_not_masked hunmasked, hpc] at hbytes
  -- what is left to show: the bounds, the bytes, and what the handler knows
  suffices hrest : (irqStep pc s).dev.len ≤ SERIAL_BUF_SIZE ∧
      (∀ i ∈ (irqStep pc s).touched, i < SERIAL_BUF_SIZE) ∧
      s.delivered ++ Irq.content (irqStep pc s).dev (irqStep pc s).irq ++
        (irqStep pc s).irq.elim [] Irq.inFlight = (irqStep pc s).rbr ∧
      ∀ pc', (irqStep pc s).irq = some pc' → pc'.Facts (irqStep pc s).dev by
    obtain ⟨hlen, htouched, hb, hf⟩ := hrest
    refine ⟨hlen, htouched, ?_, hf, hfacts⟩
    rw [hdelivered, hcontent]
    exact hb
  cases pc with
  | claim | lock =>
    rw [irqStep]
    split
    · exact ⟨h.len_le, h.touched, hbytes, by rintro _ ⟨⟩; trivial⟩
    · exact ⟨h.len_le, h.touched, hbytes, by rintro _ ⟨⟩; trivial⟩
  | test =>
    rw [irqStep]
    split
    · rename_i hlt
      refine ⟨h.len_le, h.touched, hbytes, ?_⟩
      rintro pc' ⟨⟩
      exact hlt
    · exact ⟨h.len_le, h.touched, hbytes, by rintro _ ⟨⟩; trivial⟩
  | rbr =>
    refine ⟨h.len_le, h.touched, ?_, ?_⟩
    · show s.delivered ++ s.dev.buf.toList.take s.dev.len ++ [s.rx.headD 0]
        = s.rbr ++ [s.rx.headD 0]
      rw [← hbytes]
      simp [Irq.content, Irq.inFlight]
    · rintro pc' ⟨⟩
      exact hirq
  | len c =>
    refine ⟨h.len_le, h.touched, hbytes, ?_⟩
    rintro pc' ⟨⟩
    exact ⟨rfl, hirq⟩
  | store c n =>
    obtain ⟨rfl, hlt⟩ := hirq
    refine ⟨h.len_le, ?_, ?_, ?_⟩
    · intro i hi
      rcases List.mem_cons.mp hi with rfl | hi
      · exact hlt
      · exact h.touched i hi
    · show s.delivered ++ (s.dev.buf.setIfInBounds s.dev.len c).toList.take (s.dev.len + 1) ++ []
        = s.rbr
      rw [Vector.toList_setIfInBounds, take_succ_set (by rw [Vector.length_toList]; exact hlt),
        ← hbytes]
      simp [Irq.content, Irq.inFlight]
    · rintro pc' ⟨⟩
      exact ⟨rfl, hlt⟩
  | inc n =>
    obtain ⟨rfl, hlt⟩ := hirq
    exact ⟨hlt, h.touched, hbytes, by rintro _ ⟨⟩; trivial⟩
  | unlock | complete => exact ⟨h.len_le, h.touched, hbytes, by rintro _ ⟨⟩; trivial⟩
  | leave => exact ⟨h.len_le, h.touched, hbytes, nofun⟩

/-- One more byte is copied. -/
theorem Copied.succ {dev : Dev} {input : Vector U8 256} {i : ℕ} (h : Copied dev input i)
    (hlt : i < 256) : Copied dev (input.setIfInBounds i (dev.buf.toList.getD i 0)) (i + 1) := by
  have hbuf : i < dev.buf.toList.length := by
    rw [Vector.length_toList]
    exact hlt
  have hinput : i < input.toList.length := by
    rw [Vector.length_toList]
    exact hlt
  unfold Copied at h ⊢
  rw [Vector.toList_setIfInBounds, take_succ_set hinput, h, List.take_succ_eq_append_getElem hbuf,
    List.getD_eq_getElem _ _ hbuf]

theorem Data.shell_step {s s' : State} (h : Data s) (hirq : s.irq = none)
    (hs : shellStep s = some s') : Data s' := by
  have hbytes := h.bytes
  have hcall := h.call
  unfold shellStep at hs
  unfold State.content at hbytes
  rw [hirq] at hbytes
  -- the handler does not run, and nothing is known of it
  have hnone : ∀ {dev : Dev} (pc : Irq), s.irq = some pc → pc.Facts dev := by
    intro dev pc hpc
    rw [hirq] at hpc
    cases hpc
  cases hc : s.call with
  | outside =>
    rw [hc] at hs
    cases hs
  | save | disable | restore | ret =>
    rw [hc] at hs hbytes
    cases hs
    refine ⟨h.len_le, h.touched, ?_, hnone, trivial⟩
    rw [State.content, hirq]
    exact hbytes
  | lock flags =>
    rw [hc] at hs hbytes
    cases hs
    refine ⟨h.len_le, h.touched, ?_, hnone, ?_⟩
    · rw [State.content, hirq]
      split <;> exact hbytes
    · split
      · exact ⟨Nat.zero_le _, rfl⟩
      · trivial
  | test flags i =>
    rw [hc] at hs hbytes hcall
    cases hs
    obtain ⟨hle, hcopied⟩ := hcall
    refine ⟨h.len_le, h.touched, ?_, hnone, ?_⟩
    · rw [State.content, hirq]
      split <;> exact hbytes
    · split
      · rename_i hlt
        exact ⟨hlt, hcopied⟩
      · rename_i hge
        have heq : i = s.dev.len := by omega
        rw [heq] at hcopied
        exact hcopied
  | load flags i =>
    rw [hc] at hs hbytes hcall
    cases hs
    obtain ⟨hlt, hcopied⟩ := hcall
    refine ⟨h.len_le, ?_, ?_, hnone, ⟨hlt, hcopied, rfl⟩⟩
    · intro j hj
      rcases List.mem_cons.mp hj with rfl | hj
      · exact lt_of_lt_of_le hlt h.len_le
      · exact h.touched j hj
    · rw [State.content, hirq]
      exact hbytes
  | store flags i c =>
    rw [hc] at hs hbytes hcall
    cases hs
    obtain ⟨hlt, hcopied, rfl⟩ := hcall
    refine ⟨h.len_le, h.touched, ?_, hnone, ⟨hlt, hcopied.succ (lt_of_lt_of_le hlt h.len_le)⟩⟩
    rw [State.content, hirq]
    exact hbytes
  | count flags =>
    rw [hc] at hs hbytes hcall
    cases hs
    refine ⟨h.len_le, h.touched, ?_, hnone, ⟨rfl, hcall⟩⟩
    rw [State.content, hirq]
    exact hbytes
  | clear flags ret =>
    rw [hc] at hs hbytes hcall
    cases hs
    obtain ⟨rfl, hcopied⟩ := hcall
    refine ⟨Nat.zero_le _, h.touched, ?_, hnone, rfl⟩
    show s.delivered ++ s.input.toList.take s.dev.len ++ s.irq.elim [] Irq.inFlight = s.rbr
    rw [hirq, hcopied]
    exact hbytes
  | unlock flags ret =>
    rw [hc] at hs hbytes hcall
    cases hs
    have hlen : s.dev.len = 0 := hcall
    refine ⟨h.len_le, h.touched, ?_, hnone, trivial⟩
    rw [State.content, hirq]
    show s.delivered ++ s.input.toList.take ret ++ s.dev.buf.toList.take s.dev.len ++ [] = s.rbr
    rw [hlen, List.take_zero, List.append_nil]
    exact hbytes

/-! ## 4. Every interleaving -/

structure Inv (s : State) : Prop where
  masking : Masking s
  locking : Locking s
  data : Data s

theorem Inv.start (sstatus : Sstatus) (buf : Vector U8 SERIAL_BUF_SIZE) (input : Vector U8 256)
    (rx : List U8) : Inv (start sstatus buf input rx) :=
  ⟨⟨fun h => absurd rfl h, nofun, nofun, nofun, nofun⟩, rfl,
    ⟨Nat.zero_le _, nofun, rfl, nofun, trivial⟩⟩

/-- An interrupt moves no data; it saves `SIE` and clears it. -/
theorem Inv.interrupt {s : State} (h : Inv s) (hirq : s.irq = none)
    (hsie : s.sstatus.sie = true) :
    Inv { s with sstatus := s.sstatus.trap, irq := some .claim } := by
  have hunmasked : s.call.masked ≠ true := by
    intro hm
    rw [(h.masking.masked hm).2] at hsie
    cases hsie
  refine ⟨⟨fun _ => rfl, fun hm => absurd hm hunmasked, h.masking.flags, fun hopen => ?_,
    h.masking.calls⟩, ?_, ⟨h.data.len_le, h.data.touched, ?_, by rintro _ ⟨⟩; trivial,
    h.data.call⟩⟩
  · have hhome := h.masking.home hopen
    rw [State.home, if_pos hirq] at hhome
    exact hhome
  · have hlock := h.locking
    unfold Locking at hlock ⊢
    rw [hirq] at hlock
    exact hlock
  · have hbytes := h.data.bytes
    rw [State.content_of_not_masked (by simpa using hunmasked), hirq] at hbytes
    rw [State.content_of_not_masked (by simpa using hunmasked)]
    exact hbytes

theorem Inv.step {s s' : State} {e : Event} (h : Inv s) (hs : step e s = some s') : Inv s' := by
  cases e with
  | receive c =>
    cases hs
    exact ⟨⟨h.masking.handler, h.masking.masked, h.masking.flags, h.masking.home, h.masking.calls⟩,
      h.locking, ⟨h.data.len_le, h.data.touched, h.data.bytes, h.data.irq, h.data.call⟩⟩
  | interrupt =>
    rw [Serial.step] at hs
    split at hs
    · rename_i hcond
      cases hs
      exact h.interrupt hcond.1 hcond.2.1
    · cases hs
  | handler =>
    obtain ⟨pc, hpc, rfl⟩ := Option.map_eq_some_iff.mp hs
    exact ⟨h.masking.handler_step hpc, h.locking.handler_step h.masking hpc,
      h.data.handler_step h.masking hpc⟩
  | enter =>
    rw [Serial.step] at hs
    split at hs
    · rename_i hcond
      obtain ⟨hirq, hcall⟩ := hcond
      cases hs
      have hlock := h.locking
      unfold Locking at hlock
      rw [hcall] at hlock
      have hbytes := h.data.bytes
      rw [State.content_of_not_masked (by rw [hcall]; rfl)] at hbytes
      exact ⟨⟨h.masking.handler, nofun, nofun, fun _ => if_pos hirq, h.masking.calls⟩, hlock,
        ⟨h.data.len_le, h.data.touched, hbytes, h.data.irq, trivial⟩⟩
    · cases hs
  | enable =>
    rw [Serial.step] at hs
    split at hs
    · rename_i hcond
      obtain ⟨hirq, hcall⟩ := hcond
      cases hs
      have hmasked : s.call.masked = false := by
        rw [hcall]
        rfl
      have hopen : s.call.unmasked = false := by
        rw [hcall]
        rfl
      refine ⟨⟨fun hne => absurd hirq hne, fun hm => ?_, h.masking.flags, fun ho => ?_,
        h.masking.calls⟩, h.locking,
        ⟨h.data.len_le, h.data.touched, h.data.bytes, h.data.irq, h.data.call⟩⟩
      · cases hmasked.symm.trans hm
      · cases hopen.symm.trans ho
    · cases hs
  | shell =>
    rw [Serial.step] at hs
    split at hs
    · rename_i hirq
      exact ⟨h.masking.shell_step hirq hs, h.locking.shell_step hirq hs,
        h.data.shell_step hirq hs⟩
    · cases hs

theorem Inv.run {sstatus : Sstatus} {buf : Vector U8 SERIAL_BUF_SIZE} {input : Vector U8 256}
    {rx : List U8} {s : State}
    (hr : Run Serial.step (fun _ _ => True) (Serial.start sstatus buf input rx) s) : Inv s :=
  hr.invariant (.start sstatus buf input rx) fun h _ hs => h.step hs

/-- Only the holder of the lock has a byte in its hands. -/
theorem Irq.content_of_not_holds {irq : Option Irq} (h : irq.any Irq.holds = false) (dev : Dev) :
    Irq.content dev irq = dev.buf.toList.take dev.len ∧ irq.elim [] Irq.inFlight = [] := by
  cases irq with
  | none => exact ⟨rfl, rfl⟩
  | some pc =>
    cases pc with
    | len | store | inc => cases h
    | _ => exact ⟨rfl, rfl⟩

theorem State.content_of_not_holds {s : State} (h : s.call.holds = false) :
    s.content = Irq.content s.dev s.irq := by
  unfold State.content
  cases hc : s.call with
  | unlock =>
    rw [hc] at h
    cases h
  | _ => rfl

/-- Where the lock is free, no byte is on its way. -/
theorem Inv.bytes_of_free {s : State} (h : Inv s) (hfree : s.dev.lock = 0) :
    s.delivered ++ s.dev.buf.toList.take s.dev.len = s.rbr := by
  have hlock := h.locking
  unfold Locking at hlock
  have hholds : (s.call.holds || s.irq.any Irq.holds) = false := by
    cases hb : s.call.holds || s.irq.any Irq.holds with
    | false => rfl
    | true =>
      rw [hb, hfree] at hlock
      cases hlock
  rw [Bool.or_eq_false_iff] at hholds
  obtain ⟨hcontent, hflight⟩ := Irq.content_of_not_holds hholds.2 s.dev
  have hbytes := h.data.bytes
  rw [State.content_of_not_holds hholds.1, hcontent, hflight, List.append_nil] at hbytes
  exact hbytes

/-- The lock is free while interrupts are on, and until the handler takes it. -/
theorem Inv.lock_free {s : State} (h : Inv s) (hcall : s.call.holds = false)
    (hirq : s.irq.any Irq.holds = false) : s.dev.lock = 0 := by
  have hlock := h.locking
  unfold Locking at hlock
  rw [hcall, hirq] at hlock
  exact hlock

theorem Inv.lock_of_sie {s : State} (h : Inv s) (hirq : s.irq = none)
    (hsie : s.sstatus.sie = true) : s.dev.lock = 0 := by
  refine h.lock_free ?_ (by rw [hirq]; rfl)
  cases hc : s.call.holds with
  | false => rfl
  | true =>
    rw [(h.masking.masked (Call.masked_of_holds hc)).2] at hsie
    cases hsie

/-- **The serial driver, in every interleaving of `serial_read` with its interrupt.**  (a) The lock
is free when an interrupt is taken, and when the handler tries to take it; (b) `dev.buf` is used
within its bounds; (c) while the lock is free, the bytes handed out and those in `dev.buf` are the
bytes read from the receiver; (d) each call leaves `SIE` as it was. -/
theorem serial_read_interleaves (sstatus : Sstatus) (buf : Vector U8 SERIAL_BUF_SIZE)
    (input : Vector U8 256) (rx : List U8) {s : State}
    (hr : Run step (fun _ _ => True) (start sstatus buf input rx) s) :
    (∀ s', step .interrupt s = some s' → s.dev.lock = 0) ∧
      (s.irq = some .lock → s.dev.lock = 0) ∧
      s.dev.len ≤ SERIAL_BUF_SIZE ∧ (∀ i ∈ s.touched, i < SERIAL_BUF_SIZE) ∧
      (s.dev.lock = 0 → s.delivered ++ s.dev.buf.toList.take s.dev.len = s.rbr) ∧
      ∀ p ∈ s.calls, p.1 = p.2 := by
  have hinv := Inv.run hr
  refine ⟨?_, ?_, hinv.data.len_le, hinv.data.touched, hinv.bytes_of_free, hinv.masking.calls⟩
  · intro s' hs
    rw [step] at hs
    split at hs
    · rename_i hcond
      exact hinv.lock_of_sie hcond.1 hcond.2.1
    · cases hs
  · intro hlock
    exact hinv.lock_free (hinv.masking.not_holds (by rw [hlock]; exact nofun)) (by rw [hlock]; rfl)

/-- Two bytes arrive during one call.  The interrupt of the first is taken before the call has
switched interrupts off; that of the second, which comes while the call holds the lock, has to wait
until the call has restored them. -/
def twoBytes : List Event :=
  .enter :: .shell :: .receive 65 :: .interrupt :: (List.replicate 10 .handler ++
    .shell :: .shell :: .receive 66 :: (List.replicate 8 .shell ++
      .interrupt :: (List.replicate 10 .handler ++ [.shell])))

theorem serial_read_two_bytes : ∃ s,
    exec step twoBytes
        (start ⟨true, false, false⟩ (Vector.replicate 256 0) (Vector.replicate 256 0) []) = some s ∧
      s.rbr = [65, 66] ∧ s.delivered = [65] ∧ s.calls = [(true, true)] ∧
      s.delivered ++ s.dev.buf.toList.take s.dev.len = s.rbr := by
  have hsee : (exec step twoBytes (start ⟨true, false, false⟩ (Vector.replicate 256 0)
      (Vector.replicate 256 0) [])).map (fun s => (s.rbr, s.delivered, s.calls, s.dev.lock))
      = some ([65, 66], [65], [(true, true)], 0) := by decide +kernel
  obtain ⟨s, hs, heq⟩ := Option.map_eq_some_iff.mp hsee
  obtain ⟨hrbr, hdelivered, hcalls, hlock⟩ : s.rbr = [65, 66] ∧ s.delivered = [65] ∧
      s.calls = [(true, true)] ∧ s.dev.lock = 0 := by
    simpa using heq
  obtain ⟨-, -, -, -, hbytes, -⟩ := serial_read_interleaves _ _ _ _ (.of_exec hs)
  exact ⟨s, hs, hrbr, hdelivered, hcalls, hbytes hlock⟩

end RvKernel.Serial
