/-
# What is seen on the console

The whole of it, in every interleaving of the shell with the two interrupts (`console_session`): the
terminal is sent the transcript of a stream, with the messages of the timer in between; that stream
is the bytes that `serial_read` has handed out, which are the first of those that the handler has
read from the receiver.  Where the shell waits for input, the transcript is complete.

There is at most one message for each line `alarm`, and one for the timer interrupt that `kmain`
enables before the first prompt.
-/
import RvKernel.Console.Machine

namespace RvKernel.Console

open Lts Text
open Serial (Sstatus)
open Shell (isEol stored cstring classify printed transcript reply dispatch Holds)

/-! ## 1. What a character makes the shell do -/

/-- The timer interrupt is enabled so often. -/
def enables (evs : List Shell.Event) : ℕ := evs.countP (· = .timerIrqEnable)

/-- The line is a command `alarm`. -/
def IsAlarm (line : List U8) : Prop := line ≠ [] ∧ classify (cstring (stored line)) = .alarm

instance (line : List U8) : Decidable (IsAlarm line) := inferInstanceAs (Decidable (_ ∧ _))

/-- **The `alarm` lines of a stream**; `cur` is the line so far. -/
def alarmLines : List U8 → List U8 → ℕ
  | _, [] => 0
  | cur, c :: cs =>
    if isEol c then (if IsAlarm cur then 1 else 0) + alarmLines [] cs
    else alarmLines (cur ++ [c]) cs

/-- The line after a character. -/
def nextLine (cur : List U8) (c : U8) : List U8 := if isEol c then [] else cur ++ [c]

theorem enables_append (l l' : List Shell.Event) : enables (l ++ l') = enables l + enables l' :=
  List.countP_append

theorem enables_putc (t : List U8) : enables (t.map .putc) = 0 := by
  simp [enables, List.countP_map, List.countP_eq_zero]

theorem enables_stores (b : Shell.Buf) (n : ℕ) : enables (Shell.stores b n) = 0 := by
  simp [enables, Shell.stores, List.countP_map, List.countP_eq_zero]

theorem run_enables {p : Ptr} {s : List U8} (h : PointsTo p s) {time : U64}
    {evs : List Shell.Event} (hrun : Shell.runCommand time p (classify s) = .ok evs) :
    enables evs = if classify s = .alarm then 1 else 0 := by
  have hanswer : ∀ (n : ℕ) (t : List U8), enables (Shell.stores .output n ++ t.map .putc) = 0 := by
    intro n t
    rw [enables_append, enables_stores, enables_putc]
  cases hcmd : classify s with
  | uptime =>
    rw [hcmd, Shell.run_uptime] at hrun
    cases hrun
    exact hanswer _ _
  | echo =>
    rw [hcmd, Shell.run_echo h (Shell.classify_echo hcmd)] at hrun
    cases hrun
    exact enables_putc _
  | alarm =>
    obtain ⟨secs, -, hset⟩ := Shell.run_alarm h (Shell.classify_alarm hcmd) time
    rw [hcmd, hset] at hrun
    cases hrun
    rfl
  | unknown =>
    rw [hcmd, Shell.run_unknown h] at hrun
    cases hrun
    exact hanswer _ _

theorem dispatch_enables {s : Shell.State} {cur : List U8} (h : Holds s cur) {time : U64}
    {evs : List Shell.Event}
    (hrun : dispatch time (s.commandBuf.setIfInBounds s.commandIndex 0) s.commandIndex = .ok evs) :
    enables evs = if IsAlarm cur then 1 else 0 := by
  by_cases hcur : cur = []
  · subst hcur
    rw [h.dispatch_nil] at hrun
    cases hrun
    rw [if_neg fun ha : IsAlarm [] => ha.1 rfl]
    rfl
  · obtain ⟨p, evs', hp, hcmd, hdispatch⟩ := h.dispatch_line hcur time
    rw [hdispatch] at hrun
    cases hrun
    have hiff : IsAlarm cur ↔ classify (cstring (stored cur)) = .alarm := and_iff_right hcur
    have harmed := run_enables hp hcmd
    rw [← List.singleton_append, enables_append, harmed]
    simp only [hiff]
    exact Nat.zero_add _

/-- **What the code of a character is**: it sends the next piece of the transcript, and enables the
timer interrupt if a line `alarm` ends. -/
theorem step_character (clock : ℕ → U64) {s : Shell.State} {cur : List U8} (h : Holds s cur)
    (h0 : s.events = []) (c : U8) :
    ∃ t, Shell.step clock s c = .ok t ∧ Holds t (nextLine cur c) ∧
      (∀ rest, printed t.events ++ transcript clock t.lines (nextLine cur c) rest
        = transcript clock s.lines cur (c :: rest)) ∧
      ∀ rest, enables t.events + alarmLines (nextLine cur c) rest = alarmLines cur (c :: rest) := by
  cases hc : isEol c with
  | true =>
    have hc' : c = 13 ∨ c = 10 := by simpa [isEol] using hc
    obtain ⟨evs, hrun, -⟩ := Shell.run_dispatch h (clock s.lines)
    have hreply := Shell.dispatch_reply h hrun
    have harmed := dispatch_enables h hrun
    have hprompt : Shell.puts (literal "> ") = .ok ((ascii "> ").map .putc) := rfl
    refine ⟨⟨s.commandBuf.setIfInBounds s.commandIndex 0, 0, s.lines + 1,
      s.events ++ [.putc c, .putc 10, .write .command s.commandIndex] ++ evs ++
        (ascii "> ").map .putc⟩, ?_, ?_, ?_, ?_⟩
    · rw [Shell.step, if_pos hc']
      simp only [hrun, hprompt, ok_bind, pure_eq]
    · rw [nextLine, if_pos hc]
      exact ⟨rfl, rfl⟩
    · intro rest
      have hecho : printed [.putc c, .putc 10, .write .command s.commandIndex] = [c, 10] := rfl
      simp only [h0, nextLine, hc, if_true, transcript, Shell.printed_append, Shell.printed_putc,
        hecho, hreply, List.nil_append]
    · intro rest
      have hecho : enables [.putc c, .putc 10, .write .command s.commandIndex] = 0 := rfl
      simp only [h0, nextLine, hc, if_true, alarmLines, enables_append, enables_putc, hecho,
        harmed, List.nil_append, zero_add, add_zero]
  | false =>
    have hc' : ¬ (c = 13 ∨ c = 10) := by simpa [isEol] using hc
    obtain ⟨t, -, hstep, ht, -⟩ := Shell.step_byte clock h hc
    have hsent : printed t.events = [c] ∧ enables t.events = 0 ∧ t.lines = s.lines := by
      rw [Shell.step, if_neg hc', h0] at hstep
      split at hstep
      · cases hstep
        exact ⟨rfl, rfl, rfl⟩
      · cases hstep
        exact ⟨rfl, rfl, rfl⟩
    obtain ⟨hprinted, harmed, hlines⟩ := hsent
    have hnext : nextLine cur c = cur ++ [c] := by simp [nextLine, hc]
    refine ⟨t, hstep, hnext ▸ ht, ?_, ?_⟩
    · intro rest
      simp only [hprinted, hlines, hnext, transcript, hc, Bool.false_eq_true, if_false]
      rfl
    · intro rest
      simp only [harmed, hnext, alarmLines, hc, Bool.false_eq_true, if_false, zero_add]

theorem transcript_prefix (clock : ℕ → U64) (k : ℕ) (cur xs ys : List U8) :
    transcript clock k cur xs <+: transcript clock k cur (xs ++ ys) := by
  induction xs generalizing k cur with
  | nil => exact List.nil_prefix
  | cons c xs ih =>
    rw [List.cons_append, transcript, transcript]
    split
    · exact (List.prefix_append_right_inj _).mpr (ih _ _)
    · exact List.cons_prefix_cons.mpr ⟨rfl, ih _ _⟩

theorem alarmLines_le (cur xs ys : List U8) : alarmLines cur xs ≤ alarmLines cur (xs ++ ys) := by
  induction xs generalizing cur with
  | nil => exact Nat.zero_le _
  | cons c xs ih =>
    rw [List.cons_append, alarmLines, alarmLines]
    split
    · exact Nat.add_le_add_left (ih _) _
    · exact ih _

/-! ## 2. What the sides do to the account of the shell -/

/-- The bytes that `serial_read` is about to return. -/
def returned (rx : Serial.State) : List U8 :=
  match rx.call with
  | .restore _ n => rx.input.toList.take n
  | .ret n => rx.input.toList.take n
  | _ => []

/-- An instruction of `serial_read`: the bytes it hands out are those that it is going to return. -/
theorem returned_shellStep {r r' : Serial.State} (hs : Serial.shellStep r = some r')
    (hret : ∀ n, r.call ≠ .ret n) :
    r'.call ≠ .outside ∧ ∃ l, r'.delivered = r.delivered ++ l ∧ returned r' = returned r ++ l := by
  unfold Serial.shellStep at hs
  unfold returned
  cases hc : r.call with
  | outside =>
    rw [hc] at hs
    cases hs
  | ret n => exact absurd hc (hret n)
  | unlock flags n =>
    rw [hc] at hs
    cases hs
    exact ⟨nofun, r.input.toList.take n, rfl, rfl⟩
  | restore flags n =>
    rw [hc] at hs
    cases hs
    exact ⟨nofun, [], (List.append_nil _).symm, (List.append_nil _).symm⟩
  | lock | test =>
    rw [hc] at hs
    cases hs
    split
    · exact ⟨nofun, [], (List.append_nil _).symm, rfl⟩
    · exact ⟨nofun, [], (List.append_nil _).symm, rfl⟩
  | _ =>
    rw [hc] at hs
    cases hs
    exact ⟨nofun, [], (List.append_nil _).symm, rfl⟩

/-- The messages of the timer that are certain: it is under way, or it is enabled. -/
def due (t : Transmit.State) : ℕ :=
  match t.irq with
  | some .disable => 1
  | some _ => 1 + if t.stie then 1 else 0
  | none => if t.stie then 1 else 0

/-- No step of the sending side makes a new message due. -/
theorem transmit_due {t t' : Transmit.State} {e : Transmit.Event}
    (hs : Transmit.step e t = some t') (hstie : ∀ on, e ≠ .stie on) :
    t'.alarms + due t' = t.alarms + due t := by
  cases e with
  | drain =>
    obtain ⟨u, -, rfl⟩ := Option.map_eq_some_iff.mp hs
    rfl
  | timer =>
    rw [Transmit.step] at hs
    split at hs
    · rename_i hcond
      cases hs
      simp [due, hcond.1, hcond.2.2]
    · cases hs
  | handler =>
    obtain ⟨pc, hpc, hstep⟩ := Option.bind_eq_some_iff.mp hs
    cases pc with
    | disable =>
      cases hstep
      simp [due, hpc]
    | alarm o =>
      obtain ⟨⟨o', u⟩, -, rfl⟩ := Option.map_eq_some_iff.mp hstep
      cases o' with
      | none => simp [due, hpc]
      | some o' => simp [due, hpc]
    | prompt o =>
      obtain ⟨⟨o', u⟩, -, rfl⟩ := Option.map_eq_some_iff.mp hstep
      cases o' with
      | none => simp [due, hpc]
      | some o' => simp [due, hpc]
    | leave =>
      cases hstep
      simp [due, hpc, add_assoc]
  | shell =>
    rw [Transmit.step] at hs
    split at hs
    · obtain ⟨o, -, hs⟩ := Option.bind_eq_some_iff.mp hs
      obtain ⟨r, -, rfl⟩ := Option.map_eq_some_iff.mp hs
      rfl
    · cases hs
  | puts | putc | sie =>
    rw [Transmit.step] at hs
    split at hs
    · cases hs
      rfl
    · cases hs
  | stie on => exact absurd rfl (hstie on)

/-- The steps that are not calls of the shell ask for nothing. -/
theorem transmit_asked {t t' : Transmit.State} {e : Transmit.Event}
    (hs : Transmit.step e t = some t') (he : e = .drain ∨ e = .timer ∨ e = .handler ∨ e = .shell) :
    t'.asked = t.asked ∧ (t.shell = none → t'.shell = none) := by
  rcases he with rfl | rfl | rfl | rfl
  · obtain ⟨u, -, rfl⟩ := Option.map_eq_some_iff.mp hs
    exact ⟨rfl, id⟩
  · rw [Transmit.step] at hs
    split at hs
    · cases hs
      exact ⟨rfl, id⟩
    · cases hs
  · obtain ⟨pc, -, hstep⟩ := Option.bind_eq_some_iff.mp hs
    obtain ⟨hshell, hasked, -⟩ := Transmit.irqStep_cases hstep
    exact ⟨hasked, hshell.trans⟩
  · rw [Transmit.step] at hs
    split at hs
    · obtain ⟨o, ho, hs⟩ := Option.bind_eq_some_iff.mp hs
      obtain ⟨r, -, rfl⟩ := Option.map_eq_some_iff.mp hs
      refine ⟨rfl, fun hnone => ?_⟩
      rw [ho] at hnone
      cases hnone
    · cases hs

/-! ## 3. The account of the shell -/

section Session

variable {clock : ℕ → U64}

/-- **What the shell has in its hands**: the bytes it has to look at, what it has to do for the
last one, and the line so far. -/
structure Loop (clock : ℕ → U64) (s : State) : Prop where
  busy : s.rx.call ≠ .outside → s.todo = [] ∧ s.chunk = [] ∧ s.tx.shell = none
  taken : s.consumed ++ s.chunk ++ returned s.rx = s.rx.delivered
  line : ∃ cur, Holds s.shell cur ∧ s.shell.events = [] ∧
    (∀ rest, s.tx.asked ++ printed s.todo ++ transcript clock s.shell.lines cur rest
      = greeting ++ transcript clock 0 [] (s.consumed ++ rest)) ∧
    ∀ rest, s.tx.alarms + due s.tx + enables s.todo + alarmLines cur rest
      ≤ 1 + alarmLines [] (s.consumed ++ rest)

theorem Loop.start (sstatus : Sstatus) (stie : Bool) (buf : Vector U8 Serial.SERIAL_BUF_SIZE)
    (input commandBuf : Vector U8 256) (rx : List U8) :
    Loop clock (start sstatus stie buf input commandBuf rx) := by
  refine ⟨fun hne => absurd rfl hne, rfl, [], ⟨rfl, rfl⟩, rfl, fun rest => ?_, fun rest => ?_⟩
  · show [] ++ printed (greeting.map .putc) ++ _ = _
    rw [Shell.printed_putc]
    rfl
  · show 0 + (if stie then 1 else 0) + enables (greeting.map .putc) + alarmLines [] rest
      ≤ 1 + alarmLines [] rest
    rw [enables_putc]
    split <;> omega

/-- What does not concern the shell. -/
theorem Loop.frame {s : State} (h : Loop clock s) {rx : Serial.State} {tx : Transmit.State}
    (hcall : rx.call = s.rx.call) (hinput : rx.input = s.rx.input)
    (hdelivered : rx.delivered = s.rx.delivered)
    (htx : tx.asked = s.tx.asked ∧ (s.tx.shell = none → tx.shell = none))
    (hdue : tx.alarms + due tx = s.tx.alarms + due s.tx) :
    Loop clock { s with rx := rx, tx := tx } := by
  have hreturned : returned rx = returned s.rx := by
    unfold returned
    rw [hcall, hinput]
  refine ⟨fun hne => ?_, ?_, ?_⟩
  · obtain ⟨htodo, hchunk, hshell⟩ := h.busy (hcall ▸ hne)
    exact ⟨htodo, hchunk, htx.2 hshell⟩
  · exact (congrArg (s.consumed ++ s.chunk ++ ·) hreturned).trans (h.taken.trans hdelivered.symm)
  · obtain ⟨cur, hholds, hevents, hsent, harmed⟩ := h.line
    refine ⟨cur, hholds, hevents, fun rest => ?_, fun rest => ?_⟩
    · rw [← hsent rest, ← htx.1]
    · have hle := harmed rest
      rw [← hdue] at hle
      exact hle

/-- The interrupts, and the world outside. -/
theorem Loop.outside_step {s s' : State} (h : Loop clock s) {e : Event}
    (hs : step clock e s = some s') (he : e ≠ .shell) : Loop clock s' := by
  cases e with
  | receive c =>
    cases hs
    exact h.frame rfl rfl rfl ⟨rfl, id⟩ rfl
  | drain =>
    obtain ⟨tx, htx, rfl⟩ := Option.map_eq_some_iff.mp hs
    exact h.frame rfl rfl rfl (transmit_asked htx (Or.inl rfl)) (transmit_due htx nofun)
  | timerInterrupt =>
    obtain ⟨tx, htx, rfl⟩ := Option.map_eq_some_iff.mp hs
    exact h.frame rfl rfl rfl (transmit_asked htx (Or.inr (Or.inl rfl))) (transmit_due htx nofun)
  | timerHandler =>
    obtain ⟨tx, htx, rfl⟩ := Option.map_eq_some_iff.mp hs
    exact h.frame rfl rfl rfl (transmit_asked htx (Or.inr (Or.inr (Or.inl rfl))))
      (transmit_due htx nofun)
  | serialInterrupt =>
    obtain ⟨rx, hrx, rfl⟩ := Option.map_eq_some_iff.mp hs
    rw [Serial.step] at hrx
    split at hrx
    · cases hrx
      exact h.frame rfl rfl rfl ⟨rfl, id⟩ rfl
    · cases hrx
  | serialHandler =>
    obtain ⟨rx, hrx, rfl⟩ := Option.map_eq_some_iff.mp hs
    obtain ⟨pc, -, rfl⟩ := Option.map_eq_some_iff.mp hrx
    obtain ⟨hcall, -, -, hinput, hdelivered⟩ := Serial.irqStep_frame pc s.rx
    exact h.frame hcall hinput hdelivered ⟨rfl, id⟩ rfl
  | shell => exact absurd rfl he

/-- An instruction of `serial_read`. -/
theorem Loop.read_step {s s' : State} (h : Loop clock s) (hcall : s.rx.call ≠ .outside)
    (hret : ∀ n, s.rx.call ≠ .ret n) (hs : s.rxStep .shell = some s') : Loop clock s' := by
  obtain ⟨rx, hrx, rfl⟩ := Option.map_eq_some_iff.mp hs
  rw [Serial.step] at hrx
  split at hrx
  · obtain ⟨-, l, hdelivered, hreturned⟩ := returned_shellStep hrx hret
    refine ⟨fun _ => h.busy hcall, ?_, h.line⟩
    show s.consumed ++ s.chunk ++ returned rx = rx.delivered
    rw [hreturned, hdelivered, ← h.taken, List.append_assoc _ _ l]
  · cases hrx

/-- `serial_read` returns. -/
theorem Loop.read_ret {s t : State} (h : Loop clock s) {n : ℕ} (hret : s.rx.call = .ret n)
    (hs : s.rxStep .shell = some t) : Loop clock { t with chunk := s.rx.input.toList.take n } := by
  obtain ⟨htodo, hchunk, -⟩ := h.busy (by rw [hret]; exact nofun)
  have htaken := h.taken
  rw [hchunk, returned, hret, List.append_nil] at htaken
  obtain ⟨rx, hrx, rfl⟩ := Option.map_eq_some_iff.mp hs
  rw [Serial.step] at hrx
  split at hrx
  · rw [Serial.shellStep, hret] at hrx
    cases hrx
    refine ⟨fun hne => absurd rfl hne, ?_, h.line⟩
    exact (List.append_nil _).trans htaken
  · cases hrx

/-- The next thing to do is done. -/
theorem Loop.doNext {s s' : State} (h : Loop clock s) (hcall : s.rx.call = .outside)
    {e : Shell.Event} {evs : List Shell.Event} (htodo : s.todo = e :: evs)
    (hs : s.doNext e evs = some s') : Loop clock s' := by
  obtain ⟨cur, hholds, hevents, hsent, harmed⟩ := h.line
  rw [htodo] at hsent harmed
  have hbusy : s.rx.call ≠ .outside → evs = [] ∧ s.chunk = [] ∧ s.tx.shell = none :=
    fun hne => absurd hcall hne
  cases e with
  | putc c =>
    obtain ⟨t, ht, rfl⟩ := Option.map_eq_some_iff.mp hs
    obtain ⟨tx, htx, rfl⟩ := Option.map_eq_some_iff.mp ht
    have hdue := transmit_due htx nofun
    rw [Transmit.step] at htx
    split at htx
    · cases htx
      refine ⟨fun hne => absurd hcall hne, h.taken, cur, hholds, hevents, fun rest => ?_,
        fun rest => ?_⟩
      · rw [← hsent rest]
        show s.tx.asked ++ [c] ++ printed evs ++ _ = s.tx.asked ++ (c :: printed evs) ++ _
        rw [List.append_assoc s.tx.asked, List.singleton_append]
      · have hle := harmed rest
        rw [← hdue] at hle
        exact hle
    · cases htx
  | timerIrqEnable =>
    obtain ⟨t, ht, rfl⟩ := Option.map_eq_some_iff.mp hs
    obtain ⟨tx, htx, rfl⟩ := Option.map_eq_some_iff.mp ht
    rw [Transmit.step] at htx
    split at htx
    · rename_i hcond
      cases htx
      refine ⟨fun hne => absurd hcall hne, h.taken, cur, hholds, hevents, fun rest => ?_,
        fun rest => ?_⟩
      · exact hsent rest
      · -- what is enabled now was counted as a line
        have hle := harmed rest
        have hone : enables (.timerIrqEnable :: evs) = 1 + enables evs := enables_append [_] evs
        have hdue : due { s.tx with stie := true } = 1 := by simp [due, hcond.1]
        rw [hone] at hle
        show s.tx.alarms + due { s.tx with stie := true } + enables evs + alarmLines cur rest
          ≤ 1 + alarmLines [] (s.consumed ++ rest)
        rw [hdue]
        omega
    · cases htx
  | write b i =>
    rw [State.doNext] at hs
    split at hs
    · cases hs
      exact ⟨hbusy, h.taken, cur, hholds, hevents, hsent, harmed⟩
    · cases hs
  | _ =>
    cases hs
    exact ⟨hbusy, h.taken, cur, hholds, hevents, hsent, harmed⟩

/-- The next character. -/
theorem Loop.look {s s' : State} (h : Loop clock s) (hcall : s.rx.call = .outside)
    (htodo : s.todo = []) {c : U8} {cs : List U8} (hchunk : s.chunk = c :: cs)
    (hs : s.look clock c cs = some s') : Loop clock s' := by
  obtain ⟨cur, hholds, hevents, hsent, harmed⟩ := h.line
  obtain ⟨t, hstep, ht, hprinted, henables⟩ := step_character clock hholds hevents c
  have htaken := h.taken
  rw [htodo] at hsent harmed
  rw [hchunk] at htaken
  rw [State.look, hstep] at hs
  cases hs
  refine ⟨fun hne => absurd hcall hne, ?_, nextLine cur c, ⟨ht.index, ht.buf⟩, rfl, fun rest => ?_,
    fun rest => ?_⟩
  · show s.consumed ++ [c] ++ cs ++ returned s.rx = s.rx.delivered
    rw [← htaken, List.append_assoc s.consumed [c] cs, List.singleton_append]
  · have hrest := hsent (c :: rest)
    rw [show printed ([] : List Shell.Event) = [] from rfl, List.append_nil,
      ← hprinted rest] at hrest
    rw [List.append_assoc, hrest, List.append_assoc, List.singleton_append]
  · have hrest := harmed (c :: rest)
    rw [← henables rest] at hrest
    have hnil : enables ([] : List Shell.Event) = 0 := rfl
    rw [List.append_assoc, List.singleton_append]
    show s.tx.alarms + due s.tx + enables t.events + alarmLines (nextLine cur c) rest ≤ _
    omega

theorem Loop.shell_step {s s' : State} (h : Loop clock s) (hs : s.shellStep clock = some s') :
    Loop clock s' := by
  unfold State.shellStep at hs
  split at hs
  · obtain ⟨tx, htx, rfl⟩ := Option.map_eq_some_iff.mp hs
    exact h.frame rfl rfl rfl (transmit_asked htx (Or.inr (Or.inr (Or.inr rfl))))
      (transmit_due htx nofun)
  · rename_i hshell
    have hshell : s.tx.shell = none := by simpa using hshell
    split at hs
    · rename_i hcall
      unfold State.loop at hs
      split at hs
      · rename_i htodo
        exact h.doNext hcall htodo hs
      · rename_i htodo hchunk
        exact h.look hcall htodo hchunk hs
      · rename_i htodo hchunk
        obtain ⟨rx, hrx, rfl⟩ := Option.map_eq_some_iff.mp hs
        have htaken := h.taken
        rw [returned, hcall] at htaken
        rw [Serial.step] at hrx
        split at hrx
        · cases hrx
          exact ⟨fun _ => ⟨htodo, hchunk, hshell⟩, htaken, h.line⟩
        · cases hrx
    · rename_i n hret
      obtain ⟨t, ht, rfl⟩ := Option.map_eq_some_iff.mp hs
      exact h.read_ret hret ht
    · rename_i hcall hret
      exact h.read_step hcall hret hs

/-! ## 4. Every interleaving -/

structure Inv (clock : ℕ → U64) (s : State) : Prop where
  sides : Sides s
  loop : Loop clock s

theorem Sides.start (sstatus : Sstatus) (stie : Bool) (buf : Vector U8 Serial.SERIAL_BUF_SIZE)
    (input commandBuf : Vector U8 256) (rx : List U8) :
    Sides (start sstatus stie buf input commandBuf rx) :=
  ⟨rfl, fun hne => absurd rfl hne, Serial.Inv.start sstatus buf input rx,
    Transmit.Inv.start sstatus stie⟩

theorem Sides.congr {s s' : State} (h : Sides s) (hrx : s'.rx = s.rx) (htx : s'.tx = s.tx) :
    Sides s' := by
  have hhome : s'.home = s.home := by
    unfold State.home
    rw [hrx, htx]
  exact ⟨hrx ▸ htx ▸ h.same, hrx ▸ htx ▸ h.timer, hhome ▸ h.rx, htx ▸ h.tx⟩

theorem Sides.doNext {s s' : State} (h : Sides s) {e : Shell.Event} {evs : List Shell.Event}
    (hs : s.doNext e evs = some s') : Sides s' := by
  cases e with
  | putc c =>
    obtain ⟨t, ht, rfl⟩ := Option.map_eq_some_iff.mp hs
    exact (h.tx_step ht nofun nofun).congr rfl rfl
  | timerIrqEnable =>
    obtain ⟨t, ht, rfl⟩ := Option.map_eq_some_iff.mp hs
    exact (h.tx_step ht nofun nofun).congr rfl rfl
  | write b i =>
    rw [State.doNext] at hs
    split at hs
    · cases hs
      exact h.congr rfl rfl
    · cases hs
  | _ =>
    cases hs
    exact h.congr rfl rfl

/-- The shell works on a side at a time, or on none. -/
theorem Sides.shell_step {s s' : State} (h : Sides s) (htimer : s.tx.irq = none)
    (hs : s.shellStep clock = some s') : Sides s' := by
  unfold State.shellStep at hs
  split at hs
  · exact h.tx_step hs nofun nofun
  · split at hs
    · unfold State.loop at hs
      split at hs
      · exact h.doNext hs
      · unfold State.look at hs
        split at hs
        · cases hs
          exact h.congr rfl rfl
        · cases hs
      · exact h.rx_step htimer hs
    · obtain ⟨t, ht, rfl⟩ := Option.map_eq_some_iff.mp hs
      exact (h.rx_step htimer ht).congr rfl rfl
    · exact h.rx_step htimer hs

theorem Inv.step {s s' : State} {e : Event} (h : Inv clock s) (hs : step clock e s = some s') :
    Inv clock s' := by
  cases e with
  | receive c => exact ⟨h.sides.receive hs, h.loop.outside_step hs (by simp)⟩
  | drain => exact ⟨h.sides.tx_step hs (by simp) (by simp), h.loop.outside_step hs (by simp)⟩
  | timerInterrupt => exact ⟨h.sides.timer_step hs, h.loop.outside_step hs (by simp)⟩
  | timerHandler =>
    exact ⟨h.sides.tx_step hs (by simp) (by simp), h.loop.outside_step hs (by simp)⟩
  | serialInterrupt =>
    refine ⟨?_, h.loop.outside_step hs (by simp)⟩
    obtain ⟨rx, hrx, -⟩ := Option.map_eq_some_iff.mp hs
    rw [Serial.step] at hrx
    split at hrx
    · rename_i hcond
      exact h.sides.rx_step (h.sides.timer_none (Or.inr hcond.2.1)) hs
    · cases hrx
  | serialHandler =>
    refine ⟨?_, h.loop.outside_step hs (by simp)⟩
    obtain ⟨rx, hrx, -⟩ := Option.map_eq_some_iff.mp hs
    obtain ⟨pc, hpc, -⟩ := Option.map_eq_some_iff.mp hrx
    exact h.sides.rx_step (h.sides.timer_none (Or.inl (by simp [hpc]))) hs
  | shell =>
    rw [Console.step] at hs
    split at hs
    · rename_i hcond
      exact ⟨h.sides.shell_step hcond.2 hs, h.loop.shell_step hs⟩
    · cases hs

/-- The shell waits for input: it is between two calls of `serial_read`, with nothing to do. -/
def State.idle (s : State) : Prop :=
  s.rx.call = .outside ∧ s.tx.shell = none ∧ s.todo = [] ∧ s.chunk = []

/-- What has been asked for is the transcript of what has been looked at, but for what is still to
do. -/
theorem Loop.asked {s : State} (h : Loop clock s) :
    s.tx.asked ++ printed s.todo = greeting ++ transcript clock 0 [] s.consumed := by
  obtain ⟨cur, -, -, hsent, -⟩ := h.line
  have hnow := hsent []
  have hnil : transcript clock s.shell.lines cur [] = [] := by
    unfold transcript
    rfl
  rwa [hnil, List.append_nil, List.append_nil] at hnow

/-- **The console, in every interleaving.**  No byte is lost on its way out, and the bytes handed
out by `serial_read` are the first of those read from the receiver.  What the UART has taken is what
the shell has sent, with each message of the timer in one piece in between; and what the shell has
sent is the beginning of the transcript of the bytes handed out, and all of it if the shell is idle.
There are no more messages than lines `alarm`, and one.  A run ends where the shell would store past
the end of an array. -/
theorem console_session (sstatus : Sstatus) (stie : Bool)
    (buf : Vector U8 Serial.SERIAL_BUF_SIZE) (input commandBuf : Vector U8 256) (rx : List U8)
    {s : State} (hr : Run (step clock) (fun _ _ => True)
      (start sstatus stie buf input commandBuf rx) s) :
    s.tx.uart.dropped = [] ∧ s.rx.delivered <+: s.rx.rbr ∧
      (∃ w t q, s.tx.uart.sent ++ s.tx.uart.fifo = t ++ q ∧ Transmit.Merged w s.tx.alarms t ∧
        q <+: Transmit.message ∧ (s.tx.irq = none → q = []) ∧
        w <+: greeting ++ transcript clock 0 [] s.rx.delivered ∧
        (s.idle → w = greeting ++ transcript clock 0 [] s.rx.delivered)) ∧
      s.tx.alarms ≤ 1 + alarmLines [] s.rx.delivered := by
  have h : Inv clock s := hr.invariant ⟨.start _ _ _ _ _ _, .start _ _ _ _ _ _⟩
    fun hi _ hs => hi.step hs
  have hconsumed : s.consumed <+: s.rx.delivered :=
    ⟨s.chunk ++ returned s.rx, by rw [← List.append_assoc, h.loop.taken]⟩
  obtain ⟨more, hmore⟩ := hconsumed
  have hasked := h.loop.asked
  refine ⟨h.sides.tx.sent.dropped, ?_, ?_, ?_⟩
  · have hbytes := h.sides.rx.data.bytes
    rw [List.append_assoc] at hbytes
    have hdelivered : s.home.delivered <+: s.home.rbr := ⟨_, hbytes⟩
    unfold State.home at hdelivered
    split at hdelivered
    · exact hdelivered
    · exact hdelivered
  · obtain ⟨w, t, q, hstream, hmerged, hw, hq⟩ := h.sides.tx.sent.stream
    refine ⟨w, t, q, hstream, hmerged, ⟨s.tx.todo, hq⟩, fun hirq => ?_, ?_, fun hidle => ?_⟩
    · rw [Transmit.State.todo, hirq] at hq
      exact List.append_left_eq_self.mp hq
    · calc w <+: s.tx.asked ++ printed s.todo :=
            ⟨Transmit.restOf s.tx.shell ++ printed s.todo, by rw [hw, List.append_assoc]⟩
        _ = greeting ++ transcript clock 0 [] s.consumed := hasked
        _ <+: greeting ++ transcript clock 0 [] s.rx.delivered := by
            rw [← hmore]
            have hpre := transcript_prefix clock 0 [] s.consumed more
            exact (List.prefix_append_right_inj _).mpr hpre
    · obtain ⟨hcall, hshell, htodo, hchunk⟩ := hidle
      have htaken := h.loop.taken
      rw [hchunk, returned, hcall, List.append_nil, List.append_nil] at htaken
      rw [hw, hshell, htodo, htaken] at hasked
      simpa [Transmit.restOf, printed] using hasked
  · obtain ⟨cur, -, -, -, harmed⟩ := h.loop.line
    have hle := harmed []
    have hmono := alarmLines_le [] s.consumed more
    rw [List.append_nil] at hle
    rw [hmore] at hmono
    omega

end Session

/-- The first prompt is sent, an `A` comes in, and is sent back. -/
def typed : List Event :=
  (List.replicate 22 [.shell, .shell, .shell, .shell, .drain]).flatten ++
    ([.receive 65, .serialInterrupt] : List Event) ++ List.replicate 10 .serialHandler ++
      List.replicate 19 .shell

set_option maxRecDepth 20000 in
theorem console_session_typed : ∃ s,
    exec (step fun _ => 0) typed (start ⟨true, false, false⟩ true (Vector.replicate 256 0)
      (Vector.replicate 256 0) (Vector.replicate 256 0) []) = some s ∧
    s.idle ∧ s.rx.delivered = [65] ∧ s.tx.alarms = 0 ∧
    (∃ w t q, s.tx.uart.sent ++ s.tx.uart.fifo = t ++ q ∧ Transmit.Merged w s.tx.alarms t ∧
        q <+: Transmit.message ∧ (s.tx.irq = none → q = []) ∧
        w <+: greeting ++ transcript (fun _ => 0) 0 [] s.rx.delivered ∧
        (s.idle → w = greeting ++ transcript (fun _ => 0) 0 [] s.rx.delivered)) := by
  have hsee : (exec (step fun _ => 0) typed (start ⟨true, false, false⟩ true
      (Vector.replicate 256 0) (Vector.replicate 256 0) (Vector.replicate 256 0) [])).map
        (fun s => (s.rx.call, s.tx.shell, s.todo, s.chunk, s.rx.delivered, s.tx.alarms))
      = some (.outside, none, [], [], [65], 0) := rfl
  obtain ⟨s, hs, heq⟩ := Option.map_eq_some_iff.mp hsee
  simp only [Prod.mk.injEq] at heq
  obtain ⟨hcall, hshell, htodo, hchunk, hdelivered, halarms⟩ := heq
  exact ⟨s, hs, ⟨hcall, hshell, htodo, hchunk⟩, hdelivered, halarms,
    (console_session _ _ _ _ _ _ (.of_exec hs)).2.2.1⟩

end RvKernel.Console
