/-
# What the shell does with a line

Each command has one lemma that says what it does on a line, as events (`run_uptime`, `run_echo`,
`run_alarm`, `run_unknown`), and `run_command` says which one is chosen.  None of them faults.

The choice is by prefix alone.  So `uptimes` is taken for `uptime` (`dispatch_uptimes`), and an
argument of `alarm` that is no number counts as 0, because the 0 that `strtou64` returns for it is
not looked at.  A numeral that is too large wraps, twice (`alarm_not_early_iff`).
-/
import RvKernel.Shell.Kmain

namespace RvKernel.Shell

open Text Timer

/-! ## 1. Strings in the buffers -/

/-- The string that `l` and a NUL make: it ends at the first NUL. -/
def cstring (l : List U8) : List U8 := l.takeWhile (· ≠ 0)

theorem pointsTo_cstring (l rest : List U8) : PointsTo (l ++ 0 :: rest) (cstring l) := by
  induction l with
  | nil => exact .nil rest
  | cons c l ih =>
    by_cases hc : c = 0
    · subst hc
      exact .nil _
    · rw [cstring, List.takeWhile_cons_of_pos (by simpa using hc)]
      exact ih.cons hc

/-- A string is sent byte by byte. -/
theorem run_puts {p : Ptr} {s : List U8} (h : PointsTo p s) : puts p = .ok (s.map .putc) := by
  induction s generalizing p with
  | nil =>
    obtain ⟨rest, rfl⟩ := h.of_nil
    rfl
  | cons c s ih =>
    obtain ⟨p', rfl, hc, hp'⟩ := h.of_cons
    rw [puts, if_neg hc, ih hp']
    rfl

/-- An answer that stores a string stores its NUL, too. -/
theorem run_answer {fmt : Ptr} {args : List Arg} {t : List U8} (ht : ∀ c ∈ t, c ≠ 0)
    (h : vsnprintf (3 * fmt.length + 2) 64 fmt args = .ok (t ++ [0])) :
    answer fmt args = .ok (stores .output (t.length + 1) ++ t.map .putc) := by
  rw [answer, h, ok_bind, run_puts (pointsTo_append_nul ht []), List.length_append]
  rfl

/-! ## 2. The commands -/

/-- What `uptime` answers. -/
def uptimeText (time : U64) : List U8 := numeral false 10 (timerRead time).toNat ++ ascii "s\r\n"

theorem length_uptimeText (time : U64) : (uptimeText time).length ≤ 16 := by
  have hnum := length_numeral_le (by decide) (toNat_timerRead time)
  have hunit : (ascii "s\r\n").length = 3 := rfl
  rw [uptimeText, List.length_append, hunit]
  omega

/-- The conversion of the uptime prints it as a natural number. -/
theorem refNumber_timerRead (time : U64) :
    refNumber false .none .d (timerRead time) = numeral false 10 (timerRead time).toNat := by
  have hlt := toNat_timerRead time
  have hval : Conv.value .d .none (timerRead time) = ((timerRead time).toNat : ℤ) := by
    simp only [Conv.value, Len.bits, Int.bmod]
    omega
  rw [refNumber, hval, if_neg (by omega)]
  rfl

/-- **`uptime`** fits in the buffer with room to spare. -/
theorem run_uptime (time : U64) (commandBuf : Ptr) :
    runCommand time commandBuf .uptime = .ok (.timerRead ::
      (stores .output ((uptimeText time).length + 1) ++ (uptimeText time).map .putc)) := by
  have hren : Renders [.num false .none .d, .lit 115, .lit 13, .lit 10] [.word (timerRead time)]
      (uptimeText time) := by
    rw [uptimeText, ← refNumber_timerRead]
    exact .num (.lit (.lit (.lit .nil)))
  have hok : ∀ p ∈ [Piece.num false .none .d, .lit 115, .lit 13, .lit 10], p.Ok := by
    simp [Piece.Ok]
  have hprint : vsnprintf (3 * (literal "%ds\r\n").length + 2) 64 (literal "%ds\r\n")
      [.word (timerRead time)] = .ok (uptimeText time ++ [0]) :=
    hren.prints hok (by decide) (lt_of_le_of_lt (length_uptimeText time) (by decide)) (by decide)
  have hnul : ∀ c ∈ uptimeText time, c ≠ 0 := by
    intro c hc
    have hend : ∀ c ∈ ascii "s\r\n", c ≠ 0 := List.all_iff_forall_prop.mp rfl
    rcases List.mem_append.mp hc with hc | hc
    · exact numeral_ne_nul _ c hc
    · exact hend c hc
  rw [runCommand, run_answer hnul hprint]
  rfl

/-- **`echo`** sends the rest of the line. -/
theorem run_echo {p : Ptr} {s : List U8} (h : PointsTo p s) (h5 : ascii "echo " <+: s)
    (time : U64) :
    runCommand time p .echo = .ok ((s.drop 5 ++ ascii "\r\n").map .putc) := by
  have htext : puts (p.drop 5) = .ok ((s.drop 5).map .putc) := run_puts (h.drop h5.length_le)
  have hend : puts (literal "\r\n") = .ok ((ascii "\r\n").map .putc) := rfl
  rw [runCommand, htext, hend, List.map_append]
  rfl

/-- **`alarm`** sets the timer, whatever its argument. -/
theorem run_alarm {p : Ptr} {s : List U8} (h : PointsTo p s) (h6 : ascii "alarm " <+: s)
    (time : U64) :
    ∃ secs, strtou64 (p.drop 6) 10 = .ok secs ∧ runCommand time p .alarm
      = .ok [.timerSetAlarm secs (timerSetAlarm time secs), .timerIrqEnable] := by
  obtain ⟨secs, hsecs⟩ := strtou64_total (h.drop h6.length_le) 10
  refine ⟨secs, hsecs, ?_⟩
  have hsecs' : strtou64 (p.drop 6) 10 = .ok secs := hsecs
  rw [runCommand, hsecs']
  rfl

/-- The literal bytes at the front of a format are stored as they are. -/
theorem emitAll_lits (l : List U8) (ds : List Directive) {size : U64} (h : size > 1)
    (out : List U8) (args : List Arg) :
    emitAll (l.map .lit ++ ds) ⟨size, out, args⟩ = emitAll ds ⟨size, out ++ l, args⟩ := by
  induction l generalizing out with
  | nil => rw [List.map_nil, List.nil_append, List.append_nil]
  | cons c l ih =>
    rw [List.map_cons, List.cons_append, emitAll, if_pos h]
    simp only [Directive.emit, pure_eq, ok_bind]
    rw [ih, List.append_assoc]
    rfl

/-- What is answered to a line that is no command.  Only the line itself is cut. -/
def unknownText (s : List U8) : List U8 := ascii "Unknown Command: " ++ s.take 47 ++ ascii "\r\n"

theorem length_unknownText (s : List U8) : (unknownText s).length = 19 + min 47 s.length := by
  have h17 : (ascii "Unknown Command: ").length = 17 := by decide
  have h2 : (ascii "\r\n").length = 2 := by decide
  rw [unknownText, List.length_append, List.length_append, List.length_take, h17, h2]
  omega

theorem print_unknown {p : Ptr} {s : List U8} (h : PointsTo p s) :
    vsnprintf (3 * (literal "Unknown Command: %s\r\n").length + 2) 64
      (literal "Unknown Command: %s\r\n") [.ptr p] = .ok (unknownText s ++ [0]) := by
  have hparse : parseSpecifier ((115 :: ascii "\r\n") ++ [0]) .zero
      = .ok (ascii "\r\n" ++ [0], .str, .zero) := rfl
  have hend : Scan (ascii "\r\n") ((ascii "\r\n").map .lit ++ []) :=
    scan_lits (l := ascii "\r\n") (List.all_iff_forall_prop.mp rfl) .nil
  have hscan : Scan (ascii "Unknown Command: %s\r\n")
      ((ascii "Unknown Command: ").map .lit ++
        (.conv .str .zero :: ((ascii "\r\n").map .lit ++ []))) :=
    scan_lits (l := ascii "Unknown Command: ") (List.all_iff_forall_prop.mp rfl)
      (.conv hparse (Or.inr (Or.inl rfl)) (by decide) hend)
  have h64 : (64 : U64) > 1 := by decide
  have hrem : (64 - BitVec.ofNat 64 (ascii "Unknown Command: ").length : U64).toNat = 47 := by
    decide
  rw [literal, vsnprintf_eq hscan (by decide), emitAll_lits _ _ h64, List.nil_append, emitAll,
    if_pos h64]
  simp only [Directive.emit, vaArgPtr, ok_bind, pure_eq]
  rw [string_eq h, Sink.remaining, hrem, ok_bind, ok_bind, emitAll_lits _ _ h64]
  rfl

/-- **An unknown command** stores 67 bytes if the line is long. -/
theorem run_unknown {p : Ptr} {s : List U8} (h : PointsTo p s) (time : U64) :
    runCommand time p .unknown = .ok (stores .output ((unknownText s).length + 1) ++
      (unknownText s).map .putc) := by
  refine run_answer ?_ (print_unknown h)
  intro c hc
  have hfront : ∀ c ∈ ascii "Unknown Command: ", c ≠ 0 := List.all_iff_forall_prop.mp rfl
  have hend : ∀ c ∈ ascii "\r\n", c ≠ 0 := List.all_iff_forall_prop.mp rfl
  rcases List.mem_append.mp hc with hc | hc
  · rcases List.mem_append.mp hc with hc | hc
    · exact hfront c hc
    · exact h.nul_free c (List.mem_of_mem_take hc)
  · exact hend c hc

/-! ## 3. The choice of a command -/

/-- The command that a line is taken for. -/
def classify (s : List U8) : Command :=
  if ascii "uptime" <+: s then .uptime
  else if ascii "echo " <+: s then .echo
  else if ascii "alarm " <+: s then .alarm
  else .unknown

theorem classify_echo {s : List U8} (h : classify s = .echo) : ascii "echo " <+: s := by
  unfold classify at h
  split at h
  · cases h
  · split at h
    · assumption
    · split at h <;> cases h

theorem classify_alarm {s : List U8} (h : classify s = .alarm) : ascii "alarm " <+: s := by
  unfold classify at h
  split at h
  · cases h
  · split at h
    · cases h
    · split at h
      · assumption
      · cases h

/-- **The choice is by prefix.** -/
theorem run_command {p : Ptr} {s : List U8} (h : PointsTo p s) :
    command p = .ok (classify s) := by
  obtain ⟨d₁, h₁, i₁⟩ := strncmp_word (pointsTo_literal (w := "uptime") rfl) h (by decide)
  obtain ⟨d₂, h₂, i₂⟩ := strncmp_word (pointsTo_literal (w := "echo ") rfl) h (by decide)
  obtain ⟨d₃, h₃, i₃⟩ := strncmp_word (pointsTo_literal (w := "alarm ") rfl) h (by decide)
  have l₁ : (ascii "uptime").length = 6 := rfl
  have l₂ : (ascii "echo ").length = 5 := rfl
  have l₃ : (ascii "alarm ").length = 6 := rfl
  rw [l₁] at h₁
  rw [l₂] at h₂
  rw [l₃] at h₃
  simp only [command, classify, h₁, h₂, h₃, ok_bind, pure_eq, i₁, i₂, i₃]
  split
  · rfl
  · split
    · rfl
    · split <;> rfl

/-- **Every line is run**, without a fault. -/
theorem run_total {p : Ptr} {s : List U8} (h : PointsTo p s) (time : U64) :
    ∃ evs, runCommand time p (classify s) = .ok evs := by
  cases hcmd : classify s with
  | uptime => exact ⟨_, run_uptime time p⟩
  | echo => exact ⟨_, run_echo h (classify_echo hcmd) time⟩
  | alarm =>
    obtain ⟨secs, -, hrun⟩ := run_alarm h (classify_alarm hcmd) time
    exact ⟨_, hrun⟩
  | unknown => exact ⟨_, run_unknown h time⟩

/-! ## 4. What the lines should do -/

/-- The first word of a line. -/
def firstWord (s : List U8) : List U8 := s.takeWhile (· ≠ 32)

/-- A decimal numeral. -/
def IsNumeral (ds : List U8) : Prop := ds ≠ [] ∧ ∀ c ∈ ds, IsDecimal c

instance (ds : List U8) : Decidable (IsNumeral ds) := inferInstanceAs (Decidable (_ ∧ _))

/-- The line is `alarm` with a decimal numeral. -/
def IsAlarm (s : List U8) : Prop := ∃ ds, s = ascii "alarm " ++ ds ∧ IsNumeral ds

/-- The bytes that are sent. -/
def printed (evs : List Event) : List U8 :=
  evs.filterMap fun
    | .putc c => some c
    | _ => none

/-- The timer is touched. -/
def SetsTimer (evs : List Event) : Prop :=
  .timerIrqEnable ∈ evs ∨ ∃ secs v, .timerSetAlarm secs v ∈ evs

/-- **What the shell should do with a line.** -/
def Obeys (time : U64) (p : Ptr) (s : List U8) : Prop :=
  ∃ cmd evs, command p = .ok cmd ∧ runCommand time p cmd = .ok evs ∧
    (.timerRead ∈ evs → firstWord s = ascii "uptime") ∧
    (cmd = .echo ↔ ascii "echo " <+: s) ∧
    (cmd = .echo → printed evs = s.drop 5 ++ ascii "\r\n") ∧
    (SetsTimer evs → IsAlarm s) ∧
    (firstWord s ≠ ascii "uptime" → ¬ ascii "echo " <+: s → ¬ IsAlarm s →
      cmd = .unknown ∧ ascii "Unknown Command" <+: printed evs ∧ ¬ SetsTimer evs)

/-- A line that is near no command: it has `uptime` for a word if at all, and a numeral behind
`alarm`. -/
def PlainLine (s : List U8) : Prop :=
  (ascii "uptime" <+: s → firstWord s = ascii "uptime") ∧
    (ascii "alarm " <+: s → IsNumeral (s.drop 6))

theorem printed_append (l l' : List Event) : printed (l ++ l') = printed l ++ printed l' :=
  List.filterMap_append

theorem printed_stores (b : Buf) (n : ℕ) : printed (stores b n) = [] := by
  simp [printed, stores, List.filterMap_map]

theorem printed_putc (t : List U8) : printed (t.map .putc) = t := by
  simp [printed, List.filterMap_map]

theorem mem_answer {e : Event} {n : ℕ} {t : List U8}
    (h : e ∈ stores .output n ++ t.map .putc) : (∃ i, e = .write .output i) ∨ ∃ c, e = .putc c := by
  rcases List.mem_append.mp h with h | h
  · obtain ⟨i, -, rfl⟩ := List.mem_map.mp h
    exact Or.inl ⟨i, rfl⟩
  · obtain ⟨c, -, rfl⟩ := List.mem_map.mp h
    exact Or.inr ⟨c, rfl⟩

/-- An answer does not touch the timer. -/
theorem not_setsTimer_answer (n : ℕ) (t : List U8) :
    ¬ SetsTimer (stores .output n ++ t.map .putc) ∧
      .timerRead ∉ stores .output n ++ t.map .putc := by
  refine ⟨?_, ?_⟩
  · rintro (h | ⟨secs, v, h⟩)
    · rcases mem_answer h with ⟨i, hi⟩ | ⟨c, hc⟩ <;> simp at *
    · rcases mem_answer h with ⟨i, hi⟩ | ⟨c, hc⟩ <;> simp at *
  · intro h
    rcases mem_answer h with ⟨i, hi⟩ | ⟨c, hc⟩ <;> simp at *

/-- No line starts with two of the words. -/
theorem not_two_words {v w s : List U8} (hv : v <+: s) (h : ¬ v <+: w) (h' : ¬ w <+: v) :
    ¬ w <+: s := by
  intro hw
  rcases le_total v.length w.length with hle | hle
  · exact h (List.prefix_of_prefix_length_le hv hw hle)
  · exact h' (List.prefix_of_prefix_length_le hw hv hle)

theorem not_uptime_of_echo {s : List U8} (h : ascii "echo " <+: s) : ¬ ascii "uptime" <+: s :=
  not_two_words h (by decide) (by decide)

theorem not_uptime_of_alarm {s : List U8} (h : ascii "alarm " <+: s) : ¬ ascii "uptime" <+: s :=
  not_two_words h (by decide) (by decide)

theorem not_echo_of_alarm {s : List U8} (h : ascii "alarm " <+: s) : ¬ ascii "echo " <+: s :=
  not_two_words h (by decide) (by decide)

theorem classify_of_alarm {s : List U8} (h : ascii "alarm " <+: s) : classify s = .alarm := by
  rw [classify, if_neg (not_uptime_of_alarm h), if_neg (not_echo_of_alarm h), if_pos h]

theorem isAlarm_iff (s : List U8) : IsAlarm s ↔ ascii "alarm " <+: s ∧ IsNumeral (s.drop 6) := by
  constructor
  · rintro ⟨ds, rfl, hds⟩
    exact ⟨List.prefix_append _ _, hds⟩
  · rintro ⟨⟨ds, rfl⟩, hds⟩
    exact ⟨ds, rfl, hds⟩

section Obeys

variable {p : Ptr} {s : List U8} {time : U64}

/-- What is said of a line's command and events, once these are known. -/
theorem obeys_iff {cmd : Command} {evs : List Event} (hc : command p = .ok cmd)
    (hr : runCommand time p cmd = .ok evs) :
    Obeys time p s ↔
      (.timerRead ∈ evs → firstWord s = ascii "uptime") ∧
      (cmd = .echo ↔ ascii "echo " <+: s) ∧
      (cmd = .echo → printed evs = s.drop 5 ++ ascii "\r\n") ∧
      (SetsTimer evs → IsAlarm s) ∧
      (firstWord s ≠ ascii "uptime" → ¬ ascii "echo " <+: s → ¬ IsAlarm s →
        cmd = .unknown ∧ ascii "Unknown Command" <+: printed evs ∧ ¬ SetsTimer evs) := by
  constructor
  · rintro ⟨cmd', evs', hc', hr', hobeys⟩
    cases hc.symm.trans hc'
    cases hr.symm.trans hr'
    exact hobeys
  · intro hobeys
    exact ⟨cmd, evs, hc, hr, hobeys⟩

theorem obeys_uptime (h : PointsTo p s) (hup : ascii "uptime" <+: s) :
    Obeys time p s ↔ firstWord s = ascii "uptime" := by
  have hcmd : classify s = .uptime := if_pos hup
  have hecho : ¬ ascii "echo " <+: s := fun he => not_uptime_of_echo he hup
  obtain ⟨hset, -⟩ := not_setsTimer_answer ((uptimeText time).length + 1) (uptimeText time)
  have hset' : ¬ SetsTimer (.timerRead :: (stores .output ((uptimeText time).length + 1) ++
      (uptimeText time).map .putc)) := by
    intro hs
    simp only [SetsTimer, List.mem_cons, reduceCtorEq, false_or] at hs
    exact hset hs
  rw [obeys_iff (hcmd ▸ run_command h) (run_uptime time p)]
  constructor
  · rintro ⟨hread, -⟩
    exact hread List.mem_cons_self
  · intro hword
    refine ⟨fun _ => hword, ?_, nofun, fun hs => absurd hs hset', ?_⟩
    · exact ⟨nofun, fun he => absurd he hecho⟩
    · intro hne
      exact absurd hword hne

theorem obeys_echo (h : PointsTo p s) (he : ascii "echo " <+: s) : Obeys time p s := by
  have hcmd : classify s = .echo := by rw [classify, if_neg (not_uptime_of_echo he), if_pos he]
  obtain ⟨hset, hread⟩ := not_setsTimer_answer 0 (s.drop 5 ++ ascii "\r\n")
  rw [obeys_iff (hcmd ▸ run_command h) (run_echo h he time)]
  refine ⟨fun hr => absurd hr hread, ?_, fun _ => printed_putc _, fun hs => absurd hs hset, ?_⟩
  · exact ⟨fun _ => he, fun _ => rfl⟩
  · intro _ hne
    exact absurd he hne

theorem obeys_alarm (h : PointsTo p s) (ha : ascii "alarm " <+: s) :
    Obeys time p s ↔ IsNumeral (s.drop 6) := by
  have hcmd := classify_of_alarm ha
  obtain ⟨secs, -, hrun⟩ := run_alarm h ha time
  rw [obeys_iff (hcmd ▸ run_command h) hrun, isAlarm_iff]
  constructor
  · rintro ⟨-, -, -, hset, -⟩
    exact (hset (Or.inl (by simp))).2
  · intro hnum
    refine ⟨fun hr => by simp at hr, ?_, nofun, fun _ => ⟨ha, hnum⟩, ?_⟩
    · exact ⟨nofun, fun he => absurd he (not_echo_of_alarm ha)⟩
    · intro _ _ hne
      exact absurd ⟨ha, hnum⟩ hne

theorem obeys_unknown (h : PointsTo p s) (hup : ¬ ascii "uptime" <+: s)
    (hecho : ¬ ascii "echo " <+: s) (ha : ¬ ascii "alarm " <+: s) : Obeys time p s := by
  have hcmd : classify s = .unknown := by rw [classify, if_neg hup, if_neg hecho, if_neg ha]
  obtain ⟨hset, hread⟩ := not_setsTimer_answer ((unknownText s).length + 1) (unknownText s)
  have hprint : ascii "Unknown Command" <+: printed (stores .output ((unknownText s).length + 1) ++
      (unknownText s).map .putc) := by
    rw [printed_append, printed_stores, printed_putc, List.nil_append, unknownText,
      List.append_assoc]
    exact List.IsPrefix.trans (by decide) (List.prefix_append _ _)
  rw [obeys_iff (hcmd ▸ run_command h) (run_unknown h time)]
  refine ⟨fun hr => absurd hr hread, ?_, nofun, fun hs => absurd hs hset, ?_⟩
  · exact ⟨nofun, fun he => absurd he hecho⟩
  · intro _ _ _
    exact ⟨rfl, hprint, hset⟩

/-- **The shell does what it should with a line just if the line is plain**: not a word that only
starts with `uptime`, and not an `alarm` without a numeral. -/
theorem dispatch_obeys_iff (h : PointsTo p s) (time : U64) : Obeys time p s ↔ PlainLine s := by
  unfold PlainLine
  by_cases hup : ascii "uptime" <+: s
  · have ha : ¬ ascii "alarm " <+: s := fun ha => not_uptime_of_alarm ha hup
    rw [obeys_uptime h hup]
    exact ⟨fun hw => ⟨fun _ => hw, fun hc => absurd hc ha⟩, fun hp => hp.1 hup⟩
  · by_cases ha : ascii "alarm " <+: s
    · rw [obeys_alarm h ha]
      exact ⟨fun hn => ⟨fun hc => absurd hc hup, fun _ => hn⟩, fun hp => hp.2 ha⟩
    · have hplain : Obeys time p s := by
        by_cases hecho : ascii "echo " <+: s
        · exact obeys_echo h hecho
        · exact obeys_unknown h hup hecho ha
      exact ⟨fun _ => ⟨fun hc => absurd hc hup, fun hc => absurd hc ha⟩, fun _ => hplain⟩

end Obeys

/-- `uptime` is a plain line. -/
theorem dispatch_obeys_uptime : Obeys 0 (literal "uptime") (ascii "uptime") :=
  (dispatch_obeys_iff (pointsTo_literal rfl) 0).mpr ⟨fun _ => by decide, by decide⟩

/-- `uptimes` answers with the uptime. -/
theorem dispatch_uptimes : ¬ Obeys 0 (literal "uptimes") (ascii "uptimes") := by
  rintro ⟨cmd, evs, hc, hr, hread, -⟩
  have hcmd : command (literal "uptimes") = .ok .uptime := rfl
  cases hcmd.symm.trans hc
  rw [run_uptime] at hr
  cases hr
  exact absurd (hread List.mem_cons_self) (by decide)

/-! ## 5. Alarms -/

/-- **An alarm is set for the time that was asked for, or later, just if that time can be
represented**; or if, by chance, it wraps to the last one. -/
theorem alarm_not_early_iff {p : Ptr} {ds : List U8} (h : PointsTo p (ascii "alarm " ++ ds))
    (hds : IsNumeral ds) (time : U64) :
    ∃ secs v, command p = .ok .alarm ∧
      runCommand time p .alarm = .ok [.timerSetAlarm secs v, .timerIrqEnable] ∧
      (min (time.toNat + digitsValue 10 ds * TIMER_FREQ.toNat) (2 ^ 64 - 1) ≤ v.toNat ↔
        time.toNat + digitsValue 10 ds * TIMER_FREQ.toNat < 2 ^ 64 ∨
        (time.toNat + digitsValue 10 ds * TIMER_FREQ.toNat) % 2 ^ 64 = 2 ^ 64 - 1) := by
  have hpre : ascii "alarm " <+: ascii "alarm " ++ ds := List.prefix_append _ _
  have hcmd := classify_of_alarm hpre
  obtain ⟨secs, hsecs, hrun⟩ := run_alarm h hpre time
  refine ⟨secs, timerSetAlarm time secs, hcmd ▸ run_command h, hrun, ?_⟩
  have hdrop : PointsTo (p.drop 6) ds := h.drop hpre.length_le
  have hval : secs.toNat = digitsValue 10 ds % 2 ^ 64 := by
    have heq := hsecs.symm.trans (run_strtou64 hdrop hds.2)
    injection heq with heq
    rw [heq, BitVec.toNat_ofNat]
  rw [toNat_timerSetAlarm, hval, toNat_freq]
  have ht := time.isLt
  generalize digitsValue 10 ds = N at *
  omega

/-- `alarm 10` at the time 5. -/
theorem alarm_not_early_ten : ∃ secs v,
    runCommand 5 (literal "alarm 10") .alarm = .ok [.timerSetAlarm secs v, .timerIrqEnable] ∧
      5 + 10 * TIMER_FREQ.toNat ≤ v.toNat := by
  have hval : digitsValue 10 (ascii "10") = 10 := by decide
  have hline : PointsTo (literal "alarm 10") (ascii "alarm " ++ ascii "10") :=
    pointsTo_literal (w := "alarm 10") rfl
  obtain ⟨secs, v, -, hrun, hiff⟩ := alarm_not_early_iff hline (by decide) 5
  rw [hval] at hiff
  exact ⟨secs, v, hrun, le_trans (by decide) (hiff.mpr (Or.inl (by decide)))⟩

/-- `alarm 18446744073709551616`, that is `2 ^ 64` seconds, goes off at once. -/
theorem alarm_wraps : digitsValue 10 (ascii "18446744073709551616") = 2 ^ 64 ∧
    runCommand 0 (literal "alarm 18446744073709551616") .alarm
      = .ok [.timerSetAlarm 0 0, .timerIrqEnable] ∧
    ¬ min (0 + 2 ^ 64 * TIMER_FREQ.toNat) (2 ^ 64 - 1) ≤ (0 : U64).toNat := by
  refine ⟨by decide, by decide, by decide⟩

end RvKernel.Shell
