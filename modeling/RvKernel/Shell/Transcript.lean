/-
# The transcript of a session

`printed` is what the shell sends.  It is a function of the stream and of the clock alone: each byte
is sent back as it comes in, and a line end is followed by the answer to the line and by a prompt
(`transcript`).

The argument is one equation.  What has been sent, together with the transcript of what is still to
come, does not change when a byte is read (`step_forecast`).  So at the end of the stream it is
what has been sent, however the stream was cut into chunks (`kmain_transcript`).

For a stream of `echo` lines and empty ones the transcript is written out line by line
(`kmain_echoes`).
-/
import Mathlib.Data.List.TakeWhile
import RvKernel.Shell.Lines

namespace RvKernel.Shell

open Text Timer

/-! ## 1. Answers -/

/-- What a command answers to the string `s`. -/
def answerText (time : U64) (s : List U8) : List U8 :=
  match classify s with
  | .uptime => uptimeText time
  | .echo => s.drop 5 ++ ascii "\r\n"
  | .alarm => []
  | .unknown => unknownText s

/-- What the shell answers to a line. -/
def reply (time : U64) (line : List U8) : List U8 :=
  if line = [] then [] else answerText time (cstring (stored line))

/-- **The transcript of a stream**: `k` line ends have been seen, and `cur` is the line so far. -/
def transcript (clock : ℕ → U64) : ℕ → List U8 → List U8 → List U8
  | _, _, [] => []
  | k, cur, c :: cs =>
    if isEol c then
      [c, 10] ++ reply (clock k) cur ++ ascii "> " ++ transcript clock (k + 1) [] cs
    else c :: transcript clock k (cur ++ [c]) cs

theorem run_answerText {p : Ptr} {s : List U8} (h : PointsTo p s) {time : U64} {evs : List Event}
    (hrun : runCommand time p (classify s) = .ok evs) : printed evs = answerText time s := by
  have hanswer : ∀ (n : ℕ) (t : List U8), printed (stores .output n ++ t.map .putc) = t := by
    intro n t
    rw [printed_append, printed_stores, printed_putc, List.nil_append]
  unfold answerText
  cases hcmd : classify s with
  | uptime =>
    rw [hcmd, run_uptime] at hrun
    cases hrun
    exact hanswer _ _
  | echo =>
    rw [hcmd, run_echo h (classify_echo hcmd)] at hrun
    cases hrun
    exact printed_putc _
  | alarm =>
    obtain ⟨secs, -, hset⟩ := run_alarm h (classify_alarm hcmd) time
    rw [hcmd, hset] at hrun
    cases hrun
    rfl
  | unknown =>
    rw [hcmd, run_unknown h] at hrun
    cases hrun
    exact hanswer _ _

/-- **What a line end sends** between its echo and the prompt. -/
theorem dispatch_reply {s : State} {cur : List U8} (h : Holds s cur) {time : U64}
    {evs : List Event}
    (hrun : dispatch time (s.commandBuf.setIfInBounds s.commandIndex 0) s.commandIndex = .ok evs) :
    printed evs = reply time cur := by
  rw [reply]
  by_cases hcur : cur = []
  · subst hcur
    rw [h.dispatch_nil] at hrun
    cases hrun
    rfl
  · obtain ⟨p, evs', hp, hcmd, hdispatch⟩ := h.dispatch_line hcur time
    rw [hdispatch] at hrun
    cases hrun
    rw [if_neg hcur, ← run_answerText hp hcmd]
    rfl

/-! ## 2. Runs -/

section Forecast

variable (clock : ℕ → U64)

/-- What the shell has sent, and what it is going to send for the bytes to come. -/
def forecast (s : State) (cur rest : List U8) : List U8 :=
  printed s.events ++ transcript clock s.lines cur rest

/-- **Reading a byte does not change the forecast.** -/
theorem step_forecast {s : State} {cur : List U8} (h : Holds s cur) (c : U8) :
    ∃ s' cur', step clock s c = .ok s' ∧ Holds s' cur' ∧
      ∀ rest, forecast clock s' cur' rest = forecast clock s cur (c :: rest) := by
  cases hc : isEol c with
  | true =>
    have hc' : c = 13 ∨ c = 10 := by simpa [isEol] using hc
    obtain ⟨evs, hrun, -⟩ := run_dispatch h (clock s.lines)
    have hreply := dispatch_reply h hrun
    have hprompt : puts (literal "> ") = .ok ((ascii "> ").map .putc) := rfl
    refine ⟨⟨s.commandBuf.setIfInBounds s.commandIndex 0, 0, s.lines + 1,
      s.events ++ [.putc c, .putc 10, .write .command s.commandIndex] ++ evs ++
        (ascii "> ").map .putc⟩, [], ?_, ⟨rfl, rfl⟩, ?_⟩
    · rw [step, if_pos hc']
      simp only [hrun, hprompt, ok_bind, pure_eq]
    · intro rest
      have hecho : printed [.putc c, .putc 10, .write .command s.commandIndex] = [c, 10] := rfl
      simp only [forecast, printed_append, printed_putc, hecho, hreply, transcript, hc, if_true,
        List.append_assoc]
  | false =>
    have hc' : ¬ (c = 13 ∨ c = 10) := by simpa [isEol] using hc
    obtain ⟨s', -, hstep, hs', -⟩ := step_byte clock h hc
    refine ⟨s', cur ++ [c], hstep, hs', ?_⟩
    intro rest
    have hsent : printed s'.events = printed s.events ++ [c] ∧ s'.lines = s.lines := by
      rw [step, if_neg hc'] at hstep
      split at hstep
      · cases hstep
        exact ⟨printed_append _ _, rfl⟩
      · cases hstep
        exact ⟨printed_append _ _, rfl⟩
    rw [forecast, forecast, hsent.1, hsent.2, transcript, if_neg (by simp [hc]), List.append_assoc]
    rfl

theorem chars_forecast : ∀ (cs : List U8) {s : State} {cur : List U8}, Holds s cur →
    ∃ s' cur', chars clock s cs = .ok s' ∧ Holds s' cur' ∧
      ∀ rest, forecast clock s' cur' rest = forecast clock s cur (cs ++ rest)
  | [], s, cur, h => ⟨s, cur, rfl, h, fun _ => rfl⟩
  | c :: cs, s, cur, h => by
    obtain ⟨s₁, cur₁, hstep, hs₁, hf₁⟩ := step_forecast clock h c
    obtain ⟨s₂, cur₂, hrun, hs₂, hf₂⟩ := chars_forecast cs hs₁
    refine ⟨s₂, cur₂, ?_, hs₂, ?_⟩
    · rw [chars, hstep, ok_bind, hrun]
    · intro rest
      rw [hf₂, hf₁]
      rfl

theorem turns_forecast : ∀ (chunks : List (List U8)) {s : State} {cur : List U8}, Holds s cur →
    ∃ s', turns clock s chunks = .ok s' ∧
      printed s'.events = forecast clock s cur chunks.flatten
  | [], s, cur, _ => ⟨s, rfl, (List.append_nil _).symm⟩
  | chunk :: chunks, s, cur, h => by
    -- `serial_read` stores the chunk, which sends nothing
    have hread : Holds { s with events := s.events ++ stores .input chunk.length } cur :=
      ⟨h.index, h.buf⟩
    obtain ⟨s₁, cur₁, hchars, hs₁, hf₁⟩ := chars_forecast clock chunk hread
    obtain ⟨s₂, hturns, hprinted⟩ := turns_forecast chunks hs₁
    refine ⟨s₂, ?_, ?_⟩
    · rw [turns, turn, hchars, ok_bind, hturns]
    · rw [hprinted, hf₁, forecast, printed_append, printed_stores, List.append_nil]
      rfl

/-- **A session is determined by its stream**: the chunks do not matter. -/
theorem kmain_transcript (commandBuf : Vector U8 256) (chunks : List (List U8)) :
    ∃ s, kmain clock commandBuf chunks = .ok s ∧
      printed s.events = ascii "Shell initialized!\r\n" ++ ascii "> " ++
        transcript clock 0 [] chunks.flatten := by
  obtain ⟨hstart, hinit⟩ := kmain_start clock commandBuf chunks
  obtain ⟨s, hrun, hprinted⟩ := turns_forecast clock chunks hinit
  refine ⟨s, ?_, ?_⟩
  · rw [hstart, hrun]
  · rw [hprinted, forecast, printed_append, printed_putc, printed_putc]

end Forecast

/-! ## 3. Sessions of `echo` lines -/

/-- A line that is empty, or `echo ` and a text that fits in `command_buf`. -/
inductive EchoLine where
  | empty
  | echo (s : List U8) (short : s.length ≤ 250) (plain : ∀ c ∈ s, c ≠ 13 ∧ c ≠ 10 ∧ c ≠ 0)

/-- The line as it is typed. -/
def EchoLine.typed : EchoLine → List U8
  | .empty => []
  | .echo s _ _ => ascii "echo " ++ s

/-- What is to be answered. -/
def EchoLine.answer : EchoLine → List U8
  | .empty => []
  | .echo s _ _ => s ++ ascii "\r\n"

/-- The line with its line end, the answer and the prompt. -/
def EchoLine.shown (l : EchoLine) : List U8 := l.typed ++ [13, 10] ++ l.answer ++ ascii "> "

theorem EchoLine.no_eol (l : EchoLine) : ∀ c ∈ l.typed, isEol c = false := by
  cases l with
  | empty => exact nofun
  | echo s short plain =>
    have hword : ∀ c ∈ ascii "echo ", isEol c = false := List.all_iff_forall_prop.mp rfl
    intro c hc
    rcases List.mem_append.mp hc with hc | hc
    · exact hword c hc
    · obtain ⟨h13, h10, -⟩ := plain c hc
      rw [isEol, decide_eq_false h13, decide_eq_false h10, Bool.or_self]

theorem EchoLine.reply_eq (l : EchoLine) (time : U64) : reply time l.typed = l.answer := by
  cases l with
  | empty => rfl
  | echo s short plain =>
    have hword : ∀ c ∈ ascii "echo ", c ≠ 0 := List.all_iff_forall_prop.mp rfl
    have h5 : (ascii "echo ").length = 5 := by decide
    have hpre : ascii "echo " <+: ascii "echo " ++ s := List.prefix_append _ _
    have hstored : stored (ascii "echo " ++ s) = ascii "echo " ++ s := by
      apply List.take_of_length_le
      rw [List.length_append, h5]
      omega
    have hcstring : cstring (ascii "echo " ++ s) = ascii "echo " ++ s := by
      rw [cstring, List.takeWhile_eq_self_iff]
      intro c hc
      rcases List.mem_append.mp hc with hc | hc
      · simpa using hword c hc
      · simpa using (plain c hc).2.2
    have hclass : classify (ascii "echo " ++ s) = .echo := by
      rw [classify, if_neg (not_uptime_of_echo hpre), if_pos hpre]
    rw [EchoLine.typed, reply, if_neg (by simp [ascii]), hstored, hcstring, answerText, hclass]
    rfl

/-- A line without line ends is sent back as it is. -/
theorem transcript_line (clock : ℕ → U64) (k : ℕ) {line : List U8}
    (h : ∀ c ∈ line, isEol c = false) (cur rest : List U8) :
    transcript clock k cur (line ++ 13 :: rest) = line ++ [13, 10] ++ reply (clock k) (cur ++ line)
      ++ ascii "> " ++ transcript clock (k + 1) [] rest := by
  induction line generalizing cur with
  | nil =>
    rw [List.append_nil]
    rfl
  | cons c line ih =>
    have hc := h c List.mem_cons_self
    rw [List.cons_append, transcript, if_neg (by simp [hc]),
      ih (fun d hd => h d (List.mem_cons_of_mem c hd)), List.append_assoc cur]
    rfl

theorem transcript_echoes (clock : ℕ → U64) (lines : List EchoLine) (k : ℕ) :
    transcript clock k [] (lines.flatMap fun l => l.typed ++ [13])
      = lines.flatMap EchoLine.shown := by
  induction lines generalizing k with
  | nil => rfl
  | cons l lines ih =>
    rw [List.flatMap_cons, List.flatMap_cons, List.append_assoc, List.singleton_append,
      transcript_line clock k l.no_eol, List.nil_append, l.reply_eq, ih]
    rfl

/-- **A session of `echo` lines is shown line by line**: what was typed, the line end, the text and
the next prompt.  Neither the chunks nor the clock matter, nor what `command_buf` held. -/
theorem kmain_echoes (clock : ℕ → U64) (commandBuf : Vector U8 256) (lines : List EchoLine)
    (chunks : List (List U8))
    (hstream : chunks.flatten = lines.flatMap fun l => l.typed ++ [13]) :
    ∃ s, kmain clock commandBuf chunks = .ok s ∧
      printed s.events = ascii "Shell initialized!\r\n" ++ ascii "> " ++
        lines.flatMap fun l => l.typed ++ [13, 10] ++ l.answer ++ ascii "> " := by
  obtain ⟨s, hrun, hprinted⟩ := kmain_transcript clock commandBuf chunks
  refine ⟨s, hrun, ?_⟩
  rw [hprinted, hstream, transcript_echoes]
  rfl

/-- `echo hi` in three chunks, and an empty line. -/
theorem kmain_echoes_hi : ∃ s, kmain (fun _ => 0) (Vector.replicate 256 0)
    [ascii "ec", ascii "ho hi\r", ascii "\r"] = .ok s ∧
    printed s.events = ascii "Shell initialized!\r\n> echo hi\r\nhi\r\n> \r\n> " :=
  kmain_echoes (fun _ => 0) (Vector.replicate 256 0)
    [.echo (ascii "hi") (by decide) (List.all_iff_forall_prop.mp rfl), .empty]
    [ascii "ec", ascii "ho hi\r", ascii "\r"] rfl

end RvKernel.Shell
