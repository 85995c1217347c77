/-
# Lines

The loop of the shell cuts the stream of bytes into lines.  It knows nothing of the stream but the
line so far, as far as it fits: `Holds s cur` ties the two.  From it one run lemma says, of a stream
in any chunks, which command lines are dispatched and which stores are made (`turns_run`).

The dispatched lines are the non-empty pieces of the stream between line ends, cut to 255 bytes
(`kmain_dispatches`).  The stores are within their arrays just if no line that is answered with
`Unknown Command` is longer than 44 bytes (`kmain_in_bounds_iff`): `command_buf` takes 255.
-/
import RvKernel.Shell.Commands

namespace RvKernel.Shell

open Text Timer

/-! ## 1. The stream -/

/-- A line end. -/
def isEol (c : U8) : Bool := c = 13 || c = 10

/-- **The command lines of a stream**: what stands between line ends, if it is not empty.  What
follows the last line end is no line. -/
def commandsOf (stream : List U8) : List (List U8) :=
  (stream.splitOnP isEol).dropLast.filter (· ≠ [])

/-- What follows the last line end. -/
def tailOf (stream : List U8) : List U8 := (stream.splitOnP isEol).getLastD []

/-- A line as it stands in `command_buf`. -/
def stored (line : List U8) : List U8 := line.take 255

section Stream

variable {cur : List U8} (h : ∀ c ∈ cur, isEol c = false)

theorem tailOf_eol {c : U8} (hc : isEol c = true) (rest : List U8) :
    tailOf (cur ++ c :: rest) = tailOf rest := by
  have hne := List.splitOnP_ne_nil isEol rest
  rw [tailOf, List.splitOnP_append_cons _ _ hc, List.getLastD_eq_getLast?, tailOf,
    List.getLastD_eq_getLast?, List.getLast?_append_of_ne_nil _ hne]

include h

theorem commandsOf_open : commandsOf cur = [] := by
  rw [commandsOf, List.splitOnP_eq_singleton h]
  rfl

theorem tailOf_open : tailOf cur = cur := by
  rw [tailOf, List.splitOnP_eq_singleton h]
  rfl

theorem commandsOf_eol {c : U8} (hc : isEol c = true) (rest : List U8) :
    commandsOf (cur ++ c :: rest) = (if cur = [] then [] else [cur]) ++ commandsOf rest := by
  rw [commandsOf, List.splitOnP_append_cons _ _ hc, List.splitOnP_eq_singleton h,
    List.dropLast_append_of_ne_nil (List.splitOnP_ne_nil _ _), List.filter_append, commandsOf]
  congr 1
  by_cases hcur : cur = []
  · simp [hcur]
  · simp [hcur]

end Stream

/-- A line so far and its bytes to come, split at the first line end of these. -/
theorem open_append {cur : List U8} {c : U8} (h : ∀ c ∈ cur, isEol c = false)
    (hc : isEol c = false) : ∀ d ∈ cur ++ [c], isEol d = false := by
  intro d hd
  rcases List.mem_append.mp hd with hd | hd
  · exact h d hd
  · rw [List.mem_singleton.mp hd]
    exact hc

/-- **Only the unfinished line is carried over** from one part of a stream to the next. -/
theorem commandsOf_append : ∀ (l rest cur : List U8), (∀ c ∈ cur, isEol c = false) →
    (∀ c ∈ tailOf (cur ++ l), isEol c = false) ∧
    commandsOf (cur ++ (l ++ rest)) =
      commandsOf (cur ++ l) ++ commandsOf (tailOf (cur ++ l) ++ rest) ∧
    tailOf (cur ++ (l ++ rest)) = tailOf (tailOf (cur ++ l) ++ rest)
  | [], rest, cur, h => by
    rw [List.append_nil, tailOf_open h, commandsOf_open h]
    exact ⟨h, rfl, rfl⟩
  | c :: l, rest, cur, h => by
    by_cases hc : isEol c = true
    · obtain ⟨hopen, hcmd, htail⟩ := commandsOf_append l rest [] (by simp)
      rw [List.nil_append, List.nil_append] at hcmd htail
      rw [List.nil_append] at hopen
      rw [List.cons_append, commandsOf_eol h hc, commandsOf_eol h hc, tailOf_eol hc, tailOf_eol hc,
        hcmd, htail, List.append_assoc]
      exact ⟨hopen, rfl, rfl⟩
    · have hih := commandsOf_append l rest (cur ++ [c]) (open_append h (by simpa using hc))
      simp only [List.append_assoc, List.singleton_append] at hih
      exact hih

/-! ## 2. Events -/

/-- The lines that are dispatched. -/
def dispatched (evs : List Event) : List (List U8) :=
  evs.filterMap fun
    | .dispatch line => some line
    | _ => none

/-- Every store is inside its array. -/
def InBounds (evs : List Event) : Prop := ∀ b i, .write b i ∈ evs → i < b.size

theorem dispatched_append (l l' : List Event) :
    dispatched (l ++ l') = dispatched l ++ dispatched l' :=
  List.filterMap_append

theorem inBounds_append {l l' : List Event} :
    InBounds (l ++ l') ↔ InBounds l ∧ InBounds l' := by
  unfold InBounds
  constructor
  · intro h
    exact ⟨fun b i hm => h b i (List.mem_append_left _ hm),
      fun b i hm => h b i (List.mem_append_right _ hm)⟩
  · rintro ⟨h, h'⟩ b i hm
    rcases List.mem_append.mp hm with hm | hm
    · exact h b i hm
    · exact h' b i hm

theorem dispatched_putc (t : List U8) : dispatched (t.map .putc) = [] := by
  simp [dispatched, List.filterMap_map]

theorem inBounds_putc (t : List U8) : InBounds (t.map .putc) := by
  intro b i h
  obtain ⟨c, -, hc⟩ := List.mem_map.mp h
  cases hc

theorem dispatched_stores (b : Buf) (n : ℕ) : dispatched (stores b n) = [] := by
  simp [dispatched, stores, List.filterMap_map]

theorem inBounds_stores {b : Buf} {n : ℕ} : InBounds (stores b n) ↔ n ≤ b.size := by
  constructor
  · intro h
    by_contra hn
    have hlast := h b b.size (List.mem_map.mpr ⟨b.size, by simpa using hn, rfl⟩)
    exact absurd hlast (lt_irrefl _)
  · intro h b' i hm
    obtain ⟨j, hj, heq⟩ := List.mem_map.mp hm
    cases heq
    exact lt_of_lt_of_le (List.mem_range.mp hj) h

/-- A line that the shell has an answer of at most 64 bytes to: it is a command, or has at most 44
bytes. -/
def Short (line : List U8) : Prop :=
  classify (cstring (stored line)) = .unknown → (cstring (stored line)).length ≤ 44

/-- **The stores of a command**: only the answer to an unknown one can be too long. -/
theorem run_effect {p : Ptr} {s : List U8} (h : PointsTo p s) {time : U64} {evs : List Event}
    (hrun : runCommand time p (classify s) = .ok evs) :
    dispatched evs = [] ∧ (InBounds evs ↔ (classify s = .unknown → s.length ≤ 44)) := by
  have hanswer : ∀ (n : ℕ) (t : List U8), dispatched (stores .output n ++ t.map .putc) = [] ∧
      (InBounds (stores .output n ++ t.map .putc) ↔ n ≤ 64) := by
    intro n t
    rw [dispatched_append, dispatched_stores, dispatched_putc, inBounds_append, inBounds_stores]
    exact ⟨rfl, ⟨fun hb => hb.1, fun hn => ⟨hn, inBounds_putc t⟩⟩⟩
  cases hcmd : classify s with
  | uptime =>
    rw [hcmd, run_uptime] at hrun
    cases hrun
    have hlen := length_uptimeText time
    obtain ⟨hdisp, hbounds⟩ := hanswer ((uptimeText time).length + 1) (uptimeText time)
    rw [← List.singleton_append, dispatched_append, inBounds_append, hdisp, hbounds]
    refine ⟨rfl, fun _ => nofun, fun _ => ⟨?_, by omega⟩⟩
    intro b i hm
    simp at hm
  | echo =>
    rw [hcmd, run_echo h (classify_echo hcmd)] at hrun
    cases hrun
    exact ⟨dispatched_putc _, fun _ => nofun, fun _ => inBounds_putc _⟩
  | alarm =>
    obtain ⟨secs, -, hset⟩ := run_alarm h (classify_alarm hcmd) time
    rw [hcmd, hset] at hrun
    cases hrun
    refine ⟨rfl, fun _ => nofun, fun _ => ?_⟩
    intro b i hm
    simp at hm
  | unknown =>
    rw [hcmd, run_unknown h] at hrun
    cases hrun
    have hlen := length_unknownText s
    obtain ⟨hdisp, hbounds⟩ := hanswer ((unknownText s).length + 1) (unknownText s)
    rw [hdisp, hbounds]
    refine ⟨rfl, fun hn _ => by omega, fun hn => ?_⟩
    have := hn rfl
    omega

/-! ## 3. The loop -/

/-- The shell holds the line `cur`, as far as it fits. -/
structure Holds (s : State) (cur : List U8) : Prop where
  index : s.commandIndex = (stored cur).length
  buf : s.commandBuf.toList.take s.commandIndex = stored cur

theorem length_stored (line : List U8) : (stored line).length = min 255 line.length :=
  List.length_take

theorem Holds.lt {s : State} {cur : List U8} (h : Holds s cur) : s.commandIndex < 256 := by
  rw [h.index, length_stored]
  omega

theorem length_commandBuf (v : Vector U8 256) : v.toList.length = 256 := by
  rw [Vector.length_toList]

/-- The line with the byte that is stored behind it. -/
theorem Holds.set {s : State} {cur : List U8} (h : Holds s cur) (c : U8) :
    ∃ rest, (s.commandBuf.setIfInBounds s.commandIndex c).toList = stored cur ++ c :: rest := by
  refine ⟨s.commandBuf.toList.drop (s.commandIndex + 1), ?_⟩
  rw [Vector.toList_setIfInBounds, List.set_eq_take_cons_drop c
    (by rw [length_commandBuf]; exact h.lt), h.buf]

section Step

variable (clock : ℕ → U64) {s : State} {cur : List U8}

/-- **One byte of a line.** -/
theorem step_byte (h : Holds s cur) {c : U8} (hc : isEol c = false) :
    ∃ s' evs, step clock s c = .ok s' ∧ Holds s' (cur ++ [c]) ∧ s'.events = s.events ++ evs ∧
      dispatched evs = [] ∧ InBounds evs := by
  have hc' : ¬ (c = 13 ∨ c = 10) := by simpa [isEol] using hc
  have hidx := h.index
  rw [length_stored] at hidx
  rw [step, if_neg hc']
  by_cases hlt : s.commandIndex < 256 - 1
  · rw [if_pos hlt]
    obtain ⟨rest, hset⟩ := h.set c
    have hfit : cur.length < 255 := by omega
    have hstored : stored (cur ++ [c]) = stored cur ++ [c] := by
      have hlen : (cur ++ [c]).length ≤ 255 := by
        rw [List.length_append, List.length_singleton]
        omega
      rw [stored, stored, List.take_of_length_le hlen, List.take_of_length_le (by omega)]
    refine ⟨_, _, rfl, ⟨?_, ?_⟩, rfl, rfl, ?_⟩
    · rw [hstored, List.length_append, ← h.index]
      rfl
    · rw [hstored]
      show (Vector.toList _).take (s.commandIndex + 1) = _
      rw [hset, List.append_cons, List.take_left' (by
        rw [List.length_append, ← h.index, List.length_singleton])]
    · intro b i hm
      simp at hm
      obtain ⟨rfl, rfl⟩ := hm
      exact h.lt
  · rw [if_neg hlt]
    have hstored : stored (cur ++ [c]) = stored cur := by
      rw [stored, stored, List.take_append_of_le_length (by omega)]
    refine ⟨_, [.putc c], rfl, ⟨?_, ?_⟩, rfl, rfl, ?_⟩
    · rw [hstored]
      exact h.index
    · rw [hstored]
      exact h.buf
    · intro b i hm
      simp at hm

/-- The bytes of `command_buf` at a line end. -/
def lineIn (line : List U8) : List U8 := stored line ++ [0]

/-- An empty line is not dispatched... -/
theorem Holds.dispatch_nil (h : Holds s []) (time : U64) :
    dispatch time (s.commandBuf.setIfInBounds s.commandIndex 0) s.commandIndex = .ok [] := by
  have h0 : ¬ s.commandIndex > 0 := by
    rw [h.index]
    simp [stored]
  rw [dispatch, if_neg h0]
  rfl

/-- ...and another one is run from `command_buf`. -/
theorem Holds.dispatch_line (h : Holds s cur) (hcur : cur ≠ []) (time : U64) : ∃ p evs,
    PointsTo p (cstring (stored cur)) ∧
      runCommand time p (classify (cstring (stored cur))) = .ok evs ∧
      dispatch time (s.commandBuf.setIfInBounds s.commandIndex 0) s.commandIndex
        = .ok (.dispatch (lineIn cur) :: evs) := by
  have hpos : s.commandIndex > 0 := by
    have hidx := h.index
    have := List.length_pos_iff.mpr hcur
    rw [length_stored] at hidx
    omega
  obtain ⟨rest, hset⟩ := h.set 0
  have hp : PointsTo (s.commandBuf.setIfInBounds s.commandIndex 0).toList
      (cstring (stored cur)) := by
    rw [hset]
    exact pointsTo_cstring _ _
  have hline : (s.commandBuf.setIfInBounds s.commandIndex 0).toList.take (s.commandIndex + 1)
      = lineIn cur := by
    rw [hset, List.append_cons, List.take_left' (by
      rw [List.length_append, ← h.index, List.length_singleton])]
    rfl
  obtain ⟨evs, hrun⟩ := run_total hp time
  refine ⟨_, evs, hp, hrun, ?_⟩
  rw [dispatch, if_pos hpos, run_command hp, ok_bind, hrun, hline]
  rfl

/-- What a line end dispatches, and what it stores. -/
theorem run_dispatch (h : Holds s cur) (time : U64) :
    ∃ evs, dispatch time (s.commandBuf.setIfInBounds s.commandIndex 0) s.commandIndex = .ok evs ∧
      dispatched evs = (if cur = [] then [] else [lineIn cur]) ∧
      (InBounds evs ↔ ∀ line ∈ (if cur = [] then [] else [cur]), Short line) := by
  by_cases hcur : cur = []
  · subst hcur
    refine ⟨[], h.dispatch_nil time, rfl, ?_⟩
    simp [InBounds]
  · obtain ⟨p, evs, hp, hrun, hdispatch⟩ := h.dispatch_line hcur time
    obtain ⟨hdisp, hbounds⟩ := run_effect hp hrun
    refine ⟨.dispatch (lineIn cur) :: evs, hdispatch, ?_, ?_⟩
    · rw [if_neg hcur, ← List.singleton_append, dispatched_append, hdisp]
      rfl
    · rw [if_neg hcur, ← List.singleton_append, inBounds_append, hbounds]
      simp [InBounds, Short]

/-- **A line end.** -/
theorem step_eol (h : Holds s cur) {c : U8} (hc : isEol c = true) :
    ∃ s' evs, step clock s c = .ok s' ∧ Holds s' [] ∧ s'.events = s.events ++ evs ∧
      dispatched evs = (if cur = [] then [] else [lineIn cur]) ∧
      (InBounds evs ↔ ∀ line ∈ (if cur = [] then [] else [cur]), Short line) := by
  have hc' : c = 13 ∨ c = 10 := by simpa [isEol] using hc
  obtain ⟨evs, hrun, hdisp, hbounds⟩ := run_dispatch h (clock s.lines)
  have hprompt : puts (literal "> ") = .ok ((ascii "> ").map .putc) := rfl
  refine ⟨⟨s.commandBuf.setIfInBounds s.commandIndex 0, 0, s.lines + 1, _⟩,
    [.putc c, .putc 10, .write .command s.commandIndex] ++ evs ++ (ascii "> ").map .putc,
    ?_, ⟨rfl, rfl⟩, rfl, ?_, ?_⟩
  · rw [step, if_pos hc']
    simp only [hrun, hprompt, ok_bind, pure_eq, List.append_assoc]
  · rw [dispatched_append, dispatched_append, dispatched_putc, List.append_nil, ← hdisp]
    rfl
  · have hfront : InBounds [.putc c, .putc 10, .write .command s.commandIndex] := by
      intro b i hm
      simp at hm
      obtain ⟨rfl, rfl⟩ := hm
      exact h.lt
    rw [inBounds_append, inBounds_append, hbounds]
    exact ⟨fun hb => hb.1.2, fun hb => ⟨⟨hfront, hb⟩, inBounds_putc _⟩⟩

end Step

/-! ## 4. Whole runs -/

section Run

variable (clock : ℕ → U64)

/-- **A run over the bytes of a stream**, from the line so far. -/
theorem chars_run : ∀ (cs : List U8) {s : State} {cur : List U8}, Holds s cur →
    (∀ c ∈ cur, isEol c = false) →
    ∃ s' evs, chars clock s cs = .ok s' ∧ Holds s' (tailOf (cur ++ cs)) ∧
      s'.events = s.events ++ evs ∧ dispatched evs = (commandsOf (cur ++ cs)).map lineIn ∧
      (InBounds evs ↔ ∀ line ∈ commandsOf (cur ++ cs), Short line)
  | [], s, cur, h, hcur => by
    rw [List.append_nil, tailOf_open hcur, commandsOf_open hcur]
    exact ⟨s, [], rfl, h, (List.append_nil _).symm, rfl, by simp [InBounds]⟩
  | c :: cs, s, cur, h, hcur => by
    by_cases hc : isEol c = true
    · obtain ⟨s₁, evs₁, hstep, hs₁, hev₁, hdisp₁, hb₁⟩ := step_eol clock h hc
      obtain ⟨s₂, evs₂, hrun, hs₂, hev₂, hdisp₂, hb₂⟩ := chars_run cs hs₁ (by simp)
      rw [List.nil_append] at hs₂ hdisp₂ hb₂
      refine ⟨s₂, evs₁ ++ evs₂, ?_, ?_, ?_, ?_, ?_⟩
      · rw [chars, hstep, ok_bind, hrun]
      · rw [tailOf_eol hc]
        exact hs₂
      · rw [hev₂, hev₁, List.append_assoc]
      · rw [dispatched_append, hdisp₁, hdisp₂, commandsOf_eol hcur hc, List.map_append]
        split <;> rfl
      · rw [inBounds_append, hb₁, hb₂, commandsOf_eol hcur hc]
        simp only [List.mem_append, or_imp, forall_and]
    · have hc' : isEol c = false := by simpa using hc
      obtain ⟨s₁, evs₁, hstep, hs₁, hev₁, hdisp₁, hb₁⟩ := step_byte clock h hc'
      obtain ⟨s₂, evs₂, hrun, hs₂, hev₂, hdisp₂, hb₂⟩ := chars_run cs hs₁ (open_append hcur hc')
      rw [List.append_assoc, List.singleton_append] at hs₂ hdisp₂ hb₂
      refine ⟨s₂, evs₁ ++ evs₂, ?_, hs₂, ?_, ?_, ?_⟩
      · rw [chars, hstep, ok_bind, hrun]
      · rw [hev₂, hev₁, List.append_assoc]
      · rw [dispatched_append, hdisp₁, hdisp₂, List.nil_append]
      · rw [inBounds_append, hb₂]
        exact ⟨fun hb => hb.2, fun hb => ⟨hb₁, hb⟩⟩

/-- **A run over the chunks of a stream**, from the line so far. -/
theorem turns_run : ∀ (chunks : List (List U8)) {s : State} {cur : List U8}, Holds s cur →
    (∀ c ∈ cur, isEol c = false) →
    ∃ s' evs, turns clock s chunks = .ok s' ∧ Holds s' (tailOf (cur ++ chunks.flatten)) ∧
      s'.events = s.events ++ evs ∧
      dispatched evs = (commandsOf (cur ++ chunks.flatten)).map lineIn ∧
      ((∀ chunk ∈ chunks, chunk.length ≤ 256) →
        (InBounds evs ↔ ∀ line ∈ commandsOf (cur ++ chunks.flatten), Short line))
  | [], s, cur, h, hcur => by
    rw [List.flatten_nil, List.append_nil, tailOf_open hcur, commandsOf_open hcur]
    exact ⟨s, [], rfl, h, (List.append_nil _).symm, rfl, by simp [InBounds]⟩
  | chunk :: chunks, s, cur, h, hcur => by
    obtain ⟨hopen, hcmd, htail⟩ := commandsOf_append chunk chunks.flatten cur hcur
    have hread : Holds { s with events := s.events ++ stores .input chunk.length } cur :=
      ⟨h.index, h.buf⟩
    obtain ⟨s₁, evs₁, hchars, hs₁, hev₁, hdisp₁, hb₁⟩ := chars_run clock chunk hread hcur
    obtain ⟨s₂, evs₂, hturns, hs₂, hev₂, hdisp₂, hb₂⟩ := turns_run chunks hs₁ hopen
    rw [List.flatten_cons, hcmd, htail]
    refine ⟨s₂, stores .input chunk.length ++ evs₁ ++ evs₂, ?_, hs₂, ?_, ?_, ?_⟩
    · rw [turns, turn, hchars, ok_bind, hturns]
    · rw [hev₂, hev₁]
      simp only [List.append_assoc]
    · rw [dispatched_append, dispatched_append, dispatched_stores, hdisp₁, hdisp₂, List.nil_append,
        List.map_append]
    · intro hlen
      have hlen₂ := hb₂ fun c hc => hlen c (List.mem_cons_of_mem chunk hc)
      have hstores : InBounds (stores .input chunk.length) :=
        inBounds_stores.mpr (hlen chunk List.mem_cons_self)
      rw [inBounds_append, inBounds_append, hb₁, hlen₂]
      simp only [List.mem_append, or_imp, forall_and]
      exact ⟨fun hb => ⟨hb.1.2, hb.2⟩, fun hb => ⟨⟨hstores, hb.1⟩, hb.2⟩⟩

/-- The loop starts at the first prompt, with no byte in `command_buf`. -/
theorem kmain_start (commandBuf : Vector U8 256) (chunks : List (List U8)) :
    let s : State := ⟨commandBuf, 0, 0, (ascii "Shell initialized!\r\n").map .putc ++
      (ascii "> ").map .putc⟩
    kmain clock commandBuf chunks = turns clock s chunks ∧ Holds s [] := by
  have hbanner : puts (literal "Shell initialized!\r\n")
      = .ok ((ascii "Shell initialized!\r\n").map .putc) := rfl
  have hprompt : puts (literal "> ") = .ok ((ascii "> ").map .putc) := rfl
  refine ⟨?_, rfl, rfl⟩
  rw [kmain, hbanner, ok_bind, hprompt, ok_bind]

/-- The shell from its first prompt on. -/
theorem kmain_run (commandBuf : Vector U8 256) (chunks : List (List U8)) :
    ∃ s, kmain clock commandBuf chunks = .ok s ∧ Holds s (tailOf chunks.flatten) ∧
      dispatched s.events = (commandsOf chunks.flatten).map lineIn ∧
      ((∀ chunk ∈ chunks, chunk.length ≤ 256) →
        (InBounds s.events ↔ ∀ line ∈ commandsOf chunks.flatten, Short line)) := by
  obtain ⟨hstart, hinit⟩ := kmain_start clock commandBuf chunks
  obtain ⟨s, evs, hrun, hs, hev, hdisp, hb⟩ := turns_run clock chunks hinit (by simp)
  rw [List.nil_append] at hs hdisp hb
  refine ⟨s, ?_, hs, ?_, ?_⟩
  · rw [hstart, hrun]
  · rw [hev, dispatched_append, dispatched_append, dispatched_putc, dispatched_putc, hdisp]
    rfl
  · intro hlen
    rw [hev, inBounds_append, inBounds_append, hb hlen]
    exact ⟨fun h => h.2, fun h => ⟨⟨inBounds_putc _, inBounds_putc _⟩, h⟩⟩

end Run

/-- **The commands that the shell dispatches are the lines of the stream**, cut to 255 bytes, each
with its NUL.  What follows the last line end is kept in `command_buf`, cut likewise.  The chunks do
not matter, and neither do the clock and what `command_buf` held before. -/
theorem kmain_dispatches (clock : ℕ → U64) (commandBuf : Vector U8 256) (chunks : List (List U8)) :
    ∃ s, kmain clock commandBuf chunks = .ok s ∧
      dispatched s.events = (commandsOf chunks.flatten).map (fun line => line.take 255 ++ [0]) ∧
      s.commandIndex = ((tailOf chunks.flatten).take 255).length ∧
      s.commandBuf.toList.take s.commandIndex = (tailOf chunks.flatten).take 255 ∧
      ∀ clock' commandBuf' chunks', chunks'.flatten = chunks.flatten →
        ∃ s', kmain clock' commandBuf' chunks' = .ok s' ∧
          dispatched s'.events = dispatched s.events := by
  obtain ⟨s, hrun, hs, hdisp, -⟩ := kmain_run clock commandBuf chunks
  refine ⟨s, hrun, hdisp, hs.index, hs.buf, ?_⟩
  intro clock' commandBuf' chunks' hflat
  obtain ⟨s', hrun', -, hdisp', -⟩ := kmain_run clock' commandBuf' chunks'
  refine ⟨s', hrun', ?_⟩
  rw [hdisp', hflat, hdisp]

/-- **The stores of the shell are inside their arrays just if the lines are short**: those that are
answered with `Unknown Command` have at most 44 bytes. -/
theorem kmain_in_bounds_iff (clock : ℕ → U64) (commandBuf : Vector U8 256)
    (chunks : List (List U8)) (hlen : ∀ chunk ∈ chunks, chunk.length ≤ 256) :
    ∃ s, kmain clock commandBuf chunks = .ok s ∧
      (InBounds s.events ↔ ∀ line ∈ commandsOf chunks.flatten, Short line) := by
  obtain ⟨s, hrun, -, -, hb⟩ := kmain_run clock commandBuf chunks
  exact ⟨s, hrun, hb hlen⟩

/-- The line `hi`. -/
theorem kmain_in_bounds_hi :
    ∃ s, kmain (fun _ => 0) (Vector.replicate 256 0) [ascii "hi\r"] = .ok s ∧
    InBounds s.events := by
  obtain ⟨s, hrun, hb⟩ :=
    kmain_in_bounds_iff (fun _ => 0) (Vector.replicate 256 0) [ascii "hi\r"] (by decide)
  have hlines : commandsOf [ascii "hi\r"].flatten = [ascii "hi"] := by decide
  refine ⟨s, hrun, hb.mpr ?_⟩
  rw [hlines]
  intro line hline
  rw [List.mem_singleton.mp hline]
  exact fun _ => by decide

/-- A line of 45 bytes is answered with 65 bytes. -/
theorem kmain_overruns : ∃ s, kmain (fun _ => 0) (Vector.replicate 256 0)
    [List.replicate 45 120 ++ [13]] = .ok s ∧ ¬ InBounds s.events := by
  obtain ⟨s, hrun, -, -, hb⟩ :=
    kmain_run (fun _ => 0) (Vector.replicate 256 0) [List.replicate 45 120 ++ [13]]
  refine ⟨s, hrun, ?_⟩
  rw [hb (by decide)]
  intro hshort
  have hmem : List.replicate 45 120 ∈ commandsOf [List.replicate 45 120 ++ [13]].flatten := by
    decide
  exact absurd (hshort _ hmem (by decide)) (by decide)

end RvKernel.Shell
