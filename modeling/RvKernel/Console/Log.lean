/-
# The log (`printk`, `panic`, `BUG`)

Every line goes through one static buffer: `vsnprintf` fills it and `print` sends what it finds up
to the first NUL.  So what is seen of a line is its text cut twice, to the buffer and at a NUL that
a `%c` may have put into it (`Prints`).

`Heard` is what a sequence of calls should be heard as, from the level on that is set: the lines
that are urgent enough, in order, up to a panic.  A panic is a line like any other, at `LOG_ERR`.
Below that level it is not heard, while the `BUG()` that is only logged, at `LOG_CRIT`, still is.
-/
import Mathlib.Data.List.TakeWhile
import RvKernel.Mm.State
import RvKernel.Shell.Commands
import RvKernel.Text.Buffer
import RvKernel.Text.Truncate

namespace RvKernel.Log

open Effect Text
open Mm (BugBehavior)
open Shell (cstring pointsTo_cstring emitAll_lits)

/-! ## 1. The code -/

/-- `LOG_CRIT`.  The smaller the level, the more urgent the line. -/
def LOG.crit : Int := 0

/-- `LOG_ERR`. -/
def LOG.err : Int := 1

/-- `LOG_INFO`. -/
def LOG.info : Int := 3

/-- `PRINTK_BUF_SIZE`. -/
def printkBufSize : ℕ := 4096

/-- The static variables of `printf.c` and `panic.c`, and the bytes stored to the UART so far. -/
structure State where
  currentLevel : Int
  gBuf : Ptr
  bugBehavior : BugBehavior
  uart : List U8

/-- The variables as the kernel starts. -/
def State.boot : State where
  currentLevel := LOG.info
  gBuf := List.replicate printkBufSize 0
  bugBehavior := .bugPanic
  uart := []

/-- Why a call does not return. -/
inductive Stop where
  /-- a text function does not return -/
  | fault (f : Fault)
  /-- a byte was stored behind `g_buf` -/
  | overrun
  /-- the loop at the end of `panic` -/
  | panic

abbrev LM := EStateM Stop State

/-- A text function called from here. -/
def ofText {α : Type} : TM α → LM α
  | .ok a => pure a
  | .error f => throw (.fault f)

/-- `putchar(c)`: a store to the UART, whether it has room or not. -/
def putchar (c : U8) : LM Unit := modify fun s => { s with uart := s.uart ++ [c] }

/-- `print(str)`. -/
def print : Ptr → LM Unit
  | [] => throw (.fault .read)
  | c :: str => if c = 0 then return () else do
    putchar c
    print str

/-- `printk_set_level(level)`. -/
def printkSetLevel (level : Int) : LM Unit := modify fun s => { s with currentLevel := level }

/-- `vprintk(level, fmt_str, args)`. -/
def vprintk (level : Int) (fmtStr : Ptr) (args : List Arg) : LM Unit := do
  if level > (← get).currentLevel then
    return ()
  else
    let bytes ← ofText
      (vsnprintf (3 * fmtStr.length + 2) (BitVec.ofNat 64 printkBufSize) fmtStr args)
    if printkBufSize < bytes.length then
      throw .overrun
    else
      modify fun s => { s with gBuf := overwrite s.gBuf bytes }
      print (← get).gBuf

/-- `printk(level, fmt_str, ...)` is `vprintk` of its own arguments. -/
def printk (level : Int) (fmtStr : Ptr) (args : List Arg) : LM Unit := vprintk level fmtStr args

/-- The lines around the message of a panic. -/
def panicStart : List U8 := ascii "----- start of kernel panic -----\n"

def panicEnd : List U8 := ascii "----- end of kernel panic -----\n"

/-- `panic(fmt, ...)`. -/
def panic (fmt : Ptr) (args : List Arg) : LM Unit := do
  printk LOG.err (panicStart ++ [0]) []
  vprintk LOG.err fmt args
  printk LOG.err (panicEnd ++ [0]) []
  throw .panic

/-- `bug_set_behavior(behavior)`. -/
def bugSetBehavior (behavior : BugBehavior) : LM Unit :=
  modify fun s => { s with bugBehavior := behavior }

/-- The format of `BUG()`, for either behaviour. -/
def bugFormat : Ptr := literal "BUG() in function %s (%s:%d)\n"

/-- `BUG()` with `__func__`, `__FILE__` and `__LINE__`. -/
def BUG (func file : Ptr) (line : U64) : LM Unit := do
  if (← get).bugBehavior = .bugPanic then
    panic bugFormat [.ptr func, .ptr file, .word line]
  else
    printk LOG.crit bugFormat [.ptr func, .ptr file, .word line]

/-- A call of one of these functions. -/
inductive Call where
  | printk (level : Int) (fmtStr : Ptr) (args : List Arg)
  | setLevel (level : Int)
  | setBehavior (behavior : BugBehavior)
  | panic (fmt : Ptr) (args : List Arg)
  | bug (func file : Ptr) (line : U64)

def Call.run : Call → LM Unit
  | .printk level fmtStr args => Log.printk level fmtStr args
  | .setLevel level => printkSetLevel level
  | .setBehavior behavior => bugSetBehavior behavior
  | .panic fmt args => Log.panic fmt args
  | .bug func file line => BUG func file line

/-- The calls one after the other. -/
def runAll : List Call → LM Unit
  | [] => return ()
  | c :: cs => do
    c.run
    runAll cs

/-! ## 2. What should be heard -/

/-- The format and its arguments make a line that goes well in `g_buf`, and `t` is what is sent of
it: its text, cut to the buffer, up to the first NUL. -/
def Prints (fmtStr : Ptr) (args : List Arg) (t : List U8) : Prop :=
  ∃ s ds is rest, fmtStr = s ++ [0] ∧ Scan s ds ∧ Matches ds args is rest ∧
    Safe printkBufSize is ∧ t = cstring ((textAll is).take (printkBufSize - 1))

/-- `Heard l b cs t halts`: at the level `l` and with the behaviour `b` the calls are heard as `t`,
and `halts` says whether they end in a panic.  A line that is not urgent enough may have any format
and any arguments. -/
inductive Heard : Int → BugBehavior → List Call → List U8 → Bool → Prop
  | nil {l : Int} {b : BugBehavior} : Heard l b [] [] false
  | line {l k : Int} {b : BugBehavior} {fmtStr : Ptr} {args : List Arg} {cs : List Call}
      {t u : List U8} {halts : Bool} : k ≤ l → Prints fmtStr args t → Heard l b cs u halts →
      Heard l b (.printk k fmtStr args :: cs) (t ++ u) halts
  | hidden {l k : Int} {b : BugBehavior} {fmtStr : Ptr} {args : List Arg} {cs : List Call}
      {u : List U8} {halts : Bool} : l < k → Heard l b cs u halts →
      Heard l b (.printk k fmtStr args :: cs) u halts
  | setLevel {l k : Int} {b : BugBehavior} {cs : List Call} {u : List U8} {halts : Bool} :
      Heard k b cs u halts → Heard l b (.setLevel k :: cs) u halts
  | setBehavior {l : Int} {b b' : BugBehavior} {cs : List Call} {u : List U8} {halts : Bool} :
      Heard l b' cs u halts → Heard l b (.setBehavior b' :: cs) u halts
  | panic {l : Int} {b : BugBehavior} {fmt : Ptr} {args : List Arg} {cs : List Call}
      {t : List U8} : LOG.err ≤ l → Prints fmt args t →
      Heard l b (.panic fmt args :: cs) (panicStart ++ t ++ panicEnd) true
  | panicHidden {l : Int} {b : BugBehavior} {fmt : Ptr} {args : List Arg} {cs : List Call} :
      l < LOG.err → Heard l b (.panic fmt args :: cs) [] true
  | bugPanic {l : Int} {func file : Ptr} {line : U64} {cs : List Call} {u : List U8}
      {halts : Bool} :
      Heard l .bugPanic (.panic bugFormat [.ptr func, .ptr file, .word line] :: cs) u halts →
      Heard l .bugPanic (.bug func file line :: cs) u halts
  | bugLog {l : Int} {func file : Ptr} {line : U64} {cs : List Call} {u : List U8}
      {halts : Bool} :
      Heard l .bugLog (.printk LOG.crit bugFormat [.ptr func, .ptr file, .word line] :: cs) u
        halts →
      Heard l .bugLog (.bug func file line :: cs) u halts

/-- The text of a line is sent as it is, if it fits and has no NUL in it. -/
theorem prints_renders {ps : List Piece} {args : List Arg} {t : List U8} (hok : ∀ p ∈ ps, p.Ok)
    (h : Renders ps args t) (hnul : ∀ c ∈ t, c ≠ 0) (hlen : t.length < printkBufSize) :
    Prints (spell ps ++ [0]) args t := by
  obtain ⟨is, hm, rfl, hinv⟩ := h.matches
  refine ⟨_, _, is, [], rfl, scan_spell hok, hm, Or.inr (Or.inl ⟨hinv, cuts_of_fits ?_⟩), ?_⟩
  · rw [Nat.zero_add]
    exact hlen
  · rw [List.take_of_length_le (by omega), cstring]
    refine (List.takeWhile_eq_self_iff.mpr fun c hc => ?_).symm
    simpa using hnul c hc

section Literals

variable {l : List U8}

theorem spell_lits (l : List U8) (ps : List Piece) : spell (l.map .lit ++ ps) = l ++ spell ps := by
  induction l with
  | nil => rfl
  | cons c l ih => exact congrArg (c :: ·) ih

theorem ok_lits (hl : ∀ c ∈ l, c ≠ 0 ∧ c ≠ 37) {ps : List Piece} (hok : ∀ p ∈ ps, p.Ok) :
    ∀ p ∈ l.map .lit ++ ps, p.Ok := by
  intro p hp
  rcases List.mem_append.mp hp with hp | hp
  · obtain ⟨c, hc, rfl⟩ := List.mem_map.mp hp
    exact hl c hc
  · exact hok p hp

theorem renders_lits (l : List U8) {ps : List Piece} {args : List Arg} {t : List U8}
    (h : Renders ps args t) : Renders (l.map .lit ++ ps) args (l ++ t) := by
  induction l with
  | nil => exact h
  | cons c l ih => exact .lit ih

/-- Plain text is sent as it is. -/
theorem prints_lits (hl : ∀ c ∈ l, c ≠ 0 ∧ c ≠ 37) (hlen : l.length < printkBufSize) :
    Prints (l ++ [0]) [] l := by
  have hok : ∀ p ∈ l.map Piece.lit ++ [], p.Ok := ok_lits hl (List.forall_mem_nil _)
  have hren : Renders (l.map .lit ++ []) [] (l ++ []) := renders_lits l .nil
  have hprints := prints_renders hok hren
  have hspell : spell [] = [] := rfl
  rw [spell_lits, hspell, List.append_nil] at hprints
  exact hprints (fun c hc => (hl c hc).1) hlen

end Literals

/-! ## 3. One call -/

/-- The state after `t` has been sent and `buf` left in the buffer. -/
def State.sent (s : State) (buf : Ptr) (t : List U8) : State :=
  { s with gBuf := buf, uart := s.uart ++ t }

section Run

variable {s : State}

theorem sent_sent (buf buf' : Ptr) (t t' : List U8) :
    (s.sent buf t).sent buf' t' = s.sent buf' (t ++ t') := by
  simp only [State.sent, List.append_assoc]

theorem run_print {p : Ptr} {t : List U8} (h : PointsTo p t) :
    print p s = .ok () (s.sent s.gBuf t) := by
  induction t generalizing p s with
  | nil =>
    obtain ⟨rest, rfl⟩ := h.of_nil
    rw [State.sent, List.append_nil]
    rfl
  | cons c t ih =>
    obtain ⟨p', rfl, hc, hp'⟩ := h.of_cons
    have hput : putchar c s = .ok () (s.sent s.gBuf [c]) := rfl
    rw [print, if_neg hc, bind_of_ok hput, ih hp', sent_sent]
    rfl

/-- A line that is not urgent enough is not even formatted. -/
theorem run_vprintk_hidden {level : Int} (h : s.currentLevel < level) (fmtStr : Ptr)
    (args : List Arg) : vprintk level fmtStr args s = .ok () s := by
  simp [vprintk, h]

/-- **A line that is urgent enough** is sent, and stays within `g_buf`. -/
theorem run_vprintk {level : Int} {fmtStr : Ptr} {args : List Arg} {t : List U8}
    (hl : level ≤ s.currentLevel) (hbuf : s.gBuf.length = printkBufSize)
    (h : Prints fmtStr args t) :
    ∃ buf, buf.length = printkBufSize ∧ vprintk level fmtStr args s = .ok () (s.sent buf t) := by
  obtain ⟨f, ds, is, rest, rfl, hscan, hm, hsafe, rfl⟩ := h
  have hsize : (BitVec.ofNat 64 printkBufSize).toNat = printkBufSize := by decide
  have hfuel : 3 * f.length + 2 ≤ 3 * (f ++ [0]).length + 2 := by simp
  have htr := (truncates_iff_safe hscan hm hfuel (by rw [hsize]; decide)).mpr (hsize.symm ▸ hsafe)
  rw [hsize] at htr
  obtain ⟨bytes, hrun, hle, rest', hbytes⟩ := htr
  refine ⟨overwrite s.gBuf bytes, (length_overwrite (by omega)).trans hbuf, ?_⟩
  -- what `print` finds starts with the text and the NUL behind it
  have hpoints : PointsTo (overwrite s.gBuf bytes)
      (cstring ((textAll is).take (printkBufSize - 1))) := by
    rw [overwrite, ← hbytes, List.append_assoc, List.append_assoc]
    exact pointsTo_cstring _ _
  simp only [vprintk, run_bind, run_get, run_ite, if_neg (not_lt.mpr hl), gt_iff_lt, hrun, ofText,
    run_pure, if_neg (not_lt.mpr hle), run_modify]
  exact run_print hpoints

theorem plain_panicStart : ∀ c ∈ panicStart, c ≠ 0 ∧ c ≠ 37 := List.all_iff_forall_prop.mp rfl

theorem plain_panicEnd : ∀ c ∈ panicEnd, c ≠ 0 ∧ c ≠ 37 := List.all_iff_forall_prop.mp rfl

theorem prints_panicStart : Prints (panicStart ++ [0]) [] panicStart :=
  prints_lits plain_panicStart (by decide)

theorem prints_panicEnd : Prints (panicEnd ++ [0]) [] panicEnd :=
  prints_lits plain_panicEnd (by decide)

/-- A panic sends three lines and stops... -/
theorem run_panic {fmt : Ptr} {args : List Arg} {t : List U8} (hl : LOG.err ≤ s.currentLevel)
    (hbuf : s.gBuf.length = printkBufSize) (h : Prints fmt args t) :
    ∃ buf, buf.length = printkBufSize ∧
      panic fmt args s = .error .panic (s.sent buf (panicStart ++ t ++ panicEnd)) := by
  obtain ⟨b₁, hb₁, h₁⟩ := run_vprintk hl hbuf prints_panicStart
  obtain ⟨b₂, hb₂, h₂⟩ := run_vprintk (s := s.sent b₁ panicStart) hl hb₁ h
  obtain ⟨b₃, hb₃, h₃⟩ := run_vprintk (s := s.sent b₂ (panicStart ++ t)) hl hb₂ prints_panicEnd
  rw [sent_sent] at h₂ h₃
  refine ⟨b₃, hb₃, ?_⟩
  rw [panic, printk, printk, bind_of_ok h₁, bind_of_ok h₂, bind_of_ok h₃, run_throw]

/-- ...but where even `LOG_ERR` is not urgent enough, it just stops. -/
theorem run_panic_hidden (hl : s.currentLevel < LOG.err) (fmt : Ptr) (args : List Arg) :
    panic fmt args s = .error .panic s := by
  have hline := fun f as => run_vprintk_hidden hl f as
  rw [panic, printk, printk, bind_of_ok (hline _ _), bind_of_ok (hline _ _),
    bind_of_ok (hline _ _), run_throw]

/-! ## 4. The whole log -/

/-- The calls end as `halts` says, with `t` sent and the buffer as long as it was. -/
def Sends (cs : List Call) (s : State) (t : List U8) (halts : Bool) : Prop :=
  ∃ s', runAll cs s = (if halts then .error .panic s' else .ok () s') ∧
    s'.uart = s.uart ++ t ∧ s'.gBuf.length = printkBufSize

/-- After a call that returns the others go on. -/
theorem Sends.cons {c : Call} {cs : List Call} {s₁ : State} {t u : List U8} {halts : Bool}
    (hc : c.run s = .ok () s₁) (huart : s₁.uart = s.uart ++ t) (h : Sends cs s₁ u halts) :
    Sends (c :: cs) s (t ++ u) halts := by
  obtain ⟨s', hrun, hu, hbuf⟩ := h
  refine ⟨s', ?_, ?_, hbuf⟩
  · rw [runAll, bind_of_ok hc, hrun]
  · rw [hu, huart, List.append_assoc]

/-- A call that sends nothing may only change the settings. -/
theorem Sends.quiet {c : Call} {cs : List Call} {s₁ : State} {u : List U8} {halts : Bool}
    (hc : c.run s = .ok () s₁) (huart : s₁.uart = s.uart) (h : Sends cs s₁ u halts) :
    Sends (c :: cs) s u halts :=
  h.cons (t := []) hc (huart.trans (List.append_nil _).symm)

/-- A panic is the end. -/
theorem Sends.stop {c : Call} {s₁ : State} {t : List U8} (cs : List Call)
    (hc : c.run s = .error .panic s₁) (huart : s₁.uart = s.uart ++ t)
    (hbuf : s₁.gBuf.length = printkBufSize) : Sends (c :: cs) s t true := by
  refine ⟨s₁, ?_, huart, hbuf⟩
  rw [runAll, bind_of_error hc]
  rfl

/-- Two calls that run alike are followed alike. -/
theorem Sends.congr {c c' : Call} {cs : List Call} {t : List U8} {halts : Bool}
    (h : Sends (c' :: cs) s t halts) (hc : c.run s = c'.run s) : Sends (c :: cs) s t halts := by
  obtain ⟨s', hrun, hrest⟩ := h
  refine ⟨s', ?_, hrest⟩
  rw [runAll, run_bind] at hrun ⊢
  rw [hc]
  exact hrun

/-- **The log is what it should be.**  From every state, with the level and the behaviour that are
set there, the calls send just the bytes that they should be heard as, stop in a panic just if they
should, and never store behind the buffer. -/
theorem log_transcript {cs : List Call} {t : List U8} {halts : Bool}
    (h : Heard s.currentLevel s.bugBehavior cs t halts) (hbuf : s.gBuf.length = printkBufSize) :
    Sends cs s t halts := by
  generalize hl : s.currentLevel = l at h
  generalize hb : s.bugBehavior = b at h
  induction h generalizing s with
  | nil => exact ⟨s, rfl, (List.append_nil _).symm, hbuf⟩
  | line hk hp _ ih =>
    obtain ⟨buf, hlen, hrun⟩ := run_vprintk (hl ▸ hk) hbuf hp
    exact Sends.cons hrun rfl (ih (s := s.sent buf _) hlen hl hb)
  | hidden hk _ ih => exact (ih hbuf hl hb).quiet (run_vprintk_hidden (hl ▸ hk) _ _) rfl
  | @setLevel l k b cs u halts _ ih =>
    have hset : (Call.setLevel k).run s = .ok () { s with currentLevel := k } := rfl
    exact Sends.quiet hset rfl (ih hbuf rfl hb)
  | @setBehavior l b b' cs u halts _ ih =>
    have hset : (Call.setBehavior b').run s = .ok () { s with bugBehavior := b' } := rfl
    exact Sends.quiet hset rfl (ih hbuf hl rfl)
  | panic hk hp =>
    obtain ⟨buf, hlen, hrun⟩ := run_panic (hl ▸ hk) hbuf hp
    exact .stop _ hrun rfl hlen
  | panicHidden hk =>
    exact .stop _ (run_panic_hidden (hl ▸ hk) _ _) (List.append_nil _).symm hbuf
  | bugPanic _ ih =>
    refine (ih hbuf hl hb).congr ?_
    simp [Call.run, BUG, hb]
  | bugLog _ ih =>
    refine (ih hbuf hl hb).congr ?_
    simp [Call.run, BUG, hb]

end Run

/-- A line, and a panic that is not heard because the level has been lowered to `LOG_CRIT`. -/
theorem log_transcript_silent_panic :
    Sends [.printk LOG.info (literal "up\n") [], .setLevel LOG.crit,
      .panic (literal "lost\n") []] State.boot (ascii "up\n") true := by
  have hup : Prints (literal "up\n") [] (ascii "up\n") := prints_lits (by decide) (by decide)
  have hheard : Heard LOG.info .bugPanic [.printk LOG.info (literal "up\n") [],
      .setLevel LOG.crit, .panic (literal "lost\n") []] (ascii "up\n" ++ []) true :=
    .line le_rfl hup (.setLevel (.panicHidden (by decide)))
  exact log_transcript hheard (by rw [State.boot, List.length_replicate])

end RvKernel.Log
