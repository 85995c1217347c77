/-
# The shell (`kmain.c`)

The loop of `kmain` reads chunks of bytes with `serial_read`, collects them in `command_buf` and
runs the line when a CR or LF comes in.  What it does is recorded as a list of events: the array
elements it stores to, the bytes it sends, the calls of the timer, and the command line at each
dispatch.

`snprintf` stores past the end of `output` when it is asked to print too much.  The model records
the indices it stores to, and leaves the other variables alone; that the stores are within bounds
is a property of its own.

The `if` chain is split into the choice of a branch (`command`) and the branches (`runCommand`).
-/
import RvKernel.Text.Render
import RvKernel.Timer.Timer

namespace RvKernel.Shell

open Text Timer

/-! ## 1. The code -/

/-- The arrays of `kmain`. -/
inductive Buf where
  | input
  | command
  | output
  deriving DecidableEq

/-- `sizeof` of the array. -/
def Buf.size : Buf → ℕ
  | .input => 256
  | .command => 256
  | .output => 64

inductive Event where
  /-- a store to an element of an array -/
  | write (b : Buf) (i : ℕ)
  /-- `serial_putc(c)` -/
  | putc (c : U8)
  /-- the shell has a line to run: the bytes of `command_buf` up to the NUL it has just stored -/
  | dispatch (line : List U8)
  /-- `timer_read()` -/
  | timerRead
  /-- `timer_set_alarm(secs)`, which writes `v` to `stimecmp` -/
  | timerSetAlarm (secs v : U64)
  /-- `timer_irq_enable()` -/
  | timerIrqEnable
  deriving DecidableEq

/-- The stores of `n` bytes from the start of an array. -/
def stores (b : Buf) (n : ℕ) : List Event := (List.range n).map (.write b)

/-- `serial_puts(str)`. -/
def puts : Ptr → TM (List Event)
  | [] => .error .read
  | c :: str => if c = 0 then .ok [] else do return .putc c :: (← puts str)

/-- `snprintf(output, sizeof(output), fmt, args)` and `serial_puts(output)`. -/
def answer (fmt : Ptr) (args : List Arg) : TM (List Event) := do
  let bytes ← vsnprintf (3 * fmt.length + 2) 64 fmt args
  return stores .output bytes.length ++ (← puts bytes)

/-- The branches of the `if` chain. -/
inductive Command where
  | uptime
  | echo
  | alarm
  | unknown
  deriving DecidableEq

/-- The conditions of the `if` chain. -/
def command (commandBuf : Ptr) : TM Command := do
  if (← strncmp (literal "uptime") commandBuf 6) = 0 then return .uptime
  else if (← strncmp (literal "echo ") commandBuf 5) = 0 then return .echo
  else if (← strncmp (literal "alarm ") commandBuf 6) = 0 then return .alarm
  else return .unknown

/-- The bodies of the `if` chain, where the `time` CSR reads `time`. -/
def runCommand (time : U64) (commandBuf : Ptr) : Command → TM (List Event)
  | .uptime => do
    return .timerRead :: (← answer (literal "%ds\r\n") [.word (timerRead time)])
  | .echo => do
    return (← puts (commandBuf.drop 5)) ++ (← puts (literal "\r\n"))
  | .alarm => do
    let seconds ← strtou64 (commandBuf.drop 6) 10
    return [.timerSetAlarm seconds (timerSetAlarm time seconds), .timerIrqEnable]
  | .unknown => answer (literal "Unknown Command: %s\r\n") [.ptr commandBuf]

/-- `if (command_index > 0) { ... }`. -/
def dispatch (time : U64) (commandBuf : Vector U8 256) (commandIndex : ℕ) : TM (List Event) := do
  if commandIndex > 0 then
    let cmd ← command commandBuf.toList
    return .dispatch (commandBuf.toList.take (commandIndex + 1)) ::
      (← runCommand time commandBuf.toList cmd)
  else return []

/-- The variables of the loop, with the events so far.  `clock` is counted by `lines`. -/
structure State where
  commandBuf : Vector U8 256
  commandIndex : ℕ
  /-- the line ends seen so far -/
  lines : ℕ
  events : List Event

section Loop

/- What the `time` CSR reads, line by line. -/
variable (clock : ℕ → U64)

/-- The body of the loop over the characters of a chunk. -/
def step (s : State) (currentChar : U8) : TM State := do
  if currentChar = 13 ∨ currentChar = 10 then
    let commandBuf := s.commandBuf.setIfInBounds s.commandIndex 0
    let ran ← dispatch (clock s.lines) commandBuf s.commandIndex
    return {
      commandBuf := commandBuf
      commandIndex := 0
      lines := s.lines + 1
      events := s.events ++ [.putc currentChar, .putc 10, .write .command s.commandIndex] ++ ran ++
        (← puts (literal "> ")) }
  else if s.commandIndex < 256 - 1 then
    return { s with
      commandBuf := s.commandBuf.setIfInBounds s.commandIndex currentChar
      commandIndex := s.commandIndex + 1
      events := s.events ++ [.putc currentChar, .write .command s.commandIndex] }
  else
    return { s with events := s.events ++ [.putc currentChar] }

/-- The loop over the characters of a chunk. -/
def chars : State → List U8 → TM State
  | s, [] => .ok s
  | s, c :: cs => do chars (← step clock s c) cs

/-- One turn of the endless loop: `serial_read` stores a chunk in `input_buf`. -/
def turn (s : State) (chunk : List U8) : TM State :=
  chars clock { s with events := s.events ++ stores .input chunk.length } chunk

def turns : State → List (List U8) → TM State
  | s, [] => .ok s
  | s, chunk :: chunks => do turns (← turn clock s chunk) chunks

/-- `kmain` from the first prompt on, over the chunks that `serial_read` returns.  `command_buf` is
not initialised. -/
def kmain (commandBuf : Vector U8 256) (chunks : List (List U8)) : TM State := do
  let banner ← puts (literal "Shell initialized!\r\n")
  let prompt ← puts (literal "> ")
  turns clock ⟨commandBuf, 0, 0, banner ++ prompt⟩ chunks

end Loop

end RvKernel.Shell
