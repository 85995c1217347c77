/-
# Formatted output (`printf.c`)

`vsnprintf` is a state machine over the format string.  All its writers store through one pointer
that they advance by one, `*bufp++ = c`, so what a call has stored so far is the list of bytes
`out`, at the indices `0, ..., out.length - 1` of the buffer; `bufp - buf` is its length.  The sizes
are 64-bit words and WRAP: `--size` at 0, and `size - (bufp - buf)` once the writers are past the
end, are both huge.

The lemmas reduce a run to the reading of the format string, `scan`: a list of directives, each with
what it appends (`emit`).  `vsnprintf_eq` is the only place where the states of the machine matter.
-/
import RvKernel.Text.Str

namespace RvKernel.Text

/-! ## 1. The code -/

namespace FMT

def signed : U8 := 1 <<< 0
def zeroPadding : U8 := 1 <<< 1
def uppercase : U8 := 1 <<< 2
def pre : U8 := 1 <<< 3

end FMT

/-- `struct fmt_specifier`. -/
structure FmtSpecifier where
  flags : U8
  base : U8
  width : U8
  length : U8
  deriving DecidableEq

/-- `memset(&spec, 0, sizeof(spec))`. -/
def FmtSpecifier.zero : FmtSpecifier := ⟨0, 0, 0, 0⟩

def FmtSpecifier.has (spec : FmtSpecifier) (flag : U8) : Bool := spec.flags &&& flag != 0

/-- `enum fmt_state`. -/
inductive FmtState where
  | none
  | flag
  | width
  | length
  | specifier
  | char
  | number
  | str
  | ptr
  | invalid
  | done
  deriving DecidableEq

/-- The `va_list`: a word, or a pointer to bytes. -/
inductive Arg where
  | word (v : U64)
  | ptr (s : Ptr)

/-- `digits[d]`, in the table of the given case. -/
def digitChar (upper : Bool) (d : ℕ) : U8 :=
  (ascii (if upper then "0123456789ABCDEF" else "0123456789abcdef")).getD d 0

/-- The loop that fills `tmp`, least significant digit first; `tmp` has 64 bytes. -/
def tmpDigits (upper : Bool) (base : U64) : ℕ → U64 → List U8
  | 0, _ => []
  | room + 1, num =>
    if num > 0 then digitChar upper (num % base).toNat :: tmpDigits upper base room (num / base)
    else []

/-- The loop `while (width-- > 0 && --size > 0)` that pads, with the size it leaves. -/
def padZeros : ℕ → U64 → List U8 × U64
  | 0, size => ([], size)
  | width + 1, size =>
    if size - 1 > 0 then
      let (zeros, size') := padZeros width (size - 1)
      (48 :: zeros, size')
    else ([], size - 1)

/-- The loop `while (i-- > 0 && --size > 0)` that copies the digits out. -/
def copyDigits : List U8 → U64 → List U8
  | [], _ => []
  | d :: ds, size => if size - 1 > 0 then d :: copyDigits ds (size - 1) else []

/-- `number(buf, size, number, spec)`: the bytes it stores.  The width it leaves in `spec` is
cleared before anybody reads it. -/
def number (size num : U64) (spec : FmtSpecifier) : List U8 :=
  let neg := spec.has FMT.signed && decide (num.toInt < 0) && decide (size > 1)
  let num := if neg then -num else num
  let size := if neg then size - 1 else size
  let pre := spec.has FMT.pre && decide (size > 2)
  let size := if pre then size - 2 else size
  (if neg then ascii "-" else []) ++ (if pre then ascii "0x" else []) ++
    if num = 0 then ascii "0"
    else
      let tmp := tmpDigits (spec.has FMT.uppercase) (spec.base.setWidth 64) 64 num
      let pad := spec.has FMT.zeroPadding && decide (spec.width.toNat > tmp.length)
      let (zeros, size) :=
        if pad then padZeros (spec.width.toNat - tmp.length) size else ([], size)
      zeros ++ copyDigits tmp.reverse size

/-- `string(buf, size, str)`: the bytes it stores. -/
def string : U64 → Ptr → TM (List U8)
  | size, [] => if size > 0 then .error .read else .ok []
  | size, c :: str =>
    if size > 0 ∧ c ≠ 0 then do return c :: (← string (size - 1) str) else .ok []

/-- `character(buf, size, c)`: the bytes it stores. -/
def character (size : U64) (c : U8) : List U8 := if size - 1 > 0 then [c] else []

/-- `pointer(buf, size, ptr, spec)`. -/
def pointer (size ptr : U64) (spec : FmtSpecifier) : List U8 := number size ptr spec

/-- `is_digit(c)`. -/
def isDigit (c : U8) : Bool := decide (48 ≤ c) && decide (c ≤ 57)

/-- `number_truncate(number, spec)`; a shift count is taken modulo 64, as RV64 does. -/
def numberTruncate (num : U64) (spec : FmtSpecifier) : U64 :=
  let shift := (64 - 8 * spec.length.setWidth 64 : U64).toNat % 64
  let num := num <<< shift
  if spec.has FMT.signed then num.sshiftRight shift else num >>> shift

/-- `parse_flag(str, spec)`. -/
def parseFlag (str : Ptr) (spec : FmtSpecifier) : TM (Ptr × FmtSpecifier) := do
  let c ← deref str
  if c = 48 then return (str.tail, { spec with flags := spec.flags ||| FMT.zeroPadding })
  else if c = 35 then return (str.tail, { spec with flags := spec.flags ||| FMT.pre })
  else return (str, spec)

/-- The loop of `parse_width`; the width is a `u8` and wraps. -/
def parseWidthLoop : Ptr → U8 → TM (Ptr × U8)
  | [], _ => .error .read
  | c :: str, width =>
    if isDigit c then parseWidthLoop str (width * 10 + (c - 48)) else .ok (c :: str, width)

/-- `parse_width(str, spec)`. -/
def parseWidth (str : Ptr) (spec : FmtSpecifier) : TM (Ptr × FmtSpecifier) := do
  let (str, width) ← parseWidthLoop str 0
  return (str, { spec with width := width })

/-- `parse_length(str, spec)`. -/
def parseLength (str : Ptr) (spec : FmtSpecifier) : TM (Ptr × FmtSpecifier) := do
  if (← strncmp str (literal "ll") 2) = 0 then return (str.drop 2, { spec with length := 8 })
  else if (← strncmp str (literal "hh") 2) = 0 then return (str.drop 2, { spec with length := 1 })
  else if (← strncmp str (literal "l") 1) = 0 then return (str.tail, { spec with length := 8 })
  else if (← strncmp str (literal "h") 1) = 0 then return (str.tail, { spec with length := 2 })
  else return (str, { spec with length := 0 })

/-- The `switch` of `parse_type`: the next state, the flags and the base of a conversion. -/
def conversion (c : U8) : FmtState × U8 × U8 :=
  if c = 99 then (.char, 0, 0)                                  -- c
  else if c = 100 then (.number, FMT.signed, 10)                -- d
  else if c = 117 then (.number, 0, 10)                         -- u
  else if c = 120 then (.number, 0, 16)                         -- x
  else if c = 88 then (.number, FMT.uppercase, 16)              -- X
  else if c = 115 then (.str, 0, 0)                             -- s
  else if c = 112 then (.ptr, FMT.pre, 16)                      -- p
  else (.invalid, 0, 0)

/-- `parse_type(str, fmt, spec)`: the rest of the string, the next state, and the specifier. -/
def parseType (str : Ptr) (spec : FmtSpecifier) : TM (Ptr × FmtState × FmtSpecifier) := do
  let (state, flags, base) := conversion (← deref str)
  let str := if state ≠ .none then str.tail else str
  return (str, state, { spec with flags := spec.flags ||| flags, base := base })

/-- `parse_specifier(fmt, spec)`. -/
def parseSpecifier (str : Ptr) (spec : FmtSpecifier) : TM (Ptr × FmtState × FmtSpecifier) := do
  let (str, spec) ← parseFlag str spec
  let (str, spec) ← parseWidth str spec
  let (str, spec) ← parseLength str spec
  parseType str spec

/-- The locals of `vsnprintf`. -/
structure Vs where
  str : Ptr
  state : FmtState
  spec : FmtSpecifier
  percent : Ptr
  size : U64
  out : List U8
  args : List Arg

/-- `va_arg(args, u64)`. -/
def vaArgWord : List Arg → TM (U64 × List Arg)
  | .word v :: args => .ok (v, args)
  | _ => .error .vaArg

/-- `va_arg(args, char *)`. -/
def vaArgPtr : List Arg → TM (Ptr × List Arg)
  | .ptr s :: args => .ok (s, args)
  | _ => .error .vaArg

/-- One turn of the loop of `vsnprintf`. -/
def Vs.step (v : Vs) : TM Vs := do
  let remaining := v.size - BitVec.ofNat 64 v.out.length
  match v.state with
  | .none =>
    let c ← deref v.str
    if c = 0 then return { v with state := .done }
    else if c = 37 then
      return { v with spec := .zero, percent := v.str, str := v.str.tail, state := .specifier }
    else return { v with out := v.out ++ [c], str := v.str.tail }
  | .specifier =>
    let (str, state, spec) ← parseSpecifier v.str v.spec
    return { v with str := str, state := state, spec := spec }
  | .number =>
    let (num, args) ← vaArgWord v.args
    let num := numberTruncate num v.spec
    return { v with out := v.out ++ number remaining num v.spec, args := args, state := .none }
  | .str =>
    let (s, args) ← vaArgPtr v.args
    return { v with out := v.out ++ (← string remaining s), args := args, state := .none }
  | .char =>
    let (num, args) ← vaArgWord v.args
    return { v with
      out := v.out ++ character v.size (num.setWidth 8), args := args, state := .none }
  | .ptr =>
    let (num, args) ← vaArgWord v.args
    return { v with out := v.out ++ pointer v.size num v.spec, args := args, state := .none }
  | .invalid =>
    let size := v.size - 1
    return { v with
      size := size
      out := if size > 0 then v.out ++ ascii "%" else v.out
      str := v.percent.tail
      state := .none }
  | _ => return { v with state := .none }

def vsLoop : ℕ → Vs → TM Vs
  | 0, _ => .error .fuel
  | fuel + 1, v =>
    if v.state ≠ .done ∧ v.size > 1 then do vsLoop fuel (← v.step) else .ok v

/-- `vsnprintf(buf, size, fmt_str, args)`: the bytes stored at `buf[0]`, `buf[1]`, ..., the NUL
last.  `snprintf` is the same function. -/
def vsnprintf (fuel : ℕ) (size : U64) (fmtStr : Ptr) (args : List Arg) : TM (List U8) := do
  let v ← vsLoop fuel ⟨fmtStr, .none, .zero, [], size, [], args⟩
  return v.out ++ [0]

/-! ## 2. Reading the format string -/

/-- What the format string asks for, piece by piece. -/
inductive Directive where
  | lit (c : U8)
  /-- a valid conversion, in the state that handles it -/
  | conv (state : FmtState) (spec : FmtSpecifier)
  /-- a `%` that starts no valid conversion -/
  | invalid

/-- The states that `parse_type` sets for the valid conversions. -/
def IsConv (state : FmtState) : Prop :=
  state = .number ∨ state = .str ∨ state = .char ∨ state = .ptr

/-- **The reading of a format string** (given without its NUL) as directives.  After an invalid one
the reading goes on just behind its `%`. -/
inductive Scan : List U8 → List Directive → Prop
  | nil : Scan [] []
  | lit {c : U8} {s : List U8} {ds : List Directive} : c ≠ 0 → c ≠ 37 → Scan s ds →
      Scan (c :: s) (.lit c :: ds)
  | conv {s s' : List U8} {ds : List Directive} {state : FmtState} {spec : FmtSpecifier} :
      parseSpecifier (s ++ [0]) .zero = .ok (s' ++ [0], state, spec) → IsConv state →
      s'.length < s.length → Scan s' ds → Scan (37 :: s) (.conv state spec :: ds)
  | invalid {s : List U8} {ds : List Directive} {p : Ptr} {spec : FmtSpecifier} :
      parseSpecifier (s ++ [0]) .zero = .ok (p, .invalid, spec) → Scan s ds →
      Scan (37 :: s) (.invalid :: ds)

/-- What the directives read and write: the size, the bytes stored, the arguments left. -/
structure Sink where
  size : U64
  out : List U8
  args : List Arg

def Sink.remaining (k : Sink) : U64 := k.size - BitVec.ofNat 64 k.out.length

/-- The effect of one directive. -/
def Directive.emit (k : Sink) : Directive → TM Sink
  | .lit c => return { k with out := k.out ++ [c] }
  | .conv .number spec => do
    let (num, args) ← vaArgWord k.args
    return ⟨k.size, k.out ++ number k.remaining (numberTruncate num spec) spec, args⟩
  | .conv .str _ => do
    let (s, args) ← vaArgPtr k.args
    return ⟨k.size, k.out ++ (← string k.remaining s), args⟩
  | .conv .char _ => do
    let (num, args) ← vaArgWord k.args
    return ⟨k.size, k.out ++ character k.size (num.setWidth 8), args⟩
  | .conv .ptr spec => do
    let (num, args) ← vaArgWord k.args
    return ⟨k.size, k.out ++ pointer k.size num spec, args⟩
  | .conv _ _ => return k
  | .invalid => return ⟨k.size - 1, if k.size - 1 > 0 then k.out ++ ascii "%" else k.out, k.args⟩

/-- The effect of all of them, while the size is above one. -/
def emitAll : List Directive → Sink → TM Sink
  | [], k => return k
  | d :: ds, k => if k.size > 1 then do emitAll ds (← d.emit k) else return k

section Parse

variable {s : List U8} (hs : ∀ c ∈ s, c ≠ 0)

/-- Where a parser leaves the string: in the middle of what it was given. -/
def Leaves {α : Type} (s : List U8) (x : TM (Ptr × α)) : Prop :=
  ∃ s' a, x = .ok (s' ++ [0], a) ∧ s' <:+ s

theorem parseFlag_leaves (spec : FmtSpecifier) : Leaves s (parseFlag (s ++ [0]) spec) := by
  cases s with
  | nil => exact ⟨[], spec, rfl, List.suffix_rfl⟩
  | cons c t =>
    simp only [parseFlag, List.cons_append, deref, ok_bind, List.tail_cons, pure_eq]
    split
    · exact ⟨t, _, rfl, List.suffix_cons c t⟩
    · split
      · exact ⟨t, _, rfl, List.suffix_cons c t⟩
      · exact ⟨c :: t, _, rfl, List.suffix_rfl⟩

theorem parseWidthLoop_leaves (width : U8) : Leaves s (parseWidthLoop (s ++ [0]) width) := by
  induction s generalizing width with
  | nil => exact ⟨[], width, rfl, List.suffix_rfl⟩
  | cons c t ih =>
    rw [List.cons_append, parseWidthLoop]
    split
    · obtain ⟨s', w, hrun, hsuf⟩ := ih (width * 10 + (c - 48))
      exact ⟨s', w, hrun, hsuf.trans (List.suffix_cons c t)⟩
    · exact ⟨c :: t, width, rfl, List.suffix_rfl⟩

theorem parseWidth_leaves (spec : FmtSpecifier) : Leaves s (parseWidth (s ++ [0]) spec) := by
  obtain ⟨s', w, hrun, hsuf⟩ := parseWidthLoop_leaves (s := s) 0
  exact ⟨s', { spec with width := w }, by simp only [parseWidth, hrun, ok_bind, pure_eq], hsuf⟩

include hs in
/-- The length that is read, and where it ends. -/
theorem parseLength_branches (spec : FmtSpecifier) : parseLength (s ++ [0]) spec =
    if ascii "ll" <+: s then .ok ((s ++ [0]).drop 2, { spec with length := 8 })
    else if ascii "hh" <+: s then .ok ((s ++ [0]).drop 2, { spec with length := 1 })
    else if ascii "l" <+: s then .ok ((s ++ [0]).drop 1, { spec with length := 8 })
    else if ascii "h" <+: s then .ok ((s ++ [0]).drop 1, { spec with length := 2 })
    else .ok (s ++ [0], { spec with length := 0 }) := by
  have hp : PointsTo (s ++ [0]) s := pointsTo_append_nul hs []
  obtain ⟨d₁, h₁, i₁⟩ := strncmp_literal (w := "ll") (n := 1) hp rfl rfl
  obtain ⟨d₂, h₂, i₂⟩ := strncmp_literal (w := "hh") (n := 1) hp rfl rfl
  obtain ⟨d₃, h₃, i₃⟩ := strncmp_literal (w := "l") (n := 0) hp rfl rfl
  obtain ⟨d₄, h₄, i₄⟩ := strncmp_literal (w := "h") (n := 0) hp rfl rfl
  simp only [parseLength, h₁, h₂, h₃, h₄, ok_bind, pure_eq, ← List.drop_one, i₁, i₂, i₃, i₄]

include hs in
theorem parseLength_leaves (spec : FmtSpecifier) : Leaves s (parseLength (s ++ [0]) spec) := by
  have hskip : ∀ {w : String} {n : ℕ} (spec' : FmtSpecifier), (ascii w).length = n →
      ascii w <+: s → Leaves s (.ok ((s ++ [0]).drop n, spec')) := by
    intro w n spec' hn hpre
    rw [List.drop_append_of_le_length (hn ▸ hpre.length_le)]
    exact ⟨s.drop n, spec', rfl, List.drop_suffix n s⟩
  rw [parseLength_branches hs]
  split
  · exact hskip _ rfl ‹_›
  split
  · exact hskip _ rfl ‹_›
  split
  · exact hskip _ rfl ‹_›
  split
  · exact hskip _ rfl ‹_›
  exact ⟨s, _, rfl, List.suffix_rfl⟩

theorem conversion_cases (c : U8) : (conversion c).1 = .invalid ∨ IsConv (conversion c).1 := by
  unfold conversion IsConv
  repeat' split
  all_goals simp

/-- The specifier once the conversion character is read. -/
def FmtSpecifier.typed (spec : FmtSpecifier) (c : U8) : FmtSpecifier :=
  { spec with flags := spec.flags ||| (conversion c).2.1, base := (conversion c).2.2 }

theorem parseType_cons (c : U8) (str : Ptr) (spec : FmtSpecifier) :
    parseType (c :: str) spec = .ok (str, (conversion c).1, spec.typed c) := by
  have hne : (conversion c).1 ≠ .none := by
    rcases conversion_cases c with h | h | h | h | h <;> rw [h] <;> simp
  simp only [parseType, deref, ok_bind, List.tail_cons, if_pos hne, pure_eq]
  rfl

include hs in
/-- **A specifier is read without touching the byte after the NUL.**  A valid one leaves a strictly
shorter string. -/
theorem parseSpecifier_cases :
    (∃ p spec, parseSpecifier (s ++ [0]) .zero = .ok (p, .invalid, spec)) ∨
      ∃ s' state spec, parseSpecifier (s ++ [0]) .zero = .ok (s' ++ [0], state, spec) ∧
        IsConv state ∧ s'.length < s.length ∧ ∀ c ∈ s', c ≠ 0 := by
  obtain ⟨s₁, spec₁, h₁, hs₁⟩ := parseFlag_leaves (s := s) .zero
  obtain ⟨s₂, spec₂, h₂, hs₂⟩ := parseWidth_leaves (s := s₁) spec₁
  have hsuf₂ := hs₂.trans hs₁
  obtain ⟨s₃, spec₃, h₃, hs₃⟩ :=
    parseLength_leaves (s := s₂) (fun c hc => hs c (hsuf₂.mem hc)) spec₂
  have hsuf₃ := hs₃.trans hsuf₂
  simp only [parseSpecifier, h₁, h₂, h₃, ok_bind]
  cases s₃ with
  | nil => exact Or.inl ⟨_, _, rfl⟩
  | cons c t =>
    rw [List.cons_append, parseType_cons]
    rcases conversion_cases c with hinv | hconv
    · exact Or.inl ⟨_, _, by rw [hinv]⟩
    · refine Or.inr ⟨t, _, _, rfl, hconv, ?_, ?_⟩
      · have hlen := hsuf₃.length_le
        simp only [List.length_cons] at hlen
        omega
      · exact fun d hd => hs d (hsuf₃.mem (List.mem_cons_of_mem c hd))

end Parse

/-- **Every format string has a reading.** -/
theorem exists_scan : ∀ (n : ℕ) (s : List U8), s.length ≤ n → (∀ c ∈ s, c ≠ 0) → ∃ ds, Scan s ds
  | _, [], _, _ => ⟨[], .nil⟩
  | 0, _ :: _, hn, _ => absurd hn (by simp)
  | n + 1, c :: s, hn, hs => by
    have hlen : s.length ≤ n := by simpa using hn
    have hs' : ∀ d ∈ s, d ≠ 0 := fun d hd => hs d (List.mem_cons_of_mem c hd)
    by_cases hc : c = 37
    · subst hc
      rcases parseSpecifier_cases hs' with ⟨p, spec, hp⟩ | ⟨s', state, spec, hp, hconv, hlt, hnul⟩
      · obtain ⟨ds, hds⟩ := exists_scan n s hlen hs'
        exact ⟨_, .invalid hp hds⟩
      · obtain ⟨ds, hds⟩ := exists_scan n s' (by omega) hnul
        exact ⟨_, .conv hp hconv hlt hds⟩
    · obtain ⟨ds, hds⟩ := exists_scan n s hlen hs'
      exact ⟨_, .lit (hs c List.mem_cons_self) hc hds⟩

/-- The literal bytes at the front of a format. -/
theorem scan_lits {l s : List U8} {ds : List Directive} (hl : ∀ c ∈ l, c ≠ 0 ∧ c ≠ 37)
    (h : Scan s ds) : Scan (l ++ s) (l.map .lit ++ ds) := by
  induction l with
  | nil => exact h
  | cons c l ih =>
    obtain ⟨h0, h37⟩ := hl c List.mem_cons_self
    exact .lit h0 h37 (ih fun d hd => hl d (List.mem_cons_of_mem c hd))

/-! ## 3. The loop follows the reading -/

/-- The loop at the start of a directive. -/
def Sink.at (k : Sink) (str : Ptr) (spec : FmtSpecifier) (percent : Ptr) : Vs :=
  ⟨str, .none, spec, percent, k.size, k.out, k.args⟩

/-- The bytes a loop has stored when it ends, and the arguments it has left. -/
def written (x : TM Vs) : TM (List U8 × List Arg) := do
  let v ← x
  return (v.out, v.args)

theorem vsLoop_step {fuel : ℕ} {v : Vs} (hst : v.state ≠ .done) (hsz : v.size > 1) :
    vsLoop (fuel + 1) v = v.step >>= vsLoop fuel := by
  rw [vsLoop, if_pos ⟨hst, hsz⟩]

theorem vsLoop_stop {fuel : ℕ} {v : Vs} (h : ¬ (v.state ≠ .done ∧ v.size > 1)) :
    vsLoop (fuel + 1) v = .ok v := by
  rw [vsLoop, if_neg h]

/-- A handler leaves the string alone and comes back to the start. -/
theorem step_conv {state : FmtState} (hconv : IsConv state) (k : Sink) (str : Ptr)
    (spec : FmtSpecifier) (percent : Ptr) :
    Vs.step ⟨str, state, spec, percent, k.size, k.out, k.args⟩ =
      (Directive.conv state spec).emit k >>= fun k' => .ok (k'.at str spec percent) := by
  rcases hconv with rfl | rfl | rfl | rfl <;> rw [Vs.step, Directive.emit]
  · cases vaArgWord k.args <;> rfl
  · cases vaArgPtr k.args with
    | error e => rfl
    | ok r =>
      simp only [ok_bind, Sink.remaining]
      cases string (k.size - BitVec.ofNat 64 k.out.length) r.1 <;> rfl
  · cases vaArgWord k.args <;> rfl
  · cases vaArgWord k.args <;> rfl

/-- A `%` takes two turns, up to the handler of what follows it. -/
theorem vsLoop_percent {s : List U8} {p : Ptr} {state : FmtState} {cspec : FmtSpecifier}
    (hparse : parseSpecifier (s ++ [0]) .zero = .ok (p, state, cspec)) {k : Sink} (hsz : k.size > 1)
    (spec : FmtSpecifier) (percent : Ptr) (fuel : ℕ) :
    vsLoop (fuel + 2) (k.at (37 :: s ++ [0]) spec percent)
      = vsLoop fuel ⟨p, state, cspec, 37 :: s ++ [0], k.size, k.out, k.args⟩ := by
  have h1 : (k.at (37 :: s ++ [0]) spec percent).step
      = .ok ⟨s ++ [0], .specifier, .zero, 37 :: s ++ [0], k.size, k.out, k.args⟩ := rfl
  have h2 : Vs.step ⟨s ++ [0], .specifier, .zero, 37 :: s ++ [0], k.size, k.out, k.args⟩
      = .ok ⟨p, state, cspec, 37 :: s ++ [0], k.size, k.out, k.args⟩ := by
    simp only [Vs.step, hparse, ok_bind, pure_eq]
  rw [vsLoop_step (by simp [Sink.at]) hsz, h1, ok_bind, vsLoop_step (by simp) hsz, h2, ok_bind]

/-- **The loop carries out the reading of the string**, given three turns a byte. -/
theorem vsLoop_scan {s : List U8} {ds : List Directive} (h : Scan s ds) : ∀ (k : Sink)
    (spec : FmtSpecifier) (percent : Ptr) (fuel : ℕ), 3 * s.length + 2 ≤ fuel →
      written (vsLoop fuel (k.at (s ++ [0]) spec percent))
        = do let k' ← emitAll ds k; return (k'.out, k'.args) := by
  induction h with
  | nil =>
    intro k spec percent fuel hf
    obtain ⟨n, rfl⟩ : ∃ n, fuel = n + 2 := ⟨fuel - 2, by omega⟩
    by_cases hsz : k.size > 1
    · rw [vsLoop_step (by simp [Sink.at]) hsz]
      rfl
    · rw [vsLoop_stop (fun hc => hsz hc.2)]
      rfl
  | @lit c s ds h0 h37 _ ih =>
    intro k spec percent fuel hf
    rw [List.length_cons] at hf
    obtain ⟨n, rfl⟩ : ∃ n, fuel = n + 1 := ⟨fuel - 1, by omega⟩
    by_cases hsz : k.size > 1
    · have hstep : (k.at (c :: s ++ [0]) spec percent).step
          = .ok (Sink.at { k with out := k.out ++ [c] } (s ++ [0]) spec percent) := by
        simp only [Sink.at, Vs.step, List.cons_append, deref, ok_bind, if_neg h0, if_neg h37,
          pure_eq, List.tail_cons]
      rw [vsLoop_step (by simp [Sink.at]) hsz, hstep, ok_bind, ih _ _ _ _ (by omega), emitAll,
        if_pos hsz]
      rfl
    · rw [vsLoop_stop (fun hc => hsz hc.2), emitAll, if_neg hsz]
      rfl
  | @conv s s' ds state cspec hparse hconv hlt _ ih =>
    intro k spec percent fuel hf
    rw [List.length_cons] at hf
    obtain ⟨n, rfl⟩ : ∃ n, fuel = n + 3 := ⟨fuel - 3, by omega⟩
    by_cases hsz : k.size > 1
    · have hdone : state ≠ .done := by rcases hconv with rfl | rfl | rfl | rfl <;> simp
      rw [vsLoop_percent hparse hsz, vsLoop_step hdone hsz, step_conv hconv, emitAll, if_pos hsz]
      cases hd : (Directive.conv state cspec).emit k with
      | error e => rfl
      | ok k' =>
        simp only [ok_bind]
        exact ih k' _ _ _ (by omega)
    · rw [vsLoop_stop (fun hc => hsz hc.2), emitAll, if_neg hsz]
      rfl
  | @invalid s ds p cspec hparse _ ih =>
    intro k spec percent fuel hf
    rw [List.length_cons] at hf
    obtain ⟨n, rfl⟩ : ∃ n, fuel = n + 3 := ⟨fuel - 3, by omega⟩
    by_cases hsz : k.size > 1
    · rw [vsLoop_percent hparse hsz, vsLoop_step (by simp) hsz, emitAll, if_pos hsz]
      exact ih ⟨k.size - 1, if k.size - 1 > 0 then k.out ++ ascii "%" else k.out, k.args⟩ cspec _ n
        (by omega)
    · rw [vsLoop_stop (fun hc => hsz hc.2), emitAll, if_neg hsz]
      rfl

/-- **`vsnprintf` carries out the reading of its format string.** -/
theorem vsnprintf_eq {s : List U8} {ds : List Directive} (h : Scan s ds) {fuel : ℕ}
    (hf : 3 * s.length + 2 ≤ fuel) (size : U64) (args : List Arg) :
    vsnprintf fuel size (s ++ [0]) args
      = do let k ← emitAll ds ⟨size, [], args⟩; return k.out ++ [0] := by
  have hw := vsLoop_scan h ⟨size, [], args⟩ .zero [] fuel hf
  have hv : vsnprintf fuel size (s ++ [0]) args = do
      let r ← written (vsLoop fuel (Sink.at ⟨size, [], args⟩ (s ++ [0]) .zero []))
      return r.1 ++ [0] := by
    rw [vsnprintf, written, Sink.at]
    cases vsLoop fuel ⟨s ++ [0], .none, .zero, [], size, [], args⟩ <;> rfl
  rw [hv, hw]
  cases emitAll ds ⟨size, [], args⟩ <;> rfl

end RvKernel.Text
