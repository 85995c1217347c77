/-
# What `vsnprintf` prints

A directive with the argument it takes is an `Item`; its text is known without the size
(`Item.text`), and `emit_bytes` says what the code stores for it instead.  Where all the texts fit,
NUL included, that is the same (`emitAll_fits`).

The formats that the kernel's own messages use are made of literals and of the conversions
`%[#][hh|h|l|ll](d|u|x|X)`, `%c`, `%s` and `%p` (`Piece`).  For these `Renders` says what should be
printed, conversion by conversion, and `vsnprintf_renders` that it is, whenever the buffer is large
enough to hold it.
-/
import RvKernel.Text.Number

namespace RvKernel.Text

/-! ## 1. Directives and their arguments -/

/-- A directive with the argument it takes. -/
inductive Item where
  | lit (c : U8)
  | num (v : U64) (spec : FmtSpecifier)
  | str (s : List U8)
  | chr (c : U8)
  | ptr (v : U64) (spec : FmtSpecifier)
  | invalid

/-- `Takes d args i rest`: the directive takes its argument from the list, and has the right type
for it. -/
inductive Takes : Directive → List Arg → Item → List Arg → Prop
  | lit {c : U8} {args : List Arg} : Takes (.lit c) args (.lit c) args
  | num {spec : FmtSpecifier} {v : U64} {args : List Arg} :
      Takes (.conv .number spec) (.word v :: args) (.num (numberTruncate v spec) spec) args
  | str {spec : FmtSpecifier} {p : Ptr} {s : List U8} {args : List Arg} : PointsTo p s →
      Takes (.conv .str spec) (.ptr p :: args) (.str s) args
  | chr {spec : FmtSpecifier} {v : U64} {args : List Arg} :
      Takes (.conv .char spec) (.word v :: args) (.chr (v.setWidth 8)) args
  | ptr {spec : FmtSpecifier} {v : U64} {args : List Arg} :
      Takes (.conv .ptr spec) (.word v :: args) (.ptr v spec) args
  | invalid {args : List Arg} : Takes .invalid args .invalid args

/-- **The argument list matches the directives**, and `rest` is left over. -/
inductive Matches : List Directive → List Arg → List Item → List Arg → Prop
  | nil {args : List Arg} : Matches [] args [] args
  | cons {d : Directive} {ds : List Directive} {i : Item} {is : List Item}
      {args args' rest : List Arg} : Takes d args i args' → Matches ds args' is rest →
      Matches (d :: ds) args (i :: is) rest

/-- The text of an item, whatever the size. -/
def Item.text : Item → List U8
  | .lit c => [c]
  | .num v spec => numberText v spec
  | .str s => s
  | .chr c => [c]
  | .ptr v spec => numberText v spec
  | .invalid => ascii "%"

/-- **The output of a format**, whatever the size. -/
def textAll (is : List Item) : List U8 := is.flatMap Item.text

/-- The base of a number is one of those that `parse_type` knows. -/
def Item.Wf : Item → Prop
  | .num _ spec => spec.base = 10 ∨ spec.base = 16
  | .ptr _ spec => spec.base = 10 ∨ spec.base = 16
  | _ => True

def Directive.Wf : Directive → Prop
  | .conv .number spec => spec.base = 10 ∨ spec.base = 16
  | .conv .ptr spec => spec.base = 10 ∨ spec.base = 16
  | _ => True

theorem Takes.wf {d : Directive} {i : Item} {args rest : List Arg} (h : Takes d args i rest)
    (hd : d.Wf) : i.Wf := by
  cases h with
  | num => exact hd
  | ptr => exact hd
  | _ => trivial

theorem two_le_base {spec : FmtSpecifier} (h : spec.base = 10 ∨ spec.base = 16) :
    2 ≤ spec.base.toNat := by
  rcases h with h | h <;> rw [h] <;> decide

theorem conversion_base (c : U8) :
    (conversion c).1 = .number ∨ (conversion c).1 = .ptr →
      (conversion c).2.2 = 10 ∨ (conversion c).2.2 = 16 := by
  unfold conversion
  repeat' split
  all_goals simp

theorem parseSpecifier_base {p p' : Ptr} {spec spec' : FmtSpecifier} {state : FmtState}
    (h : parseSpecifier p spec = .ok (p', state, spec')) (hs : state = .number ∨ state = .ptr) :
    spec'.base = 10 ∨ spec'.base = 16 := by
  obtain ⟨⟨p₁, spec₁⟩, -, h⟩ := bind_ok h
  obtain ⟨⟨p₂, spec₂⟩, -, h⟩ := bind_ok h
  obtain ⟨⟨p₃, spec₃⟩, -, h⟩ := bind_ok h
  simp only at h
  cases p₃ with
  | nil => cases h
  | cons c q =>
    rw [parseType_cons] at h
    injection h with h
    injection h with _ h
    injection h with hst hspec
    subst hst hspec
    exact conversion_base c hs

/-- **What a format string asks for is well-formed.** -/
theorem Scan.wf {s : List U8} {ds : List Directive} (h : Scan s ds) : ∀ d ∈ ds, d.Wf := by
  induction h with
  | nil => simp
  | lit _ _ _ ih =>
    intro d hd
    rcases List.mem_cons.mp hd with rfl | hd
    · trivial
    · exact ih d hd
  | @conv s s' ds state spec hparse hconv _ _ ih =>
    intro d hd
    rcases List.mem_cons.mp hd with rfl | hd
    · rcases hconv with rfl | rfl | rfl | rfl
      · exact parseSpecifier_base hparse (Or.inl rfl)
      · trivial
      · trivial
      · exact parseSpecifier_base hparse (Or.inr rfl)
    · exact ih d hd
  | invalid _ _ ih =>
    intro d hd
    rcases List.mem_cons.mp hd with rfl | hd
    · trivial
    · exact ih d hd

/-- What the code stores for an item, with the size `n` and `w` bytes already stored, fewer than
`n`. -/
def Item.store (n w : ℕ) : Item → List U8
  | .lit c => [c]
  | .num v spec => numberIn (n - w) v spec
  | .str s => s.take (n - w)
  | .chr c => [c]
  | .ptr v spec => numberIn n v spec
  | .invalid => ascii "%"

/-- The size that the code goes on with. -/
def Item.sizeAfter (size : U64) : Item → U64
  | .invalid => size - 1
  | _ => size

/-- The bytes that the code takes to be left behind `w`, in a buffer of `n`.  The difference wraps
where more are stored. -/
def room (n w : ℕ) : ℕ := if w ≤ n then n - w else 2 ^ 64 - (w - n)

/-- What the code stores for an item, whatever the size and the bytes already stored. -/
def Item.bytes (n w : ℕ) : Item → List U8
  | .lit c => [c]
  | .num v spec => if room n w = 0 then tailText v spec else numberIn (room n w) v spec
  | .str s => s.take (room n w)
  | .chr c => [c]
  | .ptr v spec => numberIn n v spec
  | .invalid => ascii "%"

theorem Item.bytes_eq_store (i : Item) {n w : ℕ} (h : w < n) : i.bytes n w = i.store n w := by
  have hroom : room n w = n - w := if_pos h.le
  cases i with
  | num v spec => rw [Item.bytes, Item.store, hroom, if_neg (by omega)]
  | str s => rw [Item.bytes, Item.store, hroom]
  | _ => rfl

theorem toNat_remaining {k : Sink} (h : k.out.length < 2 ^ 64) :
    k.remaining.toNat = room k.size.toNat k.out.length := by
  have hk := k.size.isLt
  rw [Sink.remaining, BitVec.toNat_sub, BitVec.toNat_ofNat, room]
  split <;> omega

/-- **The effect of one directive**, while the loop runs. -/
theorem emit_bytes {d : Directive} {i : Item} {args rest : List Arg} (h : Takes d args i rest)
    (hwf : i.Wf) {size : U64} {out : List U8} (h2 : 2 ≤ size.toNat)
    (hlen : out.length < 2 ^ 64) :
    d.emit ⟨size, out, args⟩
      = .ok ⟨i.sizeAfter size, out ++ i.bytes size.toNat out.length, rest⟩ := by
  have hrem : ∀ args, (Sink.remaining ⟨size, out, args⟩).toNat = room size.toNat out.length :=
    fun _ => toNat_remaining hlen
  have hpos : size - 1 > 0 := (sub_one_pos (by omega)).2.mpr h2
  cases h with
  | lit => rfl
  | num =>
    simp only [Directive.emit, vaArgWord, ok_bind, pure_eq, Item.sizeAfter, Item.bytes]
    by_cases h0 : room size.toNat out.length = 0
    · have hnone : ∀ args, Sink.remaining ⟨size, out, args⟩ = 0 := fun args =>
        BitVec.eq_of_toNat_eq ((hrem args).trans h0)
      rw [if_pos h0, hnone, number_zero (two_le_base hwf)]
    · rw [if_neg h0, number_eq (two_le_base hwf) (by rw [hrem]; omega), hrem]
  | str hp =>
    simp only [Directive.emit, vaArgPtr, ok_bind, pure_eq, Item.sizeAfter, Item.bytes]
    rw [string_eq hp, hrem]
    rfl
  | chr =>
    simp only [Directive.emit, vaArgWord, ok_bind, pure_eq, Item.sizeAfter, Item.bytes, character,
      if_pos hpos]
  | ptr =>
    simp only [Directive.emit, vaArgWord, ok_bind, pure_eq, Item.sizeAfter, Item.bytes, pointer]
    rw [number_eq (two_le_base hwf) (by omega)]
  | invalid =>
    simp only [Directive.emit, pure_eq, Item.sizeAfter, Item.bytes, if_pos hpos]

/-- The first directive of several... -/
theorem emitAll_cons {d : Directive} {i : Item} {args rest : List Arg} (h : Takes d args i rest)
    (hwf : i.Wf) {size : U64} {out : List U8} (h2 : 2 ≤ size.toNat)
    (hlen : out.length < 2 ^ 64) (ds : List Directive) :
    emitAll (d :: ds) ⟨size, out, args⟩
      = emitAll ds ⟨i.sizeAfter size, out ++ i.bytes size.toNat out.length, rest⟩ := by
  rw [emitAll, if_pos (one_lt_size h2), emit_bytes h hwf h2 hlen, ok_bind]

/-- ...and none of them where there is no size left. -/
theorem emitAll_stop (ds : List Directive) {size : U64} (h1 : size.toNat ≤ 1) (out : List U8)
    (args : List Arg) : emitAll ds ⟨size, out, args⟩ = .ok ⟨size, out, args⟩ := by
  have hsize : ¬ size > 1 := by
    rw [gt_iff_lt, BitVec.lt_def]
    exact Nat.not_lt.mpr h1
  cases ds with
  | nil => rfl
  | cons d ds => exact if_neg hsize

/-- An item that fits behind what is stored, NUL included, is stored whole. -/
theorem Item.store_fits {i : Item} {n w : ℕ} (h : w + i.text.length < n) :
    i.store n w = i.text := by
  cases i with
  | lit c => rfl
  | num v spec => exact numberIn_fits (by simp only [Item.text] at h; omega)
  | str s => exact List.take_of_length_le (by simp only [Item.text] at h; omega)
  | chr c => rfl
  | ptr v spec => exact numberIn_fits (by simp only [Item.text] at h; omega)
  | invalid => rfl

/-- What a directive takes off the size for good: one byte if it is not valid. -/
def Item.cost : Item → ℕ
  | .invalid => 1
  | _ => 0

/-- The number of directives that are not valid. -/
def invalids (is : List Item) : ℕ := (is.map Item.cost).sum

theorem Item.toNat_sizeAfter (i : Item) {size : U64} (h : 0 < size.toNat) :
    (i.sizeAfter size).toNat = size.toNat - i.cost := by
  cases i with
  | invalid => exact (sub_one_pos h).1
  | _ => rfl

theorem Item.cost_le (i : Item) : i.cost ≤ i.text.length ∧ i.cost ≤ 1 := by
  cases i with
  | invalid => decide
  | _ => simp [Item.cost]

/-- **What fits is printed.** -/
theorem emitAll_fits {ds : List Directive} {is : List Item} {args rest : List Arg}
    (h : Matches ds args is rest) : (∀ d ∈ ds, d.Wf) → ∀ (size : U64) (out : List U8),
      2 ≤ size.toNat → out.length + (textAll is).length + invalids is < size.toNat →
      ∃ size', emitAll ds ⟨size, out, args⟩ = .ok ⟨size', out ++ textAll is, rest⟩ := by
  induction h with
  | nil =>
    intro _ size out _ _
    exact ⟨size, by simp [emitAll, textAll]⟩
  | @cons d ds i is args args' rest ht _ ih =>
    intro hwf size out h2 hfit
    have htext : textAll (i :: is) = i.text ++ textAll is := rfl
    have hcount : invalids (i :: is) = i.cost + invalids is := rfl
    have hcost := i.cost_le
    rw [htext, List.length_append, hcount] at hfit
    have hi := ht.wf (hwf d List.mem_cons_self)
    have hroom : out.length < size.toNat := by omega
    have hpos : 0 < size.toNat := by omega
    have hsize := i.toNat_sizeAfter hpos
    obtain ⟨size', hrun⟩ := ih (fun e he => hwf e (List.mem_cons_of_mem d he))
      (i.sizeAfter size) (out ++ i.text) (by omega) (by rw [hsize, List.length_append]; omega)
    refine ⟨size', ?_⟩
    rw [emitAll_cons ht hi h2 (hroom.trans size.isLt), i.bytes_eq_store hroom,
      Item.store_fits (by omega), hrun, htext, List.append_assoc]

/-! ## 2. Formats made of pieces -/

/-- The length modifiers. -/
inductive Len where
  | none
  | hh
  | h
  | l
  | ll
  deriving DecidableEq

def Len.bytes : Len → List U8
  | .none => []
  | .hh => ascii "hh"
  | .h => ascii "h"
  | .l => ascii "l"
  | .ll => ascii "ll"

/-- `spec.length`. -/
def Len.code : Len → U8
  | .none => 0
  | .hh => 1
  | .h => 2
  | .l => 8
  | .ll => 8

/-- The width in bits that a modifier stands for. -/
def Len.bits : Len → ℕ
  | .hh => 8
  | .h => 16
  | _ => 64

/-- The conversions of numbers. -/
inductive Conv where
  | d
  | u
  | x
  | X
  deriving DecidableEq

def Conv.char : Conv → U8
  | .d => 100
  | .u => 117
  | .x => 120
  | .X => 88

def Conv.base : Conv → ℕ
  | .d => 10
  | .u => 10
  | .x => 16
  | .X => 16

/-- A piece of a format string. -/
inductive Piece where
  | lit (c : U8)
  | num (hash : Bool) (len : Len) (conv : Conv)
  | chr
  | str
  | ptr

/-- How a piece is spelled. -/
def Piece.bytes : Piece → List U8
  | .lit c => [c]
  | .num hash len conv => 37 :: ((if hash then [35] else []) ++ len.bytes ++ [conv.char])
  | .chr => ascii "%c"
  | .str => ascii "%s"
  | .ptr => ascii "%p"

/-- A literal is neither a NUL nor a `%`. -/
def Piece.Ok : Piece → Prop
  | .lit c => c ≠ 0 ∧ c ≠ 37
  | _ => True

/-- The format string that the pieces spell, without its NUL. -/
def spell (ps : List Piece) : List U8 := ps.flatMap Piece.bytes

/-- The specifier that `parse_specifier` makes of a conversion of a number. -/
def numSpec (hash : Bool) (len : Len) (conv : Conv) : FmtSpecifier where
  flags := (if hash then FMT.pre else 0) ||| (conversion conv.char).2.1
  base := (conversion conv.char).2.2
  width := 0
  length := len.code

def ptrSpec : FmtSpecifier := ⟨FMT.pre, 16, 0, 0⟩

def Piece.directive : Piece → Directive
  | .lit c => .lit c
  | .num hash len conv => .conv .number (numSpec hash len conv)
  | .chr => .conv .char .zero
  | .str => .conv .str .zero
  | .ptr => .conv .ptr ptrSpec

/-- The specifier of a number is read as it is spelled. -/
theorem parse_num (hash : Bool) (len : Len) (conv : Conv) (rest : Ptr) :
    parseSpecifier ((if hash then [35] else []) ++ len.bytes ++ [conv.char] ++ rest) .zero
      = .ok (rest, .number, numSpec hash len conv) := by
  cases hash <;> cases len <;> cases conv <;> rfl

/-- **The pieces are the reading of what they spell.** -/
theorem scan_spell {ps : List Piece} (h : ∀ p ∈ ps, p.Ok) :
    Scan (spell ps) (ps.map Piece.directive) := by
  induction ps with
  | nil => exact .nil
  | cons p ps ih =>
    have ih := ih fun q hq => h q (List.mem_cons_of_mem p hq)
    have hp := h p List.mem_cons_self
    rw [spell, List.flatMap_cons, ← spell, List.map_cons]
    cases p with
    | lit c => exact .lit hp.1 hp.2 ih
    | num hash len conv =>
      have hparse := parse_num hash len conv (spell ps ++ [0])
      rw [← List.append_assoc] at hparse
      exact .conv hparse (Or.inl rfl) (by simp; omega) ih
    | chr =>
      have hparse : parseSpecifier (99 :: spell ps ++ [0]) .zero
          = .ok (spell ps ++ [0], .char, .zero) := rfl
      exact .conv hparse (Or.inr (Or.inr (Or.inl rfl))) (by simp) ih
    | str =>
      have hparse : parseSpecifier (115 :: spell ps ++ [0]) .zero
          = .ok (spell ps ++ [0], .str, .zero) := rfl
      exact .conv hparse (Or.inr (Or.inl rfl)) (by simp) ih
    | ptr =>
      have hparse : parseSpecifier (112 :: spell ps ++ [0]) .zero
          = .ok (spell ps ++ [0], .ptr, ptrSpec) := rfl
      exact .conv hparse (Or.inr (Or.inr (Or.inr rfl))) (by simp) ih

/-! ## 3. The reference -/

/-- The value that a conversion prints: the argument cut to the width of the length modifier, with
its sign for `d`. -/
def Conv.value (conv : Conv) (len : Len) (v : U64) : ℤ :=
  match conv with
  | .d => Int.bmod v.toNat (2 ^ len.bits)
  | _ => (v.toNat % 2 ^ len.bits : ℕ)

/-- What the conversion of a number should print. -/
def refNumber (hash : Bool) (len : Len) (conv : Conv) (v : U64) : List U8 :=
  (if conv.value len v < 0 then ascii "-" else []) ++ (if hash then ascii "0x" else []) ++
    numeral (decide (conv = .X)) conv.base (conv.value len v).natAbs

/-- **The reference**: what a format should print for its arguments, one for each conversion. -/
inductive Renders : List Piece → List Arg → List U8 → Prop
  | nil : Renders [] [] []
  | lit {c : U8} {ps : List Piece} {args : List Arg} {t : List U8} : Renders ps args t →
      Renders (.lit c :: ps) args (c :: t)
  | num {hash : Bool} {len : Len} {conv : Conv} {v : U64} {ps : List Piece} {args : List Arg}
      {t : List U8} : Renders ps args t →
      Renders (.num hash len conv :: ps) (.word v :: args) (refNumber hash len conv v ++ t)
  | chr {v : U64} {ps : List Piece} {args : List Arg} {t : List U8} : v.setWidth 8 ≠ (0 : U8) →
      Renders ps args t → Renders (.chr :: ps) (.word v :: args) (v.setWidth 8 :: t)
  | str {p : Ptr} {s : List U8} {ps : List Piece} {args : List Arg} {t : List U8} : PointsTo p s →
      Renders ps args t → Renders (.str :: ps) (.ptr p :: args) (s ++ t)
  | ptr {v : U64} {ps : List Piece} {args : List Arg} {t : List U8} : Renders ps args t →
      Renders (.ptr :: ps) (.word v :: args) (ascii "0x" ++ numeral false 16 v.toNat ++ t)

/-- The shift up and down by `s` bits keeps the low `64 - s`, with the sign... -/
theorem toInt_truncate (v : U64) {s : ℕ} (hs : s = 0 ∨ s = 48 ∨ s = 56) :
    ((v <<< s).sshiftRight s).toInt = Int.bmod v.toNat (2 ^ (64 - s)) := by
  have hv := v.isLt
  rw [BitVec.toInt_sshiftRight, BitVec.toInt_shiftLeft, Int.shiftRight_eq_div_pow,
    Nat.shiftLeft_eq]
  rcases hs with rfl | rfl | rfl
  · simp only [Int.bmod]
    omega
  · simp only [Int.bmod]
    omega
  · simp only [Int.bmod]
    omega

/-- ...or without it. -/
theorem toNat_truncate (v : U64) {s : ℕ} (hs : s = 0 ∨ s = 48 ∨ s = 56) :
    ((v <<< s) >>> s).toNat = v.toNat % 2 ^ (64 - s) := by
  have hv := v.isLt
  rw [BitVec.toNat_ushiftRight, BitVec.toNat_shiftLeft, Nat.shiftRight_eq_div_pow,
    Nat.shiftLeft_eq]
  rcases hs with rfl | rfl | rfl <;> omega

section NumSpec

variable (hash : Bool) (len : Len) (conv : Conv)

theorem numSpec_signed : (numSpec hash len conv).has FMT.signed = decide (conv = .d) := by
  cases hash <;> cases conv <;> simp only [FmtSpecifier.has, numSpec] <;> decide

theorem numSpec_pre : (numSpec hash len conv).has FMT.pre = hash := by
  cases hash <;> cases conv <;> simp only [FmtSpecifier.has, numSpec] <;> decide

theorem numSpec_uppercase : (numSpec hash len conv).has FMT.uppercase = decide (conv = .X) := by
  cases hash <;> cases conv <;> simp only [FmtSpecifier.has, numSpec] <;> decide

theorem numSpec_zeroPadding : (numSpec hash len conv).has FMT.zeroPadding = false := by
  cases hash <;> cases conv <;> simp only [FmtSpecifier.has, numSpec] <;> decide

theorem numSpec_base : (numSpec hash len conv).base.toNat = conv.base := by
  cases conv <;> rfl

/-- The shift that a length modifier stands for. -/
theorem shift_eq : ∃ s, (64 - 8 * (numSpec hash len conv).length.setWidth 64 : U64).toNat % 64 = s ∧
    (s = 0 ∨ s = 48 ∨ s = 56) ∧ 64 - s = len.bits := by
  refine ⟨64 - len.bits, ?_, ?_, ?_⟩
  · rw [show (numSpec hash len conv).length = len.code from rfl]
    cases len <;> decide
  · cases len <;> decide
  · cases len <;> decide

/-- **`number_truncate` computes the value to be printed**: for `d` as a signed word... -/
theorem toInt_numberTruncate (v : U64) :
    (numberTruncate v (numSpec hash len .d)).toInt = Conv.value .d len v := by
  obtain ⟨s, hs, hcases, hbits⟩ := shift_eq hash len .d
  rw [numberTruncate, hs, numSpec_signed]
  simp only [decide_true, if_true]
  rw [toInt_truncate v hcases, hbits]
  rfl

/-- ...and else as an unsigned one. -/
theorem toNat_numberTruncate {conv : Conv} (hconv : conv ≠ .d) (v : U64) :
    ((numberTruncate v (numSpec hash len conv)).toNat : ℤ) = conv.value len v := by
  obtain ⟨s, hs, hcases, hbits⟩ := shift_eq hash len conv
  rw [numberTruncate, hs, numSpec_signed]
  simp only [decide_eq_false hconv, Bool.false_eq_true, if_false]
  rw [toNat_truncate v hcases, hbits]
  cases conv with
  | d => exact absurd rfl hconv
  | u => rfl
  | x => rfl
  | X => rfl

end NumSpec

/-- The sign and the absolute value of a signed word. -/
theorem toNat_abs (t : U64) : (if t.toInt < 0 then -t else t).toNat = t.toInt.natAbs := by
  have ht := t.isLt
  have hint := BitVec.toInt_eq_toNat_cond t
  split
  · rw [BitVec.toNat_neg]
    split at hint <;> omega
  · split at hint <;> omega

/-- Without padding the tail of a number is its numeral. -/
theorem tailText_eq {m : U64} {spec : FmtSpecifier} (h : spec.has FMT.zeroPadding = false) :
    tailText m spec = numeral (spec.has FMT.uppercase) spec.base.toNat m.toNat := by
  unfold tailText numeral
  by_cases hm : m = 0
  · subst hm
    rfl
  · have hne : m.toNat ≠ 0 := fun h0 => hm (BitVec.eq_of_toNat_eq h0)
    rw [if_neg hm, if_neg hne, padding, h]
    rfl

/-- The sign of a number and its digits, as they are printed. -/
theorem numSpec_abs (hash : Bool) (len : Len) (conv : Conv) (v : U64) :
    (magnitude (numberTruncate v (numSpec hash len conv)) (numSpec hash len conv)).toNat
        = (conv.value len v).natAbs ∧
      isNegative (numberTruncate v (numSpec hash len conv)) (numSpec hash len conv)
        = decide (conv.value len v < 0) := by
  by_cases hconv : conv = .d
  · subst hconv
    have hval := toInt_numberTruncate hash len v
    have hneg : isNegative (numberTruncate v (numSpec hash len .d)) (numSpec hash len .d)
        = decide (Conv.value .d len v < 0) := by
      rw [isNegative, numSpec_signed, hval]
      simp
    refine ⟨?_, hneg⟩
    rw [magnitude, hneg, ← hval, ← toNat_abs]
    simp only [decide_eq_true_eq]
  · have hval := toNat_numberTruncate hash len hconv v
    have hneg : isNegative (numberTruncate v (numSpec hash len conv)) (numSpec hash len conv)
        = false := by
      rw [isNegative, numSpec_signed, decide_eq_false hconv, Bool.false_and]
    rw [magnitude, hneg, ← hval]
    simp

/-- **The text of a number is the reference.** -/
theorem numberText_eq (hash : Bool) (len : Len) (conv : Conv) (v : U64) :
    numberText (numberTruncate v (numSpec hash len conv)) (numSpec hash len conv)
      = refNumber hash len conv v := by
  obtain ⟨habs, hneg⟩ := numSpec_abs hash len conv v
  rw [numberText, refNumber, tailText_eq (numSpec_zeroPadding hash len conv), habs, hneg,
    numSpec_pre, numSpec_uppercase, numSpec_base]
  simp only [decide_eq_true_eq]

/-- The text of a pointer likewise. -/
theorem numberText_ptr (v : U64) :
    numberText v ptrSpec = ascii "0x" ++ numeral false 16 v.toNat := by
  have hneg : isNegative v ptrSpec = false := by
    rw [isNegative, show ptrSpec.has FMT.signed = false from by decide, Bool.false_and]
  rw [numberText, tailText_eq (by decide), magnitude, hneg]
  rfl

/-! ## 4. The buffer is large enough -/

/-- The reference is the text of the items. -/
theorem Renders.matches {ps : List Piece} {args : List Arg} {t : List U8} (h : Renders ps args t) :
    ∃ is, Matches (ps.map Piece.directive) args is [] ∧ textAll is = t ∧ invalids is = 0 := by
  induction h with
  | nil => exact ⟨[], .nil, rfl, rfl⟩
  | @lit c ps args t _ ih =>
    obtain ⟨is, hm, rfl, hinv⟩ := ih
    exact ⟨.lit c :: is, .cons .lit hm, rfl, (Nat.zero_add _).trans hinv⟩
  | @num hash len conv v ps args t _ ih =>
    obtain ⟨is, hm, rfl, hinv⟩ := ih
    refine ⟨_ :: is, .cons .num hm, ?_, (Nat.zero_add _).trans hinv⟩
    rw [← numberText_eq]
    rfl
  | @chr v ps args t _ _ ih =>
    obtain ⟨is, hm, rfl, hinv⟩ := ih
    exact ⟨_ :: is, .cons .chr hm, rfl, (Nat.zero_add _).trans hinv⟩
  | @str p s ps args t hp _ ih =>
    obtain ⟨is, hm, rfl, hinv⟩ := ih
    exact ⟨_ :: is, .cons (.str hp) hm, rfl, (Nat.zero_add _).trans hinv⟩
  | @ptr v ps args t _ ih =>
    obtain ⟨is, hm, rfl, hinv⟩ := ih
    refine ⟨_ :: is, .cons .ptr hm, ?_, (Nat.zero_add _).trans hinv⟩
    rw [← numberText_ptr]
    rfl

section Renders

variable {ps : List Piece} {args : List Arg} {t : List U8} {size : U64} {fuel : ℕ}

/-- The directives of a format that fits emit the reference, and take all the arguments. -/
theorem Renders.emits (h : Renders ps args t) (hok : ∀ p ∈ ps, p.Ok) (h2 : 2 ≤ size.toNat)
    (hfit : t.length < size.toNat) :
    ∃ size', emitAll (ps.map Piece.directive) ⟨size, [], args⟩ = .ok ⟨size', t, []⟩ := by
  obtain ⟨is, hm, rfl, hinv⟩ := h.matches
  exact emitAll_fits hm (scan_spell hok).wf size [] h2 (by simpa [hinv] using hfit)

theorem Renders.prints (h : Renders ps args t) (hok : ∀ p ∈ ps, p.Ok) (h2 : 2 ≤ size.toNat)
    (hfit : t.length < size.toNat) (hf : 3 * (spell ps).length + 2 ≤ fuel) :
    vsnprintf fuel size (spell ps ++ [0]) args = .ok (t ++ [0]) := by
  obtain ⟨size', hemit⟩ := h.emits hok h2 hfit
  rw [vsnprintf_eq (scan_spell hok) hf, hemit]
  rfl

/-- **`vsnprintf` prints the reference**, NUL-terminated, and takes exactly the arguments it is
given, whenever the buffer can hold the result. -/
theorem vsnprintf_renders (hok : ∀ p ∈ ps, p.Ok) (h : Renders ps args t) (h2 : 2 ≤ size.toNat)
    (hfit : t.length < size.toNat) (hf : 3 * (spell ps).length + 2 ≤ fuel) :
    vsnprintf fuel size (spell ps ++ [0]) args = .ok (t ++ [0]) ∧
      written (vsLoop fuel ⟨spell ps ++ [0], .none, .zero, [], size, [], args⟩) = .ok (t, []) := by
  obtain ⟨size', hemit⟩ := h.emits hok h2 hfit
  constructor
  · exact h.prints hok h2 hfit hf
  · exact (vsLoop_scan (scan_spell hok) ⟨size, [], args⟩ .zero [] fuel hf).trans
      (by rw [hemit]; rfl)

end Renders

/-- `"%#hhd %s"` of the byte `0xff` and `"ok"`, into eight bytes. -/
theorem vsnprintf_renders_eight :
    vsnprintf 26 8 (literal "%#hhd %s") [.word 0xff, .ptr (literal "ok")]
      = .ok (literal "-0x1 ok") := by
  have href : refNumber true .hh .d 0xff = ascii "-0x1" := by decide
  have h : Renders [.num true .hh .d, .lit 32, .str] [.word 0xff, .ptr (literal "ok")]
      (refNumber true .hh .d 0xff ++ 32 :: (ascii "ok" ++ [])) :=
    .num (.lit (.str (pointsTo_literal rfl) .nil))
  have hok : ∀ p ∈ [Piece.num true .hh .d, .lit 32, .str], p.Ok := by
    intro p hp
    simp only [List.mem_cons, List.not_mem_nil, or_false] at hp
    rcases hp with rfl | rfl | rfl
    · trivial
    · exact ⟨by decide, by decide⟩
    · trivial
  rw [href] at h
  exact (vsnprintf_renders hok h (by decide) (by decide) (by decide)).1

end RvKernel.Text
