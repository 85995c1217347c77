/-
# Zero padding

A conversion `%0[w][len](d|u|x|X)` asks for a field of `w` characters at least, filled up with zeros
behind the sign (`paddedNumber`).  `number` fills up the DIGITS to the width, and in three cases
that is another text: a zero is printed before any padding, the sign of a negative number is not
counted, and a width from 256 on has wrapped in `spec.width`, which is a `u8`.

These are all (`vsnprintf_padded_iff`).
-/
import RvKernel.Text.Render

namespace RvKernel.Text

/-! ## 1. The width -/

/-- The directive: the width is given by its digits, and may be missing. -/
def padFormat (ws : List U8) (len : Len) (conv : Conv) : List U8 :=
  37 :: 48 :: (ws ++ (len.bytes ++ [conv.char]))

/-- The specifier that `parse_specifier` makes of it. -/
def padSpec (w : ℕ) (len : Len) (conv : Conv) : FmtSpecifier where
  flags := FMT.zeroPadding ||| (conversion conv.char).2.1
  base := (conversion conv.char).2.2
  width := BitVec.ofNat 8 w
  length := len.code

theorem isDigit_iff (c : U8) : isDigit c = true ↔ IsDecimal c := by
  rw [isDigit, IsDecimal, Bool.and_eq_true, decide_eq_true_eq, decide_eq_true_eq, BitVec.le_def,
    BitVec.le_def]
  rfl

/-- **The width is read modulo 256.** -/
theorem run_parseWidthLoop {ws : List U8} (hws : ∀ c ∈ ws, IsDecimal c) {c : U8}
    (hc : ¬ IsDecimal c) (rest : Ptr) (v : ℕ) :
    parseWidthLoop (ws ++ c :: rest) (BitVec.ofNat 8 v)
      = .ok (c :: rest, BitVec.ofNat 8 (ws.foldl (fun v c => v * 10 + (c.toNat - 48)) v)) := by
  induction ws generalizing v with
  | nil =>
    rw [List.nil_append, parseWidthLoop, if_neg (fun hd => hc ((isDigit_iff c).mp hd))]
    rfl
  | cons d ws ih =>
    have hd := hws d List.mem_cons_self
    have hstep : BitVec.ofNat 8 v * 10 + (d - 48) = BitVec.ofNat 8 (v * 10 + (d.toNat - 48)) := by
      have hlt := d.isLt
      unfold IsDecimal at hd
      apply BitVec.eq_of_toNat_eq
      rw [BitVec.toNat_add, BitVec.toNat_mul, BitVec.toNat_sub]
      simp only [BitVec.ofNat_eq_ofNat, BitVec.toNat_ofNat]
      omega
    rw [List.cons_append, parseWidthLoop, if_pos ((isDigit_iff d).mpr hd), hstep, List.foldl_cons]
    exact ih (fun x hx => hws x (List.mem_cons_of_mem d hx)) _

/-- The directive is read as it is spelled. -/
theorem parse_padded {ws : List U8} (hws : ∀ c ∈ ws, IsDecimal c) (len : Len) (conv : Conv)
    (rest : Ptr) :
    parseSpecifier (48 :: (ws ++ (len.bytes ++ [conv.char])) ++ rest) .zero
      = .ok (rest, .number, padSpec (digitsValue 10 ws) len conv) := by
  obtain ⟨c, tail, htail, hc⟩ : ∃ c tail, len.bytes ++ [conv.char] ++ rest = c :: tail ∧
      ¬ IsDecimal c := by
    cases len <;> cases conv <;> exact ⟨_, _, rfl, by decide⟩
  have hflag : parseFlag (48 :: (ws ++ (len.bytes ++ [conv.char])) ++ rest) .zero
      = .ok (ws ++ c :: tail, { FmtSpecifier.zero with flags := FMT.zeroPadding }) := by
    rw [List.cons_append, List.append_assoc, htail]
    rfl
  have hwidth : parseWidthLoop (ws ++ c :: tail) 0
      = .ok (c :: tail, BitVec.ofNat 8 (digitsValue 10 ws)) := run_parseWidthLoop hws hc tail 0
  rw [parseSpecifier, hflag, ok_bind]
  simp only [parseWidth, hwidth, ok_bind, pure_eq]
  rw [← htail]
  cases len <;> cases conv <;> rfl

theorem scan_padded {ws : List U8} (hws : ∀ c ∈ ws, IsDecimal c) (len : Len) (conv : Conv) :
    Scan (padFormat ws len conv) [.conv .number (padSpec (digitsValue 10 ws) len conv)] :=
  .conv (parse_padded hws len conv [0]) (Or.inl rfl) (by simp) .nil

/-! ## 2. The text -/

/-- What the directive should print: the sign, zeros up to the width, the shortest numeral. -/
def paddedNumber (w : ℕ) (len : Len) (conv : Conv) (v : U64) : List U8 :=
  let sign := if conv.value len v < 0 then ascii "-" else []
  let digits := numeral (decide (conv = .X)) conv.base (conv.value len v).natAbs
  sign ++ List.replicate (w - (sign.length + digits.length)) 48 ++ digits

section PadSpec

variable (w : ℕ) (len : Len) (conv : Conv)

theorem padSpec_has :
    (padSpec w len conv).has FMT.signed = (numSpec false len conv).has FMT.signed ∧
    (padSpec w len conv).has FMT.uppercase = decide (conv = .X) ∧
    (padSpec w len conv).has FMT.pre = false ∧
    (padSpec w len conv).has FMT.zeroPadding = true := by
  cases conv <;> simp only [FmtSpecifier.has, padSpec, numSpec] <;> decide

theorem padSpec_base : (padSpec w len conv).base.toNat = conv.base := by
  cases conv <;> rfl

/-- Neither the truncation nor the sign depends on the width. -/
theorem padSpec_abs (v : U64) :
    (magnitude (numberTruncate v (padSpec w len conv)) (padSpec w len conv)).toNat
        = (conv.value len v).natAbs ∧
      isNegative (numberTruncate v (padSpec w len conv)) (padSpec w len conv)
        = decide (conv.value len v < 0) := by
  have htrunc : numberTruncate v (padSpec w len conv)
      = numberTruncate v (numSpec false len conv) := by
    rw [numberTruncate, numberTruncate, (padSpec_has w len conv).1]
    rfl
  rw [magnitude, isNegative, (padSpec_has w len conv).1, htrunc]
  exact numSpec_abs false len conv v

end PadSpec

/-- **What the code prints**: the digits are filled up, if there are any. -/
theorem numberText_padded (w : ℕ) (len : Len) (conv : Conv) (v : U64) :
    numberText (numberTruncate v (padSpec w len conv)) (padSpec w len conv)
      = (if conv.value len v < 0 then ascii "-" else []) ++
        (if conv.value len v = 0 then [] else
          List.replicate (w % 256 -
            (numeral (decide (conv = .X)) conv.base (conv.value len v).natAbs).length) 48) ++
        numeral (decide (conv = .X)) conv.base (conv.value len v).natAbs := by
  obtain ⟨habs, hneg⟩ := padSpec_abs w len conv v
  obtain ⟨-, hupper, hpre, hzero⟩ := padSpec_has w len conv
  rw [numberText, hneg, hpre]
  simp only [decide_eq_true_eq, Bool.false_eq_true, if_false, List.append_nil, List.append_assoc]
  congr 1
  generalize magnitude (numberTruncate v (padSpec w len conv)) (padSpec w len conv) = m at habs
  unfold tailText
  by_cases hm : m = 0
  · have hval : conv.value len v = 0 := by
      rw [← Int.natAbs_eq_zero, ← habs, hm]
      rfl
    rw [if_pos hm, if_pos hval, hval]
    rfl
  · have hne : (conv.value len v).natAbs ≠ 0 := by
      rw [← habs]
      exact fun h0 => hm (BitVec.eq_of_toNat_eq h0)
    have hval : conv.value len v ≠ 0 := fun h0 => hne (by rw [h0]; rfl)
    have hwidth : (padSpec w len conv).width.toNat = w % 256 := by
      rw [padSpec, BitVec.toNat_ofNat]
    rw [if_neg hm, if_neg hval, padding, hzero, if_pos rfl, digitsOf, hupper, padSpec_base, hwidth,
      habs, numeral, if_neg hne, List.length_map, List.length_reverse]

/-! ## 3. When the padding is right -/

/-- **The width can be met**: a zero and a negative number are not to be padded, and a positive one
has a width that a `u8` can hold. -/
def PadOk (w : ℕ) (len : Len) (conv : Conv) (v : U64) : Prop :=
  (conv.value len v = 0 → w ≤ 1) ∧
    (conv.value len v < 0 →
      w ≤ (numeral (decide (conv = .X)) conv.base (conv.value len v).natAbs).length) ∧
    (0 < conv.value len v → w ≤ 255)

theorem length_value_le (len : Len) (conv : Conv) (v : U64) :
    (numeral (decide (conv = .X)) conv.base (conv.value len v).natAbs).length ≤ 64 := by
  unfold numeral
  split
  · decide
  · obtain ⟨habs, -⟩ := numSpec_abs false len conv v
    rw [List.length_map, List.length_reverse, ← habs]
    exact length_digits_le (by cases conv <;> decide) _

/-- Two paddings between the same texts. -/
theorem pad_inj {a b : List U8} {m n : ℕ} :
    a ++ List.replicate m 48 ++ b = a ++ List.replicate n 48 ++ b ↔ m = n := by
  rw [List.append_left_inj, List.append_right_inj]
  constructor
  · intro h
    simpa using congrArg List.length h
  · rintro rfl
    rfl

theorem numberText_padded_iff (w : ℕ) (len : Len) (conv : Conv) (v : U64) :
    numberText (numberTruncate v (padSpec w len conv)) (padSpec w len conv)
      = paddedNumber w len conv v ↔ PadOk w len conv v := by
  have hlen := length_value_le len conv v
  have hminus : (ascii "-").length = 1 := rfl
  rw [numberText_padded, paddedNumber, PadOk]
  generalize hds : numeral (decide (conv = .X)) conv.base (conv.value len v).natAbs = ds at *
  rcases lt_trichotomy (conv.value len v) 0 with hneg | hz | hpos
  · rw [if_pos hneg, if_neg hneg.ne, pad_inj, hminus]
    omega
  · have h0 : ds.length = 1 := by
      rw [← hds, hz]
      rfl
    have hnone : ([] : List U8) ++ [] = [] ++ List.replicate 0 48 := rfl
    rw [hz, if_neg (lt_irrefl 0), if_pos rfl, hnone, pad_inj]
    simp only [List.length_nil, h0, true_imp_iff, lt_irrefl, false_imp_iff, and_true]
    omega
  · rw [if_neg (not_lt_of_gt hpos), if_neg hpos.ne', pad_inj]
    simp only [List.length_nil]
    omega

theorem length_sign (x : ℤ) :
    (if x < 0 then ascii "-" else []).length = if x < 0 then 1 else 0 := by
  split <;> rfl

/-- The field that is asked for has the width that is asked for, or the natural one. -/
theorem length_paddedNumber (w : ℕ) (len : Len) (conv : Conv) (v : U64) :
    (paddedNumber w len conv v).length = max w ((if conv.value len v < 0 then 1 else 0) +
      (numeral (decide (conv = .X)) conv.base (conv.value len v).natAbs).length) := by
  simp only [paddedNumber, List.length_append, List.length_replicate, length_sign]
  omega

/-- What the code prints is at most one byte longer than what it should. -/
theorem length_numberText_padded_le (w : ℕ) (len : Len) (conv : Conv) (v : U64) :
    (numberText (numberTruncate v (padSpec w len conv)) (padSpec w len conv)).length
      ≤ (paddedNumber w len conv v).length + 1 := by
  have hmod := Nat.mod_le w 256
  rw [numberText_padded, length_paddedNumber, List.length_append, List.length_append, length_sign]
  by_cases hz : conv.value len v = 0
  · rw [if_pos hz, List.length_nil]
    omega
  · rw [if_neg hz, List.length_replicate]
    split <;> omega

/-- **A padded field is printed as asked for, in a buffer that is large enough, just if its width
can be met.** -/
theorem vsnprintf_padded_iff {ws : List U8} (hws : ∀ c ∈ ws, IsDecimal c) (len : Len) (conv : Conv)
    (v size : U64) {fuel : ℕ} (hf : 3 * (padFormat ws len conv).length + 2 ≤ fuel)
    (hsize : (paddedNumber (digitsValue 10 ws) len conv v).length + 1 < size.toNat) :
    (paddedNumber (digitsValue 10 ws) len conv v).length
        = max (digitsValue 10 ws) ((if conv.value len v < 0 then 1 else 0) +
          (numeral (decide (conv = .X)) conv.base (conv.value len v).natAbs).length) ∧
      (vsnprintf fuel size (padFormat ws len conv ++ [0]) [.word v]
          = .ok (paddedNumber (digitsValue 10 ws) len conv v ++ [0]) ↔
        PadOk (digitsValue 10 ws) len conv v) := by
  have hscan := scan_padded hws len conv
  have hle := length_numberText_padded_le (digitsValue 10 ws) len conv v
  generalize hspec : padSpec (digitsValue 10 ws) len conv = spec at hscan hle
  have hm : Matches [.conv .number spec] [.word v] [.num (numberTruncate v spec) spec] [] :=
    .cons .num .nil
  have htext : textAll [.num (numberTruncate v spec) spec]
      = numberText (numberTruncate v spec) spec := List.append_nil _
  obtain ⟨size', hemit⟩ := emitAll_fits hm hscan.wf size [] (by omega) (by
    rw [htext]
    simp only [invalids, Item.cost, List.map_cons, List.map_nil, List.sum_cons, List.sum_nil,
      List.length_nil]
    omega)
  refine ⟨length_paddedNumber _ len conv v, ?_⟩
  rw [vsnprintf_eq hscan hf, hemit, htext, ← numberText_padded_iff, hspec]
  simp only [ok_bind, pure_eq, List.nil_append, Except.ok.injEq, List.append_left_inj]

/-- `%05x` of 255. -/
theorem vsnprintf_padded_ff :
    vsnprintf 17 16 (literal "%05x") [.word 255] = .ok (literal "000ff") := by
  have hws : ∀ c ∈ ascii "5", IsDecimal c := by decide
  exact (vsnprintf_padded_iff hws .none .x 255 16 (by decide) (by decide)).2.mpr
    ⟨by decide, by decide, by decide⟩

/-- `%03d` of 0 is `0`, not `000`. -/
theorem vsnprintf_pads_no_zero : paddedNumber 3 .none .d 0 = ascii "000" ∧
    vsnprintf 17 16 (literal "%03d") [.word 0] = .ok (literal "0") ∧
    ¬ vsnprintf 17 16 (padFormat (ascii "3") .none .d ++ [0]) [.word 0]
      = .ok (paddedNumber (digitsValue 10 (ascii "3")) .none .d 0 ++ [0]) := by
  refine ⟨by decide, by decide, by decide⟩

end RvKernel.Text
