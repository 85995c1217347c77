/-
# Numbers, strings and characters (`number`, `string`, `character`)

What each writer of `printf.c` stores in the bytes it is given.  For a number that is a function of
the bytes left as a NATURAL number (`numberIn`, `number_eq`): sign, prefix, padding and digits, each
under its own test of the size.  Two of these tests miss: a zero is stored without any, and padding
that runs out of bytes lets the size wrap, so that all the digits follow.

The text of a number is given once, without sizes (`numberText`), and is what is stored whenever it
fits with a byte to spare for the NUL (`numberIn_fits`).
-/
import RvKernel.Text.Printf
import Mathlib.Data.Nat.Digits.Lemmas

namespace RvKernel.Text

/-! ## 1. Digits -/

/-- The shortest numeral of a natural number. -/
def numeral (upper : Bool) (base n : ℕ) : List U8 :=
  if n = 0 then ascii "0" else (Nat.digits base n).reverse.map (digitChar upper)

theorem isDecimal_digitChar {d : ℕ} (h : d < 10) : IsDecimal (digitChar false d) := by
  have key : ∀ i : Fin 10, IsDecimal (digitChar false i) := by decide
  exact key ⟨d, h⟩

/-- A decimal numeral has decimal digits only... -/
theorem isDecimal_numeral (n : ℕ) : ∀ c ∈ numeral false 10 n, IsDecimal c := by
  intro c hc
  unfold numeral at hc
  split at hc
  · rw [List.mem_singleton.mp hc]
    decide
  · obtain ⟨d, hd, rfl⟩ := List.mem_map.mp hc
    exact isDecimal_digitChar (Nat.digits_lt_base (by decide) (List.mem_reverse.mp hd))

theorem IsDecimal.ne_nul {c : U8} (h : IsDecimal c) : c ≠ 0 := by
  rintro rfl
  exact absurd h (by decide)

/-- ...so it can be the text of a string. -/
theorem numeral_ne_nul (n : ℕ) : ∀ c ∈ numeral false 10 n, c ≠ 0 :=
  fun c hc => (isDecimal_numeral n c hc).ne_nul

theorem length_numeral_le {n k : ℕ} (hk : 0 < k) (h : n < 10 ^ k) :
    (numeral false 10 n).length ≤ k := by
  unfold numeral
  split
  · exact hk
  · rw [List.length_map, List.length_reverse]
    exact (Nat.digits_length_le_iff (by decide) n).mpr h

/-- **The digits loop computes the digits**, given room for them. -/
theorem tmpDigits_eq (upper : Bool) {base : U64} (hb : 2 ≤ base.toNat) :
    ∀ (room : ℕ) (num : U64), num.toNat < base.toNat ^ room →
      tmpDigits upper base room num = (Nat.digits base.toNat num.toNat).map (digitChar upper)
  | 0, num, h => by
    have hz : num.toNat = 0 := by simpa using h
    rw [tmpDigits, hz, Nat.digits_zero, List.map_nil]
  | room + 1, num, h => by
    rw [tmpDigits]
    by_cases hz : num = 0
    · subst hz
      simp
    · have hnat : 0 < num.toNat := by
        rw [Nat.pos_iff_ne_zero]
        exact fun h0 => hz (BitVec.eq_of_toNat_eq h0)
      have hpos : num > 0 := by
        rw [gt_iff_lt, BitVec.lt_def]
        simpa using hnat
      have hdiv : (num / base).toNat < base.toNat ^ room := by
        rw [BitVec.toNat_udiv]
        refine Nat.div_lt_of_lt_mul ?_
        rwa [← pow_succ']
      rw [if_pos hpos, tmpDigits_eq upper hb room _ hdiv, BitVec.toNat_udiv, BitVec.toNat_umod,
        Nat.digits_def' hb hnat, List.map_cons]

theorem tmpDigits_base (upper : Bool) {base : U64} (hb : 2 ≤ base.toNat) (num : U64) :
    tmpDigits upper base 64 num = (Nat.digits base.toNat num.toNat).map (digitChar upper) :=
  tmpDigits_eq upper hb 64 num (lt_of_lt_of_le num.isLt (Nat.pow_le_pow_left hb 64))

/-! ## 2. The writers, with room to spare -/

theorem sub_one_pos {size : U64} (h : 0 < size.toNat) :
    (size - 1).toNat = size.toNat - 1 ∧ (size - 1 > 0 ↔ 2 ≤ size.toNat) := by
  have hsub : (size - 1).toNat = size.toNat - 1 := by
    have := size.isLt
    rw [BitVec.toNat_sub]
    simp only [BitVec.ofNat_eq_ofNat, BitVec.toNat_ofNat]
    omega
  refine ⟨hsub, ?_⟩
  rw [gt_iff_lt, BitVec.lt_def, hsub]
  simp only [BitVec.ofNat_eq_ofNat, BitVec.toNat_ofNat]
  omega

theorem one_lt_size {size : U64} (h : 2 ≤ size.toNat) : size > 1 := by
  rw [gt_iff_lt, BitVec.lt_def]
  exact h

/-- The digits go out until one byte is left. -/
theorem copyDigits_eq : ∀ (ds : List U8) {size : U64}, 0 < size.toNat →
    copyDigits ds size = ds.take (size.toNat - 1)
  | [], _, _ => by simp [copyDigits]
  | d :: ds, size, h => by
    obtain ⟨hsub, hiff⟩ := sub_one_pos h
    rw [copyDigits]
    by_cases h2 : 2 ≤ size.toNat
    · obtain ⟨n, hn⟩ : ∃ n, size.toNat = n + 2 := ⟨size.toNat - 2, by omega⟩
      rw [if_pos (hiff.mpr h2), copyDigits_eq ds (by omega), hsub, hn]
      rfl
    · have hlast : size.toNat - 1 = 0 := by omega
      rw [if_neg (fun hgt => h2 (hiff.mp hgt)), hlast, List.take_zero]

/-- Padding that leaves a byte free costs as much size as it writes zeros. -/
theorem padZeros_eq : ∀ (width : ℕ) {size : U64}, width < size.toNat →
    (padZeros width size).1 = List.replicate width 48 ∧
      (padZeros width size).2.toNat = size.toNat - width
  | 0, size, _ => ⟨rfl, rfl⟩
  | width + 1, size, h => by
    have hpos : 0 < size.toNat := by omega
    obtain ⟨hsub, hiff⟩ := sub_one_pos hpos
    have hrest : width < (size - 1).toNat := by omega
    obtain ⟨hz, hs⟩ := padZeros_eq width hrest
    rw [padZeros, if_pos (hiff.mpr (by omega))]
    refine ⟨?_, ?_⟩
    · show 48 :: (padZeros width (size - 1)).1 = _
      rw [hz, List.replicate_succ]
    · show (padZeros width (size - 1)).2.toNat = _
      rw [hs, hsub]
      omega

/-- A string goes out until no byte is left. -/
theorem string_eq {p : Ptr} {s : List U8} (h : PointsTo p s) (size : U64) :
    string size p = .ok (s.take size.toNat) := by
  induction s generalizing p size with
  | nil =>
    obtain ⟨rest, rfl⟩ := h.of_nil
    simp [string]
  | cons c s ih =>
    obtain ⟨p', rfl, hc, hp'⟩ := h.of_cons
    rw [string]
    by_cases h0 : 0 < size.toNat
    · have hpos : size > 0 := by
        rw [gt_iff_lt, BitVec.lt_def]
        simpa using h0
      obtain ⟨hsub, -⟩ := sub_one_pos h0
      rw [if_pos ⟨hpos, hc⟩, ih hp', hsub]
      simp only [ok_bind, pure_eq]
      obtain ⟨n, hn⟩ : ∃ n, size.toNat = n + 1 := ⟨size.toNat - 1, by omega⟩
      rw [hn, List.take_succ_cons, Nat.add_sub_cancel]
    · have hz : ¬ (size > 0 ∧ c ≠ 0) := by
        rw [gt_iff_lt, BitVec.lt_def]
        simp only [BitVec.ofNat_eq_ofNat, BitVec.toNat_ofNat]
        omega
      have hnone : size.toNat = 0 := by omega
      rw [if_neg hz, hnone, List.take_zero]

/-- Padding that runs out of size stops at one byte, and leaves the size 0. -/
theorem padZeros_cut : ∀ (width : ℕ) {size : U64}, 0 < size.toNat → size.toNat ≤ width →
    padZeros width size = (List.replicate (size.toNat - 1) 48, 0)
  | 0, size, h, hle => absurd hle (by omega)
  | width + 1, size, h, hle => by
    obtain ⟨hsub, hiff⟩ := sub_one_pos h
    rw [padZeros]
    by_cases h2 : 2 ≤ size.toNat
    · obtain ⟨n, hn⟩ : ∃ n, size.toNat = n + 2 := ⟨size.toNat - 2, by omega⟩
      rw [if_pos (hiff.mpr h2), padZeros_cut width (by omega) (by omega), hsub, hn]
      rfl
    · have hz : size - 1 = 0 := BitVec.eq_of_toNat_eq (by rw [hsub]; simp; omega)
      have hlast : size.toNat - 1 = 0 := by omega
      rw [if_neg (fun hgt => h2 (hiff.mp hgt)), hz, hlast]
      rfl

/-- At the size 0 the copy loop has wrapped, and knows no end. -/
theorem copyDigits_zero {ds : List U8} (h : ds.length ≤ 64) : copyDigits ds 0 = ds := by
  cases ds with
  | nil => rfl
  | cons d ds =>
    have hwrap : (0 - 1 : U64).toNat = 2 ^ 64 - 1 := by decide
    rw [copyDigits, if_pos (by decide), copyDigits_eq ds (by rw [hwrap]; norm_num), hwrap,
      List.take_of_length_le]
    simp only [List.length_cons] at h
    omega

/-! ## 3. Numbers -/

/-- The zeros that pad the digits of a number. -/
def padding (m : U64) (spec : FmtSpecifier) : ℕ :=
  if spec.has FMT.zeroPadding then
    spec.width.toNat - (Nat.digits spec.base.toNat m.toNat).length
  else 0

/-- The digits of a number. -/
def digitsOf (m : U64) (spec : FmtSpecifier) : List U8 :=
  (Nat.digits spec.base.toNat m.toNat).reverse.map (digitChar (spec.has FMT.uppercase))

/-- `number` behind its sign and prefix, in `r` bytes.  Too few for the padding, and the digits are
stored regardless. -/
def tailIn (r : ℕ) (m : U64) (spec : FmtSpecifier) : List U8 :=
  if m = 0 then ascii "0"
  else if padding m spec < r then
    List.replicate (padding m spec) 48 ++ (digitsOf m spec).take (r - padding m spec - 1)
  else List.replicate (r - 1) 48 ++ digitsOf m spec

def isNegative (num : U64) (spec : FmtSpecifier) : Bool :=
  spec.has FMT.signed && decide (num.toInt < 0)

/-- `number` in `r` bytes, the sizes being natural numbers. -/
def numberIn (r : ℕ) (num : U64) (spec : FmtSpecifier) : List U8 :=
  let neg := isNegative num spec && decide (1 < r)
  let r' := if neg then r - 1 else r
  let pre := spec.has FMT.pre && decide (2 < r')
  (if neg then ascii "-" else []) ++ (if pre then ascii "0x" else []) ++
    tailIn (if pre then r' - 2 else r') (if neg then -num else num) spec

theorem length_digits_le {base : ℕ} (hb : 2 ≤ base) (m : U64) :
    (Nat.digits base m.toNat).length ≤ 64 := by
  rw [Nat.digits_length_le_iff (by omega)]
  exact lt_of_lt_of_le m.isLt (Nat.pow_le_pow_left hb 64)

theorem decide_gt_ofNat {x : U64} {n : ℕ} (hn : n < 2 ^ 64) :
    decide (x > BitVec.ofNat 64 n) = decide (n < x.toNat) := by
  congr 1
  rw [gt_iff_lt, BitVec.lt_def, BitVec.toNat_ofNat, Nat.mod_eq_of_lt hn]

/-- Taking `n` bytes off a size that has more. -/
theorem toNat_take {size : U64} (hr : 0 < size.toNat) {c : Bool} {n : ℕ}
    (h : c = true → n < size.toNat) :
    (if c then size - BitVec.ofNat 64 n else size).toNat
        = (if c then size.toNat - n else size.toNat) ∧
      0 < (if c then size - BitVec.ofNat 64 n else size).toNat := by
  cases c with
  | false => exact ⟨rfl, hr⟩
  | true =>
    have hlt := h rfl
    have hsub : (size - BitVec.ofNat 64 n).toNat = size.toNat - n := by
      have := size.isLt
      rw [BitVec.toNat_sub, BitVec.toNat_ofNat]
      omega
    simp only [if_true]
    omega

section Number

variable {size : U64} {spec : FmtSpecifier} (hb : 2 ≤ spec.base.toNat)

include hb in
theorem length_digitsOf_le (m : U64) : (digitsOf m spec).length ≤ 64 := by
  rw [digitsOf, List.length_map, List.length_reverse]
  exact length_digits_le hb m

include hb in
/-- `number` behind its sign and prefix is the padding loop and the copy loop, whatever the size. -/
theorem numberTail_loops (size m : U64) :
    (let tmp := tmpDigits (spec.has FMT.uppercase) (spec.base.setWidth 64) 64 m
      let pad := spec.has FMT.zeroPadding && decide (spec.width.toNat > tmp.length)
      let (zeros, size) :=
        if pad then padZeros (spec.width.toNat - tmp.length) size else ([], size)
      zeros ++ copyDigits tmp.reverse size) =
        (padZeros (padding m spec) size).1 ++
          copyDigits (digitsOf m spec) (padZeros (padding m spec) size).2 := by
  have hbase : (spec.base.setWidth 64 : U64).toNat = spec.base.toNat := by
    rw [BitVec.toNat_setWidth]
    have := spec.base.isLt
    omega
  have htmp : tmpDigits (spec.has FMT.uppercase) (spec.base.setWidth 64) 64 m
      = (Nat.digits spec.base.toNat m.toNat).map (digitChar (spec.has FMT.uppercase)) := by
    rw [tmpDigits_base _ (by rw [hbase]; exact hb), hbase]
  have hds : (List.map (digitChar (spec.has FMT.uppercase))
      (Nat.digits spec.base.toNat m.toNat)).reverse = digitsOf m spec := by
    rw [digitsOf, List.map_reverse]
  simp only [htmp, hds, List.length_map]
  by_cases hp : spec.has FMT.zeroPadding = true ∧
      spec.width.toNat > (Nat.digits spec.base.toNat m.toNat).length
  · have hpad : padding m spec
        = spec.width.toNat - (Nat.digits spec.base.toNat m.toNat).length := by
      rw [padding, if_pos hp.1]
    simp only [hp.1, hp.2, decide_true, Bool.and_self, if_true, ← hpad]
  · have hpad : padding m spec = 0 := by
      unfold padding
      split
      · rename_i hz
        exact Nat.sub_eq_zero_of_le (not_lt.mp fun h => hp ⟨hz, h⟩)
      · rfl
    have hoff : (spec.has FMT.zeroPadding && decide (spec.width.toNat >
        (Nat.digits spec.base.toNat m.toNat).length)) = false := by
      simpa using hp
    simp only [hoff, hpad, Bool.false_eq_true, if_false, padZeros]

include hb in
/-- The zeros and the digits that are stored where a byte at least is left... -/
theorem numberTail_eq (hr : 0 < size.toNat) {m : U64} (hm : m ≠ 0) :
    (padZeros (padding m spec) size).1 ++
      copyDigits (digitsOf m spec) (padZeros (padding m spec) size).2
        = tailIn size.toNat m spec := by
  rw [tailIn, if_neg hm]
  by_cases hlt : padding m spec < size.toNat
  · obtain ⟨hz, hs⟩ := padZeros_eq (padding m spec) hlt
    rw [if_pos hlt, hz, copyDigits_eq _ (by omega), hs]
  · rw [if_neg hlt, padZeros_cut _ hr (by omega), copyDigits_zero (length_digitsOf_le hb m)]

include hb in
/-- ...and where none is: the first decrement wraps, so all of them are. -/
theorem numberTail_zero (m : U64) :
    (padZeros (padding m spec) 0).1 ++
      copyDigits (digitsOf m spec) (padZeros (padding m spec) 0).2
        = List.replicate (padding m spec) 48 ++ digitsOf m spec := by
  have hlen := length_digitsOf_le hb m
  have hwidth := spec.width.isLt
  have hwrap : (0 - 1 : U64).toNat = 2 ^ 64 - 1 := by decide
  have hle : padding m spec ≤ spec.width.toNat := by
    unfold padding
    split <;> omega
  cases hp : padding m spec with
  | zero => rw [padZeros, copyDigits_zero hlen, List.replicate_zero]
  | succ k =>
    obtain ⟨hz, hs⟩ := padZeros_eq k (show k < (0 - 1 : U64).toNat by rw [hwrap]; omega)
    rw [hwrap] at hs
    rw [padZeros, if_pos (by decide)]
    simp only [hz]
    rw [copyDigits_eq _ (by omega), hs, List.take_of_length_le (by omega), List.replicate_succ]

include hb in
/-- **`number` in natural numbers**, where a byte at least is left. -/
theorem number_eq (hr : 0 < size.toNat) (num : U64) :
    number size num spec = numberIn size.toNat num spec := by
  have hneg : (spec.has FMT.signed && decide (num.toInt < 0) && decide (size > 1#64))
      = (isNegative num spec && decide (1 < size.toNat)) := by
    rw [isNegative, decide_gt_ofNat (by norm_num)]
  rw [number, numberIn]
  simp only [BitVec.ofNat_eq_ofNat, hneg]
  generalize hn : (isNegative num spec && decide (1 < size.toNat)) = neg
  obtain ⟨hr', hpos'⟩ := toNat_take hr (c := neg) (n := 1) fun hc => by
    rw [hc, Bool.and_eq_true, decide_eq_true_eq] at hn
    exact hn.2
  rw [← hr']
  generalize (if neg then size - 1#64 else size) = size' at hr' hpos'
  rw [decide_gt_ofNat (x := size') (n := 2) (by norm_num)]
  generalize hp : (spec.has FMT.pre && decide (2 < size'.toNat)) = pre
  obtain ⟨hr'', hpos''⟩ := toNat_take hpos' (c := pre) (n := 2) fun hc => by
    rw [hc, Bool.and_eq_true, decide_eq_true_eq] at hp
    exact hp.2
  rw [← hr'']
  congr 1
  by_cases hm : (if neg then -num else num) = 0#64
  · rw [if_pos hm, tailIn]
    exact (if_pos hm).symm
  · rw [if_neg hm]
    exact (numberTail_loops hb _ _).trans (numberTail_eq hb hpos'' hm)

end Number

/-- The absolute value of a number that is printed with its sign. -/
def magnitude (num : U64) (spec : FmtSpecifier) : U64 := if isNegative num spec then -num else num

/-- The zeros and the digits of a number.  A zero is not padded. -/
def tailText (m : U64) (spec : FmtSpecifier) : List U8 :=
  if m = 0 then ascii "0" else List.replicate (padding m spec) 48 ++ digitsOf m spec

/-- With no byte left a number is stored whole, but for its sign and its prefix. -/
theorem number_zero {spec : FmtSpecifier} (hb : 2 ≤ spec.base.toNat) (num : U64) :
    number 0 num spec = tailText num spec := by
  have hsign : decide ((0 : U64) > 1) = false := by decide
  have hpre : decide ((0 : U64) > 2) = false := by decide
  rw [number, tailText]
  simp only [hsign, hpre, Bool.and_false, Bool.false_eq_true, if_false, List.nil_append]
  by_cases hm : num = 0
  · rw [if_pos hm, if_pos hm]
  · rw [if_neg hm, if_neg hm]
    exact (numberTail_loops hb _ _).trans (numberTail_zero hb num)

/-- **The text of a number**, whatever the size. -/
def numberText (num : U64) (spec : FmtSpecifier) : List U8 :=
  (if isNegative num spec then ascii "-" else []) ++
    (if spec.has FMT.pre then ascii "0x" else []) ++
    tailText (magnitude num spec) spec

theorem tailText_ne_nil (m : U64) (spec : FmtSpecifier) : 0 < (tailText m spec).length := by
  unfold tailText
  split
  · decide
  · rename_i hm
    have hne : m.toNat ≠ 0 := fun h => hm (BitVec.eq_of_toNat_eq h)
    have hd : Nat.digits spec.base.toNat m.toNat ≠ [] := Nat.digits_ne_nil_iff_ne_zero.mpr hne
    have := List.length_pos_iff.mpr hd
    simp only [List.length_append, digitsOf, List.length_map, List.length_reverse]
    omega

theorem tailIn_fits {r : ℕ} {m : U64} {spec : FmtSpecifier} (h : (tailText m spec).length < r) :
    tailIn r m spec = tailText m spec := by
  unfold tailText at h ⊢
  unfold tailIn
  split
  · rfl
  · rename_i hm
    rw [if_neg hm, List.length_append, List.length_replicate] at h
    rw [if_pos (by omega), List.take_of_length_le (by omega)]

/-- **A number that fits is printed**, with a byte to spare for the NUL. -/
theorem numberIn_fits {r : ℕ} {num : U64} {spec : FmtSpecifier}
    (h : (numberText num spec).length < r) : numberIn r num spec = numberText num spec := by
  have htail := tailText_ne_nil (magnitude num spec) spec
  unfold numberText at h ⊢
  simp only [List.length_append] at h
  have hneg : (isNegative num spec && decide (1 < r)) = isNegative num spec := by
    rw [decide_eq_true (by omega), Bool.and_true]
  simp only [numberIn, hneg]
  have hminus : (if isNegative num spec then ascii "-" else []).length
      = if isNegative num spec then 1 else 0 := by
    split <;> rfl
  have hpre : (if spec.has FMT.pre then ascii "0x" else []).length
      = if spec.has FMT.pre then 2 else 0 := by
    split <;> rfl
  have hpre' : (spec.has FMT.pre && decide (2 < if isNegative num spec then r - 1 else r))
      = spec.has FMT.pre := by
    cases hp : spec.has FMT.pre with
    | false => rfl
    | true =>
      rw [hminus, hpre, hp] at h
      simp only [if_true] at h
      rw [Bool.true_and, decide_eq_true]
      split at h <;> simp_all <;> omega
  rw [hpre', ← magnitude, tailIn_fits]
  rw [hminus, hpre] at h
  split at h <;> split at h <;> simp_all <;> omega

end RvKernel.Text
