/-
# The numerals `strtou64` reads (`string.c`)

`strtou64` looks for a sign, then for the prefix of base 2 or of base 16, and then folds the rest of
the string into a number.  This module says what a reader of those three steps expects of it
(`Reads`): a grammar of numerals over each of the bases 2, 10 and 16, the value of a numeral,
negated modulo `2 ^ 64` behind a sign, and 0 for every string that is no numeral or whose value does
not fit.

The function keeps that for the unsigned numerals that fit and have no letters, and for little else:
the sign is found and then forgotten, a letter is no digit to the loop, the six bytes after `9` are
digits of base 16 to it, and a value that does not fit is taken modulo `2 ^ 64`.
`strtou64_reads_iff` gives the exact condition.

Contents
* §1  the grammar, and what is expected of a string
* §2  the one way to read a string as a numeral
* §3  what the loop makes of the rest of the string
* §4  the condition, and the theorem
-/
import RvKernel.Text.Str

namespace RvKernel.Text

/-! ## 1. The grammar -/

/-- The bases `strtou64` is called with. -/
inductive Base where
  | bin
  | dec
  | hex
  deriving DecidableEq

/-- The base as a number. -/
def Base.size : Base → ℕ
  | .bin => 2
  | .dec => 10
  | .hex => 16

/-- The prefixes a numeral of the base may start with. -/
def Base.leads : Base → List (List U8)
  | .bin => [ascii "0b", ascii "0B"]
  | .dec => []
  | .hex => [ascii "0x", ascii "0X"]

/-- What a byte is worth as a digit: `0`–`9`, and `a`–`f` in either case.  Every other byte is worth
16, which is no digit of any of the bases. -/
def weight (c : U8) : ℕ :=
  if IsDecimal c then c.toNat - 48
  else if 97 ≤ c.toNat ∧ c.toNat ≤ 102 then c.toNat - 87
  else if 65 ≤ c.toNat ∧ c.toNat ≤ 70 then c.toNat - 55
  else 16

/-- The value of a string of digits, most significant first. -/
def numeralValue (b : Base) (ds : List U8) : ℕ := ds.foldl (fun v c => v * b.size + weight c) 0

/-- `s` is a numeral of the base: a sign if `neg`, at most one of the base's prefixes, and the
digits `ds`, of which there is at least one. -/
structure Numeral (b : Base) (s : List U8) (neg : Bool) (ds : List U8) : Prop where
  eq : ∃ lead, (lead = [] ∨ lead ∈ b.leads) ∧ s = (if neg then ascii "-" else []) ++ (lead ++ ds)
  ne : ds ≠ []
  digits : ∀ c ∈ ds, weight c < b.size

/-- **What is expected of a string**: the value of a numeral that fits, negated modulo `2 ^ 64`
behind a sign, and 0 for every other string. -/
def Reads (b : Base) (s : List U8) (r : U64) : Prop :=
  (∀ neg ds, Numeral b s neg ds → numeralValue b ds < 2 ^ 64 →
    r = if neg then BitVec.ofNat 64 (2 ^ 64 - numeralValue b ds)
      else BitVec.ofNat 64 (numeralValue b ds)) ∧
  ((∀ neg ds, Numeral b s neg ds → 2 ^ 64 ≤ numeralValue b ds) → r = 0)

/-! ## 2. The one way to read a string -/

/-- The string past its prefix, if it has one. -/
def unled (b : Base) (t : List U8) : List U8 := if ∃ lead ∈ b.leads, lead <+: t then t.drop 2 else t

/-- The string past its sign and its prefix. -/
def body (b : Base) (s : List U8) : List U8 := unled b (unsigned s)

theorem length_lead {b : Base} {lead : List U8} (h : lead ∈ b.leads) : lead.length = 2 := by
  cases b <;> fin_cases h <;> rfl

/-- A prefix has a byte that is no digit of its base. -/
theorem exists_mem_lead {b : Base} {lead : List U8} (h : lead ∈ b.leads) :
    ∃ c ∈ lead, ¬ weight c < b.size := by
  cases b <;> fin_cases h
  all_goals exact List.any_iff_exists_prop.mp rfl

/-- A prefix is no sign. -/
theorem not_sign_lead {b : Base} {lead : List U8} (h : lead ∈ b.leads) (ds : List U8) :
    ¬ ascii "-" <+: lead ++ ds := by
  rintro ⟨t, ht⟩
  cases b <;> fin_cases h
  all_goals exact absurd (List.cons_eq_cons.mp ht).1 (by decide)

/-- A digit is no sign. -/
theorem not_sign_digits {b : Base} {ds : List U8} (hds : ∀ c ∈ ds, weight c < b.size) :
    ¬ ascii "-" <+: ds := by
  intro hpre
  have hd := hds 45 (hpre.subset (List.mem_singleton.mpr rfl))
  have hw : weight 45 = 16 := by decide
  rw [hw] at hd
  cases b <;> exact absurd hd (by decide)

theorem unled_lead {b : Base} {lead : List U8} (h : lead ∈ b.leads) (ds : List U8) :
    unled b (lead ++ ds) = ds := by
  unfold unled
  rw [if_pos ⟨lead, h, List.prefix_append _ _⟩, ← length_lead h, List.drop_left]

theorem unled_digits {b : Base} {ds : List U8} (hds : ∀ c ∈ ds, weight c < b.size) :
    unled b ds = ds := by
  unfold unled
  rw [if_neg]
  rintro ⟨lead, hlead, hpre⟩
  obtain ⟨c, hc, hbad⟩ := exists_mem_lead hlead
  exact hbad (hds c (hpre.subset hc))

/-- The string is a prefix or nothing, followed by its part past the prefix. -/
theorem eq_lead_append_unled (b : Base) (t : List U8) :
    ∃ lead, (lead = [] ∨ lead ∈ b.leads) ∧ t = lead ++ unled b t := by
  unfold unled
  by_cases h : ∃ lead ∈ b.leads, lead <+: t
  · rw [if_pos h]
    obtain ⟨lead, hlead, rest, rfl⟩ := h
    refine ⟨lead, Or.inr hlead, ?_⟩
    rw [← length_lead hlead, List.drop_left]
  · rw [if_neg h]
    exact ⟨[], Or.inl rfl, rfl⟩

theorem eq_sign_append_unsigned (s : List U8) :
    s = (if ascii "-" <+: s then ascii "-" else []) ++ unsigned s := by
  unfold unsigned
  by_cases h : ascii "-" <+: s
  · rw [if_pos h, if_pos h]
    obtain ⟨rest, rfl⟩ := h
    rfl
  · rw [if_neg h, if_neg h, List.nil_append]

theorem unsigned_of_not {s : List U8} (h : ¬ ascii "-" <+: s) : unsigned s = s := if_neg h

theorem unsigned_sign (s : List U8) : unsigned (ascii "-" ++ s) = s := by
  unfold unsigned
  rw [if_pos (List.prefix_append _ _)]
  rfl

/-- **A string is a numeral in one way at most**: its sign is the one it starts with, and its digits
are its body. -/
theorem numeral_iff (b : Base) (s : List U8) (neg : Bool) (ds : List U8) :
    Numeral b s neg ds ↔ (neg = true ↔ ascii "-" <+: s) ∧ ds = body b s ∧ ds ≠ [] ∧
      ∀ c ∈ ds, weight c < b.size := by
  constructor
  · rintro ⟨⟨lead, hlead, rfl⟩, hne, hds⟩
    -- past the sign there is no other, whether a prefix or a digit follows
    have hsign : ¬ ascii "-" <+: lead ++ ds := by
      rcases hlead with rfl | hlead
      · exact not_sign_digits hds
      · exact not_sign_lead hlead ds
    have hunled : unled b (lead ++ ds) = ds := by
      rcases hlead with rfl | hlead
      · exact unled_digits hds
      · exact unled_lead hlead ds
    unfold body
    cases neg with
    | true =>
      refine ⟨iff_of_true rfl (List.prefix_append _ _), ?_, hne, hds⟩
      rw [if_pos rfl, unsigned_sign, hunled]
    | false =>
      rw [if_neg Bool.false_ne_true, List.nil_append]
      refine ⟨iff_of_false Bool.false_ne_true hsign, ?_, hne, hds⟩
      rw [unsigned_of_not hsign, hunled]
  · rintro ⟨hneg, rfl, hne, hds⟩
    refine ⟨?_, hne, hds⟩
    obtain ⟨lead, hlead, ht⟩ := eq_lead_append_unled b (unsigned s)
    refine ⟨lead, hlead, ?_⟩
    have hs := eq_sign_append_unsigned s
    simp only [← hneg] at hs
    unfold body
    rw [← ht]
    exact hs

/-- What is expected of a string, in terms of its sign and its body. -/
theorem reads_iff (b : Base) (s : List U8) (r : U64) : Reads b s r ↔
    if body b s ≠ [] ∧ (∀ c ∈ body b s, weight c < b.size) ∧ numeralValue b (body b s) < 2 ^ 64 then
      r = if ascii "-" <+: s then BitVec.ofNat 64 (2 ^ 64 - numeralValue b (body b s))
        else BitVec.ofNat 64 (numeralValue b (body b s))
    else r = 0 := by
  unfold Reads
  simp only [numeral_iff]
  split
  · rename_i h
    obtain ⟨hne, hds, hlt⟩ := h
    constructor
    · rintro ⟨hval, -⟩
      have hr := hval (decide (ascii "-" <+: s)) _ ⟨decide_eq_true_iff, rfl, hne, hds⟩ hlt
      simpa only [decide_eq_true_eq] using hr
    · intro hr
      refine ⟨?_, fun hall => ?_⟩
      · rintro neg ds ⟨hneg, rfl, -, -⟩ -
        simp only [hneg]
        exact hr
      · exact absurd (hall (decide (ascii "-" <+: s)) _ ⟨decide_eq_true_iff, rfl, hne, hds⟩)
          (Nat.not_le.mpr hlt)
  · rename_i h
    constructor
    · rintro ⟨-, hzero⟩
      apply hzero
      rintro neg ds ⟨-, rfl, hne, hds⟩
      exact Nat.not_lt.mp fun hlt => h ⟨hne, hds, hlt⟩
    · intro hr
      refine ⟨?_, fun _ => hr⟩
      rintro neg ds ⟨-, rfl, hne, hds⟩ hlt
      exact absurd ⟨hne, hds, hlt⟩ h

/-! ## 3. What the loop makes of the body -/

/-- The number the loop of `strtou64` makes of a string. -/
def loopValue (b : Base) (t : List U8) : U64 :=
  if t.all fun c => InBase b.size c then BitVec.ofNat 64 (digitsValue b.size t) else 0

theorem loopValue_of_all {b : Base} {t : List U8} (h : ∀ c ∈ t, InBase b.size c) :
    loopValue b t = BitVec.ofNat 64 (digitsValue b.size t) :=
  if_pos (List.all_iff_forall_prop.mpr h)

theorem loopValue_of_not {b : Base} {t : List U8} (h : ¬ ∀ c ∈ t, InBase b.size c) :
    loopValue b t = 0 :=
  if_neg fun hall => h (List.all_iff_forall_prop.mp hall)

theorem size_le (b : Base) : b.size ≤ 16 := by
  cases b <;> decide

theorem toNat_size (b : Base) : (BitVec.ofNat 64 b.size).toNat = b.size := by
  cases b <;> rfl

theorem ofNat_size_inj {b b' : Base} :
    BitVec.ofNat 64 b.size = BitVec.ofNat 64 b'.size ↔ b = b' := by
  cases b <;> cases b' <;> decide

theorem run_loop (b : Base) {q : Ptr} {t : List U8} (h : PointsTo q t) :
    strtou64Loop (BitVec.ofNat 64 b.size) q 0 = .ok (loopValue b t) := by
  have hrun := run_strtou64Loop (toNat_size b ▸ size_le b) h 0
  rw [toNat_size] at hrun
  by_cases hall : ∀ c ∈ t, InBase b.size c
  · rw [if_pos hall] at hrun
    rw [loopValue_of_all hall]
    exact hrun
  · rw [if_neg hall] at hrun
    rw [loopValue_of_not hall]
    exact hrun

/-- A prefix has a byte that is no digit of any base to the loop. -/
theorem exists_mem_lead_large {b : Base} {lead : List U8} (h : lead ∈ b.leads) :
    ∃ c ∈ lead, 64 ≤ c.toNat := by
  cases b <;> fin_cases h
  all_goals exact List.any_iff_exists_prop.mp rfl

theorem leads_disjoint {b b' : Base} {lead : List U8} (h : lead ∈ b.leads) (h' : lead ∈ b'.leads) :
    b = b' := by
  cases b <;> cases b' <;> first | rfl | (fin_cases h <;> exact absurd h' (by decide))

/-- A string with another base's prefix: there is none of this base's to skip, and the loop would
return 0 too. -/
theorem foreign_lead {b b' : Base} (hne : b ≠ b') {lead t : List U8} (h : lead ∈ b'.leads)
    (hpre : lead <+: t) : loopValue b (unled b t) = 0 := by
  have hunled : unled b t = t := by
    unfold unled
    rw [if_neg]
    rintro ⟨lead', h', hpre'⟩
    have hlen : lead'.length = lead.length := (length_lead h').trans (length_lead h).symm
    have heq := List.IsPrefix.eq_of_length (List.prefix_of_prefix_length_le hpre' hpre hlen.le) hlen
    exact hne (leads_disjoint (heq ▸ h') h)
  obtain ⟨c, hc, hlarge⟩ := exists_mem_lead_large h
  rw [hunled]
  apply loopValue_of_not
  intro hall
  have hin := (hall c (hpre.subset hc)).2
  have hsize := size_le b
  omega

/-- The branch of `strtou64` at the prefix of one of the bases. -/
theorem run_lead (b b' : Base) {q : Ptr} {t : List U8} (hq : PointsTo q t)
    (h : ∃ lead ∈ b'.leads, lead <+: t) :
    (if BitVec.ofNat 64 b.size ≠ BitVec.ofNat 64 b'.size then (.ok 0 : TM U64)
      else strtou64Loop (BitVec.ofNat 64 b.size) (q.drop 2) 0) = .ok (loopValue b (unled b t)) := by
  by_cases hb : b = b'
  · subst hb
    have hlen : 2 ≤ t.length := by
      obtain ⟨lead, hlead, hpre⟩ := h
      exact length_lead hlead ▸ hpre.length_le
    rw [if_neg (not_not_intro rfl), run_loop b (hq.drop hlen)]
    unfold unled
    rw [if_pos h]
  · obtain ⟨lead, hlead, hpre⟩ := h
    rw [if_pos (mt ofNat_size_inj.mp hb), foreign_lead hb hlead hpre]

theorem startsWith_iff (w w' : String) (t : List U8) :
    StartsWith w w' t ↔ ∃ lead ∈ [ascii w, ascii w'], lead <+: t := by
  simp [StartsWith]

/-- **`strtou64` on a string of any kind**: what its loop makes of the body. -/
theorem strtou64_body (b : Base) {p : Ptr} {s : List U8} (h : PointsTo p s) :
    strtou64 p (BitVec.ofNat 64 b.size) = .ok (loopValue b (body b s)) := by
  obtain ⟨q, hq, heq⟩ := strtou64_branches h (BitVec.ofNat 64 b.size)
  rw [heq]
  unfold body
  by_cases hbin : StartsWith "0b" "0B" (unsigned s)
  · rw [if_pos hbin]
    exact run_lead b .bin hq ((startsWith_iff _ _ _).mp hbin)
  by_cases hhex : StartsWith "0x" "0X" (unsigned s)
  · rw [if_neg hbin, if_pos hhex]
    exact run_lead b .hex hq ((startsWith_iff _ _ _).mp hhex)
  · have hunled : unled b (unsigned s) = unsigned s := by
      unfold unled
      rw [if_neg]
      cases b with
      | bin => exact mt (startsWith_iff _ _ _).mpr hbin
      | dec =>
        rintro ⟨lead, hlead, -⟩
        cases hlead
      | hex => exact mt (startsWith_iff _ _ _).mpr hhex
    rw [if_neg hbin, if_neg hhex, hunled, run_loop b hq]

/-! ## 4. Where it reads what it should -/

/-- The strings `strtou64` reads as expected, by their bodies.  A body of decimal digits has a
multiple of `2 ^ 64` for a value, or one that fits and, behind a sign, is its own negation; a body
with a letter has a value that does not fit; and a body that has one of the bytes `:`–`?` and only
these and decimal digits has a multiple of `2 ^ 64` for a value, when they are taken for the digits
10–15. -/
structure Harmless (b : Base) (s : List U8) : Prop where
  decimal : (∀ c ∈ body b s, IsDecimal c ∧ weight c < b.size) →
    2 ^ 64 ∣ numeralValue b (body b s) ∨
      numeralValue b (body b s) < 2 ^ 64 ∧ (ascii "-" <+: s → numeralValue b (body b s) = 2 ^ 63)
  letters : (∀ c ∈ body b s, weight c < b.size) → (∃ c ∈ body b s, ¬ IsDecimal c) →
    2 ^ 64 ≤ numeralValue b (body b s)
  marks : (∀ c ∈ body b s, InBase b.size c) → (∃ c ∈ body b s, ¬ IsDecimal c) →
    2 ^ 64 ∣ digitsValue b.size (body b s)

theorem weight_of_isDecimal {c : U8} (h : IsDecimal c) : weight c = c.toNat - 48 := if_pos h

/-- To the loop and to the grammar the decimal digits are the same. -/
theorem inBase_iff_weight_lt {c : U8} (h : IsDecimal c) (b : Base) :
    InBase b.size c ↔ weight c < b.size := by
  rw [weight_of_isDecimal h]
  unfold IsDecimal at h
  unfold InBase
  omega

/-- No other byte is a digit to both. -/
theorem not_inBase_of_weight_lt {c : U8} (h : ¬ IsDecimal c) {b : Base} (hw : weight c < b.size) :
    ¬ InBase b.size c ∧ 10 ≤ weight c := by
  have hsize := size_le b
  unfold weight at hw ⊢
  rw [if_neg h] at hw ⊢
  unfold IsDecimal at h
  unfold InBase
  split_ifs at hw ⊢ <;> omega

theorem numeralValue_decimal {b : Base} {ds : List U8} (h : ∀ c ∈ ds, IsDecimal c) :
    numeralValue b ds = digitsValue b.size ds := by
  unfold numeralValue digitsValue
  apply List.foldl_ext
  intro v c hc
  rw [weight_of_isDecimal (h c hc)]

theorem le_foldl_weight {b : Base} (ds : List U8) (v : ℕ) :
    v ≤ ds.foldl (fun v c => v * b.size + weight c) v := by
  have hpos : 0 < b.size := by
    cases b <;> decide
  induction ds generalizing v with
  | nil => exact le_rfl
  | cons c ds ih =>
    rw [List.foldl_cons]
    calc v ≤ v * b.size := Nat.le_mul_of_pos_right v hpos
      _ ≤ v * b.size + weight c := Nat.le_add_right _ _
      _ ≤ _ := ih _

/-- A numeral is worth at least as much as each of its digits. -/
theorem weight_le_numeralValue (b : Base) {ds : List U8} {c : U8} (hc : c ∈ ds) :
    weight c ≤ numeralValue b ds := by
  obtain ⟨pre, post, rfl⟩ := List.append_of_mem hc
  unfold numeralValue
  rw [List.foldl_append, List.foldl_cons]
  exact (Nat.le_add_left _ _).trans (le_foldl_weight post _)

theorem ofNat_eq_zero_iff (v : ℕ) : BitVec.ofNat 64 v = (0 : U64) ↔ 2 ^ 64 ∣ v := by
  rw [BitVec.toNat_eq, BitVec.toNat_ofNat, Nat.dvd_iff_mod_eq_zero]
  rfl

/-- The numbers that are their own negation. -/
theorem ofNat_eq_neg_iff {v : ℕ} (h : v < 2 ^ 64) :
    BitVec.ofNat 64 v = BitVec.ofNat 64 (2 ^ 64 - v) ↔ 2 ^ 64 ∣ v ∨ v = 2 ^ 63 := by
  rw [BitVec.toNat_eq, BitVec.toNat_ofNat, BitVec.toNat_ofNat]
  omega

/-- A body of decimal digits: the loop takes the digits the grammar has, and may lose the sign or
wrap. -/
theorem reads_decimal_iff {b : Base} {s : List U8}
    (h : ∀ c ∈ body b s, IsDecimal c ∧ weight c < b.size) :
    Reads b s (loopValue b (body b s)) ↔ 2 ^ 64 ∣ numeralValue b (body b s) ∨
      numeralValue b (body b s) < 2 ^ 64 ∧
        (ascii "-" <+: s → numeralValue b (body b s) = 2 ^ 63) := by
  have hloop : loopValue b (body b s) = BitVec.ofNat 64 (numeralValue b (body b s)) := by
    rw [loopValue_of_all fun c hc => (inBase_iff_weight_lt (h c hc).1 b).mpr (h c hc).2,
      numeralValue_decimal fun c hc => (h c hc).1]
  have hempty : body b s = [] → 2 ^ 64 ∣ numeralValue b (body b s) := by
    intro hnil
    rw [hnil]
    exact Nat.dvd_zero _
  rw [reads_iff, hloop]
  generalize numeralValue b (body b s) = v at hempty ⊢
  by_cases hne : body b s = []
  · rw [if_neg (fun hall => hall.1 hne), ofNat_eq_zero_iff]
    exact iff_of_true (hempty hne) (Or.inl (hempty hne))
  by_cases hlt : v < 2 ^ 64
  · rw [if_pos ⟨hne, fun c hc => (h c hc).2, hlt⟩]
    by_cases hneg : ascii "-" <+: s
    · rw [if_pos hneg, ofNat_eq_neg_iff hlt]
      simp only [hlt, hneg, true_and, forall_const]
    · rw [if_neg hneg]
      simp only [hlt, hneg, false_imp_iff, and_true, or_true]
  · rw [if_neg (fun hall => hlt hall.2.2), ofNat_eq_zero_iff]
    simp only [hlt, false_and, or_false]

/-- A body of digits with a letter among them: the loop gives 0, which is the value of none. -/
theorem reads_letters_iff {b : Base} {s : List U8} (h : ∀ c ∈ body b s, weight c < b.size)
    (hletter : ∃ c ∈ body b s, ¬ IsDecimal c) :
    Reads b s (loopValue b (body b s)) ↔ 2 ^ 64 ≤ numeralValue b (body b s) := by
  obtain ⟨c, hc, hnd⟩ := hletter
  have hc' := not_inBase_of_weight_lt hnd (h c hc)
  have hloop : loopValue b (body b s) = 0 := loopValue_of_not fun hall => hc'.1 (hall c hc)
  have hpos := hc'.2.trans (weight_le_numeralValue b hc)
  rw [reads_iff, hloop]
  generalize numeralValue b (body b s) = v at hpos ⊢
  by_cases hlt : v < 2 ^ 64
  · rw [if_pos ⟨List.ne_nil_of_mem hc, h, hlt⟩]
    refine iff_of_false (fun h0 => ?_) (Nat.not_le.mpr hlt)
    split at h0
    · have hdvd := (ofNat_eq_zero_iff _).mp h0.symm
      omega
    · have hdvd := (ofNat_eq_zero_iff _).mp h0.symm
      omega
  · rw [if_neg (fun hall => hlt hall.2.2)]
    exact iff_of_true rfl (Nat.not_lt.mp hlt)

/-- A body with a byte that is no digit: 0 is expected, and the loop may take the byte for one. -/
theorem reads_other_iff {b : Base} {s : List U8} (h : ∃ c ∈ body b s, ¬ weight c < b.size) :
    Reads b s (loopValue b (body b s)) ↔
      ((∀ c ∈ body b s, InBase b.size c) → 2 ^ 64 ∣ digitsValue b.size (body b s)) := by
  obtain ⟨c, hc, hbad⟩ := h
  rw [reads_iff, if_neg fun hall => hbad (hall.2.1 c hc)]
  by_cases hall : ∀ c ∈ body b s, InBase b.size c
  · rw [loopValue_of_all hall, ofNat_eq_zero_iff]
    exact ⟨fun hdvd _ => hdvd, fun himp => himp hall⟩
  · rw [loopValue_of_not hall]
    exact iff_of_true rfl fun hin => absurd hin hall

/-- **`strtou64` reads a string as it should exactly if the string is `Harmless`**, for each of the
three bases and every string. -/
theorem strtou64_reads_iff (b : Base) {p : Ptr} {s : List U8} (h : PointsTo p s) :
    (∃ r, strtou64 p (BitVec.ofNat 64 b.size) = .ok r ∧ Reads b s r) ↔ Harmless b s := by
  have hrun : (∃ r, strtou64 p (BitVec.ofNat 64 b.size) = .ok r ∧ Reads b s r) ↔
      Reads b s (loopValue b (body b s)) := by
    simp [strtou64_body b h]
  rw [hrun]
  by_cases hds : ∀ c ∈ body b s, weight c < b.size
  · by_cases hdec : ∀ c ∈ body b s, IsDecimal c
    · have hall := fun c hc => And.intro (hdec c hc) (hds c hc)
      have hno : ¬ ∃ c ∈ body b s, ¬ IsDecimal c := by
        rintro ⟨c, hc, hnd⟩
        exact hnd (hdec c hc)
      rw [reads_decimal_iff hall]
      exact ⟨fun hv => ⟨fun _ => hv, fun _ hex => absurd hex hno, fun _ hex => absurd hex hno⟩,
        fun hh => hh.decimal hall⟩
    · have hnall : ¬ ∀ c ∈ body b s, IsDecimal c ∧ weight c < b.size :=
        fun hall => hdec fun c hc => (hall c hc).1
      push Not at hdec
      rw [reads_letters_iff hds hdec]
      refine ⟨fun hv => ⟨fun hall => absurd hall hnall, fun _ _ => hv, fun hin => ?_⟩,
        fun hh => hh.letters hds hdec⟩
      obtain ⟨c, hc, hnd⟩ := hdec
      exact absurd (hin c hc) (not_inBase_of_weight_lt hnd (hds c hc)).1
  · have hnall : ¬ ∀ c ∈ body b s, IsDecimal c ∧ weight c < b.size :=
      fun hall => hds fun c hc => (hall c hc).2
    have hbad : ∃ c ∈ body b s, ¬ weight c < b.size := by
      push Not at hds ⊢
      exact hds
    rw [reads_other_iff hbad]
    refine ⟨fun hv => ⟨fun hall => absurd hall hnall, fun hall => absurd hall hds,
      fun hin _ => hv hin⟩, fun hh hin => hh.marks hin ?_⟩
    -- a byte that is a digit to the loop only is no decimal digit
    obtain ⟨c, hc, hw⟩ := hbad
    exact ⟨c, hc, fun hdec => hw ((inBase_iff_weight_lt hdec b).mp (hin c hc))⟩

/-- Base 16, with its prefix and no letters. -/
theorem strtou64_reads_hundred : PointsTo (literal "0x64") (ascii "0x64") ∧
    strtou64 (literal "0x64") 16 = .ok 100 ∧
    ∃ r, strtou64 (literal "0x64") 16 = .ok r ∧ Reads .hex (ascii "0x64") r := by
  have hp : PointsTo (literal "0x64") (ascii "0x64") := pointsTo_literal rfl
  refine ⟨hp, by decide, (strtou64_reads_iff .hex hp).mpr ⟨fun _ => Or.inr ?_, ?_, ?_⟩⟩
  · exact ⟨by decide, fun hneg => absurd hneg (by decide)⟩
  · exact fun _ hex => absurd hex (by decide)
  · exact fun _ hex => absurd hex (by decide)

/-- **The sign is lost**: `-5` is read as 5. -/
theorem strtou64_drops_sign : PointsTo (literal "-5") (ascii "-5") ∧
    strtou64 (literal "-5") 10 = .ok 5 ∧ ¬ Reads .dec (ascii "-5") 5 := by
  refine ⟨pointsTo_literal rfl, by decide, ?_⟩
  rw [reads_iff]
  decide

end RvKernel.Text
