/-
# Strings (`string.c`)

A `char *` is modelled by what it can be used for: the bytes from the pointed-to one up to the end
of the array it points into (`Ptr`).  Incrementing a pointer drops a byte; a pointer one past the
end is `[]`, which is fine to hold and a fault to read.  So a function that reads a string past its
NUL does not return here, once the array ends with that NUL.

`PointsTo p s` says that `p` points to the NUL-terminated string `s`; each function of the source
has one lemma that says what it returns for such pointers.
-/
import Mathlib.Data.Bool.AllAny
import RvKernel.Lib.Word

namespace RvKernel.Text

/-! ## 1. Pointers -/

/-- The bytes from a `char *` to the end of its array. -/
abbrev Ptr := List U8

/-- Why a text function does not return. -/
inductive Fault where
  /-- a byte outside the array was read -/
  | read
  /-- `va_arg` found no argument, or one of another type -/
  | vaArg
  /-- a loop was cut off by the model -/
  | fuel
  deriving DecidableEq

abbrev TM := Except Fault

/-- `*p`. -/
def deref : Ptr → TM U8
  | c :: _ => .ok c
  | [] => .error .read

section Except

variable {α β : Type}

@[simp] theorem ok_bind (a : α) (f : α → TM β) : ((.ok a : TM α) >>= f) = f a := rfl

@[simp] theorem error_bind (e : Fault) (f : α → TM β) :
    ((.error e : TM α) >>= f) = .error e := rfl

@[simp] theorem pure_eq (a : α) : (pure a : TM α) = .ok a := rfl

/-- A sequence that returns has run both its parts. -/
theorem bind_ok {x : TM α} {f : α → TM β} {b : β} (h : x >>= f = .ok b) :
    ∃ a, x = .ok a ∧ f a = .ok b := by
  cases x with
  | error e => cases h
  | ok a => exact ⟨a, rfl, h⟩

/-- A fault of a sequence is one of its parts. -/
theorem bind_ne_error {x : TM α} {f : α → TM β} {e : Fault} (hx : x ≠ .error e)
    (hf : ∀ a, x = .ok a → f a ≠ .error e) : x >>= f ≠ .error e := by
  cases x with
  | error e' =>
    rw [error_bind]
    intro h
    injection h with h
    exact hx (by rw [h])
  | ok a => exact hf a rfl

end Except

/-- The bytes of an ASCII literal, without its NUL. -/
def ascii (s : String) : List U8 := s.toList.map fun c => BitVec.ofNat 8 c.toNat

/-- A string literal: an array that ends with its NUL. -/
def literal (s : String) : Ptr := ascii s ++ [0]

/-- `p` points to the NUL-terminated string `s`. -/
structure PointsTo (p : Ptr) (s : List U8) : Prop where
  nul_free : ∀ c ∈ s, c ≠ 0
  eq : ∃ rest, p = s ++ 0 :: rest

theorem PointsTo.nil (rest : Ptr) : PointsTo (0 :: rest) [] := ⟨by simp, rest, rfl⟩

theorem PointsTo.cons {p : Ptr} {s : List U8} {c : U8} (h : PointsTo p s) (hc : c ≠ 0) :
    PointsTo (c :: p) (c :: s) := by
  obtain ⟨rest, rfl⟩ := h.eq
  refine ⟨?_, rest, rfl⟩
  intro d hd
  rcases List.mem_cons.mp hd with rfl | hd
  · exact hc
  · exact h.nul_free d hd

/-- A pointer to an empty string points to a NUL... -/
theorem PointsTo.of_nil {p : Ptr} (h : PointsTo p []) : ∃ rest, p = 0 :: rest := by
  obtain ⟨rest, rfl⟩ := h.eq
  exact ⟨rest, rfl⟩

/-- ...and a pointer to another string to its first byte, which is no NUL. -/
theorem PointsTo.of_cons {p : Ptr} {c : U8} {s : List U8} (h : PointsTo p (c :: s)) :
    ∃ p', p = c :: p' ∧ c ≠ 0 ∧ PointsTo p' s := by
  obtain ⟨rest, rfl⟩ := h.eq
  refine ⟨s ++ 0 :: rest, rfl, h.nul_free c List.mem_cons_self, ?_, rest, rfl⟩
  exact fun d hd => h.nul_free d (List.mem_cons_of_mem _ hd)

theorem pointsTo_append_nul {s : List U8} (h : ∀ c ∈ s, c ≠ 0) (rest : Ptr) :
    PointsTo (s ++ 0 :: rest) s := ⟨h, rest, rfl⟩

theorem pointsTo_of_append_nul {p : Ptr} {s : List U8} (hs : ∀ c ∈ s, c ≠ 0)
    (h : s ++ [0] <+: p) : PointsTo p s := by
  obtain ⟨rest, rfl⟩ := h
  rw [List.append_assoc]
  exact pointsTo_append_nul hs rest

theorem PointsTo.append_nul {p : Ptr} {s : List U8} (h : PointsTo p s) : s ++ [0] <+: p := by
  obtain ⟨rest, rfl⟩ := h.eq
  exact ⟨rest, (List.append_cons s 0 rest).symm⟩

/-! ## 2. `strcmp` and `strncmp` -/

/-- `*(unsigned char *)str1 - *(unsigned char *)str2`. -/
def charDiff (a b : U8) : Int := a.toNat - b.toNat

theorem charDiff_eq_zero {a b : U8} : charDiff a b = 0 ↔ a = b := by
  unfold charDiff
  rw [← BitVec.toNat_inj]
  omega

/-- `strcmp(str1, str2)`. -/
def strcmp : Ptr → Ptr → TM Int
  | [], _ => .error .read
  | c :: str1, str2 => do
    if c = 0 then
      return charDiff c (← deref str2)
    else if c ≠ (← deref str2) then
      return charDiff c (← deref str2)
    else
      strcmp str1 str2.tail

/-- `strncmp(str1, str2, n)`. -/
def strncmp : Ptr → Ptr → ℕ → TM Int
  | str1, str2, 0 => do return charDiff (← deref str1) (← deref str2)
  | str1, str2, n + 1 => do
    if (← deref str1) = 0 then
      return charDiff (← deref str1) (← deref str2)
    else if n = 0 then
      return charDiff (← deref str1) (← deref str2)
    else if (← deref str1) ≠ (← deref str2) then
      return charDiff (← deref str1) (← deref str2)
    else
      strncmp str1.tail str2.tail n

/-- One turn of its loop... -/
theorem strncmp_cons (a b : U8) (p q : Ptr) (n : ℕ) :
    strncmp (a :: p) (b :: q) (n + 1) =
      if a = 0 ∨ n = 0 ∨ a ≠ b then .ok (charDiff a b) else strncmp p q n := by
  rw [strncmp]
  simp only [deref, ok_bind, pure_eq, List.tail_cons]
  by_cases ha : a = 0
  · rw [if_pos ha, if_pos (Or.inl ha)]
  · by_cases hn : n = 0
    · rw [if_neg ha, if_pos hn, if_pos (Or.inr (Or.inl hn))]
    · by_cases hab : a = b
      · rw [if_neg ha, if_neg hn, if_neg (not_not_intro hab), if_neg (by tauto)]
      · rw [if_neg ha, if_neg hn, if_pos hab, if_pos (Or.inr (Or.inr hab))]

/-- ...and of that of `strcmp`. -/
theorem strcmp_cons (a b : U8) (p q : Ptr) :
    strcmp (a :: p) (b :: q) = if a = 0 ∨ a ≠ b then .ok (charDiff a b) else strcmp p q := by
  rw [strcmp]
  simp only [deref, ok_bind, pure_eq, List.tail_cons]
  by_cases ha : a = 0
  · rw [if_pos ha, if_pos (Or.inl ha)]
  · by_cases hab : a = b
    · rw [if_neg ha, if_neg (not_not_intro hab), if_neg (by tauto)]
    · rw [if_neg ha, if_pos hab, if_pos (Or.inr hab)]

/-! ## 3. Where a comparison stops -/

section Compare

variable {s t : List U8} {n : ℕ}

/-- The byte of a string at an index; behind its end stands the NUL. -/
def byteAt (s : List U8) (i : ℕ) : U8 := s.getD i 0

theorem byteAt_eq_zero_iff (hs : ∀ c ∈ s, c ≠ 0) {i : ℕ} : byteAt s i = 0 ↔ s.length ≤ i := by
  constructor
  · intro h0
    by_contra hlt
    rw [not_le] at hlt
    rw [byteAt, List.getD_eq_getElem _ _ hlt] at h0
    exact hs _ (List.getElem_mem hlt) h0
  · exact List.getD_eq_default _ _

/-- Where two strings agree on a NUL, they agree from there on. -/
theorem byteAt_eq_of_ended (hs : ∀ c ∈ s, c ≠ 0) (ht : ∀ c ∈ t, c ≠ 0) {i k : ℕ}
    (h0 : byteAt s i = 0) (heq : byteAt s i = byteAt t i) (hik : i ≤ k) :
    byteAt s k = byteAt t k := by
  have hlen := (byteAt_eq_zero_iff hs).mp h0
  have hlen' := (byteAt_eq_zero_iff ht).mp (heq ▸ h0)
  rw [(byteAt_eq_zero_iff hs).mpr (hlen.trans hik), (byteAt_eq_zero_iff ht).mpr (hlen'.trans hik)]

/-- A comparison of at most `n + 1` bytes stops at `i`. -/
structure StopsAt (n : ℕ) (s t : List U8) (i : ℕ) : Prop where
  le : i ≤ n
  before : ∀ j < i, byteAt s j = byteAt t j
  reason : i = n ∨ byteAt s i = 0 ∨ byteAt s i ≠ byteAt t i

/-- If the bytes there are equal, no difference follows. -/
theorem StopsAt.behind (hs : ∀ c ∈ s, c ≠ 0) (ht : ∀ c ∈ t, c ≠ 0) {i : ℕ} (h : StopsAt n s t i)
    (heq : byteAt s i = byteAt t i) {k : ℕ} (hk : k ≤ n) (hik : i ≤ k) :
    byteAt s k = byteAt t k := by
  rcases h.reason with rfl | h0 | hne
  · rw [le_antisymm hk hik]
    exact heq
  · exact byteAt_eq_of_ended hs ht h0 heq hik
  · exact absurd heq hne

theorem StopsAt.eq_zero_iff (hs : ∀ c ∈ s, c ≠ 0) (ht : ∀ c ∈ t, c ≠ 0) {i : ℕ}
    (h : StopsAt n s t i) :
    charDiff (byteAt s i) (byteAt t i) = 0 ↔ ∀ k < n + 1, byteAt s k = byteAt t k := by
  rw [charDiff_eq_zero]
  constructor
  · intro heq k hk
    rcases lt_or_ge k i with hki | hik
    · exact h.before k hki
    · exact h.behind hs ht heq (Nat.le_of_lt_succ hk) hik
  · intro hall
    exact hall i (Nat.lt_succ_of_le h.le)

/-- The first byte of an array that holds the beginning of a string, and the array behind it. -/
theorem exists_cons_of_take {p : Ptr} (h : (s ++ [0]).take (n + 1) <+: p) :
    ∃ p', p = byteAt s 0 :: p' ∧ ∀ {a : U8} {s' : List U8}, s = a :: s' →
      (s' ++ [0]).take n <+: p' := by
  obtain ⟨rest, rfl⟩ := h
  cases s with
  | nil => exact ⟨_, rfl, fun h => by cases h⟩
  | cons a s =>
    refine ⟨_, rfl, fun h => ?_⟩
    cases h
    exact List.prefix_append _ _

/-- **`strncmp` stops** there, and has read no byte behind it. -/
theorem strncmp_stopsAt (n : ℕ) (s t : List U8) : ∃ i, StopsAt n s t i ∧
    ∀ p q, (s ++ [0]).take (n + 1) <+: p → (t ++ [0]).take (n + 1) <+: q →
      strncmp p q (n + 1) = .ok (charDiff (byteAt s i) (byteAt t i)) := by
  induction n generalizing s t with
  | zero =>
    refine ⟨0, ⟨le_rfl, fun j hj => absurd hj (Nat.not_lt_zero j), Or.inl rfl⟩, ?_⟩
    intro p q hp hq
    obtain ⟨p', rfl, -⟩ := exists_cons_of_take hp
    obtain ⟨q', rfl, -⟩ := exists_cons_of_take hq
    rw [strncmp_cons, if_pos (Or.inr (Or.inl rfl))]
  | succ n ih =>
    by_cases hstop : byteAt s 0 = 0 ∨ byteAt s 0 ≠ byteAt t 0
    · refine ⟨0, ⟨Nat.zero_le _, fun j hj => absurd hj (Nat.not_lt_zero j), Or.inr hstop⟩, ?_⟩
      intro p q hp hq
      obtain ⟨p', rfl, -⟩ := exists_cons_of_take hp
      obtain ⟨q', rfl, -⟩ := exists_cons_of_take hq
      rw [strncmp_cons, if_pos (hstop.imp_right Or.inr)]
    · obtain ⟨hne, heq⟩ := not_or.mp hstop
      rw [not_not] at heq
      -- neither string has ended
      obtain ⟨a, s, rfl⟩ := List.exists_cons_of_ne_nil (l := s) (by rintro rfl; exact hne rfl)
      obtain ⟨b, t, rfl⟩ := List.exists_cons_of_ne_nil (l := t) (by rintro rfl; exact hne heq)
      obtain ⟨i, hi, hrun⟩ := ih s t
      refine ⟨i + 1, ⟨Nat.succ_le_succ hi.le, ?_, ?_⟩, ?_⟩
      · intro j hj
        cases j with
        | zero => exact heq
        | succ j => exact hi.before j (Nat.lt_of_succ_lt_succ hj)
      · exact hi.reason.imp_left (congrArg Nat.succ)
      · intro p q hp hq
        obtain ⟨p', rfl, hp'⟩ := exists_cons_of_take hp
        obtain ⟨q', rfl, hq'⟩ := exists_cons_of_take hq
        rw [strncmp_cons, if_neg, hrun p' q' (hp' rfl) (hq' rfl)]
        · rfl
        · rintro (h | h | h)
          · exact hne h
          · exact Nat.succ_ne_zero n h
          · exact h heq

/-- `strcmp` is `strncmp` up to the NUL of the first string. -/
theorem strcmp_eq_strncmp {p : Ptr} (hp : PointsTo p s) (q : Ptr) :
    strcmp p q = strncmp p q (s.length + 1) := by
  induction s generalizing p q with
  | nil =>
    obtain ⟨rest, rfl⟩ := hp.of_nil
    cases q with
    | nil => rfl
    | cons b q => rw [strcmp_cons, strncmp_cons, if_pos (Or.inl rfl), if_pos (Or.inl rfl)]
  | cons a s ih =>
    obtain ⟨p', rfl, ha, hp'⟩ := hp.of_cons
    cases q with
    | nil =>
      rw [strcmp, strncmp]
      simp [deref]
    | cons b q =>
      rw [strcmp_cons, strncmp_cons, ih hp']
      simp only [List.length_cons, Nat.add_eq_zero_iff, one_ne_zero, and_false, false_or]

theorem strcmp_stopsAt (hs : ∀ c ∈ s, c ≠ 0) (t : List U8) : ∃ i, StopsAt s.length s t i ∧
    ∀ p q, s ++ [0] <+: p → t ++ [0] <+: q →
      strcmp p q = .ok (charDiff (byteAt s i) (byteAt t i)) := by
  obtain ⟨i, hi, hrun⟩ := strncmp_stopsAt s.length s t
  refine ⟨i, hi, fun p q hp hq => ?_⟩
  rw [strcmp_eq_strncmp (pointsTo_of_append_nul hs hp)]
  exact hrun p q ((List.take_prefix _ _).trans hp) ((List.take_prefix _ _).trans hq)

theorem getElem?_eq_of_byteAt (hs : ∀ c ∈ s, c ≠ 0) (ht : ∀ c ∈ t, c ≠ 0) {i : ℕ}
    (h : byteAt s i = byteAt t i) : s[i]? = t[i]? := by
  by_cases hlen : s.length ≤ i
  · have hlen' := (byteAt_eq_zero_iff ht).mp (h ▸ (byteAt_eq_zero_iff hs).mpr hlen)
    rw [List.getElem?_eq_none hlen, List.getElem?_eq_none hlen']
  · have hlen' : ¬ t.length ≤ i := by
      rw [← byteAt_eq_zero_iff ht, ← h, byteAt_eq_zero_iff hs]
      exact hlen
    rw [not_le] at hlen hlen'
    rw [byteAt, byteAt, List.getD_eq_getElem _ _ hlen, List.getD_eq_getElem _ _ hlen'] at h
    rw [List.getElem?_eq_getElem hlen, List.getElem?_eq_getElem hlen', h]

/-- Strings have the same first bytes if they agree on as many indices. -/
theorem take_eq_take_iff (hs : ∀ c ∈ s, c ≠ 0) (ht : ∀ c ∈ t, c ≠ 0) :
    s.take n = t.take n ↔ ∀ i < n, byteAt s i = byteAt t i := by
  have htake : ∀ (l : List U8) {i : ℕ}, i < n → byteAt (l.take n) i = byteAt l i := by
    intro l i hi
    rw [byteAt, byteAt, List.getD_eq_getElem?_getD, List.getD_eq_getElem?_getD,
      List.getElem?_take_of_lt hi]
  constructor
  · intro h i hi
    rw [← htake s hi, h, htake t hi]
  · intro h
    apply List.ext_getElem?
    intro i
    rw [List.getElem?_take, List.getElem?_take]
    split
    · exact getElem?_eq_of_byteAt hs ht (h i ‹_›)
    · rfl

/-- **`strncmp` compares the first `n` bytes** of two strings, for a positive `n`. -/
theorem run_strncmp {p q : Ptr} (hp : PointsTo p s) (hq : PointsTo q t) (n : ℕ) :
    ∃ d, strncmp p q (n + 1) = .ok d ∧ (d = 0 ↔ s.take (n + 1) = t.take (n + 1)) := by
  obtain ⟨i, hi, hrun⟩ := strncmp_stopsAt n s t
  refine ⟨_, hrun p q ?_ ?_, ?_⟩
  · exact (List.take_prefix _ _).trans hp.append_nul
  · exact (List.take_prefix _ _).trans hq.append_nul
  · rw [hi.eq_zero_iff hp.nul_free hq.nul_free, take_eq_take_iff hp.nul_free hq.nul_free]

/-- **`strcmp` compares two strings.** -/
theorem run_strcmp {p q : Ptr} (hp : PointsTo p s) (hq : PointsTo q t) :
    ∃ d, strcmp p q = .ok d ∧ (d = 0 ↔ s = t) := by
  obtain ⟨i, hi, hrun⟩ := strcmp_stopsAt hp.nul_free t
  refine ⟨_, hrun p q hp.append_nul hq.append_nul, ?_⟩
  rw [hi.eq_zero_iff hp.nul_free hq.nul_free]
  constructor
  · intro h
    -- the second string has ended where the first one has
    have hlen : t.length ≤ s.length := by
      rw [← byteAt_eq_zero_iff hq.nul_free, ← h _ (Nat.lt_succ_self _),
        byteAt_eq_zero_iff hp.nul_free]
    have htake := (take_eq_take_iff hp.nul_free hq.nul_free).mpr h
    rwa [List.take_of_length_le (Nat.le_succ _),
      List.take_of_length_le (hlen.trans (Nat.le_succ _))] at htake
  · rintro rfl k -
    rfl

end Compare

/-- **Comparing with a word of length `n` tests for a prefix.** -/
theorem strncmp_word {p q : Ptr} {w s : List U8} (hp : PointsTo p w) (hq : PointsTo q s)
    (hw : w ≠ []) : ∃ d, strncmp p q w.length = .ok d ∧ (d = 0 ↔ w <+: s) := by
  obtain ⟨n, hn⟩ : ∃ n, w.length = n + 1 := Nat.exists_eq_succ_of_ne_zero (by simpa using hw)
  obtain ⟨d, hd, hiff⟩ := run_strncmp hp hq n
  rw [hn]
  refine ⟨d, hd, hiff.trans ?_⟩
  rw [← hn, List.take_length, List.prefix_iff_eq_take]

/-! ## 4. `strtou64` -/

/-- The loop of `strtou64`, at the result so far. -/
def strtou64Loop (base : U64) : Ptr → U64 → TM U64
  | [], _ => .error .read
  | c :: str, res =>
    if c = 0 then .ok res
    else
      let digit := c.setWidth 64 - 48
      if digit ≥ base then .ok 0
      else strtou64Loop base str (res * base + digit)

/-- `strtou64(str, base)`.  The sign is looked for and skipped, and then forgotten, as in the
source. -/
def strtou64 (str : Ptr) (base : U64) : TM U64 := do
  let str := if (← strncmp str (literal "-") 1) = 0 then str.tail else str
  let bin ← strncmp str (literal "0b") 2
  let bin' ← if bin = 0 then pure bin else strncmp str (literal "0B") 2
  if bin' = 0 then
    if base ≠ 2 then return 0 else strtou64Loop base (str.drop 2) 0
  else
    let hex ← strncmp str (literal "0x") 2
    let hex' ← if hex = 0 then pure hex else strncmp str (literal "0X") 2
    if hex' = 0 then
      if base ≠ 16 then return 0 else strtou64Loop base (str.drop 2) 0
    else
      strtou64Loop base str 0

/-- The value of a string of digits, most significant first. -/
def digitsValue (base : ℕ) (s : List U8) : ℕ := s.foldl (fun v c => v * base + (c.toNat - 48)) 0

/-- A decimal digit. -/
def IsDecimal (c : U8) : Prop := 48 ≤ c.toNat ∧ c.toNat ≤ 57

instance (c : U8) : Decidable (IsDecimal c) := inferInstanceAs (Decidable (_ ∧ _))

/-- A byte the loop takes for a digit of a base. -/
def InBase (base : ℕ) (c : U8) : Prop := 48 ≤ c.toNat ∧ c.toNat < 48 + base

instance (base : ℕ) (c : U8) : Decidable (InBase base c) := inferInstanceAs (Decidable (_ ∧ _))

theorem isDecimal_iff_inBase (c : U8) : IsDecimal c ↔ InBase 10 c := by
  unfold IsDecimal InBase
  omega

/-- The digit the loop computes, and how it compares with the base. -/
theorem digit_ge_base {base : U64} (hb : base.toNat ≤ 16) (c : U8) :
    c.setWidth 64 - 48 ≥ base ↔ ¬ InBase base.toNat c := by
  have hc := c.isLt
  rw [ge_iff_le, BitVec.le_def, BitVec.toNat_sub, BitVec.toNat_setWidth]
  unfold InBase
  simp only [BitVec.ofNat_eq_ofNat, BitVec.toNat_ofNat]
  omega

theorem toNat_digit {base : ℕ} {c : U8} (h : InBase base c) :
    (c.setWidth 64 - 48 : U64).toNat = c.toNat - 48 := by
  have hc := c.isLt
  unfold InBase at h
  rw [BitVec.toNat_sub, BitVec.toNat_setWidth]
  simp only [BitVec.ofNat_eq_ofNat, BitVec.toNat_ofNat]
  omega

/-- One turn of the loop at a digit: the value so far is multiplied and added to, modulo
`2 ^ 64`. -/
theorem digit_step {base : U64} {c : U8} (h : InBase base.toNat c) (v : ℕ) :
    BitVec.ofNat 64 v * base + (c.setWidth 64 - 48)
      = BitVec.ofNat 64 (v * base.toNat + (c.toNat - 48)) := by
  apply BitVec.eq_of_toNat_eq
  rw [BitVec.toNat_add, BitVec.toNat_mul, toNat_digit h]
  simp only [BitVec.toNat_ofNat, Nat.mod_mul_mod, Nat.mod_add_mod]

/-- **The loop of `strtou64` on a string**: the value of its digits, which wraps silently, if they
are all digits of the base, and 0 if one of them is not. -/
theorem run_strtou64Loop {base : U64} (hb : base.toNat ≤ 16) {p : Ptr} {s : List U8}
    (h : PointsTo p s) (v : ℕ) : strtou64Loop base p (BitVec.ofNat 64 v)
      = .ok (if ∀ c ∈ s, InBase base.toNat c then
          BitVec.ofNat 64 (s.foldl (fun v c => v * base.toNat + (c.toNat - 48)) v) else 0) := by
  induction s generalizing p v with
  | nil =>
    obtain ⟨rest, rfl⟩ := h.eq
    rw [if_pos (by simp)]
    rfl
  | cons c s ih =>
    obtain ⟨p', rfl, hd, hp'⟩ := h.of_cons
    rw [strtou64Loop, if_neg hd]
    simp only [List.forall_mem_cons]
    by_cases hc : InBase base.toNat c
    · rw [if_neg (fun hge => (digit_ge_base hb c).mp hge hc), digit_step hc, ih hp']
      simp only [hc, true_and, List.foldl_cons]
    · rw [if_pos ((digit_ge_base hb c).mpr hc)]
      simp only [hc, false_and, if_false]

theorem pointsTo_literal {w : String} (h : (ascii w).all (· ≠ 0)) :
    PointsTo (literal w) (ascii w) :=
  pointsTo_append_nul (List.all_iff_forall_prop.mp h) []

/-- Comparing a string with a word tests for a prefix, whichever argument is the word. -/
theorem strncmp_literal {p : Ptr} {s : List U8} {w : String} {n : ℕ} (h : PointsTo p s)
    (hw : (ascii w).all (· ≠ 0)) (hlen : (ascii w).length = n + 1) :
    ∃ d, strncmp p (literal w) (n + 1) = .ok d ∧ (d = 0 ↔ ascii w <+: s) := by
  obtain ⟨d, hd, hiff⟩ := run_strncmp h (pointsTo_literal hw) n
  refine ⟨d, hd, hiff.trans ?_⟩
  rw [← hlen, List.take_length, List.prefix_iff_eq_take]
  exact eq_comm

/-- The pointer past a prefix of a string points to the rest of it. -/
theorem PointsTo.drop {p : Ptr} {s : List U8} (h : PointsTo p s) {n : ℕ} (hn : n ≤ s.length) :
    PointsTo (p.drop n) (s.drop n) := by
  obtain ⟨rest, rfl⟩ := h.eq
  refine ⟨fun c hc => h.nul_free c (List.mem_of_mem_drop hc), rest, ?_⟩
  rw [List.drop_append_of_le_length hn]

/-- The string past its sign, if it has one. -/
def unsigned (s : List U8) : List U8 := if ascii "-" <+: s then s.drop 1 else s

/-- The string starts with one of two words. -/
def StartsWith (w w' : String) (s : List U8) : Prop := ascii w <+: s ∨ ascii w' <+: s

instance (w w' : String) (s : List U8) : Decidable (StartsWith w w' s) :=
  inferInstanceAs (Decidable (_ ∨ _))

/-- The second of two tests only where the first fails. -/
theorem ite_either {α : Type} {P Q : Prop} [Decidable P] [Decidable Q] (x y : α) :
    (if P then (if P then x else y) else if Q then x else y) = if P ∨ Q then x else y := by
  by_cases hP : P
  · rw [if_pos hP, if_pos hP, if_pos (Or.inl hP)]
  · simp only [hP, if_false, false_or]

/-- **What `strtou64` does with a string**: past the sign, and past the prefix where the base has
it, it runs its loop; at another base's prefix it returns 0. -/
theorem strtou64_branches {p : Ptr} {s : List U8} (h : PointsTo p s) (base : U64) :
    ∃ q, PointsTo q (unsigned s) ∧ strtou64 p base =
      if StartsWith "0b" "0B" (unsigned s) then
        if base ≠ 2 then .ok 0 else strtou64Loop base (q.drop 2) 0
      else if StartsWith "0x" "0X" (unsigned s) then
        if base ≠ 16 then .ok 0 else strtou64Loop base (q.drop 2) 0
      else strtou64Loop base q 0 := by
  obtain ⟨d, hd, hneg⟩ := strncmp_literal (w := "-") (n := 0) h rfl rfl
  have hq : PointsTo (if d = 0 then p.tail else p) (unsigned s) := by
    unfold unsigned
    by_cases h0 : d = 0
    · rw [if_pos h0, if_pos (hneg.mp h0), ← List.drop_one]
      exact h.drop (hneg.mp h0).length_le
    · rw [if_neg h0, if_neg (mt hneg.mpr h0)]
      exact h
  obtain ⟨d₁, h₁, i₁⟩ := strncmp_literal (w := "0b") (n := 1) hq rfl rfl
  obtain ⟨d₂, h₂, i₂⟩ := strncmp_literal (w := "0B") (n := 1) hq rfl rfl
  obtain ⟨d₃, h₃, i₃⟩ := strncmp_literal (w := "0x") (n := 1) hq rfl rfl
  obtain ⟨d₄, h₄, i₄⟩ := strncmp_literal (w := "0X") (n := 1) hq rfl rfl
  refine ⟨_, hq, ?_⟩
  unfold strtou64
  simp only [hd, h₁, h₂, h₃, h₄, ok_bind, pure_eq, ite_either, i₁, i₂, i₃, i₄]
  rfl

/-- **`strtou64` on a decimal numeral** of any length: its value modulo `2 ^ 64`. -/
theorem run_strtou64 {p : Ptr} {s : List U8} (h : PointsTo p s) (hs : ∀ c ∈ s, IsDecimal c) :
    strtou64 p 10 = .ok (BitVec.ofNat 64 (digitsValue 10 s)) := by
  -- the words `strtou64` looks for all have a byte that is no digit
  have hword : ∀ {w : String}, (ascii w).any (¬ IsDecimal ·) → ¬ ascii w <+: s := by
    intro w hw hpre
    obtain ⟨c, hc, hnd⟩ := List.any_iff_exists_prop.mp hw
    exact hnd (hs c (hpre.subset hc))
  have hsign : unsigned s = s := if_neg (hword rfl)
  obtain ⟨q, hq, heq⟩ := strtou64_branches h 10
  rw [hsign] at hq heq
  have hbin : ¬ StartsWith "0b" "0B" s := not_or.mpr ⟨hword rfl, hword rfl⟩
  have hhex : ¬ StartsWith "0x" "0X" s := not_or.mpr ⟨hword rfl, hword rfl⟩
  have hall : ∀ c ∈ s, InBase (10 : U64).toNat c :=
    fun c hc => (isDecimal_iff_inBase c).mp (hs c hc)
  have hten : (10 : U64).toNat ≤ 16 := by decide
  have hloop := run_strtou64Loop hten hq 0
  rw [if_pos hall] at hloop
  rw [heq, if_neg hbin, if_neg hhex]
  exact hloop

theorem strtou64Loop_total {p : Ptr} {s : List U8} (h : PointsTo p s) (base res : U64) :
    ∃ v, strtou64Loop base p res = .ok v := by
  induction s generalizing p res with
  | nil =>
    obtain ⟨rest, rfl⟩ := h.of_nil
    exact ⟨res, rfl⟩
  | cons c s ih =>
    obtain ⟨p', rfl, hc, hp'⟩ := h.of_cons
    rw [strtou64Loop, if_neg hc]
    simp only
    split
    · exact ⟨0, rfl⟩
    · exact ih hp' _

/-- A string that starts with one of two words of one length is at least as long. -/
theorem StartsWith.length_le {w w' : String} {s : List U8} {n : ℕ} (h : StartsWith w w' s)
    (hw : (ascii w).length = n) (hw' : (ascii w').length = n) : n ≤ s.length := by
  rcases h with h | h
  · exact hw ▸ h.length_le
  · exact hw' ▸ h.length_le

/-- **`strtou64` returns on every string**, having read no byte past its NUL. -/
theorem strtou64_total {p : Ptr} {s : List U8} (h : PointsTo p s) (base : U64) :
    ∃ v, strtou64 p base = .ok v := by
  obtain ⟨q, hq, heq⟩ := strtou64_branches h base
  -- at a prefix, the loop runs past it or not at all
  have hskip : ∀ (P : Prop) [Decidable P], 2 ≤ (unsigned s).length →
      ∃ v, (if P then .ok 0 else strtou64Loop base (q.drop 2) 0) = .ok v := by
    intro P _ hlen
    split
    · exact ⟨0, rfl⟩
    · exact strtou64Loop_total (hq.drop hlen) _ _
  rw [heq]
  by_cases hbin : StartsWith "0b" "0B" (unsigned s)
  · rw [if_pos hbin]
    exact hskip _ (hbin.length_le rfl rfl)
  by_cases hhex : StartsWith "0x" "0X" (unsigned s)
  · rw [if_neg hbin, if_pos hhex]
    exact hskip _ (hhex.length_le rfl rfl)
  · rw [if_neg hbin, if_neg hhex]
    exact strtou64Loop_total hq _ _

/-! ## 5. `strlen` -/

/-- `strlen(str)`. -/
def strlen : Ptr → TM ℕ
  | [] => .error .read
  | c :: str => if c = 0 then .ok 0 else do return (← strlen str) + 1

theorem run_strlen {p : Ptr} {s : List U8} (h : PointsTo p s) : strlen p = .ok s.length := by
  induction s generalizing p with
  | nil =>
    obtain ⟨r, rfl⟩ := h.of_nil
    rfl
  | cons a s ih =>
    obtain ⟨p', rfl, ha, hp'⟩ := h.of_cons
    rw [strlen, if_neg ha, ih hp']
    rfl

end RvKernel.Text
