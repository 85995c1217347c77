/-
# The order of strings (`strcmp`, `strncmp`)

Both go through two strings until the first one ends or the bytes differ, and return the difference
of the bytes they have come to.  `strncmp` counts `n` down on its way and stops at the last byte of
the `n`, whatever it is, since the difference says the rest.

But the difference is taken for `n = 0` as well, of the first bytes, which are none of those that
may be read (`strncmp_orders_iff`).
-/
import RvKernel.Text.Str

namespace RvKernel.Text

/-! ## 1. What is expected -/

/-- The first byte at which two strings differ. -/
def DiffersFirst (s t : List U8) (i : ℕ) : Prop :=
  (∀ j < i, byteAt s j = byteAt t j) ∧ byteAt s i ≠ byteAt t i

/-- **What the number `d` should say** about the first `n` bytes of two strings. -/
structure Orders (n : ℕ) (s t : List U8) (d : Int) : Prop where
  zero : d = 0 ↔ ∀ i < n, byteAt s i = byteAt t i
  sign : ∀ i < n, DiffersFirst s t i → d.sign = (charDiff (byteAt s i) (byteAt t i)).sign

/-- **What is expected of `strncmp` and `strcmp`**, with the results `d` and `e`: arrays that end
with the first `n` bytes, or with the NUL, are long enough for them. -/
structure OrdersBoth (n : ℕ) (s t : List U8) (d e : Int) : Prop where
  strncmp : ∀ p q, (s ++ [0]).take n <+: p → (t ++ [0]).take n <+: q → strncmp p q n = .ok d
  orders : Orders n s t d
  strcmp : ∀ p q, s ++ [0] <+: p → t ++ [0] <+: q → strcmp p q = .ok e
  sameSign : min s.length t.length < n → d.sign = e.sign

variable {s t : List U8} {n : ℕ}

/-! ## 2. First differences -/

/-- A difference is found by the NUL of the shorter string. -/
theorem DiffersFirst.le (hs : ∀ c ∈ s, c ≠ 0) (ht : ∀ c ∈ t, c ≠ 0) {i : ℕ}
    (h : DiffersFirst s t i) : i ≤ min s.length t.length := by
  obtain ⟨hbefore, hne⟩ := h
  refine le_min ?_ ?_
  · by_contra hlt
    rw [not_le] at hlt
    have h0 := (byteAt_eq_zero_iff hs).mpr (le_refl s.length)
    exact hne (byteAt_eq_of_ended hs ht h0 (hbefore _ hlt) hlt.le)
  · by_contra hlt
    rw [not_le] at hlt
    have h0 := (byteAt_eq_zero_iff ht).mpr (le_refl t.length)
    exact hne (byteAt_eq_of_ended ht hs h0 (hbefore _ hlt).symm hlt.le).symm

theorem exists_differsFirst (h : ∃ i, byteAt s i ≠ byteAt t i) : ∃ i, DiffersFirst s t i := by
  refine ⟨Nat.find h, ?_, Nat.find_spec h⟩
  intro j hj
  exact not_not.mp (Nat.find_min h hj)

/-- Beyond the shorter string, the number of bytes makes no difference. -/
theorem Orders.sign_eq (hs : ∀ c ∈ s, c ≠ 0) (ht : ∀ c ∈ t, c ≠ 0) {m : ℕ} {d e : Int}
    (hd : Orders n s t d) (he : Orders m s t e) (hn : min s.length t.length < n)
    (hm : min s.length t.length < m) : d.sign = e.sign := by
  by_cases hdiff : ∃ i, byteAt s i ≠ byteAt t i
  · obtain ⟨i, hi⟩ := exists_differsFirst hdiff
    have hle := hi.le hs ht
    rw [hd.sign i (hle.trans_lt hn) hi, he.sign i (hle.trans_lt hm) hi]
  · have hall : ∀ i, byteAt s i = byteAt t i := fun i => not_not.mp (not_exists.mp hdiff i)
    rw [hd.zero.mpr fun i _ => hall i, he.zero.mpr fun i _ => hall i]

/-- The difference of the bytes where a comparison stops says what it should. -/
theorem StopsAt.orders (hs : ∀ c ∈ s, c ≠ 0) (ht : ∀ c ∈ t, c ≠ 0) {i : ℕ} (h : StopsAt n s t i) :
    Orders (n + 1) s t (charDiff (byteAt s i) (byteAt t i)) := by
  constructor
  · exact h.eq_zero_iff hs ht
  · intro k hk hdiff
    obtain rfl : k = i := by
      rcases lt_trichotomy k i with hki | hki | hik
      · exact absurd (h.before k hki) hdiff.2
      · exact hki
      · exact absurd (h.behind hs ht (hdiff.1 i hik) (Nat.le_of_lt_succ hk) hik.le) hdiff.2
    rfl

/-! ## 3. Both functions -/

/-- The two bytes that `strncmp` reads in any case. -/
theorem strncmp_zero {p q : Ptr} (hp : PointsTo p s) (hq : PointsTo q t) :
    strncmp p q 0 = .ok (charDiff (byteAt s 0) (byteAt t 0)) := by
  have hone : ∀ l : List U8, (l ++ [0]).take (0 + 1) <+: l ++ [0] := fun l => List.take_prefix _ _
  obtain ⟨p', rfl, -⟩ := exists_cons_of_take ((hone s).trans hp.append_nul)
  obtain ⟨q', rfl, -⟩ := exists_cons_of_take ((hone t).trans hq.append_nul)
  rw [strncmp]
  rfl

/-- For a positive number of bytes, both functions do what they should. -/
theorem exists_ordersBoth (hs : ∀ c ∈ s, c ≠ 0) (ht : ∀ c ∈ t, c ≠ 0) (n : ℕ) :
    ∃ d e, OrdersBoth (n + 1) s t d e := by
  obtain ⟨i, hi, hstrncmp⟩ := strncmp_stopsAt n s t
  obtain ⟨j, hj, hstrcmp⟩ := strcmp_stopsAt hs t
  refine ⟨_, _, hstrncmp, hi.orders hs ht, hstrcmp, fun hlt => ?_⟩
  have hwhole : min s.length t.length < s.length + 1 := Nat.lt_succ_of_le (min_le_left _ _)
  exact (hi.orders hs ht).sign_eq hs ht (hj.orders hs ht) hlt hwhole

/-- Of no bytes, the difference should be zero. -/
theorem orders_zero_iff {d : Int} : Orders 0 s t d ↔ d = 0 := by
  constructor
  · intro h
    exact h.zero.mpr fun i hi => absurd hi (Nat.not_lt_zero i)
  · intro h
    exact ⟨iff_of_true h fun i hi => absurd hi (Nat.not_lt_zero i),
      fun i hi => absurd hi (Nat.not_lt_zero i)⟩

/-- **`strncmp` and `strcmp` order two strings** by their first difference, and read them no
further than they may, exactly when `strncmp` is to compare some bytes at all.  If it is to compare
none, it reads two that it may not; and where it is given them, its result is right only if these
are the same. -/
theorem strncmp_orders_iff (hs : ∀ c ∈ s, c ≠ 0) (ht : ∀ c ∈ t, c ≠ 0) (n : ℕ) :
    ((∃ d e, OrdersBoth n s t d e) ↔ n ≠ 0) ∧
      ∀ p q, PointsTo p s → PointsTo q t →
        ((∃ d, strncmp p q n = .ok d ∧ Orders n s t d) ↔ n ≠ 0 ∨ byteAt s 0 = byteAt t 0) := by
  cases n with
  | zero =>
    refine ⟨iff_of_false ?_ (not_not_intro rfl), fun p q hp hq => ?_⟩
    · rintro ⟨d, e, h⟩
      -- arrays without a byte
      have hread := h.strncmp [] [] (List.prefix_refl _) (List.prefix_refl _)
      cases hread
    · simp only [strncmp_zero hp hq, Except.ok.injEq, exists_eq_left', orders_zero_iff,
        charDiff_eq_zero, ne_eq, not_true_eq_false, false_or]
  | succ n =>
    have hne : n + 1 ≠ 0 := Nat.succ_ne_zero n
    refine ⟨iff_of_true (exists_ordersBoth hs ht n) hne, fun p q hp hq => ?_⟩
    obtain ⟨d, e, h⟩ := exists_ordersBoth hs ht n
    have hrun := h.strncmp p q ((List.take_prefix _ _).trans hp.append_nul)
      ((List.take_prefix _ _).trans hq.append_nul)
    exact iff_of_true ⟨d, hrun, h.orders⟩ (Or.inl hne)

/-- `"ll"` against `"lu"`, as in a conversion: the lengths agree by one byte, and not by two. -/
theorem strncmp_orders_lengths :
    (∃ d e, OrdersBoth 1 (ascii "lu") (ascii "ll") d e) ∧
      (∃ d e, OrdersBoth 2 (ascii "lu") (ascii "ll") d e) ∧
      strncmp (literal "lu") (literal "ll") 1 = .ok 0 ∧
      strncmp (literal "lu") (literal "ll") 2 = .ok 9 := by
  have hlu := (pointsTo_literal (w := "lu") rfl).nul_free
  have hll := (pointsTo_literal (w := "ll") rfl).nul_free
  exact ⟨(strncmp_orders_iff hlu hll 1).1.mpr (by decide),
    (strncmp_orders_iff hlu hll 2).1.mpr (by decide), rfl, rfl⟩

/-- No bytes of `"a"` and `"b"` are compared, and still they are said to differ. -/
theorem strncmp_none_differ : strncmp (literal "a") (literal "b") 0 = .ok (-1) ∧
    (∀ i < 0, byteAt (ascii "a") i = byteAt (ascii "b") i) ∧
    ¬ ∃ d e, OrdersBoth 0 (ascii "a") (ascii "b") d e := by
  refine ⟨rfl, fun i hi => absurd hi (Nat.not_lt_zero i), ?_⟩
  rintro ⟨d, e, h⟩
  have hrun := h.strncmp (literal "a") (literal "b") (List.nil_prefix) (List.nil_prefix)
  obtain rfl : d = 0 := orders_zero_iff.mp h.orders
  cases hrun

end RvKernel.Text
