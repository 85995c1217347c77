/-
# The search for a substring (`strstr`)

The inner loop of `strstr` compares the two strings until one of them ends, and whichever it is, it
has found a match.  So it finds a place where the rest of the string and the substring MEET: where
one of them starts with the other.  A place where the substring occurs is one, but so is a place
where the string ends in the middle of it.

`strstr_finds_iff` says when that makes no difference: the strings are not both empty, and either
the substring occurs, or the string does not end with a part that it starts with.
-/
import RvKernel.Text.Str

namespace RvKernel.Text

/-! ## 1. The code -/

/-- The inner loop of `strstr`, from `&str[i + j]` and `&substring[j]` on: the `match` it leaves. -/
def strstrMatch : Ptr → Ptr → TM Bool
  | _, [] => .error .read
  | str, d :: sub => do
    if d = 0 then return true
    else
      let c ← deref str
      if c = 0 then return true
      else if c ≠ d then return false
      else strstrMatch str.tail sub

/-- The outer loop, from `&str[i]` on: the index of the byte that the result points to, or `none`
for `NULL`. -/
def strstrFrom : ℕ → Ptr → Ptr → TM (Option ℕ)
  | _, [], _ => .error .read
  | i, c :: str, sub => do
    if c = 0 then return none
    else if ← strstrMatch (c :: str) sub then return some i
    else strstrFrom (i + 1) str sub

/-- `strstr(str, substring)`. -/
def strstr (str sub : Ptr) : TM (Option ℕ) := strstrFrom 0 str sub

/-! ## 2. What it finds -/

/-- One of the two starts with the other. -/
def Meets (s t : List U8) : Prop := t <+: s ∨ s <+: t

instance (s t : List U8) : Decidable (Meets s t) := inferInstanceAs (Decidable (_ ∨ _))

theorem meets_nil (s : List U8) : Meets s [] := Or.inl List.nil_prefix

theorem nil_meets (t : List U8) : Meets [] t := Or.inr List.nil_prefix

theorem meets_cons {c d : U8} {s t : List U8} : Meets (c :: s) (d :: t) ↔ c = d ∧ Meets s t := by
  unfold Meets
  rw [List.cons_prefix_cons, List.cons_prefix_cons, eq_comm, ← and_or_left]

/-- The inner loop looks for a place to meet. -/
theorem run_strstrMatch {p q : Ptr} {s t : List U8} (hp : PointsTo p s) (hq : PointsTo q t) :
    strstrMatch p q = .ok (decide (Meets s t)) := by
  induction t generalizing p q s with
  | nil =>
    obtain ⟨rest, rfl⟩ := hq.of_nil
    rw [decide_eq_true (meets_nil s)]
    rfl
  | cons d t ih =>
    obtain ⟨q', rfl, hd, hq'⟩ := hq.of_cons
    cases s with
    | nil =>
      obtain ⟨rest, rfl⟩ := hp.of_nil
      rw [strstrMatch, if_neg hd, decide_eq_true (nil_meets _)]
      rfl
    | cons c s =>
      obtain ⟨p', rfl, hc, hp'⟩ := hp.of_cons
      rw [strstrMatch, if_neg hd, deref, ok_bind, if_neg hc]
      by_cases hcd : c = d
      · rw [if_neg (not_not_intro hcd), List.tail_cons, ih hp' hq']
        simp only [meets_cons, hcd, true_and]
      · rw [if_pos hcd]
        simp only [meets_cons, hcd, false_and, decide_false, pure_eq]

/-- `r` is the first place of the string, counted from `i` on, at which `P` holds of the rest. -/
def First (P : List U8 → Prop) (i : ℕ) (s : List U8) : Option ℕ → Prop
  | some r => ∃ k < s.length, r = i + k ∧ P (s.drop k) ∧ ∀ j < k, ¬ P (s.drop j)
  | none => ∀ k < s.length, ¬ P (s.drop k)

/-- A place that is not the first byte is one of the rest of the string. -/
theorem First.cons {P : List U8 → Prop} {i : ℕ} {c : U8} {s : List U8} {r : Option ℕ}
    (hc : ¬ P (c :: s)) (h : First P (i + 1) s r) : First P i (c :: s) r := by
  cases r with
  | none =>
    intro k hk
    cases k with
    | zero => exact hc
    | succ k => exact h k (Nat.lt_of_succ_lt_succ hk)
  | some r =>
    obtain ⟨k, hk, rfl, hP, hfirst⟩ := h
    refine ⟨k + 1, Nat.succ_lt_succ hk, by omega, hP, ?_⟩
    intro j hj
    cases j with
    | zero => exact hc
    | succ j => exact hfirst j (Nat.lt_of_succ_lt_succ hj)

/-- **`strstr` finds the first place where the strings meet**, in front of the NUL. -/
theorem run_strstrFrom {p q : Ptr} {s t : List U8} (hp : PointsTo p s) (hq : PointsTo q t)
    (i : ℕ) : ∃ r, strstrFrom i p q = .ok r ∧ First (Meets · t) i s r := by
  induction s generalizing p i with
  | nil =>
    obtain ⟨rest, rfl⟩ := hp.of_nil
    exact ⟨none, rfl, fun k hk => absurd hk (Nat.not_lt_zero k)⟩
  | cons c s ih =>
    obtain ⟨p', rfl, hc, hp'⟩ := hp.of_cons
    have hmatch := run_strstrMatch hp hq
    by_cases hmeet : Meets (c :: s) t
    · refine ⟨some i, ?_, 0, Nat.succ_pos _, rfl, hmeet, fun j hj => absurd hj (Nat.not_lt_zero j)⟩
      rw [strstrFrom, if_neg hc, hmatch, ok_bind, decide_eq_true hmeet, if_pos rfl]
      rfl
    · obtain ⟨r, hrun, hfirst⟩ := ih hp' (i + 1)
      refine ⟨r, ?_, hfirst.cons hmeet⟩
      rw [strstrFrom, if_neg hc, hmatch, ok_bind, decide_eq_false hmeet, if_neg Bool.false_ne_true,
        hrun]

/-! ## 3. What it should find -/

/-- **What is expected of the search**: the lowest index at which the substring occurs, and `NULL`
if there is none. -/
def Finds (s t : List U8) : Option ℕ → Prop
  | some i => t <+: s.drop i ∧ ∀ j < i, ¬ t <+: s.drop j
  | none => ∀ i, ¬ t <+: s.drop i

/-- No part of the string that ends with it is one that the substring starts with. -/
def EndsClear (s t : List U8) : Prop := ∀ u, u ≠ [] → u <:+ s → ¬ u <+: t

theorem infix_iff_exists_drop {s t : List U8} : t <:+: s ↔ ∃ i, t <+: s.drop i := by
  constructor
  · intro h
    obtain ⟨u, hpre, hsuf⟩ := List.infix_iff_prefix_suffix.mp h
    rw [List.suffix_iff_eq_drop] at hsuf
    exact ⟨_, hsuf ▸ hpre⟩
  · rintro ⟨i, hpre⟩
    exact hpre.isInfix.trans (List.drop_suffix i s).isInfix

/-- In front of an occurrence the string does not end: the strings meet only where the substring
occurs. -/
theorem occurs_of_meets {s t : List U8} {i j : ℕ} (hocc : t <+: s.drop j) (hij : i ≤ j)
    (h : Meets (s.drop i) t) : t <+: s.drop i := by
  rcases h with h | h
  · exact h
  · have hle := h.length_le
    have hle' := hocc.length_le
    simp only [List.length_drop] at hle hle'
    by_cases hj : s.length ≤ j
    · have hnil : t = [] := List.length_eq_zero_iff.mp (by omega)
      rw [hnil]
      exact List.nil_prefix
    · obtain rfl : i = j := by omega
      exact hocc

/-- At a place that is found. -/
theorem finds_some_iff {s t : List U8} {k : ℕ} (hk : k < s.length) (hmeet : Meets (s.drop k) t)
    (hfirst : ∀ j < k, ¬ Meets (s.drop j) t) :
    Finds s t (some k) ↔ t <:+: s ∨ EndsClear s t := by
  constructor
  · rintro ⟨hpre, -⟩
    exact Or.inl (infix_iff_exists_drop.mpr ⟨k, hpre⟩)
  · intro h
    refine ⟨?_, fun j hj hpre => hfirst j hj (Or.inl hpre)⟩
    rcases h with h | h
    · obtain ⟨j, hj⟩ := infix_iff_exists_drop.mp h
      have hle : k ≤ j := not_lt.mp fun hlt => hfirst j hlt (Or.inl hj)
      exact occurs_of_meets hj hle hmeet
    · rcases hmeet with hpre | hend
      · exact hpre
      · have hne : s.drop k ≠ [] := fun hnil => absurd (List.drop_eq_nil_iff.mp hnil) (by omega)
        exact absurd hend (h _ hne (List.drop_suffix k s))

/-- Where nothing is found, the string ends clear, and nothing is to be found unless both strings
are empty. -/
theorem finds_none_iff {s t : List U8} (h : ∀ k < s.length, ¬ Meets (s.drop k) t) :
    EndsClear s t ∧ (Finds s t none ↔ ¬ (s = [] ∧ t = [])) := by
  refine ⟨?_, ?_, ?_⟩
  · intro u hne hsuf hpre
    have hpos := List.length_pos_of_ne_nil hne
    have hle := hsuf.length_le
    rw [List.suffix_iff_eq_drop] at hsuf
    exact h (s.length - u.length) (by omega) (Or.inr (hsuf ▸ hpre))
  · rintro hnone ⟨-, rfl⟩
    exact hnone 0 List.nil_prefix
  · intro hne i hpre
    by_cases hi : i < s.length
    · exact h i hi (Or.inl hpre)
    · rw [List.drop_of_length_le (not_lt.mp hi), List.prefix_nil] at hpre
      subst hpre
      have hpos : 0 < s.length := List.length_pos_of_ne_nil fun hs => hne ⟨hs, rfl⟩
      exact h 0 hpos (meets_nil _)

/-- **When `strstr` finds what it should**: the strings are not both empty, and either the substring
occurs, or the string does not end with a part that the substring starts with. -/
theorem strstr_finds_iff {p q : Ptr} {s t : List U8} (hp : PointsTo p s) (hq : PointsTo q t) :
    ∃ r, strstr p q = .ok r ∧
      (Finds s t r ↔ ¬ (s = [] ∧ t = []) ∧ (t <:+: s ∨ EndsClear s t)) := by
  obtain ⟨r, hrun, hfirst⟩ := run_strstrFrom hp hq 0
  refine ⟨r, hrun, ?_⟩
  cases r with
  | none =>
    obtain ⟨hclear, hiff⟩ := finds_none_iff hfirst
    rw [hiff]
    exact (and_iff_left (Or.inr hclear)).symm
  | some r =>
    obtain ⟨k, hk, rfl, hmeet, hbefore⟩ := hfirst
    have hne : ¬ (s = [] ∧ t = []) := by
      rintro ⟨rfl, -⟩
      exact Nat.not_lt_zero k hk
    rw [Nat.zero_add, finds_some_iff hk hmeet hbefore]
    exact (and_iff_right hne).symm

/-- `"bc"` occurs in `"abcd"`. -/
theorem strstr_finds_abcd :
    ∃ r, strstr (literal "abcd") (literal "bc") = .ok r ∧
      (Finds (ascii "abcd") (ascii "bc") r ↔
        ¬ (ascii "abcd" = [] ∧ ascii "bc" = []) ∧
          (ascii "bc" <:+: ascii "abcd" ∨ EndsClear (ascii "abcd") (ascii "bc"))) :=
  strstr_finds_iff (pointsTo_literal rfl) (pointsTo_literal rfl)

/-- `"bc"` is found in `"ab"`, where it does not occur. -/
theorem strstr_not_finds :
    ¬ ∀ (p q : Ptr) (s t : List U8), PointsTo p s → PointsTo q t →
      ∃ r, strstr p q = .ok r ∧ Finds s t r := by
  intro hall
  obtain ⟨r, hrun, hfinds⟩ := hall (literal "ab") (literal "bc") (ascii "ab") (ascii "bc")
    (pointsTo_literal rfl) (pointsTo_literal rfl)
  have hone : strstr (literal "ab") (literal "bc") = .ok (some 1) := rfl
  rw [hone] at hrun
  injection hrun with hrun
  subst hrun
  exact absurd hfinds.1 (by decide)

end RvKernel.Text
