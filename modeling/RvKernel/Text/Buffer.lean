/-
# What is left in a buffer (`snprintf`, `strncpy`)

`snprintf` stores from the start of its buffer on, so what it leaves there is what it has stored and
behind it what was there before.  `strtou64` reads it back: `strtou64_snprintf` is the round trip of
a decimal number.

`strncpy` counts `n` down while it moves `dst` up, and then stores its NUL at `dst[n]`.  The sum of
the two never changes: the NUL goes to the byte behind the destination, whatever the source, and the
text that is copied is left without one (`strncpy_out_of_bounds`).
-/
import RvKernel.Text.Render

namespace RvKernel.Text

/-! ## 1. Printing and reading back -/

/-- An array at whose start `out` has been stored. -/
def overwrite (buf : Ptr) (out : List U8) : Ptr := out ++ buf.drop out.length

/-- `snprintf(buf, size, fmt_str, args)`: the array at `buf` behind the call. -/
def snprintf (fuel : ℕ) (buf : Ptr) (size : U64) (fmtStr : Ptr) (args : List Arg) : TM Ptr := do
  return overwrite buf (← vsnprintf fuel size fmtStr args)

/-- What fits leaves the array as long as it was: no byte behind it is stored to. -/
theorem length_overwrite {buf : Ptr} {out : List U8} (h : out.length ≤ buf.length) :
    (overwrite buf out).length = buf.length := by
  rw [overwrite, List.length_append, List.length_drop]
  omega

theorem pointsTo_overwrite {s : List U8} (h : ∀ c ∈ s, c ≠ 0) (buf : Ptr) :
    PointsTo (overwrite buf (s ++ [0])) s := by
  rw [overwrite, List.append_assoc]
  exact pointsTo_append_nul h _

/-- The digit a decimal character stands for. -/
theorem digitChar_value {d : ℕ} (h : d < 10) : (digitChar false d).toNat - 48 = d := by
  have key : ∀ i : Fin 10, (digitChar false i).toNat - 48 = i := by decide
  exact key ⟨d, h⟩

/-- The characters of digits, most significant first, have the digits' value. -/
theorem digitsValue_digitChar {ds : List ℕ} (h : ∀ d ∈ ds, d < 10) :
    digitsValue 10 (ds.reverse.map (digitChar false)) = Nat.ofDigits 10 ds := by
  rw [digitsValue, List.map_reverse, List.foldl_reverse]
  induction ds with
  | nil => rfl
  | cons d ds ih =>
    obtain ⟨hd, hds⟩ := List.forall_mem_cons.mp h
    rw [List.map_cons, List.foldr_cons, ih hds, digitChar_value hd, Nat.ofDigits_cons]
    omega

/-- **The value of a numeral is the number it was printed from.** -/
theorem digitsValue_numeral (n : ℕ) : digitsValue 10 (numeral false 10 n) = n := by
  unfold numeral
  split
  · rename_i h0
    rw [h0]
    rfl
  · have hdigits : ∀ d ∈ Nat.digits 10 n, d < 10 :=
      fun d hd => Nat.digits_lt_base (by decide) hd
    rw [digitsValue_digitChar hdigits, Nat.ofDigits_digits]

/-- `%lu` prints the numeral of its argument. -/
theorem refNumber_lu (v : U64) : refNumber false .l .u v = numeral false 10 v.toNat := by
  have hval : Conv.value .u .l v = (v.toNat : ℤ) := by
    have := v.isLt
    simp only [Conv.value, Len.bits]
    omega
  rw [refNumber, hval, if_neg (by omega)]
  rfl

/-- A word has at most twenty digits. -/
theorem length_numeral_word (v : U64) : (numeral false 10 v.toNat).length ≤ 20 := by
  have hpow : 2 ^ 64 < 10 ^ 20 := by norm_num
  exact length_numeral_le (by decide) (v.isLt.trans hpow)

theorem vsnprintf_lu (v : U64) {size : U64} (h : 21 ≤ size.toNat) {fuel : ℕ} (hf : 11 ≤ fuel) :
    vsnprintf fuel size (literal "%lu") [.word v] = .ok (numeral false 10 v.toNat ++ [0]) := by
  have hren : Renders [.num false .l .u] [.word v] (numeral false 10 v.toNat) := by
    rw [← refNumber_lu, ← List.append_nil (refNumber false .l .u v)]
    exact .num .nil
  have hok : ∀ p ∈ [Piece.num false .l .u], p.Ok := by
    intro p hp
    rw [List.mem_singleton.mp hp]
    trivial
  have hlen := length_numeral_word v
  exact hren.prints hok (by omega) (by omega) hf

/-- **Reading undoes printing**, for every word: the buffer is large enough from 21 bytes on, no
byte behind it is stored to, and `strtou64` finds the number in it. -/
theorem strtou64_snprintf (v : U64) {size : U64} (h : 21 ≤ size.toNat) {buf : Ptr}
    (hbuf : size.toNat ≤ buf.length) {fuel : ℕ} (hf : 11 ≤ fuel) :
    ∃ p, snprintf fuel buf size (literal "%lu") [.word v] = .ok p ∧ p.length = buf.length ∧
      strtou64 p 10 = .ok v := by
  have hlen := length_numeral_word v
  refine ⟨overwrite buf (numeral false 10 v.toNat ++ [0]), ?_, ?_, ?_⟩
  · rw [snprintf, vsnprintf_lu v h hf]
    rfl
  · apply length_overwrite
    rw [List.length_append, List.length_singleton]
    omega
  · rw [run_strtou64 (pointsTo_overwrite (numeral_ne_nul _) buf) (isDecimal_numeral _),
      digitsValue_numeral, BitVec.ofNat_toNat, BitVec.setWidth_eq]

/-- The largest word, in a buffer of 21 bytes that held something else. -/
theorem strtou64_snprintf_max :
    ∃ p, snprintf 11 (List.replicate 21 7) 21 (literal "%lu") [.word (BitVec.allOnes 64)] = .ok p ∧
      p.length = 21 ∧ strtou64 p 10 = .ok (BitVec.allOnes 64) :=
  strtou64_snprintf (BitVec.allOnes 64) (by decide) (by decide) (by decide)

/-! ## 2. `strncpy` -/

/-- A byte that is stored, and where, counted from the start of the destination. -/
structure Store where
  index : ℕ
  byte : U8
  deriving DecidableEq

/-- `strncpy` with `dst` moved up by `i`: what it stores from there on, and the index of the pointer
it returns. -/
def strncpyAt : ℕ → Ptr → ℕ → TM (List Store × ℕ)
  | i, src, n + 2 => do
    let c ← deref src
    if c ≠ 0 then
      let (stores, dst) ← strncpyAt (i + 1) src.tail (n + 1)
      return (⟨i, c⟩ :: stores, dst)
    else return ([⟨i + (n + 2), 0⟩], i)
  | i, _, n => return ([⟨i + n, 0⟩], i)

/-- `strncpy(dst, src, n)`. -/
def strncpy (src : Ptr) (n : ℕ) : TM (List Store × ℕ) := strncpyAt 0 src n

/-- `parse_bootarg_ktest(bootargs, buf, size)`: the bytes it stores in `buf`. -/
def parseBootargKtest (bootargs : Ptr) (size : ℕ) : TM (List Store) := do
  let prefixLen ← strlen (literal "ktest_run=")
  if (← strncmp bootargs (literal "ktest_run=") prefixLen) ≠ 0 then return [⟨0, 0⟩]
  else
    let (stores, _) ← strncpy (bootargs.drop prefixLen) size
    return stores

/-- The destination after the stores; one that misses it changes nothing in it. -/
def applyStores (dst : List U8) (stores : List Store) : List U8 :=
  stores.foldl (fun d st => d.set st.index st.byte) dst

/-- **What is expected of a copy** of `s` to `dst`: all stores are inside, and they leave the text,
cut to what fits in front of a NUL, and the NUL. -/
structure Copies (dst s : List U8) (stores : List Store) : Prop where
  inside : ∀ st ∈ stores, st.index < dst.length
  text : s.take (dst.length - 1) ++ [0] <+: applyStores dst stores

/-- The stores of a text, from the index `i` on. -/
def storesAt : ℕ → List U8 → List Store
  | _, [] => []
  | i, c :: t => ⟨i, c⟩ :: storesAt (i + 1) t

theorem strncpyAt_nul (i : ℕ) {p : Ptr} (h : PointsTo p []) (n : ℕ) :
    strncpyAt i p (n + 1) = .ok ([⟨i + (n + 1), 0⟩], i) := by
  obtain ⟨rest, rfl⟩ := h.of_nil
  cases n with
  | zero => rfl
  | succ n => rfl

/-- **What `strncpy` stores**: the text where it belongs, and the NUL behind the destination. -/
theorem run_strncpyAt {p : Ptr} {s : List U8} (h : PointsTo p s) (i n : ℕ) :
    strncpyAt i p (n + 1) =
      .ok (storesAt i (s.take n) ++ [⟨i + (n + 1), 0⟩], i + (s.take n).length) := by
  induction n generalizing i p s with
  | zero => rfl
  | succ n ih =>
    cases s with
    | nil => exact strncpyAt_nul i h (n + 1)
    | cons c s =>
      obtain ⟨p', rfl, hc, hp'⟩ := h.of_cons
      have hsum : i + 1 + (n + 1) = i + (n + 1 + 1) := by omega
      have hlen : i + 1 + (s.take n).length = i + ((s.take n).length + 1) := by omega
      simp only [strncpyAt, deref, ok_bind, if_pos hc, List.tail_cons, ih hp', pure_eq, hsum, hlen,
        List.take_succ_cons, storesAt, List.cons_append, List.length_cons]

theorem run_strncpy {p : Ptr} {s : List U8} (h : PointsTo p s) {n : ℕ} (hn : 0 < n) :
    strncpy p n = .ok (storesAt 0 (s.take (n - 1)) ++ [⟨n, 0⟩], (s.take (n - 1)).length) := by
  obtain ⟨m, rfl⟩ : ∃ m, n = m + 1 := Nat.exists_eq_succ_of_ne_zero hn.ne'
  rw [strncpy, run_strncpyAt h, Nat.zero_add, Nat.zero_add, Nat.add_sub_cancel]

/-- With the argument it looks for, `parse_bootarg_ktest` copies the rest of it. -/
theorem run_parseBootargKtest {p : Ptr} {s : List U8} (h : PointsTo p (ascii "ktest_run=" ++ s))
    {n : ℕ} (hn : 0 < n) :
    parseBootargKtest p n = .ok (storesAt 0 (s.take (n - 1)) ++ [⟨n, 0⟩]) := by
  have hlen : strlen (literal "ktest_run=") = .ok 10 := run_strlen (pointsTo_literal rfl)
  have hrest : PointsTo (p.drop 10) s := h.drop (n := 10) (by simp [ascii])
  obtain ⟨d, hd, hiff⟩ := strncmp_literal (w := "ktest_run=") (n := 9) h rfl rfl
  have hzero : d = 0 := hiff.mpr (List.prefix_append _ _)
  simp only [parseBootargKtest, hlen, ok_bind, hd, hzero, ne_eq, not_true_eq_false, if_false,
    run_strncpy hrest hn, pure_eq]

/-- A store behind the destination is not inside. -/
theorem not_copies_of_mem {dst s : List U8} {stores : List Store}
    (h : (⟨dst.length, 0⟩ : Store) ∈ stores) : ¬ Copies dst s stores :=
  fun hcopy => Nat.lt_irrefl _ (hcopy.inside _ h)

theorem applyStores_append (dst : List U8) (a b : List Store) :
    applyStores dst (a ++ b) = applyStores (applyStores dst a) b := List.foldl_append

/-- A destination in front of which `i` bytes have been stored: the stores of
a text overwrite it. -/
theorem applyStores_storesAt (front dst t : List U8) (h : t.length ≤ dst.length) :
    applyStores (front ++ dst) (storesAt front.length t) = front ++ overwrite dst t := by
  induction t generalizing front dst with
  | nil => rfl
  | cons c t ih =>
    cases dst with
    | nil => exact absurd h (Nat.not_succ_le_zero _)
    | cons d dst =>
      have hset : (front ++ d :: dst).set front.length c = (front ++ [c]) ++ dst := by
        rw [List.set_append_right _ _ le_rfl, Nat.sub_self, List.set_cons_zero,
          List.append_assoc]
        rfl
      have hfront : front.length + 1 = (front ++ [c]).length := by
        rw [List.length_append, List.length_singleton]
      have hstep : applyStores (front ++ d :: dst) (storesAt front.length (c :: t))
          = applyStores ((front ++ [c]) ++ dst) (storesAt (front ++ [c]).length t) := by
        rw [← hset, ← hfront]
        rfl
      rw [hstep, ih (front ++ [c]) dst (Nat.le_of_succ_le_succ h), List.append_assoc]
      rfl

/-- **What is left in the destination**: the text, and behind it what was there before.  So there is
a NUL behind the text just if there was one already. -/
theorem strncpy_text_iff {dst s : List U8} (hn : 0 < dst.length) :
    s.take (dst.length - 1) ++ [0] <+:
        applyStores dst (storesAt 0 (s.take (dst.length - 1)) ++ [⟨dst.length, 0⟩]) ↔
      dst[(s.take (dst.length - 1)).length]? = some 0 := by
  have hlen : (s.take (dst.length - 1)).length < dst.length := by
    rw [List.length_take]
    omega
  generalize s.take (dst.length - 1) = t at hlen ⊢
  have hstores : applyStores dst (storesAt 0 t) = overwrite dst t :=
    applyStores_storesAt [] dst t hlen.le
  have houtside : (overwrite dst t).set dst.length 0 = overwrite dst t :=
    List.set_eq_of_length_le (length_overwrite hlen.le).le
  have hall : applyStores dst (storesAt 0 t ++ [⟨dst.length, 0⟩]) = overwrite dst t := by
    rw [applyStores_append, hstores]
    exact houtside
  rw [hall, overwrite, List.prefix_append_right_inj, List.drop_eq_getElem_cons hlen,
    List.getElem?_eq_getElem hlen]
  simp only [List.cons_prefix_cons, List.nil_prefix, and_true, Option.some.injEq, eq_comm]

/-- **`strncpy` stores behind every destination**, and so does `parse_bootarg_ktest` for every
argument that it copies; nothing but the NUL is stored there, and it is missing in the destination
unless one was there before. -/
theorem strncpy_out_of_bounds {dst s : List U8} (hn : 0 < dst.length) :
    (∀ {p : Ptr}, PointsTo p s → ∃ stores e, strncpy p dst.length = .ok (stores, e) ∧
      ¬ Copies dst s stores ∧
      (s.take (dst.length - 1) ++ [0] <+: applyStores dst stores ↔
        dst[(s.take (dst.length - 1)).length]? = some 0)) ∧
    ∀ {bootargs : Ptr}, PointsTo bootargs (ascii "ktest_run=" ++ s) →
      ∃ stores, parseBootargKtest bootargs dst.length = .ok stores ∧
        ¬ Copies dst s stores ∧
        (s.take (dst.length - 1) ++ [0] <+: applyStores dst stores ↔
          dst[(s.take (dst.length - 1)).length]? = some 0) := by
  have hmem : (⟨dst.length, 0⟩ : Store) ∈
      storesAt 0 (s.take (dst.length - 1)) ++ [⟨dst.length, 0⟩] := by simp
  constructor
  · intro p hp
    exact ⟨_, _, run_strncpy hp hn, not_copies_of_mem hmem, strncpy_text_iff hn⟩
  · intro bootargs hb
    exact ⟨_, run_parseBootargKtest hb hn, not_copies_of_mem hmem, strncpy_text_iff hn⟩

/-- A destination of four bytes, and a source of two. -/
theorem strncpy_out_of_bounds_four :
    (∃ stores e, strncpy (literal "ab") 4 = .ok (stores, e) ∧
      ¬ Copies [7, 7, 7, 7] (ascii "ab") stores) ∧
    ∃ stores, parseBootargKtest (literal "ktest_run=ab") 4 = .ok stores ∧
      ¬ Copies [7, 7, 7, 7] (ascii "ab") stores := by
  have hn : 0 < ([7, 7, 7, 7] : List U8).length := by decide
  have hboth := strncpy_out_of_bounds (s := ascii "ab") hn
  constructor
  · obtain ⟨stores, e, hrun, hbad, -⟩ := hboth.1 (pointsTo_literal rfl)
    exact ⟨stores, e, hrun, hbad⟩
  · obtain ⟨stores, hrun, hbad, -⟩ := hboth.2 (pointsTo_literal (w := "ktest_run=ab") rfl)
    exact ⟨stores, hrun, hbad⟩

/-- So it does not copy: not even two bytes into a destination of four. -/
theorem strncpy_not_copies :
    ¬ ∀ (dst s : List U8) (p : Ptr), 0 < dst.length → PointsTo p s →
      ∃ stores e, strncpy p dst.length = .ok (stores, e) ∧ Copies dst s stores := by
  intro hall
  obtain ⟨stores, e, hrun, hcopy⟩ :=
    hall [7, 7, 7, 7] (ascii "ab") (literal "ab") (by decide) (pointsTo_literal rfl)
  have hstores : strncpy (literal "ab") 4 = .ok ([⟨0, 97⟩, ⟨1, 98⟩, ⟨4, 0⟩], 2) := rfl
  have heq := hstores.symm.trans hrun
  injection heq with heq
  injection heq with heq he
  subst heq
  exact not_copies_of_mem (by decide) hcopy

end RvKernel.Text
