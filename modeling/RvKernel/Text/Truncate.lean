/-
# `vsnprintf` in a buffer that is too small

A bounded print should store the first `size - 1` bytes of the text and a NUL.  `printf.c` tests the
size in a different way in each writer: a literal and a `%c` are stored without a test, `%s` stops
one byte late, `%p` is given the whole size and not what is left of it, and an invalid directive
takes a byte off the size for good.  Only a number is cut where it should be, and not always.

`Safe` says exactly when this goes well.  In a format of valid directives every directive has to fit
where it stands, or to be a number that is cut well (`Cuts`, `Item.CutsWell`).  An invalid directive
changes the size for all that comes after it.  So a `%s` may then be cut where it should be, and
what one directive leaves out another one may store by chance: there the bytes of each directive
have to be the next ones of the text (`Keeps`).
-/
import RvKernel.Text.Render

namespace RvKernel.Text

/-! ## 1. A number that is cut -/

/-- A number of `v` that does not fit in `r` bytes is cut as it should be.  The last byte is kept
for the NUL as long as the padding leaves one, but not for a zero; and a prefix that is dropped
where two bytes are left is made good by a `0` that happens to stand in its place. -/
def NumberCutsWell (r : ℕ) (v : U64) (spec : FmtSpecifier) : Prop :=
  let neg := isNegative v spec && decide (1 < r)
  let r' := if neg then r - 1 else r
  let m := if neg then -v else v
  if spec.has FMT.pre = true ∧ r' = 2 then m = 0 ∨ padding m spec = 1
  else m ≠ 0 ∧ padding m spec < if spec.has FMT.pre && decide (2 < r') then r' - 2 else r'

theorem digitChar_ne_zero {upper : Bool} {d : ℕ} (h0 : d ≠ 0) (h16 : d < 16) :
    digitChar upper d ≠ 48 := by
  have key : ∀ (b : Bool) (i : Fin 16), i ≠ 0 → digitChar b i ≠ 48 := by decide
  exact key upper ⟨d, h16⟩ fun h => h0 (congrArg Fin.val h)

theorem digitChar_ne_nul {upper : Bool} {d : ℕ} (h16 : d < 16) : digitChar upper d ≠ 0 := by
  have key : ∀ (b : Bool) (i : Fin 16), digitChar b i ≠ 0 := by decide
  exact key upper ⟨d, h16⟩

section Number

variable {r : ℕ} {m v : U64} {spec : FmtSpecifier}

/-- No byte of a number is a NUL. -/
theorem tailIn_ne_nul (hb : 2 ≤ spec.base.toNat) (h16 : spec.base.toNat ≤ 16) :
    ∀ c ∈ tailIn r m spec, c ≠ 0 := by
  have hdigits : ∀ c ∈ digitsOf m spec, c ≠ 0 := by
    intro c hc
    obtain ⟨d, hd, rfl⟩ := List.mem_map.mp hc
    exact digitChar_ne_nul
      ((Nat.digits_lt_base (by omega) (List.mem_reverse.mp hd)).trans_le h16)
  have hzeros : ∀ n, ∀ c ∈ List.replicate n (48 : U8), c ≠ 0 := by
    intro n c hc
    rw [List.eq_of_mem_replicate hc]
    decide
  intro c hc
  unfold tailIn at hc
  split at hc
  · rw [List.mem_singleton.mp hc]
    decide
  · split at hc
    · rcases List.mem_append.mp hc with hc | hc
      · exact hzeros _ c hc
      · exact hdigits c (List.mem_of_mem_take hc)
    · rcases List.mem_append.mp hc with hc | hc
      · exact hzeros _ c hc
      · exact hdigits c hc

theorem tailText_ne_nul (hb : 2 ≤ spec.base.toNat) (h16 : spec.base.toNat ≤ 16) :
    ∀ c ∈ tailText m spec, c ≠ 0 := by
  rw [← tailIn_fits (Nat.lt_succ_self _)]
  exact tailIn_ne_nul hb h16

theorem numberIn_ne_nul (hb : 2 ≤ spec.base.toNat) (h16 : spec.base.toNat ≤ 16) :
    ∀ c ∈ numberIn r v spec, c ≠ 0 := by
  have hlead : ∀ (b : Bool) {t : List U8}, (∀ c ∈ t, c ≠ 0) →
      ∀ c ∈ (if b then t else []), c ≠ 0 := by
    intro b t ht
    cases b with
    | false => exact List.forall_mem_nil _
    | true => exact ht
  exact List.forall_mem_append.mpr ⟨List.forall_mem_append.mpr
    ⟨hlead _ (by decide), hlead _ (by decide)⟩, tailIn_ne_nul hb h16⟩

theorem digitsOf_ne_nil (spec : FmtSpecifier) (hm : m ≠ 0) : 0 < (digitsOf m spec).length := by
  have hne : m.toNat ≠ 0 := fun h => hm (BitVec.eq_of_toNat_eq h)
  rw [digitsOf, List.length_map, List.length_reverse, List.length_pos_iff]
  exact Nat.digits_ne_nil_iff_ne_zero.mpr hne

/-- A numeral does not start with a zero. -/
theorem take_digitsOf_ne (hm : m ≠ 0) (hb : 2 ≤ spec.base.toNat) (h16 : spec.base.toNat ≤ 16) :
    (digitsOf m spec).take 1 ≠ ascii "0" := by
  have hne : m.toNat ≠ 0 := fun h => hm (BitVec.eq_of_toNat_eq h)
  have hds : Nat.digits spec.base.toNat m.toNat ≠ [] := Nat.digits_ne_nil_iff_ne_zero.mpr hne
  have hlast := Nat.getLast_digit_ne_zero spec.base.toNat hne
  have hlt := Nat.digits_lt_base hb (List.getLast_mem hds)
  obtain ⟨front, hfront⟩ : ∃ front, Nat.digits spec.base.toNat m.toNat
      = front ++ [(Nat.digits spec.base.toNat m.toNat).getLast hds] :=
    ⟨_, (List.dropLast_append_getLast hds).symm⟩
  rw [digitsOf, hfront, List.reverse_append]
  intro h
  have hchar : digitChar (spec.has FMT.uppercase) _ = 48 := (List.cons.inj h).1
  exact digitChar_ne_zero hlast (by omega) hchar

/-- The zeros and the digits take all the bytes but the last one, as far as they reach... -/
theorem length_tailIn (r : ℕ) (m : U64) (spec : FmtSpecifier) :
    min (r - 1) (tailText m spec).length ≤ (tailIn r m spec).length := by
  unfold tailText tailIn
  split
  · exact Nat.min_le_right _ _
  · rename_i hm
    split
    · simp only [List.length_append, List.length_replicate, List.length_take]
      omega
    · simp only [List.length_append, List.length_replicate]
      omega

/-- ...and are cut there just if they are no zero, and the padding leaves a byte. -/
theorem tailIn_eq_take_iff (hr : 0 < r) (h : r ≤ (tailText m spec).length) :
    tailIn r m spec = (tailText m spec).take (r - 1) ↔ m ≠ 0 ∧ padding m spec < r := by
  unfold tailText at h ⊢
  unfold tailIn
  by_cases hm : m = 0
  · have hzero : (ascii "0").length = 1 := rfl
    rw [if_pos hm, hzero] at h
    have h1 : r - 1 = 0 := by omega
    simp only [if_pos hm, h1, List.take_zero]
    constructor
    · intro h0
      cases h0
    · intro h0
      exact absurd hm h0.1
  · simp only [if_neg hm]
    by_cases hp : padding m spec < r
    · have hzeros : (List.replicate (padding m spec) (48 : U8)).take (r - 1)
          = List.replicate (padding m spec) 48 :=
        List.take_of_length_le (by rw [List.length_replicate]; omega)
      rw [if_pos hp, List.take_append, List.length_replicate, hzeros, Nat.sub_right_comm]
      exact ⟨fun _ => ⟨hm, hp⟩, fun _ => rfl⟩
    · rw [if_neg hp]
      constructor
      · intro heq
        have hlen := congrArg List.length heq
        have hpos := digitsOf_ne_nil spec hm
        simp only [List.length_append, List.length_replicate, List.length_take] at hlen
        omega
      · intro h0
        exact absurd h0.2 hp

/-- Where a prefix should be cut after its `0`, a zero or one zero of padding does as well. -/
theorem tailIn_two_iff (hb : 2 ≤ spec.base.toNat) (h16 : spec.base.toNat ≤ 16) :
    tailIn 2 m spec = ascii "0" ↔ m = 0 ∨ padding m spec = 1 := by
  unfold tailIn
  by_cases hm : m = 0
  · simp [hm]
  · rw [if_neg hm]
    have hpos := digitsOf_ne_nil spec hm
    rcases Nat.lt_trichotomy (padding m spec) 1 with hp | hp | hp
    · have h0 : padding m spec = 0 := by omega
      simp only [h0, hm, false_or]
      simpa using take_digitsOf_ne hm hb h16
    · simp only [hp, hm, false_or]
      exact ⟨fun _ => trivial, fun _ => rfl⟩
    · rw [if_neg (by omega)]
      constructor
      · intro heq
        have hlen := congrArg List.length heq
        have hzero : (ascii "0").length = 1 := rfl
        rw [List.length_append, List.length_replicate, hzero] at hlen
        omega
      · rintro (h0 | h1)
        · exact absurd h0 hm
        · omega

/-- The sign and the prefix, taken off the front. -/
theorem cons_eq_take_iff {c : U8} {s t : List U8} {n : ℕ} (hn : 0 < n) :
    c :: s = (c :: t).take n ↔ s = t.take (n - 1) := by
  obtain ⟨k, rfl⟩ : ∃ k, n = k + 1 := ⟨n - 1, by omega⟩
  rw [List.take_succ_cons, Nat.add_sub_cancel]
  exact ⟨fun h => (List.cons.inj h).2, fun h => congrArg (c :: ·) h⟩

/-- `number` behind its sign. -/
def prefixIn (r : ℕ) (m : U64) (spec : FmtSpecifier) : List U8 :=
  let pre := spec.has FMT.pre && decide (2 < r)
  (if pre then ascii "0x" else []) ++ tailIn (if pre then r - 2 else r) m spec

/-- The text of a number behind its sign. -/
def prefixText (m : U64) (spec : FmtSpecifier) : List U8 :=
  (if spec.has FMT.pre then ascii "0x" else []) ++ tailText m spec

theorem length_prefixIn (r : ℕ) (m : U64) (spec : FmtSpecifier) :
    min (r - 1) (prefixText m spec).length ≤ (prefixIn r m spec).length := by
  have htail := tailText_ne_nil m spec
  have hx : (ascii "0x").length = 2 := rfl
  unfold prefixText prefixIn
  cases hp : spec.has FMT.pre with
  | false =>
    simpa using length_tailIn r m spec
  | true =>
    by_cases h2 : 2 < r
    · have := length_tailIn (r - 2) m spec
      simp only [h2, decide_true, Bool.and_self, if_true, List.length_append, hx]
      omega
    · have := length_tailIn r m spec
      simp only [h2, decide_false, Bool.and_false, Bool.false_eq_true, if_false, if_true,
        List.length_append, List.length_nil, hx]
      omega

theorem prefixIn_eq_take_iff (hb : 2 ≤ spec.base.toNat) (h16 : spec.base.toNat ≤ 16) (hr : 0 < r)
    (h : r ≤ (prefixText m spec).length) :
    prefixIn r m spec = (prefixText m spec).take (r - 1) ↔
      if spec.has FMT.pre = true ∧ r = 2 then m = 0 ∨ padding m spec = 1
      else m ≠ 0 ∧ padding m spec < if spec.has FMT.pre && decide (2 < r) then r - 2 else r := by
  have htail := tailText_ne_nil m spec
  unfold prefixText at h ⊢
  unfold prefixIn
  cases hp : spec.has FMT.pre with
  | false =>
    rw [hp] at h
    simpa using tailIn_eq_take_iff hr (by simpa using h)
  | true =>
    have hlead : (ascii "0x").length = 2 := rfl
    simp only [hp, if_true, List.length_append, hlead] at h
    rcases Nat.lt_trichotomy r 2 with h2 | h2 | h2
    · obtain rfl : r = 1 := by omega
      have hone : 1 ≤ (tailText m spec).length := by omega
      simpa using tailIn_eq_take_iff Nat.one_pos hone
    · subst h2
      have hzero : (ascii "0x" ++ tailText m spec).take (2 - 1) = ascii "0" := rfl
      simpa [hzero] using tailIn_two_iff hb h16
    · have hpos : 0 < r - 2 := by omega
      have hle : r - 2 ≤ (tailText m spec).length := by omega
      have hcut := tailIn_eq_take_iff hpos hle
      have hne : ¬ (True ∧ r = 2) := by omega
      have hx : ∀ t : List U8, ascii "0x" ++ t = 48 :: 120 :: t := fun _ => rfl
      have hsub : r - 1 - 1 - 1 = r - 2 - 1 := by omega
      simp only [h2, decide_true, Bool.and_self, if_true]
      rw [if_neg hne, ← hcut, hx, hx, cons_eq_take_iff (by omega), cons_eq_take_iff (by omega),
        hsub]

theorem numberIn_eq : numberIn r v spec =
    (if isNegative v spec && decide (1 < r) then ascii "-" else []) ++
      prefixIn (if isNegative v spec && decide (1 < r) then r - 1 else r)
        (if isNegative v spec && decide (1 < r) then -v else v) spec := by
  rw [prefixIn, ← List.append_assoc]
  rfl

theorem numberText_eq_prefixText : numberText v spec =
    (if isNegative v spec then ascii "-" else []) ++ prefixText (magnitude v spec) spec := by
  rw [prefixText, ← List.append_assoc]
  rfl

/-- A number takes all the bytes but the last one, as far as it reaches. -/
theorem length_numberIn (r : ℕ) (v : U64) (spec : FmtSpecifier) :
    min (r - 1) (numberText v spec).length ≤ (numberIn r v spec).length := by
  rw [numberIn_eq, numberText_eq_prefixText, magnitude]
  by_cases h1 : 1 < r
  · simp only [h1, decide_true, Bool.and_true]
    split
    · have hrest := length_prefixIn (r - 1) (-v) spec
      have hsign : (ascii "-").length = 1 := rfl
      simp only [List.length_append, hsign]
      omega
    · exact length_prefixIn r v spec
  · omega

/-- **A number is cut as it should be just if it is cut well.** -/
theorem numberIn_eq_take_iff (hb : 2 ≤ spec.base.toNat) (h16 : spec.base.toNat ≤ 16) (hr : 0 < r)
    (h : r ≤ (numberText v spec).length) :
    numberIn r v spec = (numberText v spec).take (r - 1) ↔ NumberCutsWell r v spec := by
  rw [numberText_eq_prefixText, magnitude] at h
  rw [numberIn_eq, numberText_eq_prefixText, magnitude, NumberCutsWell]
  by_cases h1 : 1 < r
  · simp only [h1, decide_true, Bool.and_true]
    cases hneg : isNegative v spec with
    | false =>
      rw [hneg] at h
      simpa using prefixIn_eq_take_iff hb h16 hr (by simpa using h)
    | true =>
      have hsign : (ascii "-").length = 1 := rfl
      simp only [hneg, if_true, List.length_append, hsign] at h
      have hcut := prefixIn_eq_take_iff (m := -v) hb h16 (r := r - 1) (by omega) (by omega)
      have hm : ∀ t : List U8, ascii "-" ++ t = 45 :: t := fun _ => rfl
      simp only [if_true]
      rw [hm, hm, cons_eq_take_iff (by omega), hcut]
  · obtain rfl : r = 1 := by omega
    -- one byte is left: the sign is dropped, and nothing at all should be stored
    have hlen : 1 ≤ (prefixText v spec).length := by
      rw [prefixText, List.length_append]
      have := tailText_ne_nil v spec
      omega
    simpa using prefixIn_eq_take_iff hb h16 (by omega) hlen

end Number

/-! ## 2. A directive that is cut -/

/-- An item that does not fit behind `w` bytes is cut as it should be.  The bytes of a `%p` are
counted from the start of the buffer. -/
def Item.CutsWell (n w : ℕ) : Item → Prop
  | .num v spec => NumberCutsWell (n - w) v spec
  | .ptr v spec => w = 0 ∧ NumberCutsWell n v spec
  | _ => False

section Item

variable {n w : ℕ} {i : Item}

theorem base_le {spec : FmtSpecifier} (h : spec.base = 10 ∨ spec.base = 16) :
    spec.base.toNat ≤ 16 := by
  rcases h with h | h <;> rw [h] <;> decide

/-- An item that does not fit fills the buffer up to its last byte at least... -/
theorem Item.length_store (hi : i.cost = 0) (hw : w < n) (h : n ≤ w + i.text.length) :
    n - 1 - w ≤ (i.store n w).length := by
  cases i with
  | lit c => simp [Item.store, Item.text] at h ⊢; omega
  | num v spec =>
    have := length_numberIn (n - w) v spec
    simp only [Item.store, Item.text] at h ⊢
    omega
  | str s => simp [Item.store, Item.text] at h ⊢; omega
  | chr c => simp [Item.store, Item.text] at h ⊢; omega
  | ptr v spec =>
    have := length_numberIn n v spec
    simp only [Item.store, Item.text] at h ⊢
    omega
  | invalid => cases hi

/-- ...and is cut there just if it is cut well. -/
theorem Item.store_eq_take_iff (hwf : i.Wf) (hi : i.cost = 0) (hw : w < n)
    (h : n ≤ w + i.text.length) :
    i.store n w = i.text.take (n - 1 - w) ↔ i.CutsWell n w := by
  have hlong : (n - 1 - w < (i.store n w).length) → ¬ i.store n w = i.text.take (n - 1 - w) := by
    intro hlt heq
    have hlen := congrArg List.length heq
    rw [List.length_take] at hlen
    omega
  cases i with
  | lit c =>
    simp only [Item.CutsWell, iff_false]
    refine hlong ?_
    simp only [Item.store, Item.text, List.length_cons, List.length_nil] at h ⊢
    omega
  | num v spec =>
    simp only [Item.store, Item.text, Item.CutsWell] at h ⊢
    rw [Nat.sub_right_comm]
    exact numberIn_eq_take_iff (two_le_base hwf) (base_le hwf) (by omega) (by omega)
  | str s =>
    simp only [Item.CutsWell, iff_false]
    refine hlong ?_
    simp only [Item.store, Item.text, List.length_take] at h ⊢
    omega
  | chr c =>
    simp only [Item.CutsWell, iff_false]
    refine hlong ?_
    simp only [Item.store, Item.text, List.length_cons, List.length_nil] at h ⊢
    omega
  | ptr v spec =>
    simp only [Item.text] at h
    by_cases h0 : w = 0
    · subst h0
      simp only [Item.store, Item.text, Item.CutsWell, true_and]
      exact numberIn_eq_take_iff (two_le_base hwf) (base_le hwf) hw (by omega)
    · have hlen := length_numberIn n v spec
      simp only [Item.CutsWell, h0, false_and, iff_false]
      refine hlong ?_
      simp only [Item.store]
      omega
  | invalid => cases hi

end Item

/-! ## 3. A format that is cut -/

/-- The bytes that `w` bytes and a text make in a buffer of `n`, without the NUL. -/
def fill (n w : ℕ) (i : Item) : ℕ := min (n - 1) (w + i.text.length)

/-- Every item fits where it stands, behind `w` bytes and the items before it, or is cut well. -/
def Cuts (n w : ℕ) : List Item → Prop
  | [] => True
  | i :: is => (w + i.text.length < n ∨ i.CutsWell n w) ∧ Cuts n (fill n w i) is

/-- No directive takes a stored byte back. -/
theorem emit_extends {d : Directive} {k k' : Sink} (h : d.emit k = .ok k') : k.out <+: k'.out := by
  unfold Directive.emit at h
  split at h
  · cases h
    exact List.prefix_append _ _
  · obtain ⟨r, -, h⟩ := bind_ok h
    cases h
    exact List.prefix_append _ _
  · obtain ⟨r, -, h⟩ := bind_ok h
    obtain ⟨t, -, h⟩ := bind_ok h
    cases h
    exact List.prefix_append _ _
  · obtain ⟨r, -, h⟩ := bind_ok h
    cases h
    exact List.prefix_append _ _
  · obtain ⟨r, -, h⟩ := bind_ok h
    cases h
    exact List.prefix_append _ _
  · cases h
    exact List.prefix_rfl
  · cases h
    simp only
    split
    · exact List.prefix_append _ _
    · exact List.prefix_rfl

theorem emitAll_extends {ds : List Directive} {k k' : Sink} (h : emitAll ds k = .ok k') :
    k.out <+: k'.out := by
  induction ds generalizing k with
  | nil =>
    cases h
    exact List.prefix_rfl
  | cons d ds ih =>
    rw [emitAll] at h
    split at h
    · obtain ⟨k₁, hd, h⟩ := bind_ok h
      exact (emit_extends hd).trans (ih h)
    · cases h
      exact List.prefix_rfl

/-- What fits need not be cut. -/
theorem cuts_of_fits {n w : ℕ} {is : List Item} (h : w + (textAll is).length < n) :
    Cuts n w is := by
  induction is generalizing w with
  | nil => trivial
  | cons i is ih =>
    have htext : textAll (i :: is) = i.text ++ textAll is := rfl
    rw [htext, List.length_append] at h
    have hfill : fill n w i = w + i.text.length := by
      rw [fill]
      omega
    refine ⟨Or.inl (by omega), ?_⟩
    rw [hfill]
    exact ih (by omega)

/-- A text that does not fit ends the output. -/
theorem take_append_text {n : ℕ} {out t rest : List U8} (hw : out.length < n)
    (h : n ≤ out.length + t.length) :
    (out ++ (t ++ rest)).take (n - 1) = out ++ t.take (n - 1 - out.length) := by
  rw [List.take_append, List.take_of_length_le (by omega), List.take_append_of_le_length (by omega)]

/-- **A format of valid directives is cut as it should be just if every directive of it is.** -/
theorem emitAll_cuts {ds : List Directive} {is : List Item} {args rest : List Arg}
    (hm : Matches ds args is rest) : (∀ d ∈ ds, d.Wf) → invalids is = 0 → ∀ (size : U64)
      (out : List U8), 2 ≤ size.toNat → out.length < size.toNat →
      ((∃ k, emitAll ds ⟨size, out, args⟩ = .ok k ∧
          k.out = (out ++ textAll is).take (size.toNat - 1)) ↔
        Cuts size.toNat out.length is) := by
  induction hm with
  | nil =>
    intro _ _ size out h2 hlt
    have htake : (out ++ textAll []).take (size.toNat - 1) = out := by
      rw [textAll, List.flatMap_nil, List.append_nil, List.take_of_length_le (by omega)]
    exact ⟨fun _ => trivial, fun _ => ⟨_, rfl, htake.symm⟩⟩
  | @cons d ds i is args args' rest ht _ ih =>
    intro hwf hinv size out h2 hlt
    have htext : textAll (i :: is) = i.text ++ textAll is := rfl
    have hcount : i.cost + invalids is = 0 := hinv
    have hi := ht.wf (hwf d List.mem_cons_self)
    have hsize : i.sizeAfter size = size := by
      cases i with
      | invalid => exact absurd hcount (by simp [Item.cost])
      | _ => rfl
    have hrun : emitAll (d :: ds) ⟨size, out, args⟩
        = emitAll ds ⟨size, out ++ i.store size.toNat out.length, args'⟩ := by
      rw [emitAll_cons ht hi h2 (hlt.trans size.isLt), i.bytes_eq_store hlt, hsize]
    have ih := ih (fun e he => hwf e (List.mem_cons_of_mem d he)) (by omega) size
      (out ++ i.store size.toNat out.length) h2
    rw [hrun, htext, Cuts]
    by_cases hfit : out.length + i.text.length < size.toNat
    · have hfill : fill size.toNat out.length i = (out ++ i.text).length := by
        rw [fill, List.length_append]
        omega
      rw [Item.store_fits hfit] at ih ⊢
      rw [← List.append_assoc, hfill]
      simp only [hfit, true_or, true_and]
      exact ih (by rw [List.length_append]; exact hfit)
    · -- the buffer is full after this item: the output may not grow any more
      have hfill : fill size.toNat out.length i = size.toNat - 1 := by
        rw [fill]
        omega
      have hlen := Item.length_store (i := i) (by omega) hlt (by omega)
      have hcut := Item.store_eq_take_iff hi (by omega) hlt (by omega)
      have hend : ∀ t, (out ++ i.store size.toNat out.length).length = size.toNat - 1 →
          (out ++ i.store size.toNat out.length ++ t).take (size.toNat - 1)
            = out ++ i.store size.toNat out.length := by
        intro t hl
        rw [List.take_append_of_le_length (by omega), List.take_of_length_le (by omega)]
      simp only [hfit, false_or]
      rw [take_append_text hlt (by omega), hfill, ← hcut]
      constructor
      · rintro ⟨k, hk, hout⟩
        have hpre := emitAll_extends hk
        have hle : k.out.length ≤ (out ++ i.store size.toNat out.length).length := by
          rw [hout, List.length_append, List.length_append, List.length_take]
          omega
        have heq := hpre.eq_of_length_le hle
        have hs : i.store size.toNat out.length = i.text.take (size.toNat - 1 - out.length) :=
          List.append_cancel_left (heq.trans hout)
        have hl : (out ++ i.store size.toNat out.length).length = size.toNat - 1 := by
          rw [hs, List.length_append, List.length_take]
          omega
        refine ⟨hs, ?_⟩
        rw [← hl]
        exact (ih (by omega)).mp ⟨k, hk, (heq.symm.trans (hend _ hl).symm)⟩
      · rintro ⟨hs, hrest⟩
        have hl : (out ++ i.store size.toNat out.length).length = size.toNat - 1 := by
          rw [hs, List.length_append, List.length_take]
          omega
        obtain ⟨k, hk, hout⟩ := (ih (by omega)).mpr (by rw [hl]; exact hrest)
        refine ⟨k, hk, ?_⟩
        rw [hout, hend _ hl, hs]

/-! ## 4. A size that shrinks -/

/-- With the size `n` and `w` bytes stored, the items store just `t`: as long as there is size left,
each stores the next bytes of it.  The size is `n` less the invalid directives so far. -/
def Keeps (n w : ℕ) (t : List U8) : List Item → Prop
  | [] => t = []
  | i :: is =>
    if n ≤ 1 then t = []
    else i.bytes n w <+: t ∧
      Keeps (n - i.cost) (w + (i.bytes n w).length) (t.drop (i.bytes n w).length) is

/-- **What any format stores.** -/
theorem emitAll_keeps {ds : List Directive} {is : List Item} {args rest : List Arg}
    (hm : Matches ds args is rest) : (∀ d ∈ ds, d.Wf) → ∀ (size : U64) (out t : List U8),
      out.length + t.length < 2 ^ 64 →
      ((∃ k, emitAll ds ⟨size, out, args⟩ = .ok k ∧ k.out = out ++ t) ↔
        Keeps size.toNat out.length t is) := by
  induction hm with
  | @nil args =>
    intro _ size out t _
    rw [Keeps]
    constructor
    · rintro ⟨k, hk, hout⟩
      cases hk
      exact List.self_eq_append_right.mp hout
    · rintro rfl
      exact ⟨_, rfl, (List.append_nil out).symm⟩
  | @cons d ds i is args args' rest ht _ ih =>
    intro hwf size out t hlen
    rw [Keeps]
    by_cases h2 : 2 ≤ size.toNat
    · have hi := ht.wf (hwf d List.mem_cons_self)
      rw [emitAll_cons ht hi h2 (by omega), if_neg (by omega), ← i.toNat_sizeAfter (by omega),
        ← List.length_append]
      have ih := ih (fun e he => hwf e (List.mem_cons_of_mem d he)) (i.sizeAfter size)
        (out ++ i.bytes size.toNat out.length)
      generalize i.bytes size.toNat out.length = b at ih ⊢
      constructor
      · rintro ⟨k, hk, hout⟩
        -- no byte that is stored is taken back, so the next ones of `t` are these
        obtain ⟨u, rfl⟩ : b <+: t := by
          have hpre := emitAll_extends hk
          rw [hout] at hpre
          exact (List.prefix_append_right_inj out).mp hpre
        rw [List.length_append] at hlen
        rw [List.drop_left]
        refine ⟨List.prefix_append b u, (ih u ?_).mp ⟨k, hk, ?_⟩⟩
        · rw [List.length_append]
          omega
        · rw [hout, List.append_assoc]
      · rintro ⟨⟨u, rfl⟩, hrest⟩
        rw [List.length_append] at hlen
        rw [List.drop_left] at hrest
        rw [← List.append_assoc]
        refine (ih u ?_).mpr hrest
        rw [List.length_append]
        omega
    · rw [emitAll_stop _ (by omega), if_pos (by omega)]
      constructor
      · rintro ⟨k, hk, hout⟩
        cases hk
        exact List.self_eq_append_right.mp hout
      · rintro rfl
        exact ⟨_, rfl, (List.append_nil out).symm⟩

/-- An item stores no NUL but one of its text. -/
theorem Item.count_bytes_le {i : Item} (hwf : i.Wf) (hnul : ∀ s, i = .str s → ∀ c ∈ s, c ≠ 0)
    (n w : ℕ) : (i.bytes n w).count 0 ≤ i.text.count 0 := by
  have hnone : ∀ {l : List U8}, (∀ c ∈ l, c ≠ 0) → l.count 0 = 0 := fun h =>
    List.count_eq_zero.mpr fun hmem => h 0 hmem rfl
  cases i with
  | num v spec =>
    refine (hnone ?_).trans_le (Nat.zero_le _)
    rw [Item.bytes]
    split
    · exact tailText_ne_nul (two_le_base hwf) (base_le hwf)
    · exact numberIn_ne_nul (two_le_base hwf) (base_le hwf)
  | ptr v spec =>
    exact (hnone (numberIn_ne_nul (two_le_base hwf) (base_le hwf))).trans_le (Nat.zero_le _)
  | str s =>
    refine (hnone fun c hc => ?_).trans_le (Nat.zero_le _)
    exact hnul s rfl c (List.mem_of_mem_take hc)
  | _ => exact le_rfl

theorem Takes.str_ne_nul {d : Directive} {i : Item} {args rest : List Arg}
    (h : Takes d args i rest) : ∀ s, i = .str s → ∀ c ∈ s, c ≠ 0 := by
  intro s hi
  cases h with
  | str hp =>
    cases hi
    exact hp.nul_free
  | _ => cases hi

/-- So a format stores no NUL but those of its text. -/
theorem emitAll_count_le {ds : List Directive} {is : List Item} {args rest : List Arg}
    (hm : Matches ds args is rest) : (∀ d ∈ ds, d.Wf) → ∀ {size : U64} {out : List U8} {k : Sink},
      emitAll ds ⟨size, out, args⟩ = .ok k → k.out.length < 2 ^ 64 →
      k.out.count 0 ≤ out.count 0 + (textAll is).count 0 := by
  induction hm with
  | nil =>
    intro _ size out k hk _
    cases hk
    exact Nat.le_add_right _ _
  | @cons d ds i is args args' rest ht _ ih =>
    intro hwf size out k hk hlen
    have htext : textAll (i :: is) = i.text ++ textAll is := rfl
    have hi := ht.wf (hwf d List.mem_cons_self)
    have hout := (emitAll_extends hk).length_le
    by_cases h2 : 2 ≤ size.toNat
    · rw [emitAll_cons ht hi h2 (by simp only at hout; omega)] at hk
      have hrest := ih (fun e he => hwf e (List.mem_cons_of_mem d he)) hk hlen
      have hitem := Item.count_bytes_le hi ht.str_ne_nul size.toNat out.length
      rw [List.count_append] at hrest
      rw [htext, List.count_append]
      omega
    · rw [emitAll_stop _ (by omega)] at hk
      cases hk
      exact Nat.le_add_right _ _

/-! ## 5. The bounded print -/

/-- What a bounded print of `t` should do: it stores `n` bytes at most, and they start with the
first `n - 1` bytes of `t`, or all of them, and a NUL. -/
def Truncates (n : ℕ) (t : List U8) (r : TM (List U8)) : Prop :=
  ∃ bytes, r = .ok bytes ∧ bytes.length ≤ n ∧ t.take (n - 1) ++ [0] <+: bytes

/-- **When a bounded print goes well.**  In one byte it always does; without invalid directives,
when every directive fits or is cut well; with them, when the bytes of each directive are the next
ones of the text. -/
def Safe (n : ℕ) (is : List Item) : Prop :=
  n = 1 ∨ (invalids is = 0 ∧ Cuts n 0 is) ∨
    (invalids is ≠ 0 ∧ Keeps n 0 ((textAll is).take (n - 1)) is)

section Safe

variable {s : List U8} {ds : List Directive} {is : List Item} {args rest : List Arg} {size : U64}
  {fuel : ℕ}

/-- In one byte only the NUL is stored. -/
theorem vsnprintf_one (h : Scan s ds) (hf : 3 * s.length + 2 ≤ fuel) (h1 : size.toNat = 1) :
    vsnprintf fuel size (s ++ [0]) args = .ok [0] := by
  rw [vsnprintf_eq h hf, emitAll_stop ds (by omega)]
  rfl

/-- Nothing can be stored behind the text, even if it is shorter than the buffer: it would have to
start with a NUL. -/
theorem truncates_iff (h : Scan s ds) (hm : Matches ds args is rest)
    (hf : 3 * s.length + 2 ≤ fuel) (h1 : 1 ≤ size.toNat) :
    Truncates size.toNat (textAll is) (vsnprintf fuel size (s ++ [0]) args) ↔
      ∃ k, emitAll ds ⟨size, [], args⟩ = .ok k ∧ k.out = (textAll is).take (size.toNat - 1) := by
  have hsize := size.isLt
  rw [vsnprintf_eq h hf]
  constructor
  · rintro ⟨bytes, hrun, hlen, hpre⟩
    obtain ⟨k, hk, hbytes⟩ := bind_ok hrun
    cases hbytes
    refine ⟨k, hk, ?_⟩
    have hshort : ((textAll is).take (size.toNat - 1)).length ≤ k.out.length := by
      have := hpre.length_le
      simpa using this
    rw [List.length_append, List.length_singleton] at hlen
    by_cases hlonger : k.out.length ≤ ((textAll is).take (size.toNat - 1)).length
    · have hle : (k.out ++ [0]).length
          ≤ ((textAll is).take (size.toNat - 1) ++ [(0 : U8)]).length := by
        rw [List.length_append, List.length_append]
        omega
      exact (List.append_cancel_right (hpre.eq_of_length_le hle)).symm
    · have hall : (textAll is).take (size.toNat - 1) = textAll is := by
        refine List.take_of_length_le ?_
        rw [List.length_take] at hlonger
        omega
      rw [hall] at hpre hlonger
      have hnul : textAll is ++ [0] <+: k.out := by
        refine List.prefix_of_prefix_length_le hpre (List.prefix_append _ _) ?_
        rw [List.length_append, List.length_singleton]
        omega
      have hcount := emitAll_count_le hm h.wf hk (by omega)
      have hmore := hnul.sublist.count_le 0
      rw [List.count_append, List.count_singleton_self] at hmore
      rw [List.count_nil] at hcount
      omega
  · rintro ⟨k, hk, hout⟩
    refine ⟨k.out ++ [0], by rw [hk]; rfl, ?_, by rw [hout]⟩
    rw [hout, List.length_append, List.length_take]
    simp only [List.length_cons, List.length_nil]
    omega

/-- A print is a bounded one just if it is safe. -/
theorem truncates_iff_safe (h : Scan s ds) (hm : Matches ds args is rest)
    (hf : 3 * s.length + 2 ≤ fuel) (h1 : 1 ≤ size.toNat) :
    Truncates size.toNat (textAll is) (vsnprintf fuel size (s ++ [0]) args) ↔
      Safe size.toNat is := by
  by_cases hone : size.toNat = 1
  · refine iff_of_true ⟨[0], vsnprintf_one h hf hone, by rw [hone]; decide, ?_⟩ (Or.inl hone)
    rw [hone]
    exact List.prefix_rfl
  · have h2 : 2 ≤ size.toNat := by omega
    have hsize := size.isLt
    rw [truncates_iff h hm hf h1, Safe]
    by_cases hinv : invalids is = 0
    · have hcuts := emitAll_cuts hm h.wf hinv size [] h2 (by simp only [List.length_nil]; omega)
      rw [List.nil_append] at hcuts
      simpa [hone, hinv] using hcuts
    · have htake : ((textAll is).take (size.toNat - 1)).length ≤ size.toNat - 1 :=
        List.length_take_le _ _
      have hkeeps := emitAll_keeps hm h.wf size [] ((textAll is).take (size.toNat - 1))
        (by simp only [List.length_nil]; omega)
      simpa [hone, hinv] using hkeeps

end Safe

end RvKernel.Text
