/-
# The turns of `vsnprintf`

Three facts about every turn of the loop, from the start on.

* It does not read the format string behind its NUL (`step_read`).  An invalid directive at the end
  moves `fmt.str` past the NUL, but the next turn moves it back to `percent + 1`; what links the two
  is `InString`.
* The loop ends (`vsLoop_ends`): three turns a byte are enough.
* The arithmetic of a number is what C defines, but for a conversion WITHOUT a length modifier,
  which shifts by 64 bits, and for the negation of the least `i64` (`number_defined_iff`).
-/
import RvKernel.Lib.Lts
import RvKernel.Text.Render

namespace RvKernel.Text

open Lts

/-! ## 1. Turns -/

/-- The next turn of the loop, if there is one. -/
def Vs.next (_ : Unit) (v : Vs) : Option Vs :=
  if v.state ≠ .done ∧ v.size > 1 then v.step.toOption else none

/-- `vsnprintf` before its first turn. -/
def Vs.start (fmtStr : Ptr) (size : U64) (args : List Arg) : Vs :=
  ⟨fmtStr, .none, .zero, [], size, [], args⟩

/-- The loop comes to the state `v`. -/
def Comes (fmtStr : Ptr) (size : U64) (args : List Arg) (v : Vs) : Prop :=
  Run Vs.next (fun _ _ => True) (Vs.start fmtStr size args) v

/-- **What a turn does** with the string, the state and the specifier. -/
inductive Turn (v v' : Vs) : Prop
  | nul (h : v.state = .none) (h' : v'.state = .done)
  | percent (h : v.state = .none) (hstr : v.str = 37 :: v'.str) (h' : v'.state = .specifier)
      (hspec : v'.spec = .zero) (hpercent : v'.percent = v.str)
  | lit {c : U8} (h : v.state = .none) (hstr : v.str = c :: v'.str) (hc : c ≠ 0)
      (h' : v'.state = .none)
  | parse (h : v.state = .specifier)
      (hparse : parseSpecifier v.str v.spec = .ok (v'.str, v'.state, v'.spec))
      (hpercent : v'.percent = v.percent)
  | conv (h : IsConv v.state) (hstr : v'.str = v.str) (h' : v'.state = .none)
  | back (h : v.state = .invalid) (hstr : v'.str = v.percent.tail) (h' : v'.state = .none)
  | idle (h : v.state = .flag ∨ v.state = .width ∨ v.state = .length ∨ v.state = .done)
      (h' : v'.state = .none)

theorem step_turn {v v' : Vs} (h : v.step = .ok v') : Turn v v' := by
  unfold Vs.step at h
  split at h
  case h_1 hstate =>
    obtain ⟨c, hc, h⟩ := bind_ok h
    obtain ⟨p, hp⟩ : ∃ p, v.str = c :: p := by
      cases hstr : v.str with
      | nil =>
        rw [hstr] at hc
        cases hc
      | cons d p =>
        rw [hstr] at hc
        cases hc
        exact ⟨p, rfl⟩
    rw [hp, List.tail_cons] at h
    split at h
    · cases h
      exact .nul hstate rfl
    · rename_i h0
      split at h
      · rename_i h37
        cases h
        exact .percent hstate (by rw [hp, h37]) rfl rfl hp.symm
      · cases h
        exact .lit hstate hp h0 hstate
  case h_2 hstate =>
    obtain ⟨⟨str, state, spec⟩, hparse, h⟩ := bind_ok h
    cases h
    exact .parse hstate hparse rfl
  case h_3 hstate =>
    obtain ⟨r, -, h⟩ := bind_ok h
    cases h
    exact .conv (Or.inl hstate) rfl rfl
  case h_4 hstate =>
    obtain ⟨r, -, h⟩ := bind_ok h
    obtain ⟨t, -, h⟩ := bind_ok h
    cases h
    exact .conv (Or.inr (Or.inl hstate)) rfl rfl
  case h_5 hstate =>
    obtain ⟨r, -, h⟩ := bind_ok h
    cases h
    exact .conv (Or.inr (Or.inr (Or.inl hstate))) rfl rfl
  case h_6 hstate =>
    obtain ⟨r, -, h⟩ := bind_ok h
    cases h
    exact .conv (Or.inr (Or.inr (Or.inr hstate))) rfl rfl
  case h_7 hstate =>
    cases h
    exact .back hstate rfl rfl
  case h_8 h₁ h₂ h₃ h₄ h₅ h₆ h₇ =>
    cases h
    refine .idle ?_ rfl
    cases hstate : v.state <;> simp_all

/-- **The rule for whole runs**: what every turn keeps holds in every state the loop comes to. -/
theorem Comes.invariant {Inv : Vs → Prop} {p : Ptr} {size : U64} {args : List Arg} {v : Vs}
    (h : Comes p size args v) (h0 : Inv (Vs.start p size args))
    (hturn : ∀ {v v'}, Inv v → v.state ≠ .done → Turn v v' → Inv v') : Inv v := by
  refine Run.invariant h h0 ?_
  intro t u e ht _ hnext
  rw [Vs.next] at hnext
  split at hnext
  · rename_i hgo
    cases hstep : t.step with
    | error f =>
      rw [hstep] at hnext
      cases hnext
    | ok t' =>
      rw [hstep] at hnext
      cases hnext
      exact hturn ht hgo.1 (step_turn hstep)
  · cases hnext

/-- Where the loop stops, with a fault or without. -/
theorem vsLoop_comes {p : Ptr} {size : U64} {args : List Arg} : ∀ (fuel : ℕ) {v : Vs},
    Comes p size args v → ∀ e, vsLoop fuel v = .error e → e ≠ .fuel →
      ∃ w, Comes p size args w ∧ w.step = .error e
  | 0, v, _, e, h, hne => absurd (by cases h; rfl) hne
  | fuel + 1, v, hv, e, h, hne => by
    rw [vsLoop] at h
    split at h
    · rename_i hgo
      cases hstep : v.step with
      | error f =>
        rw [hstep] at h
        cases h
        exact ⟨v, hv, hstep⟩
      | ok v' =>
        rw [hstep, ok_bind] at h
        have hnext : v.next () = some v' := by
          rw [Vs.next, if_pos hgo, hstep]
          rfl
        exact vsLoop_comes fuel (hv.step (e := ()) trivial hnext) e h hne
    · cases h

/-! ## 2. The format string -/

/-- A pointer into a string whose array ends at its NUL. -/
def Ends (p : Ptr) : Prop := ∃ t, p = t ++ [0] ∧ ∀ c ∈ t, c ≠ 0

theorem Ends.tail {c : U8} {p : Ptr} (h : Ends (c :: p)) (hc : c ≠ 0) : Ends p := by
  obtain ⟨t, ht, hnul⟩ := h
  cases t with
  | nil =>
    cases ht
    exact absurd rfl hc
  | cons d t =>
    cases ht
    exact ⟨t, rfl, fun x hx => hnul x (List.mem_cons_of_mem _ hx)⟩

/-- **What a state promises**: that the string it is going to read is there. -/
def InString (v : Vs) : Prop :=
  match v.state with
  | .none => Ends v.str
  | .specifier => Ends v.str ∧ v.spec = .zero ∧ v.percent.tail = v.str
  | .number => Ends v.str
  | .str => Ends v.str
  | .char => Ends v.str
  | .ptr => Ends v.str
  | .invalid => Ends v.percent.tail
  | .done => True
  | .flag => False
  | .width => False
  | .length => False

theorem inString_conv {v : Vs} (h : IsConv v.state) : InString v ↔ Ends v.str := by
  unfold InString
  rcases h with h | h | h | h <;> rw [h]

theorem Turn.inString {v v' : Vs} (hs : InString v) (hdone : v.state ≠ .done) (h : Turn v v') :
    InString v' := by
  cases h with
  | nul _ h' =>
    rw [InString, h']
    trivial
  | percent h hstr h' hspec hpercent =>
    rw [InString, h] at hs
    rw [InString, h']
    refine ⟨?_, hspec, by rw [hpercent, hstr, List.tail_cons]⟩
    rw [hstr] at hs
    exact hs.tail (by decide)
  | lit h hstr hc h' =>
    rw [InString, h] at hs
    rw [InString, h']
    rw [hstr] at hs
    exact hs.tail hc
  | parse h hparse hpercent =>
    rw [InString, h] at hs
    obtain ⟨⟨t, ht, hnul⟩, hspec, htail⟩ := hs
    rw [ht, hspec] at hparse
    rcases parseSpecifier_cases hnul with ⟨p, spec, hp⟩ | ⟨s', state, spec, hp, hconv, -, hs'⟩
    · -- the string is behind the directive, or even behind the NUL, but `percent` is not
      obtain ⟨-, hstate, -⟩ : v'.str = p ∧ v'.state = .invalid ∧ v'.spec = spec := by
        simpa using hparse.symm.trans hp
      rw [InString, hstate, hpercent, htail, ht]
      exact ⟨t, rfl, hnul⟩
    · obtain ⟨hstr, hstate, -⟩ : v'.str = s' ++ [0] ∧ v'.state = state ∧ v'.spec = spec := by
        simpa using hparse.symm.trans hp
      rw [inString_conv (hstate ▸ hconv), hstr]
      exact ⟨s', rfl, hs'⟩
  | conv h hstr h' =>
    rw [inString_conv h] at hs
    rw [InString, h', hstr]
    exact hs
  | back h hstr h' =>
    rw [InString, h] at hs
    rw [InString, h', hstr]
    exact hs
  | idle h _ =>
    rcases h with h | h | h | h
    · rw [InString, h] at hs
      exact hs.elim
    · rw [InString, h] at hs
      exact hs.elim
    · rw [InString, h] at hs
      exact hs.elim
    · exact absurd h hdone

theorem vaArgWord_ne {e : Fault} (he : e ≠ .vaArg) (args : List Arg) :
    vaArgWord args ≠ .error e := by
  unfold vaArgWord
  split
  · simp
  · simpa using he.symm

theorem vaArgPtr_ne {e : Fault} (he : e ≠ .vaArg) (args : List Arg) :
    vaArgPtr args ≠ .error e := by
  unfold vaArgPtr
  split
  · simp
  · simpa using he.symm

/-- **The format string is read inside its array**: only the bytes of an argument can be missing. -/
theorem step_read {v : Vs} (hs : InString v) (h : v.step = .error .read) : v.state = .str := by
  have hword := vaArgWord_ne (e := .read) (by simp) v.args
  unfold Vs.step at h
  unfold InString at hs
  cases hstate : v.state with
  | none =>
    rw [hstate] at h hs
    obtain ⟨t, ht, -⟩ := hs
    have hderef : deref v.str ≠ .error .read := by
      rw [ht]
      cases t <;> simp [deref]
    refine absurd h (bind_ne_error hderef fun c _ => ?_)
    split
    · simp
    · split <;> simp
  | specifier =>
    rw [hstate] at h hs
    obtain ⟨⟨t, ht, hnul⟩, hspec, -⟩ := hs
    have hparse : parseSpecifier v.str v.spec ≠ .error .read := by
      rw [ht, hspec]
      rcases parseSpecifier_cases hnul with ⟨p, spec, hp⟩ | ⟨s', state, spec, hp, -⟩
      · rw [hp]
        simp
      · rw [hp]
        simp
    exact absurd h (bind_ne_error hparse fun r _ => by simp)
  | number =>
    rw [hstate] at h
    exact absurd h (bind_ne_error hword fun r _ => by simp)
  | str => rfl
  | char =>
    rw [hstate] at h
    exact absurd h (bind_ne_error hword fun r _ => by simp)
  | ptr =>
    rw [hstate] at h
    exact absurd h (bind_ne_error hword fun r _ => by simp)
  | invalid =>
    rw [hstate] at h
    cases h
  | done =>
    rw [hstate] at h
    cases h
  | flag =>
    rw [hstate] at hs
    exact hs.elim
  | width =>
    rw [hstate] at hs
    exact hs.elim
  | length =>
    rw [hstate] at hs
    exact hs.elim

theorem Comes.inString {s : List U8} (hs : ∀ c ∈ s, c ≠ 0) {size : U64} {args : List Arg} {v : Vs}
    (h : Comes (s ++ [0]) size args v) : InString v :=
  h.invariant ⟨s, rfl, hs⟩ Turn.inString

/-! ## 3. The end of the loop -/

theorem string_ne_fuel (size : U64) (p : Ptr) : string size p ≠ .error .fuel := by
  induction p generalizing size with
  | nil =>
    rw [string]
    split <;> simp
  | cons c p ih =>
    rw [string]
    split
    · exact bind_ne_error (ih _) fun t _ => by simp
    · simp

theorem emit_ne_fuel (d : Directive) (k : Sink) : d.emit k ≠ .error .fuel := by
  have hword := vaArgWord_ne (e := .fuel) (by simp) k.args
  have hptr := vaArgPtr_ne (e := .fuel) (by simp) k.args
  unfold Directive.emit
  split
  · simp
  · exact bind_ne_error hword fun r _ => by simp
  · exact bind_ne_error hptr fun r _ => bind_ne_error (string_ne_fuel _ _) fun t _ => by simp
  · exact bind_ne_error hword fun r _ => by simp
  · exact bind_ne_error hword fun r _ => by simp
  · simp
  · simp

theorem emitAll_ne_fuel (ds : List Directive) (k : Sink) : emitAll ds k ≠ .error .fuel := by
  induction ds generalizing k with
  | nil => simp [emitAll]
  | cons d ds ih =>
    rw [emitAll]
    split
    · exact bind_ne_error (emit_ne_fuel d k) fun k' _ => ih k'
    · simp

/-- **The loop ends**, whatever the arguments. -/
theorem vsLoop_ends {s : List U8} (hs : ∀ c ∈ s, c ≠ 0) (size : U64) (args : List Arg) {fuel : ℕ}
    (hf : 3 * s.length + 2 ≤ fuel) :
    vsLoop fuel (Vs.start (s ++ [0]) size args) ≠ .error .fuel := by
  obtain ⟨ds, hscan⟩ := exists_scan s.length s le_rfl hs
  have hrun := vsLoop_scan hscan ⟨size, [], args⟩ .zero [] fuel hf
  intro hfuel
  rw [Sink.at, ← Vs.start, hfuel] at hrun
  cases hemit : emitAll ds ⟨size, [], args⟩ with
  | error e =>
    rw [hemit] at hrun
    cases hrun
    exact emitAll_ne_fuel ds _ hemit
  | ok k =>
    rw [hemit] at hrun
    cases hrun

/-- **`vsnprintf` ends, and does not read its format string behind the NUL.**  If the array of the
format string ends with the NUL, the only turn that can read outside an array is that of a `%s`, and
the array is that of its argument. -/
theorem vsnprintf_ends {s : List U8} (hs : ∀ c ∈ s, c ≠ 0) (size : U64) (args : List Arg) :
    (∀ fuel, 3 * s.length + 2 ≤ fuel → vsnprintf fuel size (s ++ [0]) args ≠ .error .fuel) ∧
    (∀ v, Comes (s ++ [0]) size args v → v.step = .error .read → v.state = .str) ∧
    ∀ fuel, vsnprintf fuel size (s ++ [0]) args = .error .read →
      ∃ v, Comes (s ++ [0]) size args v ∧ v.state = .str ∧ v.step = .error .read := by
  have hloop : ∀ fuel e, vsnprintf fuel size (s ++ [0]) args = .error e →
      vsLoop fuel (Vs.start (s ++ [0]) size args) = .error e := by
    intro fuel e h
    rw [vsnprintf, ← Vs.start] at h
    cases hrun : vsLoop fuel (Vs.start (s ++ [0]) size args) with
    | error e' =>
      rw [hrun] at h
      cases h
      rfl
    | ok v =>
      rw [hrun] at h
      cases h
  refine ⟨fun fuel hf h => vsLoop_ends hs size args hf (hloop fuel _ h),
    fun v hv h => step_read (hv.inString hs) h, fun fuel h => ?_⟩
  obtain ⟨v, hv, hstep⟩ := vsLoop_comes fuel .refl .read (hloop fuel _ h) (by simp)
  exact ⟨v, hv, step_read (hv.inString hs) hstep, hstep⟩

/-- A format string that ends inside a directive. -/
theorem vsnprintf_ends_inside : (∀ c ∈ ascii "%12l", c ≠ 0) ∧
    vsnprintf 14 16 (literal "%12l") [] ≠ .error .fuel ∧
    ∀ v, Comes (literal "%12l") 16 [] v → v.step = .error .read → v.state = .str := by
  have hs : ∀ c ∈ ascii "%12l", c ≠ 0 := List.all_iff_forall_prop.mp rfl
  obtain ⟨hends, hread, -⟩ := vsnprintf_ends hs 16 []
  exact ⟨hs, hends 14 (by decide), hread⟩

/-! ## 4. The arithmetic of numbers -/

/-- An operation that C does not define for all its operands. -/
inductive Op where
  /-- a shift of a `u64` or an `i64` -/
  | shift (count : U64)
  /-- `(i64)number * -1` -/
  | negate (number : U64)
  /-- `number % base` or `number / base` -/
  | divide (base : U64)
  /-- `tmp[i]` -/
  | index (i : ℕ)

/-- C defines the operation. -/
def Op.Defined : Op → Prop
  | .shift count => count.toNat < 64
  | .negate number => number ≠ BitVec.intMin 64
  | .divide base => base ≠ 0
  | .index i => i < 64

def AllDefined (ops : List Op) : Prop := ∀ op ∈ ops, op.Defined

theorem allDefined_append {ops ops' : List Op} :
    AllDefined (ops ++ ops') ↔ AllDefined ops ∧ AllDefined ops' := by
  simp only [AllDefined, List.mem_append, or_imp, forall_and]

/-- The operations of `number_truncate`. -/
def truncateOps (spec : FmtSpecifier) : List Op :=
  [.shift (64 - 8 * spec.length.setWidth 64), .shift (64 - 8 * spec.length.setWidth 64)]

/-- The operations of the loop that fills `tmp`, from the index `i` on, followed for some turns. -/
def digitOps (base : U64) : ℕ → ℕ → U64 → List Op
  | 0, _, _ => []
  | turns + 1, i, num =>
    if num > 0 then
      [.divide base, .index i, .divide base] ++ digitOps base turns (i + 1) (num / base)
    else []

/-- The operations of `number`.  A loop that fills `tmp` and goes on is caught in its turn 65. -/
def numberOps (size num : U64) (spec : FmtSpecifier) : List Op :=
  let neg := spec.has FMT.signed && decide (num.toInt < 0) && decide (size > 1)
  (if neg then [.negate num] else []) ++
    digitOps (spec.base.setWidth 64) 65 0 (if neg then -num else num)

/-- The operations of a turn. -/
def Vs.ops (v : Vs) : List Op :=
  match v.state, v.args with
  | .number, .word num :: _ =>
    truncateOps v.spec ++
      numberOps (v.size - BitVec.ofNat 64 v.out.length) (numberTruncate num v.spec) v.spec
  | .ptr, .word num :: _ => numberOps v.size num v.spec
  | _, _ => []

/-- What `parse_specifier` says of a number and of a pointer. -/
def Typed (v : Vs) : Prop :=
  match v.state with
  | .specifier => v.spec = .zero
  | .number => (v.spec.base = 10 ∨ v.spec.base = 16) ∧
      (v.spec.length = 0 ∨ v.spec.length = 1 ∨ v.spec.length = 2 ∨ v.spec.length = 8)
  | .ptr => (v.spec.base = 10 ∨ v.spec.base = 16) ∧ v.spec.has FMT.signed = false
  | _ => True

theorem parseFlag_flags {p p' : Ptr} {spec : FmtSpecifier}
    (h : parseFlag p .zero = .ok (p', spec)) : spec.has FMT.signed = false := by
  obtain ⟨c, -, h⟩ := bind_ok h
  split at h
  · cases h
    decide
  · split at h
    · cases h
      decide
    · cases h
      decide

theorem parseWidth_flags {p p' : Ptr} {spec spec' : FmtSpecifier}
    (h : parseWidth p spec = .ok (p', spec')) : spec'.flags = spec.flags := by
  obtain ⟨r, -, h⟩ := bind_ok h
  cases h
  rfl

theorem parseLength_length {p p' : Ptr} {spec spec' : FmtSpecifier}
    (h : parseLength p spec = .ok (p', spec')) : spec'.flags = spec.flags ∧
      (spec'.length = 0 ∨ spec'.length = 1 ∨ spec'.length = 2 ∨ spec'.length = 8) := by
  obtain ⟨d₁, -, h⟩ := bind_ok h
  split at h
  · cases h
    simp
  · obtain ⟨d₂, -, h⟩ := bind_ok h
    split at h
    · cases h
      simp
    · obtain ⟨d₃, -, h⟩ := bind_ok h
      split at h
      · cases h
        simp
      · obtain ⟨d₄, -, h⟩ := bind_ok h
        split at h
        · cases h
          simp
        · cases h
          simp

theorem conversion_ptr {c : U8} (h : (conversion c).1 = .ptr) : (conversion c).2.1 = FMT.pre := by
  unfold conversion at h ⊢
  repeat' split at h
  all_goals simp_all

/-- A bit that neither of two words has. -/
theorem or_has {a b flag : U8} (ha : (a &&& flag != 0) = false) (hb : (b &&& flag != 0) = false) :
    ((a ||| b) &&& flag != 0) = false := by
  simp only [bne_eq_false_iff_eq] at *
  rw [BitVec.and_or_distrib_right, ha, hb]
  rfl

theorem parseSpecifier_typed {p p' : Ptr} {spec : FmtSpecifier} {state : FmtState}
    (h : parseSpecifier p .zero = .ok (p', state, spec)) : state ≠ .specifier ∧
    (spec.length = 0 ∨ spec.length = 1 ∨ spec.length = 2 ∨ spec.length = 8) ∧
      (state = .ptr → spec.has FMT.signed = false) := by
  obtain ⟨⟨p₁, spec₁⟩, h₁, h⟩ := bind_ok h
  obtain ⟨⟨p₂, spec₂⟩, h₂, h⟩ := bind_ok h
  obtain ⟨⟨p₃, spec₃⟩, h₃, h⟩ := bind_ok h
  obtain ⟨hflags, hlength⟩ := parseLength_length h₃
  simp only at h
  cases p₃ with
  | nil => cases h
  | cons c q =>
    rw [parseType_cons] at h
    cases h
    refine ⟨?_, hlength, fun hptr => ?_⟩
    · rcases conversion_cases c with h | h | h | h | h <;> rw [h] <;> simp
    · rw [FmtSpecifier.has, FmtSpecifier.typed, conversion_ptr hptr, hflags, parseWidth_flags h₂]
      exact or_has (parseFlag_flags h₁) (by decide)

theorem Turn.typed {v v' : Vs} (ht : Typed v) (_ : v.state ≠ .done) (h : Turn v v') : Typed v' := by
  cases h with
  | nul _ h' =>
    rw [Typed, h']
    trivial
  | percent _ _ h' hspec _ =>
    rw [Typed, h']
    exact hspec
  | lit _ _ _ h' =>
    rw [Typed, h']
    trivial
  | parse h hparse _ =>
    rw [Typed, h] at ht
    simp only at ht
    rw [ht] at hparse
    obtain ⟨hne, hlength, hptr⟩ := parseSpecifier_typed hparse
    unfold Typed
    split
    · rename_i hstate
      exact absurd hstate hne
    · rename_i hstate
      exact ⟨parseSpecifier_base hparse (Or.inl hstate), hlength⟩
    · rename_i hstate
      exact ⟨parseSpecifier_base hparse (Or.inr hstate), hptr hstate⟩
    · trivial
  | conv _ _ h' =>
    rw [Typed, h']
    trivial
  | back _ _ h' =>
    rw [Typed, h']
    trivial
  | idle _ h' =>
    rw [Typed, h']
    trivial

theorem digitOps_defined {base : U64} (hb : 2 ≤ base.toNat) : ∀ (room i turns : ℕ) (num : U64),
    num.toNat < base.toNat ^ room → i + room ≤ 64 → AllDefined (digitOps base turns i num)
  | room, i, 0, num, _, _ => by simp [digitOps, AllDefined]
  | 0, i, turns + 1, num, hnum, _ => by
    have hz : ¬ num > 0 := by
      rw [gt_iff_lt, BitVec.lt_def]
      simpa using hnum
    rw [digitOps, if_neg hz]
    exact nofun
  | room + 1, i, turns + 1, num, hnum, hi => by
    have hbase : base ≠ 0 := by
      rintro rfl
      exact absurd hb (by decide)
    have hdiv : (num / base).toNat < base.toNat ^ room := by
      rw [BitVec.toNat_udiv]
      refine Nat.div_lt_of_lt_mul ?_
      rwa [← pow_succ']
    have hturn : AllDefined [.divide base, .index i, .divide base] := by
      intro op hop
      simp only [List.mem_cons, List.not_mem_nil, or_false] at hop
      rcases hop with rfl | rfl | rfl
      · exact hbase
      · exact Nat.lt_of_lt_of_le (by omega : i < i + (room + 1)) hi
      · exact hbase
    rw [digitOps]
    split
    · rw [allDefined_append]
      exact ⟨hturn, digitOps_defined hb room (i + 1) turns _ hdiv (by omega)⟩
    · exact nofun

/-- **A number has at most 64 digits**, and only its negation can overflow. -/
theorem numberOps_defined {spec : FmtSpecifier} (hb : spec.base = 10 ∨ spec.base = 16)
    (size num : U64) : AllDefined (numberOps size num spec) ↔
      ¬ (spec.has FMT.signed = true ∧ num = BitVec.intMin 64 ∧ size > 1) := by
  have hbase : 2 ≤ (spec.base.setWidth 64 : U64).toNat := by
    rcases hb with hb | hb <;> rw [hb] <;> decide
  have hdigits : ∀ m : U64, AllDefined (digitOps (spec.base.setWidth 64) 65 0 m) := fun m =>
    digitOps_defined hbase 64 0 65 m
      (lt_of_lt_of_le m.isLt (Nat.pow_le_pow_left hbase 64)) le_rfl
  rw [numberOps, allDefined_append, and_iff_left (hdigits _)]
  generalize hneg : (spec.has FMT.signed && decide (num.toInt < 0) && decide (size > 1)) = neg
  cases neg with
  | false =>
    refine ⟨fun _ => ?_, fun _ => nofun⟩
    rintro ⟨hs, rfl, hsize⟩
    rw [hs, decide_eq_true hsize] at hneg
    exact absurd hneg (by decide)
  | true =>
    simp only [Bool.and_eq_true, decide_eq_true_eq] at hneg
    obtain ⟨⟨hs, -⟩, hsize⟩ := hneg
    constructor
    · rintro hdef ⟨-, hmin, -⟩
      exact hdef (.negate num) (List.mem_singleton.mpr rfl) hmin
    · intro hno op hop
      rw [List.mem_singleton.mp hop]
      exact fun hmin => hno ⟨hs, hmin, hsize⟩

/-- The conversion that a turn carries out, if it is one of a number, has a length modifier, and is
not that of the least `i64` with its sign. -/
def TurnOk (v : Vs) : Prop :=
  v.state = .number → ∀ num args, v.args = .word num :: args → v.spec.length ≠ 0 ∧
    ¬ (v.spec.has FMT.signed = true ∧ v.spec.length = 8 ∧ num = BitVec.intMin 64 ∧
      v.size - BitVec.ofNat 64 v.out.length > 1)

theorem truncateOps_defined {spec : FmtSpecifier}
    (h : spec.length = 0 ∨ spec.length = 1 ∨ spec.length = 2 ∨ spec.length = 8) :
    AllDefined (truncateOps spec) ↔ spec.length ≠ 0 := by
  rw [truncateOps]
  rcases h with h | h | h | h <;> rw [h] <;> simp [AllDefined, Op.Defined]

/-- A signed number that has been cut is the least `i64` only if nothing was cut. -/
theorem truncate_intMin {spec : FmtSpecifier} (hsigned : spec.has FMT.signed = true)
    (h : spec.length = 1 ∨ spec.length = 2 ∨ spec.length = 8) (num : U64) :
    numberTruncate num spec = BitVec.intMin 64 ↔ spec.length = 8 ∧ num = BitVec.intMin 64 := by
  have hcut : ∀ s, s = 48 ∨ s = 56 → (num <<< s).sshiftRight s ≠ BitVec.intMin 64 := by
    intro s hs heq
    have hint := congrArg BitVec.toInt heq
    rw [toInt_truncate num (Or.inr hs), BitVec.toInt_intMin] at hint
    rcases hs with rfl | rfl
    · simp only [Int.bmod] at hint
      omega
    · simp only [Int.bmod] at hint
      omega
  rw [numberTruncate, hsigned]
  simp only [if_true]
  rcases h with h | h | h
  · rw [h]
    refine ⟨fun heq => absurd heq (hcut 56 (Or.inr rfl)), fun heq => absurd heq.1 (by decide)⟩
  · rw [h]
    refine ⟨fun heq => absurd heq (hcut 48 (Or.inl rfl)), fun heq => absurd heq.1 (by decide)⟩
  · rw [h]
    have hzero : (num <<< 0).sshiftRight 0 = num := by simp
    show (num <<< 0).sshiftRight 0 = BitVec.intMin 64 ↔ _
    rw [hzero]
    simp

/-- **The arithmetic of a number is defined just if it is that of a conversion with a length
modifier, and does not negate the least `i64`.**  In every state that the loop comes to: the base
is never 0, and `tmp` is never too short. -/
theorem number_defined_iff {fmtStr : Ptr} {size : U64} {args : List Arg} {v : Vs}
    (h : Comes fmtStr size args v) : AllDefined v.ops ↔ TurnOk v := by
  have htyped : Typed v := h.invariant trivial Turn.typed
  unfold Vs.ops TurnOk
  unfold Typed at htyped
  split
  · rename_i num rest hstate hargs
    rw [hstate] at htyped
    obtain ⟨hbase, hlength⟩ := htyped
    rw [allDefined_append, truncateOps_defined hlength, numberOps_defined hbase, hargs]
    constructor
    · rintro ⟨hne, hmin⟩ - num' rest' hcons
      cases hcons
      refine ⟨hne, ?_⟩
      rintro ⟨hs, h8, hnum, hroom⟩
      exact hmin ⟨hs, (truncate_intMin hs (Or.inr (Or.inr h8)) num).mpr ⟨h8, hnum⟩, hroom⟩
    · intro hok
      obtain ⟨hne, hmin⟩ := hok hstate num rest rfl
      refine ⟨hne, ?_⟩
      rintro ⟨hs, hnum, hroom⟩
      obtain ⟨h8, hnum⟩ := (truncate_intMin hs (hlength.resolve_left hne) num).mp hnum
      exact hmin ⟨hs, h8, hnum, hroom⟩
  · rename_i num rest hstate hargs
    rw [hstate] at htyped
    obtain ⟨hbase, hsigned⟩ := htyped
    rw [numberOps_defined hbase, hsigned, hstate]
    simp
  · rename_i hno _
    refine ⟨fun _ hstate num rest hargs => ?_, fun _ => nofun⟩
    exact absurd hargs (hno num rest hstate)

/-- The loop comes to the first conversion of a format. -/
theorem comes_first {p p' : Ptr} {state : FmtState} {spec : FmtSpecifier}
    (h : parseSpecifier p .zero = .ok (p', state, spec)) {size : U64} (hsize : size > 1)
    (args : List Arg) :
    Comes (37 :: p) size args ⟨p', state, spec, 37 :: p, size, [], args⟩ := by
  have hpercent : (Vs.start (37 :: p) size args).next ()
      = some ⟨p, .specifier, .zero, 37 :: p, size, [], args⟩ := by
    rw [Vs.next, if_pos ⟨by simp [Vs.start], hsize⟩]
    rfl
  have hparse : Vs.next () ⟨p, .specifier, .zero, 37 :: p, size, [], args⟩
      = some ⟨p', state, spec, 37 :: p, size, [], args⟩ := by
    rw [Vs.next, if_pos ⟨by simp, hsize⟩]
    simp only [Vs.step, h, ok_bind, pure_eq]
    rfl
  exact (Run.refl.step trivial hpercent).step trivial hparse

/-- `%ld` of 5. -/
theorem number_defined_five : ∃ v, Comes (literal "%ld") 16 [.word 5] v ∧ v.state = .number ∧
    AllDefined v.ops := by
  have hparse : parseSpecifier (literal "ld") .zero
      = .ok ([0], .number, ⟨FMT.signed, 10, 0, 8⟩) := by decide
  refine ⟨_, comes_first hparse (by decide) _, rfl,
    (number_defined_iff (comes_first hparse (by decide) _)).mpr ?_⟩
  intro _ num args h
  cases h
  exact ⟨by decide, by decide⟩

/-- `%d` of 5 shifts by 64 bits, and `%ld` of the least `i64` negates it. -/
theorem number_undefined :
    (∃ v, Comes (literal "%d") 16 [.word 5] v ∧ ∃ op ∈ v.ops, ¬ op.Defined) ∧
      ∃ v, Comes (literal "%ld") 16 [.word (BitVec.intMin 64)] v ∧ ∃ op ∈ v.ops, ¬ op.Defined := by
  have hd : parseSpecifier (literal "d") .zero
      = .ok ([0], .number, ⟨FMT.signed, 10, 0, 0⟩) := by decide
  have hld : parseSpecifier (literal "ld") .zero
      = .ok ([0], .number, ⟨FMT.signed, 10, 0, 8⟩) := by decide
  refine ⟨⟨_, comes_first hd (by decide) _, .shift 64, ?_, by simp [Op.Defined]⟩,
    ⟨_, comes_first hld (by decide) _, .negate (BitVec.intMin 64), ?_, by simp [Op.Defined]⟩⟩
  · exact List.mem_cons_self
  · exact List.mem_append_right _ List.mem_cons_self

end RvKernel.Text
