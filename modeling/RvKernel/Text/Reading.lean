/-
# Two readings of a format string

A format string is read from left to right: a `%`, the modifiers that follow, and a type.  In the
standard reading (`standard`) `%%` stands for one `%`, any other directive of an unknown type is
text, and the reading goes on behind it.

`vsnprintf` knows no `%%`.  On an unknown type it prints the `%` and goes on just BEHIND that `%`,
so that a `%` in the place of the type starts a directive of its own.  The two readings agree just
if there is no `%%`, and no directive like `%5%` whose last `%` makes a conversion with what follows
(`vsnprintf_standard_iff`).

Where they do not agree, `vsnprintf` finds more conversions than there are, or prints a `%` more.
In both cases it is one block of the string after which the two readings meet again.
-/
import Mathlib.Data.List.TakeWhile
import RvKernel.Text.Pad

namespace RvKernel.Text

/-! ## 1. Modifiers -/

/-- The flags; there is at most one. -/
inductive Flag where
  | none
  | zero
  | hash
  deriving DecidableEq

def Flag.bytes : Flag → List U8
  | .none => []
  | .zero => [48]
  | .hash => [35]

def Flag.code : Flag → U8
  | .none => 0
  | .zero => FMT.zeroPadding
  | .hash => FMT.pre

/-- What may stand between the `%` and the type. -/
structure Modifiers where
  flag : Flag
  width : List U8
  len : Len
  deriving DecidableEq

def Modifiers.bytes (m : Modifiers) : List U8 := m.flag.bytes ++ m.width ++ m.len.bytes

/-- The specifier before the type is known. -/
def Modifiers.spec (m : Modifiers) : FmtSpecifier where
  flags := m.flag.code
  base := 0
  width := BitVec.ofNat 8 (digitsValue 10 m.width)
  length := m.len.code

def readFlag (s : List U8) : Flag :=
  if s.head? = some 48 then .zero else if s.head? = some 35 then .hash else .none

def readLen (s : List U8) : Len :=
  if ascii "ll" <+: s then .ll
  else if ascii "hh" <+: s then .hh
  else if ascii "l" <+: s then .l
  else if ascii "h" <+: s then .h
  else .none

/-- The modifiers at the front of a string, and what is left. -/
def modifiers (s : List U8) : Modifiers × List U8 :=
  let flag := readFlag s
  let s := s.drop flag.bytes.length
  let len := readLen (s.dropWhile isDigit)
  (⟨flag, s.takeWhile isDigit, len⟩, (s.dropWhile isDigit).drop len.bytes.length)

theorem prefix_readFlag_bytes (s : List U8) : (readFlag s).bytes <+: s := by
  unfold readFlag
  split
  · rename_i h
    obtain ⟨t, rfl⟩ := List.head?_eq_some_iff.mp h
    exact ⟨t, rfl⟩
  · split
    · rename_i h
      obtain ⟨t, rfl⟩ := List.head?_eq_some_iff.mp h
      exact ⟨t, rfl⟩
    · exact List.nil_prefix

theorem prefix_readLen_bytes (s : List U8) : (readLen s).bytes <+: s := by
  unfold readLen
  repeat' split
  all_goals first | assumption | exact List.nil_prefix

theorem drop_prefix_length {l s : List U8} (h : l <+: s) : l ++ s.drop l.length = s := by
  obtain ⟨t, rfl⟩ := h
  rw [List.drop_left]

/-- **The modifiers are a part of the string.** -/
theorem modifiers_append (s : List U8) : (modifiers s).1.bytes ++ (modifiers s).2 = s := by
  simp only [modifiers, Modifiers.bytes, List.append_assoc]
  rw [drop_prefix_length (prefix_readLen_bytes _), List.takeWhile_append_dropWhile,
    drop_prefix_length (prefix_readFlag_bytes _)]

/-- ...and hold no `%`. -/
theorem modifiers_bytes_ne (s : List U8) : ∀ c ∈ (modifiers s).1.bytes, c ≠ 37 := by
  have hflag : ∀ flag : Flag, ∀ c ∈ flag.bytes, c ≠ 37 := by
    intro flag
    cases flag <;> exact List.all_iff_forall_prop.mp rfl
  have hlen : ∀ len : Len, ∀ c ∈ len.bytes, c ≠ 37 := by
    intro len
    cases len <;> exact List.all_iff_forall_prop.mp rfl
  intro c hc
  simp only [modifiers, Modifiers.bytes, List.append_assoc, List.mem_append] at hc
  rcases hc with hc | hc | hc
  · exact hflag _ c hc
  · rintro rfl
    exact absurd (List.mem_takeWhile_imp hc) (by decide)
  · exact hlen _ c hc

section Parse

variable {s : List U8}

theorem parseFlag_eq : parseFlag (s ++ [0]) .zero
    = .ok (s.drop (readFlag s).bytes.length ++ [0], { FmtSpecifier.zero with
        flags := (readFlag s).code }) := by
  cases s with
  | nil => rfl
  | cons c t =>
    have hhead : ∀ d : U8, (c :: t).head? = some d ↔ c = d := by simp
    simp only [parseFlag, List.cons_append, deref, ok_bind, List.tail_cons, pure_eq, readFlag,
      hhead]
    split
    · rfl
    · split <;> rfl

/-- The byte behind the digits. -/
theorem dropWhile_digits (s : List U8) :
    ∃ c tail, s.dropWhile isDigit ++ [0] = c :: tail ∧ ¬ IsDecimal c := by
  induction s with
  | nil => exact ⟨0, [], rfl, by decide⟩
  | cons c s ih =>
    by_cases hc : isDigit c = true
    · rw [List.dropWhile_cons_of_pos hc]
      exact ih
    · rw [List.dropWhile_cons_of_neg hc]
      exact ⟨c, s ++ [0], rfl, fun hd => hc ((isDigit_iff c).mpr hd)⟩

theorem parseWidth_eq (spec : FmtSpecifier) : parseWidth (s ++ [0]) spec
    = .ok (s.dropWhile isDigit ++ [0],
        { spec with width := BitVec.ofNat 8 (digitsValue 10 (s.takeWhile isDigit)) }) := by
  obtain ⟨c, tail, htail, hc⟩ := dropWhile_digits s
  have hdigits : ∀ d ∈ s.takeWhile isDigit, IsDecimal d := fun d hd =>
    (isDigit_iff d).mp (List.mem_takeWhile_imp hd)
  have hrun : parseWidthLoop (s ++ [0]) 0
      = .ok (c :: tail, BitVec.ofNat 8 (digitsValue 10 (s.takeWhile isDigit))) := by
    have hloop := run_parseWidthLoop hdigits hc tail 0
    rw [← htail, ← List.append_assoc, List.takeWhile_append_dropWhile] at hloop
    rw [← htail]
    exact hloop
  simp only [parseWidth, hrun, ok_bind, pure_eq, htail]

theorem parseLength_eq (hs : ∀ c ∈ s, c ≠ 0) (spec : FmtSpecifier) : parseLength (s ++ [0]) spec
    = .ok (s.drop (readLen s).bytes.length ++ [0], { spec with length := (readLen s).code }) := by
  have hskip : (s ++ [0]).drop (readLen s).bytes.length
      = s.drop (readLen s).bytes.length ++ [0] :=
    List.drop_append_of_le_length (prefix_readLen_bytes s).length_le
  rw [← hskip, parseLength_branches hs, readLen]
  repeat' split
  all_goals rfl

/-- **What `parse_specifier` does**: it reads the modifiers, and then the type. -/
theorem parseSpecifier_eq (hs : ∀ c ∈ s, c ≠ 0) : parseSpecifier (s ++ [0]) .zero
    = parseType ((modifiers s).2 ++ [0]) (modifiers s).1.spec := by
  have hsub : ∀ c ∈ (s.drop (readFlag s).bytes.length).dropWhile isDigit, c ≠ 0 := fun c hc =>
    hs c (List.mem_of_mem_drop ((List.dropWhile_sublist _).mem hc))
  rw [parseSpecifier, parseFlag_eq, ok_bind]
  simp only [parseWidth_eq, ok_bind, parseLength_eq hsub]
  rfl

end Parse

/-! ## 2. The standard reading -/

/-- A part of a format string. -/
inductive Part where
  | lit (c : U8)
  /-- `%%` -/
  | percent
  | conv (m : Modifiers) (t : U8)
  /-- a directive of an unknown type `t`, and the string behind it -/
  | unknown (m : Modifiers) (t : U8) (rest : List U8)
  /-- a directive that the end of the string cuts off -/
  | cut (m : Modifiers)
  deriving DecidableEq

def standardIn : ℕ → List U8 → List Part
  | 0, _ => []
  | _ + 1, [] => []
  | n + 1, c :: s =>
    if c = 37 then
      match modifiers s with
      | (m, []) => [.cut m]
      | (m, t :: rest) =>
        (if (conversion t).1 ≠ .invalid then .conv m t
          else if m.bytes = [] ∧ t = 37 then .percent
          else .unknown m t rest) :: standardIn n rest
    else .lit c :: standardIn n s

/-- **The standard reading** of a format string. -/
def standard (s : List U8) : List Part := standardIn s.length s

/-- What a part asks for: text, or a conversion. -/
def Part.directives : Part → List Directive
  | .lit c => [.lit c]
  | .percent => [.lit 37]
  | .conv m t => [.conv (conversion t).1 (m.spec.typed t)]
  | .unknown m t _ => (37 :: (m.bytes ++ [t])).map .lit
  | .cut m => (37 :: m.bytes).map .lit

/-- A `%` in front of the string makes a conversion with it. -/
def StartsConv (s : List U8) : Prop :=
  match (modifiers s).2 with
  | [] => False
  | t :: _ => (conversion t).1 ≠ .invalid

instance (s : List U8) : Decidable (StartsConv s) :=
  match h : (modifiers s).2 with
  | [] => .isFalse (by rw [StartsConv, h]; exact id)
  | t :: _ => decidable_of_iff ((conversion t).1 ≠ .invalid) (by rw [StartsConv, h])

/-- **A part that is read by all alike**: not a `%%`, and not a directive that ends with a `%` of
another one. -/
def Part.Plain : Part → Prop
  | .percent => False
  | .unknown _ t rest => t = 37 → ¬ StartsConv rest
  | _ => True

section Standard

variable {s : List U8} {n : ℕ}

theorem standardIn_lit {c : U8} (hc : c ≠ 37) :
    standardIn (n + 1) (c :: s) = .lit c :: standardIn n s := by
  rw [standardIn, if_neg hc]

theorem standardIn_cut {m : Modifiers} (h : modifiers s = (m, [])) :
    standardIn (n + 1) (37 :: s) = [.cut m] := by
  rw [standardIn, if_pos rfl, h]

theorem standardIn_type {m : Modifiers} {t : U8} {rest : List U8}
    (h : modifiers s = (m, t :: rest)) : standardIn (n + 1) (37 :: s)
      = (if (conversion t).1 ≠ .invalid then .conv m t
          else if m.bytes = [] ∧ t = 37 then .percent
          else .unknown m t rest) :: standardIn n rest := by
  rw [standardIn, if_pos rfl, h]

/-- Text is read byte by byte. -/
theorem standardIn_lits {l : List U8} (hl : ∀ c ∈ l, c ≠ 37) :
    standardIn (l.length + n) (l ++ s) = l.map .lit ++ standardIn n s := by
  induction l with
  | nil => rw [List.length_nil, Nat.zero_add, List.nil_append, List.map_nil, List.nil_append]
  | cons c l ih =>
    rw [List.length_cons, Nat.add_right_comm, List.cons_append,
      standardIn_lit (hl c List.mem_cons_self), ih fun d hd => hl d (List.mem_cons_of_mem c hd)]
    rfl

end Standard

/-! ## 3. What the code reads -/

section Code

variable {s : List U8} (hs : ∀ c ∈ s, c ≠ 0) {ds : List Directive}

theorem startsConv_cases : (∃ m t rest, modifiers s = (m, t :: rest) ∧ IsConv (conversion t).1) ∨
    ¬ StartsConv s := by
  unfold StartsConv
  rcases hmod : modifiers s with ⟨m, _ | ⟨t, rest⟩⟩
  · exact Or.inr (by simp)
  · rcases conversion_cases t with hinv | hconv
    · exact Or.inr (by simp [hinv])
    · exact Or.inl ⟨m, t, rest, rfl, hconv⟩

theorem modifiers_split {m : Modifiers} {rest : List U8} (h : modifiers s = (m, rest)) :
    s = m.bytes ++ rest ∧ ∀ c ∈ m.bytes, c ≠ 37 := by
  have happend := modifiers_append s
  have hne := modifiers_bytes_ne s
  rw [h] at happend hne
  exact ⟨happend.symm, hne⟩

include hs in
/-- A conversion is read alike. -/
theorem scan_conv {m : Modifiers} {t : U8} {rest : List U8} (h : modifiers s = (m, t :: rest))
    (ht : IsConv (conversion t).1) (hrest : Scan rest ds) :
    Scan (37 :: s) (.conv (conversion t).1 (m.spec.typed t) :: ds) := by
  have hparse := parseSpecifier_eq hs
  rw [h, List.cons_append, parseType_cons] at hparse
  refine .conv hparse ht ?_ hrest
  rw [(modifiers_split h).1, List.length_append, List.length_cons]
  omega

include hs in
/-- On an unknown type only the `%` is read. -/
theorem scan_invalid (h : ¬ StartsConv s) (hrest : Scan s ds) :
    Scan (37 :: s) (.invalid :: ds) := by
  have hparse := parseSpecifier_eq hs
  unfold StartsConv at h
  rcases hmod : modifiers s with ⟨m, _ | ⟨t, rest⟩⟩
  · rw [hmod, List.nil_append, parseType_cons] at hparse
    exact .invalid hparse hrest
  · rw [hmod] at h
    have hinv : (conversion t).1 = .invalid := not_not.mp h
    rw [hmod, List.cons_append, parseType_cons, hinv] at hparse
    exact .invalid hparse hrest

end Code

/-! ## 4. The two readings -/

def Directive.isConv : Directive → Bool
  | .conv _ _ => true
  | _ => false

/-- The conversions, in their order. -/
def convs (ds : List Directive) : List Directive := ds.filter Directive.isConv

/-- The bytes that are printed for the rest. -/
def lits (ds : List Directive) : ℕ := ds.countP fun d => !d.isConv

/-- An invalid directive shows as a `%`. -/
def Directive.shown : Directive → Directive
  | .invalid => .lit 37
  | d => d

/-- The code does what was asked for. -/
def Same (asked ds : List Directive) : Prop := ds.map Directive.shown = asked

/-- The code finds more conversions, or prints more bytes. -/
def Differs (asked ds : List Directive) : Prop :=
  (convs asked).length < (convs ds).length ∨ convs ds = convs asked ∧ lits asked < lits ds

theorem convs_append (ds ds' : List Directive) : convs (ds ++ ds') = convs ds ++ convs ds' :=
  List.filter_append _ _

theorem lits_append (ds ds' : List Directive) : lits (ds ++ ds') = lits ds + lits ds' :=
  List.countP_append

theorem convs_lits (l : List U8) : convs (l.map .lit) = [] := by
  rw [convs, List.filter_eq_nil_iff]
  intro d hd
  obtain ⟨c, -, rfl⟩ := List.mem_map.mp hd
  simp [Directive.isConv]

theorem Same.counts {asked ds : List Directive} (h : Same asked ds) :
    convs ds = convs asked ∧ lits ds = lits asked := by
  have hshown : ∀ d : Directive, d.shown.isConv = d.isConv := by
    intro d
    cases d <;> rfl
  have hid : ∀ d ∈ convs ds, d.shown = d := by
    intro d hd
    have hconv := (List.mem_filter.mp hd).2
    cases d with
    | invalid => exact absurd hconv (by simp [Directive.isConv])
    | lit c => rfl
    | conv state spec => rfl
  rw [← h]
  constructor
  · rw [convs, convs, List.filter_map]
    have hsame : (Directive.isConv ∘ Directive.shown) = Directive.isConv := funext hshown
    rw [hsame, ← convs, List.map_congr_left hid, List.map_id']
  · rw [lits, lits, List.countP_map]
    congr 1
    funext d
    simp [hshown]

section Append

variable {a a' d d' : List Directive}

theorem Same.append (h : Same a d) (h' : Same a' d') : Same (a ++ a') (d ++ d') := by
  rw [Same, List.map_append, h, h']

theorem same_append_differs (h : Same a d) (h' : Differs a' d') : Differs (a ++ a') (d ++ d') := by
  obtain ⟨hconvs, hlits⟩ := h.counts
  simp only [Differs, convs_append, lits_append, List.length_append, hconvs, hlits,
    List.append_cancel_left_eq]
  rcases h' with h' | ⟨heq, hlt⟩
  · exact Or.inl (by omega)
  · exact Or.inr ⟨heq, by omega⟩

theorem differs_append (h : Differs a d) (h' : Same a' d' ∨ Differs a' d') :
    Differs (a ++ a') (d ++ d') := by
  have htail : (convs a').length < (convs d').length ∨
      convs d' = convs a' ∧ lits a' ≤ lits d' := by
    rcases h' with h' | h' | ⟨heq, hlt⟩
    · obtain ⟨hconvs, hlits⟩ := h'.counts
      exact Or.inr ⟨hconvs, hlits.ge⟩
    · exact Or.inl h'
    · exact Or.inr ⟨heq, hlt.le⟩
  simp only [Differs, convs_append, lits_append, List.length_append]
  rcases h with h | ⟨heq, hlt⟩
  · rcases htail with htail | ⟨htail, -⟩
    · exact Or.inl (by omega)
    · exact Or.inl (by rw [htail]; omega)
  · rcases htail with htail | ⟨htail, hle⟩
    · exact Or.inl (by rw [heq]; omega)
    · exact Or.inr ⟨by rw [heq, htail], by omega⟩

end Append

/-- What the standard reading asks for. -/
def asked (ps : List Part) : List Directive := ps.flatMap Part.directives

/-- **The code does what the standard reading asks for, if all its parts are plain, and else does
not.** -/
def Compare (ps : List Part) (ds : List Directive) : Prop :=
  (∀ p ∈ ps, p.Plain) ∧ Same (asked ps) ds ∨ (¬ ∀ p ∈ ps, p.Plain) ∧ Differs (asked ps) ds

theorem compare_append_same (ps : List Part) (d : List Directive) {qs : List Part}
    {d' : List Directive} (hp : ∀ p ∈ ps, p.Plain) (hd : Same (asked ps) d) (h : Compare qs d') :
    Compare (ps ++ qs) (d ++ d') := by
  have hplain : (∀ p ∈ ps ++ qs, p.Plain) ↔ ∀ p ∈ qs, p.Plain := by
    simp only [List.mem_append, or_imp, forall_and]
    exact and_iff_right hp
  rw [Compare, hplain, asked, List.flatMap_append]
  rcases h with ⟨hq, h⟩ | ⟨hq, h⟩
  · exact Or.inl ⟨hq, hd.append h⟩
  · exact Or.inr ⟨hq, same_append_differs hd h⟩

theorem compare_append_differs (ps : List Part) (d : List Directive) {qs : List Part}
    {d' : List Directive} {p : Part} (hp : p ∈ ps) (hplain : ¬ p.Plain)
    (hd : Differs (asked ps) d) (h : Compare qs d') : Compare (ps ++ qs) (d ++ d') := by
  refine Or.inr ⟨fun hall => hplain (hall p (List.mem_append_left _ hp)), ?_⟩
  rw [asked, List.flatMap_append]
  exact differs_append hd (h.imp And.right And.right)

theorem asked_singleton (p : Part) : asked [p] = p.directives := List.append_nil _

theorem asked_lits (l : List U8) : asked (l.map .lit) = l.map .lit := by
  induction l with
  | nil => rfl
  | cons c l ih => exact congrArg (Directive.lit c :: ·) ih

/-- Text is shown as it is, and so is a `%` in front of it. -/
theorem same_lits (l : List U8) : Same (l.map .lit) (l.map .lit) := by
  rw [Same, List.map_map]
  rfl

theorem same_invalid {a d : List Directive} (h : Same a d) : Same (.lit 37 :: a) (.invalid :: d) :=
  congrArg (Directive.lit 37 :: ·) h

section Blocks

variable {s rest : List U8} {m : Modifiers} {n : ℕ} (hs : ∀ c ∈ s, c ≠ 0)

/-- There is a run of the code over `s` that compares with the standard reading. -/
def Compares (n : ℕ) (s : List U8) : Prop := ∃ ds, Scan s ds ∧ Compare (standardIn n s) ds

include hs in
/-- The end of the string cuts a directive off. -/
theorem compares_cut (h : modifiers s = (m, [])) (hconv : ¬ StartsConv s) :
    Compares (n + 1) (37 :: s) := by
  obtain ⟨hsplit, hne⟩ := modifiers_split h
  rw [List.append_nil] at hsplit
  have hscan : Scan s (s.map .lit) := by
    have hlits := scan_lits (l := s) (fun c hc => ⟨hs c hc, hne c (hsplit ▸ hc)⟩) .nil
    rwa [List.append_nil, List.append_nil] at hlits
  refine ⟨_, scan_invalid hs hconv hscan, ?_⟩
  rw [standardIn_cut h]
  refine Or.inl ⟨by simp [Part.Plain], ?_⟩
  rw [hsplit, asked_singleton]
  exact same_invalid (same_lits _)

include hs in
/-- A directive of an unknown type that is no `%`. -/
theorem compares_unknown {t : U8} (h : modifiers s = (m, t :: rest))
    (ht : (conversion t).1 = .invalid) (h37 : t ≠ 37) (hconv : ¬ StartsConv s)
    (ih : Compares n rest) :
    Compares (n + 1) (37 :: s) := by
  obtain ⟨hsplit, hne⟩ := modifiers_split h
  obtain ⟨ds, hscan, hcmp⟩ := ih
  have htext : ∀ c ∈ m.bytes ++ [t], c ≠ 0 ∧ c ≠ 37 := by
    intro c hc
    refine ⟨hs c ?_, ?_⟩
    · rw [hsplit, List.append_cons]
      exact List.mem_append_left _ hc
    · rcases List.mem_append.mp hc with hc | hc
      · exact hne c hc
      · rw [List.mem_singleton.mp hc]
        exact h37
  have hfront := scan_lits htext hscan
  rw [← List.append_cons, ← hsplit] at hfront
  refine ⟨_, scan_invalid hs hconv hfront, ?_⟩
  rw [standardIn_type h, if_neg (not_not.mpr ht), if_neg fun hc => h37 hc.2]
  refine compare_append_same [.unknown m t rest] (.invalid :: (m.bytes ++ [t]).map .lit) ?_ ?_ hcmp
  · intro p hp
    rw [List.mem_singleton.mp hp]
    exact fun hc => absurd hc h37
  · rw [asked_singleton]
    exact same_invalid (same_lits _)

/-- A directive that ends with a `%`, in the standard reading. -/
theorem standardIn_percent (h : modifiers s = (m, 37 :: rest)) :
    standardIn (n + 1) (37 :: s)
      = (if m.bytes = [] then Part.percent else .unknown m 37 rest) :: standardIn n rest := by
  have hinv : (conversion 37).1 = .invalid := by decide
  rw [standardIn_type h, if_neg (not_not.mpr hinv)]
  simp only [and_true]

include hs in
/-- The code takes that `%` for the start of another directive. -/
theorem scan_percent (h : modifiers s = (m, 37 :: rest)) (hconv : ¬ StartsConv s) {d : Directive}
    {ds : List Directive} (hds : Scan (37 :: rest) (d :: ds)) :
    Scan (37 :: s) ((.invalid :: m.bytes.map .lit) ++ [d] ++ ds) := by
  obtain ⟨hsplit, hne⟩ := modifiers_split h
  have hfront := scan_lits
    (fun c hc => ⟨hs c (hsplit ▸ List.mem_append_left _ hc), hne c hc⟩) hds
  rw [← hsplit, List.append_cons] at hfront
  exact scan_invalid hs hconv hfront

/-- A conversion has no `%` but its first. -/
theorem conv_text_ne {t : U8} (h : modifiers s = (m, t :: rest))
    (ht : IsConv (conversion t).1) : ∀ c ∈ m.bytes ++ [t], c ≠ 37 := by
  have hinv : (conversion 37).1 = .invalid := by decide
  intro c hc
  rcases List.mem_append.mp hc with hc | hc
  · exact (modifiers_split h).2 c hc
  · rw [List.mem_singleton.mp hc]
    rintro rfl
    rw [hinv] at ht
    rcases ht with ht | ht | ht | ht <;> cases ht

include hs in
/-- It finds a conversion there, which is text in the standard reading... -/
theorem compares_percent_conv (h : modifiers s = (m, 37 :: rest)) (hconv : ¬ StartsConv s)
    (hstarts : StartsConv rest) (hrest : ∀ c ∈ rest, c ≠ 0) (hlen : rest.length ≤ n)
    (ih : ∀ k rest', k ≤ n → rest'.length ≤ k → (∀ c ∈ rest', c ≠ 0) → Compares k rest') :
    Compares (n + 1) (37 :: s) := by
  obtain ⟨m', t, rest', h', ht⟩ := startsConv_cases.resolve_right (not_not.mpr hstarts)
  have hsplit' := (modifiers_split h').1
  rw [List.append_cons] at hsplit'
  have hlength : rest.length = (m'.bytes ++ [t]).length + rest'.length := by
    rw [hsplit', List.length_append]
  obtain ⟨k, hk⟩ : ∃ k, n = (m'.bytes ++ [t]).length + k := Nat.exists_eq_add_of_le (by omega)
  obtain ⟨ds, hscan, hcmp⟩ := ih k rest' (by omega) (by omega) fun c hc =>
    hrest c (hsplit' ▸ List.mem_append_right _ hc)
  refine ⟨_, scan_percent hs h hconv (scan_conv hrest h' ht hscan), ?_⟩
  generalize hpart : (if m.bytes = [] then Part.percent else .unknown m 37 rest) = part
  have hparts : standardIn (n + 1) (37 :: s)
      = part :: (m'.bytes ++ [t]).map .lit ++ standardIn k rest' := by
    rw [standardIn_percent h, hpart, hsplit', hk, standardIn_lits (conv_text_ne h' ht)]
    rfl
  rw [hparts]
  refine compare_append_differs (part :: (m'.bytes ++ [t]).map .lit) _ List.mem_cons_self ?_
    (Or.inl ?_) hcmp
  · rw [← hpart]
    split
    · exact id
    · exact fun hc => hc rfl hstarts
  · have hnone : convs (asked (part :: (m'.bytes ++ [t]).map .lit)) = [] := by
      rw [asked, List.flatMap_cons, ← asked, asked_lits, convs_append, convs_lits, ← hpart]
      split
      · rfl
      · exact (List.append_nil _).trans (convs_lits _)
    rw [hnone, convs_append, List.length_append]
    exact Nat.lt_add_left _ Nat.one_pos

include hs in
/-- ...or a second directive that is not valid. -/
theorem compares_percent_invalid (h : modifiers s = (m, 37 :: rest)) (hconv : ¬ StartsConv s)
    (hstarts : ¬ StartsConv rest) (hrest : ∀ c ∈ rest, c ≠ 0) (ih : Compares n rest) :
    Compares (n + 1) (37 :: s) := by
  obtain ⟨ds, hscan, hcmp⟩ := ih
  refine ⟨_, scan_percent hs h hconv (scan_invalid hrest hstarts hscan), ?_⟩
  rw [standardIn_percent h]
  by_cases hm : m.bytes = []
  · rw [if_pos hm, hm]
    exact compare_append_differs [.percent] _ List.mem_cons_self id (Or.inr ⟨rfl, by decide⟩) hcmp
  · rw [if_neg hm]
    refine compare_append_same [.unknown m 37 rest] _ ?_ ?_ hcmp
    · intro p hp
      rw [List.mem_singleton.mp hp]
      exact fun _ => hstarts
    · rw [asked_singleton]
      refine same_invalid ?_
      rw [List.map_append]
      exact (same_lits _).append rfl

end Blocks

/-- **The two readings of every format string compare.** -/
theorem scan_standard (n : ℕ) : ∀ s : List U8, s.length ≤ n → (∀ c ∈ s, c ≠ 0) → Compares n s := by
  induction n using Nat.strong_induction_on with
  | _ n ih =>
    intro s hlen hs
    cases s with
    | nil =>
      refine ⟨[], .nil, Or.inl ?_⟩
      cases n <;> exact ⟨by simp [standardIn], rfl⟩
    | cons c s =>
      obtain ⟨n, rfl⟩ : ∃ k, n = k + 1 := ⟨n - 1, by simp at hlen; omega⟩
      have hlen' : s.length ≤ n := by simpa using hlen
      have hs' : ∀ d ∈ s, d ≠ 0 := fun d hd => hs d (List.mem_cons_of_mem c hd)
      by_cases hc : c = 37
      · subst hc
        -- what is left behind the modifiers and the type is shorter
        have hrest : ∀ {m : Modifiers} {t : U8} {rest : List U8}, modifiers s = (m, t :: rest) →
            rest.length ≤ n ∧ ∀ d ∈ rest, d ≠ 0 := by
          intro m t rest h
          have hsplit := (modifiers_split h).1
          refine ⟨?_, fun d hd => hs' d ?_⟩
          · rw [hsplit, List.length_append, List.length_cons] at hlen'
            omega
          · rw [hsplit]
            exact List.mem_append_right _ (List.mem_cons_of_mem _ hd)
        rcases startsConv_cases (s := s) with ⟨m, t, rest, h, ht⟩ | hconv
        · obtain ⟨hle, hnul⟩ := hrest h
          obtain ⟨ds, hscan, hcmp⟩ := ih n (by omega) rest hle hnul
          have hne : (conversion t).1 ≠ .invalid := by
            rcases ht with ht | ht | ht | ht <;> rw [ht] <;> simp
          refine ⟨_, scan_conv hs' h ht hscan, ?_⟩
          rw [standardIn_type h, if_pos hne]
          exact compare_append_same [.conv m t] [.conv _ _] (by simp [Part.Plain]) rfl hcmp
        · rcases hmod : modifiers s with ⟨m, _ | ⟨t, rest⟩⟩
          · exact compares_cut hs' hmod hconv
          · obtain ⟨hle, hnul⟩ := hrest hmod
            have ht : (conversion t).1 = .invalid := by
              unfold StartsConv at hconv
              rw [hmod] at hconv
              exact not_not.mp hconv
            by_cases h37 : t = 37
            · subst h37
              by_cases hstarts : StartsConv rest
              · exact compares_percent_conv hs' hmod hconv hstarts hnul hle
                  fun k rest' hk => ih k (by omega) rest'
              · exact compares_percent_invalid hs' hmod hconv hstarts hnul
                  (ih n (by omega) rest hle hnul)
            · exact compares_unknown hs' hmod ht h37 hconv (ih n (by omega) rest hle hnul)
      · obtain ⟨ds, hscan, hcmp⟩ := ih n (by omega) s hlen' hs'
        refine ⟨_, .lit (hs c List.mem_cons_self) hc hscan, ?_⟩
        rw [standardIn_lit hc]
        exact compare_append_same [.lit c] [.lit c] (by simp [Part.Plain]) rfl hcmp

end RvKernel.Text
