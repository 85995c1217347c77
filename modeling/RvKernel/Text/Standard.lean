/-
# When `vsnprintf` follows the standard reading

`Reading` compares what the standard reading of a format asks for with what `vsnprintf` does.  Here
the comparison is carried over to runs, in buffers that are large enough: where the two agree,
`vsnprintf` takes the arguments that the standard reading takes, and prints its text; where they do
not, there are arguments that match the standard reading, and `vsnprintf` runs out of them or prints
a longer text (`vsnprintf_standard_iff`).
-/
import RvKernel.Text.Reading

namespace RvKernel.Text

/-! ## 1. Sizes and arguments -/

theorem Scan.length_le {s : List U8} {ds : List Directive} (h : Scan s ds) :
    ds.length ≤ s.length := by
  induction h with
  | nil => exact le_rfl
  | lit _ _ _ ih => exact Nat.succ_le_succ ih
  | conv _ _ hlt _ ih =>
    rw [List.length_cons, List.length_cons]
    omega
  | invalid _ _ ih => exact Nat.succ_le_succ ih

theorem Matches.invalids_le {ds : List Directive} {is : List Item} {args rest : List Arg}
    (h : Matches ds args is rest) : invalids is ≤ ds.length := by
  induction h with
  | nil => exact le_rfl
  | @cons d ds i is _ _ _ _ _ ih =>
    have hcost := i.cost_le.2
    have hsum : invalids (i :: is) = i.cost + invalids is := rfl
    rw [hsum, List.length_cons]
    omega

/-- What is asked for and what is done take the same arguments, and print the same text. -/
theorem Matches.of_same {ds : List Directive} {is : List Item} {args rest : List Arg}
    (h : Matches (ds.map Directive.shown) args is rest) :
    ∃ is', Matches ds args is' rest ∧ textAll is' = textAll is := by
  induction ds generalizing args is with
  | nil =>
    cases h
    exact ⟨[], .nil, rfl⟩
  | cons d ds ih =>
    cases h with
    | cons ht h =>
      obtain ⟨is', hm, htext⟩ := ih h
      have hfront : ∀ {i : Item} {is : List Item}, textAll (i :: is) = i.text ++ textAll is := rfl
      cases d with
      | lit c =>
        refine ⟨_, .cons ht hm, ?_⟩
        rw [hfront, hfront, htext]
      | conv state spec =>
        refine ⟨_, .cons ht hm, ?_⟩
        rw [hfront, hfront, htext]
      | invalid =>
        cases ht
        refine ⟨_, .cons .invalid hm, ?_⟩
        rw [hfront, hfront, htext]
        rfl

/-- Only the conversions take arguments.  The rest is a byte of text each. -/
theorem Takes.of_text {d : Directive} {i : Item} {args args' : List Arg} (h : Takes d args i args')
    (hd : d.isConv = false) : args' = args ∧ i.text.length = 1 := by
  cases h with
  | lit => exact ⟨rfl, rfl⟩
  | invalid => exact ⟨rfl, rfl⟩
  | num => cases hd
  | str => cases hd
  | chr => cases hd
  | ptr => cases hd

theorem takes_text {d : Directive} (hd : d.isConv = false) :
    ∃ i, i.text.length = 1 ∧ ∀ args, Takes d args i args := by
  cases d with
  | lit c => exact ⟨.lit c, rfl, fun _ => .lit⟩
  | invalid => exact ⟨.invalid, rfl, fun _ => .invalid⟩
  | conv state spec => cases hd

section Convs

variable {d : Directive} (ds : List Directive)

theorem convs_cons_conv (hd : d.isConv = true) :
    convs (d :: ds) = d :: convs ds ∧ lits (d :: ds) = lits ds :=
  ⟨List.filter_cons_of_pos hd, List.countP_cons_of_neg (by simp [hd])⟩

theorem convs_cons_text (hd : d.isConv = false) :
    convs (d :: ds) = convs ds ∧ lits (d :: ds) = lits ds + 1 :=
  ⟨List.filter_cons_of_neg (by simp [hd]), List.countP_cons_of_pos (by simp [hd])⟩

end Convs

theorem length_textAll_cons (i : Item) (is : List Item) :
    (textAll (i :: is)).length = i.text.length + (textAll is).length :=
  List.length_append

/-- The arguments of a format are those of its conversions... -/
theorem Matches.convs {ds : List Directive} {is : List Item} {args rest : List Arg}
    (h : Matches ds args is rest) : ∃ is', Matches (convs ds) args is' rest ∧
      (textAll is).length = (textAll is').length + lits ds := by
  induction h with
  | nil => exact ⟨[], .nil, rfl⟩
  | @cons d ds i is args args' rest ht _ ih =>
    obtain ⟨is', hm, hlen⟩ := ih
    cases hd : d.isConv with
    | true =>
      obtain ⟨hconvs, hlits⟩ := convs_cons_conv ds hd
      rw [hconvs, hlits]
      refine ⟨i :: is', .cons ht hm, ?_⟩
      rw [length_textAll_cons, length_textAll_cons]
      omega
    | false =>
      obtain ⟨hconvs, hlits⟩ := convs_cons_text ds hd
      obtain ⟨rfl, hi⟩ := ht.of_text hd
      rw [hconvs, hlits]
      refine ⟨is', hm, ?_⟩
      rw [length_textAll_cons]
      omega

/-- ...and the other way round. -/
theorem Matches.of_convs {ds : List Directive} {is : List Item} {args rest : List Arg}
    (h : Matches (Text.convs ds) args is rest) : ∃ is', Matches ds args is' rest ∧
      (textAll is').length = (textAll is).length + lits ds := by
  induction ds generalizing args is with
  | nil => exact ⟨is, h, rfl⟩
  | cons d ds ih =>
    cases hd : d.isConv with
    | true =>
      obtain ⟨hconvs, hlits⟩ := convs_cons_conv ds hd
      rw [hconvs] at h
      rw [hlits]
      cases h with
      | @cons _ _ i is _ _ _ ht hm =>
        obtain ⟨is', hm', hlen⟩ := ih hm
        refine ⟨i :: is', .cons ht hm', ?_⟩
        rw [length_textAll_cons, length_textAll_cons]
        omega
    | false =>
      obtain ⟨hconvs, hlits⟩ := convs_cons_text ds hd
      obtain ⟨i, hi, ht⟩ := takes_text hd
      rw [hconvs] at h
      rw [hlits]
      obtain ⟨is', hm', hlen⟩ := ih h
      refine ⟨i :: is', .cons (ht args) hm', ?_⟩
      rw [length_textAll_cons]
      omega

/-- A conversion is in one of the states that take an argument. -/
def Directive.Valid : Directive → Prop
  | .conv state _ => IsConv state
  | _ => True

theorem Scan.valid {s : List U8} {ds : List Directive} (h : Scan s ds) : ∀ d ∈ ds, d.Valid := by
  induction h with
  | nil => simp
  | lit _ _ _ ih =>
    intro d hd
    rcases List.mem_cons.mp hd with rfl | hd
    · trivial
    · exact ih d hd
  | conv _ hconv _ _ ih =>
    intro d hd
    rcases List.mem_cons.mp hd with rfl | hd
    · exact hconv
    · exact ih d hd
  | invalid _ _ ih =>
    intro d hd
    rcases List.mem_cons.mp hd with rfl | hd
    · trivial
    · exact ih d hd

/-- What a directive takes off the arguments and off the size. -/
theorem emit_args {d : Directive} {k k' : Sink} (hd : d.Valid) (h : d.emit k = .ok k')
    (hsize : 0 < k.size.toNat) :
    (convs [d]).length + k'.args.length = k.args.length ∧ k.size.toNat ≤ k'.size.toNat + 1 := by
  have hword : ∀ {num : U64} {args : List Arg}, vaArgWord k.args = .ok (num, args) →
      k.args.length = args.length + 1 := by
    intro num args harg
    unfold vaArgWord at harg
    split at harg
    · cases harg
      rename_i hargs
      rw [hargs, List.length_cons]
    · cases harg
  cases d with
  | lit c =>
    cases h
    exact ⟨Nat.zero_add _, Nat.le_succ _⟩
  | invalid =>
    cases h
    have hsub := (sub_one_pos hsize).1
    refine ⟨Nat.zero_add _, ?_⟩
    show k.size.toNat ≤ (k.size - 1).toNat + 1
    omega
  | conv state spec =>
    have hone : (convs [.conv state spec]).length = 1 := rfl
    rw [hone]
    rcases hd with rfl | rfl | rfl | rfl
    · obtain ⟨⟨num, args⟩, harg, h⟩ := bind_ok h
      cases h
      exact ⟨by rw [hword harg, Nat.add_comm], Nat.le_succ _⟩
    · obtain ⟨⟨p, args⟩, harg, h⟩ := bind_ok h
      obtain ⟨t, -, h⟩ := bind_ok h
      cases h
      refine ⟨?_, Nat.le_succ _⟩
      unfold vaArgPtr at harg
      split at harg
      · cases harg
        rename_i hargs
        rw [hargs, List.length_cons, Nat.add_comm]
      · cases harg
    · obtain ⟨⟨num, args⟩, harg, h⟩ := bind_ok h
      cases h
      exact ⟨by rw [hword harg, Nat.add_comm], Nat.le_succ _⟩
    · obtain ⟨⟨num, args⟩, harg, h⟩ := bind_ok h
      cases h
      exact ⟨by rw [hword harg, Nat.add_comm], Nat.le_succ _⟩

/-- **A run takes as many arguments as the code finds conversions.** -/
theorem emitAll_args {ds : List Directive} (hds : ∀ d ∈ ds, d.Valid) {k k' : Sink}
    (h : emitAll ds k = .ok k') (hsize : ds.length + 1 < k.size.toNat) :
    (convs ds).length + k'.args.length = k.args.length := by
  induction ds generalizing k with
  | nil =>
    cases h
    exact Nat.zero_add _
  | cons d ds ih =>
    rw [List.length_cons] at hsize
    rw [emitAll, if_pos (one_lt_size (by omega))] at h
    obtain ⟨k₁, h₁, h⟩ := bind_ok h
    obtain ⟨hargs, hle⟩ := emit_args (hds d List.mem_cons_self) h₁ (by omega)
    have hrest := ih (fun e he => hds e (List.mem_cons_of_mem d he)) h (by omega)
    rw [← List.singleton_append, convs_append, List.length_append]
    omega

/-! ## 2. Arguments for every format -/

/-- A zero prints three bytes at most. -/
theorem length_numberText_zero (spec : FmtSpecifier) : (numberText 0 spec).length ≤ 3 := by
  have hneg : isNegative 0 spec = false := by
    rw [isNegative]
    simp
  have hmag : magnitude 0 spec = 0 := by
    rw [magnitude, hneg]
    rfl
  rw [numberText, hneg, hmag, tailText, if_pos rfl]
  simp only [Bool.false_eq_true, if_false]
  split <;> decide

theorem numberTruncate_zero (spec : FmtSpecifier) : numberTruncate 0 spec = 0 := by
  unfold numberTruncate
  split <;> simp

/-- **Every format has arguments that match it**, and with which it prints little. -/
theorem exists_matches {ds : List Directive} (hds : ∀ d ∈ ds, d.Valid) :
    ∃ args is, Matches ds args is [] ∧ args.length = (convs ds).length ∧
      (textAll is).length ≤ 3 * ds.length := by
  induction ds with
  | nil => exact ⟨[], [], .nil, rfl, le_rfl⟩
  | cons d ds ih =>
    obtain ⟨args, is, hm, hargs, htext⟩ := ih fun e he => hds e (List.mem_cons_of_mem d he)
    have hd := hds d List.mem_cons_self
    have hone : ∀ {i : Item} {a : Arg}, Takes d (a :: args) i args → i.text.length ≤ 3 →
        d.isConv = true → ∃ args' is', Matches (d :: ds) args' is' [] ∧
          args'.length = (convs (d :: ds)).length ∧
          (textAll is').length ≤ 3 * (d :: ds).length := by
      intro i a ht hi hconv
      refine ⟨a :: args, i :: is, .cons ht hm, ?_, ?_⟩
      · rw [(convs_cons_conv ds hconv).1, List.length_cons, List.length_cons, hargs]
      · rw [length_textAll_cons, List.length_cons]
        omega
    cases hconv : d.isConv with
    | false =>
      obtain ⟨i, hi, ht⟩ := takes_text hconv
      refine ⟨args, i :: is, .cons (ht args) hm, ?_, ?_⟩
      · rw [(convs_cons_text ds hconv).1, hargs]
      · rw [length_textAll_cons, List.length_cons]
        omega
    | true =>
      cases d with
      | lit c => cases hconv
      | invalid => cases hconv
      | conv state spec =>
        rcases hd with rfl | rfl | rfl | rfl
        · refine hone (.num (v := 0)) ?_ rfl
          rw [numberTruncate_zero]
          exact length_numberText_zero spec
        · exact hone (.str (.nil [])) (Nat.zero_le _) rfl
        · exact hone (.chr (v := 0)) (by decide) rfl
        · exact hone (.ptr (v := 0)) (length_numberText_zero spec) rfl

theorem valid_lits (l : List U8) : ∀ d ∈ l.map Directive.lit, d.Valid := by
  intro d hd
  obtain ⟨c, -, rfl⟩ := List.mem_map.mp hd
  trivial

/-- What a part with a type asks for is valid, and not longer than the part. -/
theorem directives_type (m : Modifiers) (t : U8) (rest : List U8) {part : Part}
    (hpart : part = if (conversion t).1 ≠ .invalid then .conv m t
      else if m.bytes = [] ∧ t = 37 then .percent else .unknown m t rest) :
    (∀ d ∈ part.directives, d.Valid) ∧ part.directives.length ≤ m.bytes.length + 2 := by
  subst hpart
  split
  · rename_i ht
    refine ⟨fun d hd => ?_, Nat.le_add_left 1 _⟩
    rw [List.mem_singleton.mp hd]
    exact (conversion_cases t).resolve_left ht
  · split
    · exact ⟨valid_lits [37], Nat.le_add_left 1 _⟩
    · refine ⟨valid_lits _, ?_⟩
      rw [Part.directives, List.length_map, List.length_cons, List.length_append]
      exact le_rfl

/-- What the standard reading asks for is valid, and not longer than the string. -/
theorem asked_standardIn (n : ℕ) : ∀ s : List U8,
    (∀ d ∈ asked (standardIn n s), d.Valid) ∧ (asked (standardIn n s)).length ≤ s.length := by
  have hcons : ∀ (p : Part) (ps : List Part), asked (p :: ps) = p.directives ++ asked ps :=
    fun p ps => List.flatMap_cons
  induction n with
  | zero =>
    intro s
    exact ⟨by simp [standardIn, asked], Nat.zero_le _⟩
  | succ n ih =>
    intro s
    cases s with
    | nil => exact ⟨by simp [standardIn, asked], le_rfl⟩
    | cons c s =>
      by_cases hc : c = 37
      · subst hc
        rcases hmod : modifiers s with ⟨m, _ | ⟨t, rest⟩⟩
        · obtain ⟨hsplit, -⟩ := modifiers_split hmod
          rw [standardIn_cut hmod, asked_singleton]
          refine ⟨valid_lits _, ?_⟩
          rw [Part.directives, List.length_map, hsplit, List.append_nil]
        · obtain ⟨hsplit, -⟩ := modifiers_split hmod
          obtain ⟨hvalid, hlen⟩ := ih rest
          have hs : (37 :: s : List U8).length = m.bytes.length + 2 + rest.length := by
            rw [hsplit, List.length_cons, List.length_append, List.length_cons]
            omega
          obtain ⟨hpart, hle⟩ := directives_type m t rest rfl
          rw [standardIn_type hmod, hcons, List.length_append, hs]
          simp only [List.mem_append, or_imp, forall_and]
          exact ⟨⟨hpart, hvalid⟩, Nat.add_le_add hle hlen⟩
      · obtain ⟨hvalid, hlen⟩ := ih s
        rw [standardIn_lit hc, hcons]
        refine ⟨?_, Nat.succ_le_succ hlen⟩
        intro d hd
        rcases List.mem_cons.mp hd with rfl | hd
        · trivial
        · exact hvalid d hd

/-! ## 3. Runs -/

/-- **`vsnprintf` follows the standard reading** of a format: for all arguments that match it, in a
buffer that is large enough, it prints the text and leaves the arguments that are not asked for. -/
def FollowsStandard (s : List U8) : Prop :=
  ∀ args is rest, Matches (asked (standard s)) args is rest →
    ∀ (size : U64) (fuel : ℕ), (textAll is).length + s.length + 1 < size.toNat →
      3 * s.length + 2 ≤ fuel →
      vsnprintf fuel size (s ++ [0]) args = .ok (textAll is ++ [0]) ∧
        written (vsLoop fuel ⟨s ++ [0], .none, .zero, [], size, [], args⟩)
          = .ok (textAll is, rest)

section Follows

variable {s : List U8} {ds : List Directive} (hscan : Scan s ds)

include hscan

theorem follows_of_same (hsame : Same (asked (standard s)) ds) : FollowsStandard s := by
  intro args is rest hm size fuel hsize hf
  rw [← hsame] at hm
  obtain ⟨is', hm', htext⟩ := hm.of_same
  have hinv := hm'.invalids_le
  have hlen := hscan.length_le
  obtain ⟨size', hemit⟩ := emitAll_fits hm' hscan.wf size [] (by omega) (by
    rw [htext, List.length_nil]
    omega)
  rw [List.nil_append, htext] at hemit
  constructor
  · rw [vsnprintf_eq hscan hf, hemit]
    rfl
  · exact (vsLoop_scan hscan ⟨size, [], args⟩ .zero [] fuel hf).trans (by rw [hemit]; rfl)

/-- Where the code differs there are arguments that show it. -/
theorem not_follows_of_differs (hdiff : Differs (asked (standard s)) ds)
    (hfit : s.length < 2 ^ 61) : ¬ FollowsStandard s := by
  obtain ⟨hvalid, hasked⟩ := asked_standardIn s.length s
  rw [← standard] at hvalid hasked
  have hlen := hscan.length_le
  obtain ⟨args, is, hm, hargs, htext⟩ := exists_matches hvalid
  have hmax : (BitVec.allOnes 64 : U64).toNat = 2 ^ 64 - 1 := BitVec.toNat_allOnes
  intro hfollows
  obtain ⟨-, hrun⟩ := hfollows args is [] hm (BitVec.allOnes 64) (3 * s.length + 2)
    (by rw [hmax]; omega) le_rfl
  have hloop := vsLoop_scan hscan ⟨BitVec.allOnes 64, [], args⟩ .zero [] (3 * s.length + 2) le_rfl
  rw [Sink.at, hrun] at hloop
  obtain ⟨k, hemit, hk⟩ := bind_ok hloop.symm
  injection hk with hk
  injection hk with hout hleft
  rcases hdiff with hmore | ⟨hconvs, hlits⟩
  · -- the arguments run out
    have htaken := emitAll_args hscan.valid hemit (by rw [hmax]; omega)
    simp only at htaken
    omega
  · -- the text is longer
    obtain ⟨is₀, hm₀, hlen₀⟩ := hm.convs
    rw [← hconvs] at hm₀
    obtain ⟨is', hm', hlen'⟩ := hm₀.of_convs
    have hcount : lits ds ≤ ds.length := List.countP_le_length
    have hinv := hm'.invalids_le
    obtain ⟨size', hemit'⟩ := emitAll_fits hm' hscan.wf (BitVec.allOnes 64) []
      (by rw [hmax]; omega) (by rw [hmax, List.length_nil]; omega)
    rw [hemit'] at hemit
    cases hemit
    have hsame : (textAll is').length = (textAll is).length := congrArg List.length hout
    omega

end Follows

/-- **`vsnprintf` follows the standard reading of a format just if all its parts are plain.**  That
it has to be plain is shown for strings of less than `2 ^ 61` bytes, for which there are buffers
that are large enough. -/
theorem vsnprintf_standard_iff {s : List U8} (hs : ∀ c ∈ s, c ≠ 0) :
    ((∀ p ∈ standard s, p.Plain) → FollowsStandard s) ∧
      (s.length < 2 ^ 61 → FollowsStandard s → ∀ p ∈ standard s, p.Plain) := by
  obtain ⟨ds, hscan, ⟨hplain, hsame⟩ | ⟨hplain, hdiff⟩⟩ := scan_standard s.length s le_rfl hs
  · exact ⟨fun _ => follows_of_same hscan hsame, fun _ _ => hplain⟩
  · exact ⟨fun h => absurd h hplain,
      fun hfit h => absurd h (not_follows_of_differs hscan hdiff hfit)⟩

/-- `"%5z %d"` of 7 prints `"%5z 7"`. -/
theorem vsnprintf_standard_seven : FollowsStandard (ascii "%5z %d") := by
  have hs : ∀ c ∈ ascii "%5z %d", c ≠ 0 := List.all_iff_forall_prop.mp rfl
  have hparts : standard (ascii "%5z %d") = [.unknown ⟨.none, [53], .none⟩ 122 (ascii " %d"),
      .lit 32, .conv ⟨.none, [], .none⟩ 100] := by decide
  refine (vsnprintf_standard_iff hs).1 ?_
  rw [hparts]
  simp [Part.Plain]

/-- `"%%d"` takes an argument, and prints it. -/
theorem vsnprintf_percent_percent :
    standard (ascii "%%d") = [.percent, .lit 100] ∧
      vsnprintf 11 16 (literal "%%d") [.word 5] = .ok (literal "%5") ∧
      vsnprintf 11 16 (literal "%%d") [] = .error .vaArg ∧ ¬ FollowsStandard (ascii "%%d") := by
  refine ⟨by decide, by decide, by decide, fun hfollows => ?_⟩
  have hm : Matches (asked (standard (ascii "%%d"))) [] [.lit 37, .lit 100] [] :=
    .cons .lit (.cons .lit .nil)
  have hrun := (hfollows [] _ [] hm 16 11 (by decide) (by decide)).1
  exact absurd hrun (by decide)

end RvKernel.Text
