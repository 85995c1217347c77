/-
# What an exception is reported as (`handle_exception`)

The report is four lines, three of them with a register as a `%d`.  Without a length modifier that
is the whole register, signed, and no digit is cut off.  So nothing is lost: what is sent determines
the three registers (`exception_report_iff`), even though an address of the upper half is sent as a
negative number.
-/
import RvKernel.Console.Log
import RvKernel.Trap.Interrupted

namespace RvKernel.Log

open Effect Text
open Interrupted (Report)

/-! ## 1. The lines -/

/-- The format of a line with one register behind its label. -/
def labelled (label : List U8) : Ptr := label ++ ascii "%d\n" ++ [0]

/-- The calls of `error` in `handle_exception`, for what it has read. -/
def errorLines (r : Report) : LM Unit := do
  printk LOG.err (literal "Uncaught Exception\n") []
  printk LOG.err (labelled (ascii "scause: ")) [.word r.scause]
  printk LOG.err (labelled (ascii "stval: ")) [.word r.stval]
  printk LOG.err (labelled (ascii "sepc: ")) [.word r.sepc]

/-- A register as a signed number. -/
def signedText (v : U64) : List U8 := refNumber false .none .d v

/-- The report that is sent. -/
def reportText (r : Report) : List U8 :=
  ascii "Uncaught Exception\n" ++ (ascii "scause: " ++ (signedText r.scause ++ ascii "\n")) ++
    (ascii "stval: " ++ (signedText r.stval ++ ascii "\n")) ++
    (ascii "sepc: " ++ (signedText r.sepc ++ ascii "\n"))

/-! ## 2. A signed number -/

theorem value_signed (v : U64) : Conv.value .d .none v = v.toInt :=
  (BitVec.toInt_eq_toNat_bmod v).symm

theorem signedText_eq (v : U64) :
    signedText v = (if v.toInt < 0 then ascii "-" else []) ++ numeral false 10 v.toInt.natAbs := by
  have hhash : (if (false : Bool) = true then ascii "0x" else []) = ([] : List U8) := rfl
  rw [signedText, refNumber, value_signed, hhash, List.append_nil]
  rfl

/-- It has at most twenty bytes, a sign and decimal digits. -/
theorem length_signedText (v : U64) : (signedText v).length ≤ 20 := by
  have hlt := v.isLt
  have hnum : (numeral false 10 v.toInt.natAbs).length ≤ 19 := by
    refine length_numeral_le (by decide) ?_
    have hle := BitVec.toInt_le (x := v)
    have hge := BitVec.le_toInt v
    omega
  rw [signedText_eq, List.length_append]
  split
  · have hsign : (ascii "-").length = 1 := rfl
    omega
  · rw [List.length_nil]
    omega

theorem mem_signedText {v : U64} {c : U8} (h : c ∈ signedText v) : c = 45 ∨ IsDecimal c := by
  rw [signedText_eq] at h
  rcases List.mem_append.mp h with h | h
  · split at h
    · exact Or.inl (List.mem_singleton.mp h)
    · cases h
  · exact Or.inr (isDecimal_numeral _ c h)

/-- **A register can be read back from its text.** -/
theorem signedText_inj {v w : U64} (h : signedText v = signedText w) : v = w := by
  rw [signedText_eq, signedText_eq] at h
  have hminus : ∀ {n : ℕ} {t : List U8}, ascii "-" ++ t ≠ numeral false 10 n := by
    intro n t heq
    have hdec := isDecimal_numeral n 45 (heq ▸ List.mem_cons_self)
    exact absurd hdec (by decide)
  have hread : ∀ {m n : ℕ}, numeral false 10 m = numeral false 10 n → m = n := by
    intro m n heq
    rw [← digitsValue_numeral m, heq, digitsValue_numeral]
  refine BitVec.eq_of_toInt_eq ?_
  by_cases hv : v.toInt < 0 <;> by_cases hw : w.toInt < 0
  · rw [if_pos hv, if_pos hw, List.append_cancel_left_eq] at h
    have := hread h
    omega
  · rw [if_pos hv, if_neg hw] at h
    exact absurd h hminus
  · rw [if_neg hv, if_pos hw] at h
    exact absurd h.symm hminus
  · rw [if_neg hv, if_neg hw] at h
    have := hread h
    omega

/-- A register ends where its line does. -/
theorem signedText_line_inj {v w : U64} {a b : List U8}
    (h : signedText v ++ 10 :: a = signedText w ++ 10 :: b) : v = w ∧ a = b := by
  have hline : ∀ u, ∀ c ∈ signedText u, decide (c ≠ 10) = true := by
    intro u c hc
    rcases mem_signedText hc with rfl | hdec
    · decide
    · refine decide_eq_true ?_
      rintro rfl
      exact absurd hdec (by decide)
  have htake := congrArg (List.takeWhile fun c => decide (c ≠ 10)) h
  rw [List.takeWhile_append_of_pos (hline v), List.takeWhile_append_of_pos (hline w),
    List.takeWhile_cons_of_neg (by decide), List.takeWhile_cons_of_neg (by decide),
    List.append_nil, List.append_nil] at htake
  rw [htake] at h
  exact ⟨signedText_inj htake, (List.cons.inj (List.append_cancel_left h)).2⟩

/-! ## 3. The report -/

theorem prints_labelled {label : List U8} (hl : ∀ c ∈ label, c ≠ 0 ∧ c ≠ 37)
    (hlen : label.length ≤ 64) (v : U64) :
    Prints (labelled label) [.word v] (label ++ (signedText v ++ ascii "\n")) := by
  have hok : ∀ p ∈ [Piece.num false .none .d, .lit 10], p.Ok := by
    simp [Piece.Ok]
  have hren : Renders [.num false .none .d, .lit 10] [.word v] (signedText v ++ ascii "\n") :=
    .num (.lit .nil)
  have hlength := length_signedText v
  have hend : (ascii "\n").length = 1 := rfl
  have hprints := prints_renders (ok_lits hl hok) (renders_lits label hren)
  rw [spell_lits] at hprints
  refine hprints ?_ ?_
  · intro c hc
    rcases List.mem_append.mp hc with hc | hc
    · exact (hl c hc).1
    · rcases List.mem_append.mp hc with hc | hc
      · rintro rfl
        rcases mem_signedText hc with h | h
        · exact absurd h (by decide)
        · exact absurd h (by decide)
      · rw [List.mem_singleton.mp hc]
        decide
  · rw [List.length_append, List.length_append, printkBufSize]
    omega

theorem plain_head : ∀ c ∈ ascii "Uncaught Exception\n", c ≠ 0 ∧ c ≠ 37 :=
  List.all_iff_forall_prop.mp rfl

theorem plain_scause : ∀ c ∈ ascii "scause: ", c ≠ 0 ∧ c ≠ 37 := List.all_iff_forall_prop.mp rfl

theorem plain_stval : ∀ c ∈ ascii "stval: ", c ≠ 0 ∧ c ≠ 37 := List.all_iff_forall_prop.mp rfl

theorem plain_sepc : ∀ c ∈ ascii "sepc: ", c ≠ 0 ∧ c ≠ 37 := List.all_iff_forall_prop.mp rfl

/-- The registers can be read back, one line after the other. -/
theorem reportText_inj {r r' : Report} (h : reportText r = reportText r') : r = r' := by
  have hend : ascii "\n" = [10] := rfl
  simp only [reportText, hend, List.append_assoc, List.append_cancel_left_eq, List.cons_append,
    List.nil_append] at h
  obtain ⟨hcause, h⟩ := signedText_line_inj h
  rw [List.append_cancel_left_eq] at h
  obtain ⟨hval, h⟩ := signedText_line_inj h
  rw [List.append_cancel_left_eq] at h
  obtain ⟨hepc, -⟩ := signedText_line_inj h
  cases r
  cases r'
  cases hcause
  cases hval
  cases hepc
  rfl

/-- **The report says it all.**  Where errors are heard, `handle_exception` sends the four lines and
returns, and two reports are the same just if the three registers are. -/
theorem exception_report_iff {s : State} (hl : LOG.err ≤ s.currentLevel)
    (hbuf : s.gBuf.length = printkBufSize) :
    (∀ r, ∃ buf, buf.length = printkBufSize ∧ errorLines r s = .ok () (s.sent buf (reportText r))) ∧
      ∀ r r', reportText r = reportText r' ↔ r = r' := by
  constructor
  · intro r
    have hhead : Prints (literal "Uncaught Exception\n") [] (ascii "Uncaught Exception\n") :=
      prints_lits plain_head (by decide)
    obtain ⟨b₁, hb₁, h₁⟩ := run_vprintk hl hbuf hhead
    obtain ⟨b₂, hb₂, h₂⟩ := run_vprintk (s := s.sent b₁ _) hl hb₁
      (prints_labelled plain_scause (by decide) r.scause)
    rw [sent_sent] at h₂
    obtain ⟨b₃, hb₃, h₃⟩ := run_vprintk (s := s.sent b₂ _) hl hb₂
      (prints_labelled plain_stval (by decide) r.stval)
    rw [sent_sent] at h₃
    obtain ⟨b₄, hb₄, h₄⟩ := run_vprintk (s := s.sent b₃ _) hl hb₃
      (prints_labelled plain_sepc (by decide) r.sepc)
    rw [sent_sent] at h₄
    refine ⟨b₄, hb₄, ?_⟩
    rw [errorLines, printk, printk, printk, printk, bind_of_ok h₁, bind_of_ok h₂, bind_of_ok h₃, h₄]
    rfl
  · exact fun r r' => ⟨reportText_inj, congrArg reportText⟩

/-- A fetch from the kernel's half of the address space, and how it is reported. -/
theorem exception_report_iff_upper :
    (∃ buf, errorLines ⟨12, 0, 0xffffffc080200000⟩ State.boot = .ok () (State.boot.sent buf
      (ascii "Uncaught Exception\nscause: 12\nstval: 0\nsepc: -272728326144\n"))) ∧
      reportText ⟨12, 0, 0xffffffc080200000⟩ ≠ reportText ⟨12, 0, 0x80200000⟩ := by
  obtain ⟨hsends, hinj⟩ := exception_report_iff (s := State.boot) (by decide) List.length_replicate
  have htext : reportText ⟨12, 0, 0xffffffc080200000⟩
      = ascii "Uncaught Exception\nscause: 12\nstval: 0\nsepc: -272728326144\n" := by decide
  obtain ⟨buf, -, hrun⟩ := hsends ⟨12, 0, 0xffffffc080200000⟩
  rw [htext] at hrun
  exact ⟨⟨buf, hrun⟩, fun h => absurd ((hinj _ _).mp h) (by decide)⟩

end RvKernel.Log
