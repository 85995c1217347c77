/-
# Blobs that hold no tree

The loops of `dtb.c` over the words of ANY memory.  A turn of a loop is taken apart here: where it
goes on, if it does (`skipTurn`, `visitTurn`, `scanTurn`).

* Every turn of `dtb_match_node_name_rec` moves on, and a token is read inside the blob or not at
  all.  So the search ends, with a result or at a read outside of the blob
  (`dtb_match_node_name_rec_ends`).
* The two loops over properties round the length up in different types: one in `u32`, the other in
  `size_t`.  They walk over the same records just if no length is within 3 of `2 ^ 32`
  (`property_loops_agree_iff`).
-/
import RvKernel.Dtb.Search

namespace RvKernel.Dtb

open Bytes Text

variable {b : Blob} {p : ℕ}

/-! ## 1. Reads -/

/-- A word is read inside the blob. -/
theorem loadBe_bounds {w : U32} (h : b.loadBe p = .ok w) :
    b.dtb ≤ p ∧ p + 4 ≤ b.dtb + b.bytes.length := by
  obtain ⟨v, hv, -⟩ := bind_ok h
  rw [Blob.load32] at hv
  split at hv
  · rename_i c₀ c₁ c₂ c₃ rest hptr
    have hlen := congrArg List.length hptr
    rw [Blob.ptr] at hlen
    split at hlen
    · simp at hlen
    · simp only [List.length_drop, List.length_cons] at hlen
      omega
  · cases hv

theorem token_bounds {token : StructToken} (h : dtbReadStructToken b p = .ok token) :
    b.dtb ≤ p ∧ p + 4 ≤ b.dtb + b.bytes.length := by
  obtain ⟨w, hw, -⟩ := bind_ok h
  exact loadBe_bounds hw

section Faults

variable {e : Fault} (he : e ≠ .read)

include he

theorem deref_ne (q : Ptr) : deref q ≠ .error e := by
  cases q with
  | nil => simpa [deref] using he.symm
  | cons c q => simp [deref]

theorem loadBe_ne (b : Blob) (p : ℕ) : b.loadBe p ≠ .error e := by
  refine bind_ne_error ?_ fun w _ => by simp
  rw [Blob.load32]
  split
  · simp
  · simpa using he.symm

theorem token_ne (b : Blob) (p : ℕ) : dtbReadStructToken b p ≠ .error e :=
  bind_ne_error (loadBe_ne he b p) fun w _ => by simp

theorem strlen_ne (q : Ptr) : strlen q ≠ .error e := by
  induction q with
  | nil => simpa [strlen] using he.symm
  | cons c q ih =>
    rw [strlen]
    split
    · simp
    · exact bind_ne_error ih fun n _ => by simp

theorem strcmp_ne (q q' : Ptr) : strcmp q q' ≠ .error e := by
  induction q generalizing q' with
  | nil => simpa [strcmp] using he.symm
  | cons c q ih =>
    rw [strcmp]
    split
    · exact bind_ne_error (deref_ne he q') fun d _ => by simp
    · refine bind_ne_error (deref_ne he q') fun d _ => ?_
      split
      · exact bind_ne_error (deref_ne he q') fun d _ => by simp
      · exact ih q'.tail

end Faults

/-! ## 2. Turns -/

/-- A turn of a loop over properties: where it goes on, if it does.  The loops differ in how they
round a length up to words. -/
def propTurn (b : Blob) (words : U32 → ℕ) (ptr : ℕ) : TM (Option ℕ) := do
  match ← dtbReadStructToken b ptr with
  | .prop => do
    let len ← b.loadBe (ptr + 4)
    let _nameoff ← b.loadBe (ptr + 8)
    return some (ptr + 12 + 4 * words len)
  | .nop => return some (ptr + 4)
  | _ => return none

/-- A turn of the first loop of `dtb_match_node_name_rec`, where the length is a `u32`. -/
def skipTurn (b : Blob) : ℕ → TM (Option ℕ) := propTurn b fun len => (divRoundUp len 4).toNat

/-- A turn of the loop of `dtb_node_match_property` over a record that is no match.  There the
length is a `size_t`. -/
def scanTurn (b : Blob) : ℕ → TM (Option ℕ) :=
  propTurn b fun len => (divRoundUp (len.setWidth 64 : U64) 4).toNat

/-- A turn of the second loop of `dtb_match_node_name_rec`: where it goes on and with which result,
or what it returns. -/
def visitTurn (b : Blob) (search : ℕ → TM DtbNodeSearchResult) (ptr : ℕ)
    (result : DtbNodeSearchResult) : TM ((ℕ × DtbNodeSearchResult) ⊕ DtbNodeSearchResult) := do
  match ← dtbReadStructToken b ptr with
  | .nop => return .inl (ptr + 4, result)
  | .beginNode => do
    let result ← search ptr
    return if result.match_ then .inr result else .inl (result.ptr, result)
  | .endNode => return .inr { result with ptr := ptr + 4, match_ := false }
  | _ => return .inr { result with ptr, match_ := false }

/-- The property of a record. -/
def readProp (b : Blob) (ptr : ℕ) : TM (Option DtbProp) := do
  match ← dtbReadStructToken b ptr with
  | .prop => do
    let len ← b.loadBe (ptr + 4)
    let nameoff ← b.loadBe (ptr + 8)
    return some { len := len.setWidth 64, name := (← b.strings) + nameoff.toNat, value := ptr + 12 }
  | _ => return none

/-- **The first loop is made of its turns**... -/
theorem skipProps_succ (n p : ℕ) : skipProps b (n + 1) p =
    skipTurn b p >>= fun next => next.elim (.ok p) (skipProps b n) := by
  rw [skipProps, skipTurn, propTurn]
  cases dtbReadStructToken b p with
  | error e => rfl
  | ok token =>
    cases token with
    | prop =>
      simp only [ok_bind]
      cases b.loadBe (p + 4) with
      | error e => rfl
      | ok len =>
        simp only [ok_bind]
        cases b.loadBe (p + 8) <;> rfl
    | _ => rfl

/-- ...and the second... -/
theorem visitSubnodes_succ (search : ℕ → TM DtbNodeSearchResult) (n p : ℕ)
    (result : DtbNodeSearchResult) : visitSubnodes b search (n + 1) p result =
      visitTurn b search p result >>=
        Sum.elim (fun next => visitSubnodes b search n next.1 next.2) .ok := by
  rw [visitSubnodes, visitTurn]
  cases dtbReadStructToken b p with
  | error e => rfl
  | ok token =>
    cases token with
    | beginNode =>
      simp only [ok_bind]
      cases search p with
      | error e => rfl
      | ok r =>
        simp only [ok_bind, pure_eq]
        cases r.match_ <;> rfl
    | _ => rfl

/-- ...and the scan for a property, which looks at the record before it goes on. -/
theorem matchProps_succ (name : Ptr) (n p : ℕ) : matchProps b name (n + 1) p =
    scanTurn b p >>= fun next => next.elim (.ok {}) fun next => readProp b p >>= fun prop =>
      prop.elim (matchProps b name n next) fun prop => strcmp (b.ptr prop.name) name >>= fun d =>
        if d = 0 then .ok prop else matchProps b name n next := by
  rw [matchProps, scanTurn, propTurn, readProp]
  cases dtbReadStructToken b p with
  | error e => rfl
  | ok token =>
    cases token with
    | prop =>
      simp only [ok_bind]
      cases b.loadBe (p + 4) with
      | error e => rfl
      | ok len =>
        simp only [ok_bind]
        cases b.loadBe (p + 8) with
        | error e => rfl
        | ok nameoff =>
          simp only [ok_bind, pure_eq, Option.elim_some]
          cases b.strings <;> rfl
    | _ => rfl

/-- A turn that goes on moves on, from inside of the blob. -/
theorem propTurn_some {words : U32 → ℕ} {next : ℕ} (h : propTurn b words p = .ok (some next)) :
    p + 4 ≤ next ∧ b.dtb ≤ p ∧ p + 4 ≤ b.dtb + b.bytes.length := by
  obtain ⟨token, htoken, h⟩ := bind_ok h
  refine ⟨?_, token_bounds htoken⟩
  cases token with
  | prop =>
    obtain ⟨len, -, h⟩ := bind_ok h
    obtain ⟨nameoff, -, h⟩ := bind_ok h
    cases h
    omega
  | nop =>
    cases h
    exact le_rfl
  | _ => cases h

/-- The results of a search without a match are behind its start. -/
def Advances (b : Blob) (search : ℕ → TM DtbNodeSearchResult) : Prop :=
  ∀ {p r}, dtbReadStructToken b p = .ok .beginNode → search p = .ok r → r.match_ = false → p < r.ptr

/-- What a turn of the second loop does: it goes on further behind, or returns. -/
theorem visitTurn_cases {search : ℕ → TM DtbNodeSearchResult} (hsearch : Advances b search)
    {result : DtbNodeSearchResult} {out : (ℕ × DtbNodeSearchResult) ⊕ DtbNodeSearchResult}
    (h : visitTurn b search p result = .ok out) :
    (b.dtb ≤ p ∧ p + 4 ≤ b.dtb + b.bytes.length) ∧
      match out with
      | .inl next => p < next.1
      | .inr r => r.match_ = false → p ≤ r.ptr := by
  obtain ⟨token, htoken, h⟩ := bind_ok h
  refine ⟨token_bounds htoken, ?_⟩
  cases token with
  | nop =>
    cases h
    exact Nat.lt_add_of_pos_right (by decide)
  | beginNode =>
    obtain ⟨r, hr, h⟩ := bind_ok h
    cases hm : r.match_ with
    | true =>
      rw [hm] at h
      cases h
      intro hno
      rw [hm] at hno
      cases hno
    | false =>
      rw [hm] at h
      cases h
      exact hsearch htoken hr hm
  | endNode =>
    cases h
    exact fun _ => Nat.le_add_right _ _
  | unknown =>
    cases h
    exact fun _ => le_rfl
  | prop =>
    cases h
    exact fun _ => le_rfl
  | fdtEnd =>
    cases h
    exact fun _ => le_rfl

/-! ## 3. The search moves on -/

theorem skipProps_le {n q : ℕ} (h : skipProps b n p = .ok q) : p ≤ q := by
  induction n generalizing p with
  | zero => cases h
  | succ n ih =>
    rw [skipProps_succ] at h
    obtain ⟨next, hturn, h⟩ := bind_ok h
    cases next with
    | none =>
      cases h
      exact le_rfl
    | some next =>
      have hmove := (propTurn_some hturn).1
      have hrest := ih h
      omega

theorem visitSubnodes_le {search : ℕ → TM DtbNodeSearchResult} (hsearch : Advances b search) {n : ℕ}
    {result r : DtbNodeSearchResult} (h : visitSubnodes b search n p result = .ok r)
    (hm : r.match_ = false) : p ≤ r.ptr := by
  induction n generalizing p result with
  | zero => cases h
  | succ n ih =>
    rw [visitSubnodes_succ] at h
    obtain ⟨out, hturn, h⟩ := bind_ok h
    obtain ⟨-, hmove⟩ := visitTurn_cases hsearch hturn
    cases out with
    | inl next => exact hmove.le.trans (ih h)
    | inr r' =>
      cases h
      exact hmove hm

/-- What is left of the search at a node, once its name has been read. -/
theorem dtbMatchNodeNameRec_cases (name : Ptr) (n : ℕ)
    (h : dtbReadStructToken b p = .ok .beginNode) :
    ∃ x : TM (Bool × ℕ), dtbMatchNodeNameRec b name (n + 1) p = (x >>= fun y =>
        if y.1 then .ok { match_ := true, node := ⟨p + 4, p, 0, y.2⟩, ptr := p + 4 }
        else skipProps b n y.2 >>= fun ptr =>
          visitSubnodes b (dtbMatchNodeNameRec b name n) n ptr {}) ∧
      (∀ y, x = .ok y → p + 4 ≤ y.2) ∧ ∀ e, e ≠ .read → x ≠ .error e := by
  refine ⟨strlen (b.ptr (p + 4)) >>= fun len => strcmp (b.ptr (p + 4)) name >>= fun d =>
    .ok (decide (d = 0), p + 4 + 4 * (divRoundUp (BitVec.ofNat 64 (len + 1)) 4).toNat), ?_, ?_, ?_⟩
  · rw [dtbMatchNodeNameRec, h]
    simp only [ok_bind, pure_eq, ne_eq, not_true_eq_false, if_false]
    cases strlen (b.ptr (p + 4)) with
    | error e => rfl
    | ok len =>
      simp only [ok_bind]
      cases strcmp (b.ptr (p + 4)) name with
      | error e => rfl
      | ok d =>
        simp only [ok_bind, decide_eq_true_eq]
  · intro y hy
    obtain ⟨len, -, hy⟩ := bind_ok hy
    obtain ⟨d, -, hy⟩ := bind_ok hy
    cases hy
    exact Nat.le_add_right _ _
  · intro e he
    exact bind_ne_error (strlen_ne he _) fun len _ =>
      bind_ne_error (strcmp_ne he _ _) fun d _ => by simp

/-- **A search without a match ends behind its start.** -/
theorem dtbMatchNodeNameRec_advances (name : Ptr) (n : ℕ) :
    Advances b (dtbMatchNodeNameRec b name n) := by
  induction n with
  | zero =>
    intro p r _ h
    cases h
  | succ n ih =>
    intro p r htoken h hm
    obtain ⟨x, hx, hstart, -⟩ := dtbMatchNodeNameRec_cases name n htoken
    rw [hx] at h
    obtain ⟨y, hy, h⟩ := bind_ok h
    have hprops := hstart y hy
    split at h
    · cases h
      cases hm
    · obtain ⟨ptr, hskip, h⟩ := bind_ok h
      have hskipped := skipProps_le hskip
      have hvisited := visitSubnodes_le ih h hm
      omega

/-! ## 4. The search ends -/

section Ends

variable {e : Fault} (he : e ≠ .read)

include he

/-- The turns themselves only fault when they read. -/
theorem propTurn_ne (b : Blob) (words : U32 → ℕ) (p : ℕ) : propTurn b words p ≠ .error e := by
  refine bind_ne_error (token_ne he b p) fun token _ => ?_
  cases token with
  | prop =>
    exact bind_ne_error (loadBe_ne he b _) fun len _ =>
      bind_ne_error (loadBe_ne he b _) fun nameoff _ => by simp
  | _ => simp

theorem skipProps_ne {n : ℕ} (hn : 0 < n) (hfuel : b.dtb + b.bytes.length < n + p) :
    skipProps b n p ≠ .error e := by
  induction n generalizing p with
  | zero => exact absurd hn (lt_irrefl 0)
  | succ n ih =>
    rw [skipProps_succ]
    refine bind_ne_error (propTurn_ne he b _ p) fun next hturn => ?_
    cases next with
    | none => simp
    | some next =>
      obtain ⟨hmove, -, hinside⟩ := propTurn_some hturn
      exact ih (by omega) (by omega)

theorem visitSubnodes_ne {search : ℕ → TM DtbNodeSearchResult} (hsearch : Advances b search)
    (hne : ∀ q, p ≤ q → search q ≠ .error e) {n : ℕ} (hn : 0 < n)
    (hfuel : b.dtb + b.bytes.length < n + p) (result : DtbNodeSearchResult) :
    visitSubnodes b search n p result ≠ .error e := by
  induction n generalizing p result with
  | zero => exact absurd hn (lt_irrefl 0)
  | succ n ih =>
    have hturn_ne : visitTurn b search p result ≠ .error e := by
      refine bind_ne_error (token_ne he b p) fun token _ => ?_
      cases token with
      | beginNode => exact bind_ne_error (hne p le_rfl) fun r _ => by simp
      | _ => simp
    rw [visitSubnodes_succ]
    refine bind_ne_error hturn_ne fun out hturn => ?_
    obtain ⟨⟨-, hinside⟩, hmove⟩ := visitTurn_cases hsearch hturn
    cases out with
    | inl next =>
      have hlt : p < next.1 := hmove
      exact ih (fun q hq => hne q (hlt.le.trans hq)) (by omega) (by omega) next.2
    | inr r => simp

theorem dtbMatchNodeNameRec_ne (name : Ptr) {n : ℕ} (hn : 0 < n)
    (hfuel : b.dtb + b.bytes.length + 1 < n + p) : dtbMatchNodeNameRec b name n p ≠ .error e := by
  induction n generalizing p with
  | zero => exact absurd hn (lt_irrefl 0)
  | succ n ih =>
    cases htoken : dtbReadStructToken b p with
    | error e' =>
      rw [dtbMatchNodeNameRec]
      refine bind_ne_error (token_ne he b p) fun token hok => ?_
      rw [htoken] at hok
      cases hok
    | ok token =>
      have hinside := (token_bounds htoken).2
      by_cases hbegin : token = .beginNode
      · subst hbegin
        obtain ⟨x, hx, hstart, hne⟩ := dtbMatchNodeNameRec_cases name n htoken
        rw [hx]
        refine bind_ne_error (hne e he) fun y hy => ?_
        have hprops := hstart y hy
        split
        · simp
        · refine bind_ne_error (skipProps_ne he (by omega) (by omega)) fun ptr hskip => ?_
          have hskipped := skipProps_le hskip
          exact visitSubnodes_ne he (dtbMatchNodeNameRec_advances name n)
            (fun q hq => ih (by omega) (by omega)) (by omega) (by omega) _
      · rw [dtbMatchNodeNameRec, htoken, ok_bind, if_pos hbegin]
        simp

end Ends

/-- **The search ends on every blob**, at every address and for every name: with a result, or at a
read outside of the blob.  A call that starts at an `FDT_BEGIN_NODE` and returns without a match
returns an address behind its start, and every turn of both loops moves on. -/
theorem dtb_match_node_name_rec_ends (b : Blob) (name : Ptr) (ptr : ℕ) :
    (∀ fuel, b.bytes.length + 2 ≤ fuel → dtbMatchNodeNameRec b name fuel ptr = .error .read ∨
      ∃ r, dtbMatchNodeNameRec b name fuel ptr = .ok r) ∧
    (∀ fuel r, dtbReadStructToken b ptr = .ok .beginNode →
      dtbMatchNodeNameRec b name fuel ptr = .ok r → r.match_ = false → ptr < r.ptr) ∧
    (∀ p next, skipTurn b p = .ok (some next) → p < next) ∧
    ∀ fuel p result next, visitTurn b (dtbMatchNodeNameRec b name fuel) p result = .ok (.inl next) →
      p < next.1 := by
  refine ⟨?_, ?_, ?_, ?_⟩
  · intro fuel hfuel
    have hne : ∀ e, e ≠ .read → dtbMatchNodeNameRec b name fuel ptr ≠ .error e := by
      intro e he
      by_cases hbelow : ptr < b.dtb
      · obtain ⟨n, rfl⟩ : ∃ n, fuel = n + 1 := ⟨fuel - 1, by omega⟩
        rw [dtbMatchNodeNameRec]
        refine bind_ne_error (token_ne he b ptr) fun token htoken => ?_
        exact absurd (token_bounds htoken).1 (by omega)
      · exact dtbMatchNodeNameRec_ne he name (by omega) (by omega)
    cases hrun : dtbMatchNodeNameRec b name fuel ptr with
    | ok r => exact Or.inr ⟨r, rfl⟩
    | error e =>
      by_cases he : e = .read
      · exact Or.inl (by rw [he])
      · exact absurd hrun (hne e he)
  · exact fun fuel r htoken h hm => dtbMatchNodeNameRec_advances name fuel htoken h hm
  · intro p next h
    have hmove := (propTurn_some h).1
    omega
  · intro fuel p result next h
    exact (visitTurn_cases (dtbMatchNodeNameRec_advances name fuel) h).2

/-! ## 5. The walk over properties -/

/-- A record of a property with the length field `len` stands at `p`. -/
def IsProp (b : Blob) (p : ℕ) (len : U32) : Prop :=
  dtbReadStructToken b p = .ok .prop ∧ b.loadBe (p + 4) = .ok len ∧
    ∃ nameoff, b.loadBe (p + 8) = .ok nameoff

/-- **Where the next record is**: behind a property, three words and its value further on. -/
def recordTurn (b : Blob) : ℕ → TM (Option ℕ) := propTurn b fun len => (len.toNat + 3) / 4

/-- The address that a loop has come to after `n` turns, if it makes as many. -/
def walk (turn : ℕ → TM (Option ℕ)) : ℕ → ℕ → Option ℕ
  | 0, p => some p
  | n + 1, p =>
    match turn p with
    | .ok (some next) => walk turn n next
    | _ => none

section Rounding

variable (len : U32)

/-- The length in `size_t` is always rounded up... -/
theorem toNat_divRoundUp_size :
    (divRoundUp (len.setWidth 64 : U64) 4).toNat = (len.toNat + 3) / 4 := by
  have hlt := len.isLt
  have hwide : (len.setWidth 64 : U64) = BitVec.ofNat 64 len.toNat := by
    apply BitVec.eq_of_toNat_eq
    rw [BitVec.toNat_setWidth, BitVec.toNat_ofNat]
  rw [hwide, toNat_divRoundUp_four (by decide) (by omega)]

/-- ...and in `u32` just if it does not overflow. -/
theorem toNat_divRoundUp_u32 :
    (divRoundUp len 4).toNat = (len.toNat + 3) / 4 ↔ len.toNat < 2 ^ 32 - 3 := by
  have hlt := len.isLt
  have hwrap : (divRoundUp len 4).toNat = (len.toNat + 3) % 2 ^ 32 / 4 := by
    have hfour : (4 : U32).toNat = 4 := rfl
    rw [divRoundUp, BitVec.toNat_udiv, BitVec.toNat_add, BitVec.toNat_sub, hfour]
    simp only [BitVec.ofNat_eq_ofNat, BitVec.toNat_ofNat]
    omega
  rw [hwrap]
  omega

end Rounding

/-- The scan for a property goes from record to record. -/
theorem scanTurn_eq (b : Blob) : scanTurn b = recordTurn b :=
  congrArg (propTurn b) (funext toNat_divRoundUp_size)

/-- A turn at a property... -/
theorem propTurn_prop (words : U32 → ℕ) {len : U32} (h : IsProp b p len) :
    propTurn b words p = .ok (some (p + 12 + 4 * words len)) := by
  obtain ⟨htoken, hlen, nameoff, hnameoff⟩ := h
  simp only [propTurn, htoken, hlen, hnameoff, ok_bind, pure_eq]

/-- ...and two turns that round its length alike. -/
theorem propTurn_congr {words words' : U32 → ℕ}
    (h : ∀ len, IsProp b p len → words len = words' len) :
    propTurn b words p = propTurn b words' p := by
  rw [propTurn, propTurn]
  cases htoken : dtbReadStructToken b p with
  | error e => rfl
  | ok token =>
    cases token with
    | prop =>
      simp only [ok_bind]
      cases hlen : b.loadBe (p + 4) with
      | error e => rfl
      | ok len =>
        simp only [ok_bind]
        cases hnameoff : b.loadBe (p + 8) with
        | error e => rfl
        | ok nameoff => rw [h len ⟨htoken, hlen, nameoff, hnameoff⟩]
    | _ => rfl

theorem walk_add (turn : ℕ → TM (Option ℕ)) (m n p : ℕ) :
    walk turn (m + n) p = walk turn m p >>= walk turn n := by
  induction m generalizing p with
  | zero => rw [Nat.zero_add]; rfl
  | succ m ih =>
    rw [Nat.add_right_comm, walk, walk]
    split
    · exact ih _
    · rfl

/-- **Both loops over properties go from record to record just if no length overflows**: for the
records that follow each other in memory from `ptr` on.  The loops are those of
`dtb_match_node_name_rec` and of `dtb_node_match_property`, turn by turn. -/
theorem property_loops_agree_iff (b : Blob) (ptr : ℕ) :
    (∀ n p, skipProps b (n + 1) p =
      skipTurn b p >>= fun next => next.elim (.ok p) (skipProps b n)) ∧
    (∀ name n p, matchProps b name (n + 1) p =
      scanTurn b p >>= fun next => next.elim (.ok {}) fun next => readProp b p >>= fun prop =>
        prop.elim (matchProps b name n next) fun prop => strcmp (b.ptr prop.name) name >>= fun d =>
          if d = 0 then .ok prop else matchProps b name n next) ∧
    ((∀ n, walk (skipTurn b) n ptr = walk (recordTurn b) n ptr ∧
      walk (scanTurn b) n ptr = walk (recordTurn b) n ptr) ↔
    ∀ n p len, walk (recordTurn b) n ptr = some p → IsProp b p len →
      len.toNat < 2 ^ 32 - 3) := by
  refine ⟨skipProps_succ, matchProps_succ, ?_⟩
  constructor
  · intro h n p len hp hprop
    have hnext := (h (n + 1)).1
    rw [walk_add, walk_add, (h n).1, hp] at hnext
    simp only [Option.bind_eq_bind, Option.bind_some, walk, skipTurn, recordTurn,
      propTurn_prop _ hprop] at hnext
    rw [← toNat_divRoundUp_u32]
    injection hnext with hnext
    omega
  · intro h n
    refine ⟨?_, by rw [scanTurn_eq]⟩
    induction n with
    | zero => rfl
    | succ n ih =>
      rw [walk_add, walk_add, ih]
      cases hp : walk (recordTurn b) n ptr with
      | none => rfl
      | some p =>
        have hturn : skipTurn b p = recordTurn b p := propTurn_congr fun len hprop =>
          (toNat_divRoundUp_u32 len).mpr (h n p len hp hprop)
        simp only [Option.bind_eq_bind, Option.bind_some, walk, hturn]

/-- A property whose length field is `2 ^ 32 - 1`, and an `FDT_END_NODE` behind its header. -/
def longBlob : Blob where
  dtb := 0x82200000
  bytes := be32 3 ++ (be32 0xffffffff ++ (be32 0 ++ be32 2))
  dtb_pos := sampleBlob.dtb_pos
  fits := by decide

/-- The loop of the search goes on behind the header, that of the scan `2 ^ 32` bytes further. -/
theorem property_loops_differ :
    walk (skipTurn longBlob) 1 0x82200000 = some 0x8220000c ∧
      walk (scanTurn longBlob) 1 0x82200000 = some 0x18220000c ∧
      walk (skipTurn longBlob) 1 0x82200000 ≠ walk (recordTurn longBlob) 1 0x82200000 := by
  refine ⟨by decide, by decide, by decide⟩

end RvKernel.Dtb
